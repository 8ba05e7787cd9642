import Coffer.Proofs.Keyring.Failure
import Coffer.Proofs.Keyring.Link
import Mathlib.Data.List.Forall2
/-
  A session with a holder refines the holder's store.

  A call on a channel and the same call at the store `Agree` when both give the same secret, or failures
  of one kind.  On an idle link each call agrees with the store and leaves the link idle
  (`Channel.call_idle`), so all calls of a session do (`Channel.refines_the_store`).
-/
namespace Coffer.Keyring

variable {s : Store} {d : Disk} {r : Request} {cuts : Nat → Nat} {config : ChannelConfig}

/-! ## Calls -/

/-- A request that a channel sends: it is a ping, or its location has from 1 to 65535 bytes. -/
def Request.Fits (r : Request) : Prop :=
  r.op = .ping ∨ 0 < (utf8 r.location).length ∧ (utf8 r.location).length ≤ 65535

theorem Request.Fits.length_le (h : r.Fits) : (utf8 r.location).length ≤ 65535 := by
  obtain hping | ⟨-, hlong⟩ := h
  · cases r <;> cases hping
    decide
  · exact hlong

/-- A request that is made of a store directly. -/
def Store.call (s : Store) (r : Request) (d : Disk) : Except SecretError (Option Passphrase) × Disk :=
  match r with
  | .read location => ((s.read location d).map some, d)
  | .update location secret =>
    let (outcome, d) := s.write location secret d
    (outcome.map fun _ => none, d)
  | .ping => (.ok none, d)

/-- Requests one after the other. -/
def Store.calls (s : Store) : List Request → Disk → List (Except SecretError (Option Passphrase)) × Disk
  | [], d => ([], d)
  | r :: requests, d =>
    let (answer, d) := s.call r d
    let (answers, d) := s.calls requests d
    (answer :: answers, d)

namespace Channel

variable {N : Type} [Network N]

/-- A request that is made of a channel. -/
def call (c : Channel) (r : Request) (n : N) : Except SecretError (Option Passphrase) × Channel × N :=
  match r with
  | .read location =>
    let (outcome, c, n) := c.read location n
    (outcome.map some, c, n)
  | .update location secret =>
    let (outcome, c, n) := c.update location secret n
    (outcome.map fun _ => none, c, n)
  | .ping =>
    let (outcome, c, n) := c.ping n
    (outcome.map fun _ => none, c, n)

/-- Requests one after the other. -/
def calls (c : Channel) :
    List Request → N → List (Except SecretError (Option Passphrase)) × Channel × N
  | [], n => ([], c, n)
  | r :: requests, n =>
    let (answer, c, n) := c.call r n
    let (answers, c, n) := c.calls requests n
    (answer :: answers, c, n)

end Channel

/-- The same success, or failures of the same kind. -/
inductive Agree : Except SecretError (Option Passphrase) → Except SecretError (Option Passphrase) → Prop
  | ok (secret? : Option Passphrase) : Agree (.ok secret?) (.ok secret?)
  | error {e e' : SecretError} : e.ctorIdx = e'.ctorIdx → Agree (.error e) (.error e')

theorem Agree.eq_ok {answer : Except SecretError (Option Passphrase)} {secret? : Option Passphrase}
    (h : Agree answer (.ok secret?)) : answer = .ok secret? := by
  cases h
  rfl

namespace Channel

/-! ## Calls on a link -/

/-- A channel has nothing against a location that fits. -/
theorem checkLocation_of_fits (h : r.Fits) (hop : r.op ≠ .ping) : checkLocation r.location = .ok () := by
  obtain hping | ⟨hsome, hlong⟩ := h
  · exact absurd hping hop
  · have hempty : ¬ r.location.isEmpty = true := by
      intro hempty
      rw [String.isEmpty_iff] at hempty
      rw [hempty] at hsome
      exact absurd hsome (by decide)
    rw [checkLocation, if_neg hempty, if_neg (by rw [← length_utf8, maxLocation]; omega)]

theorem secretOf_failed {status : Status} (h : status ≠ .ok) (location : String) :
    secretOf location (.failed status) = .error (.ofStatus location status) := by
  cases status <;> first | rfl | exact absurd rfl h

theorem successOf_failed {status : Status} (h : status ≠ .ok) (location : String) :
    successOf location (.failed status) = .error (.ofStatus location status) := if_neg h

/-- **A call comes to what it comes to at the store.** -/
theorem call_idle (config : ChannelConfig) (hfits : r.Fits) (s : Store) (d : Disk)
    (past : List Request) (cuts : Nat → Nat) :
    ∃ answer cuts', (connected config).call r (Link.idle s d past cuts) =
      (answer, connected config, Link.idle s (s.call r d).2 (past ++ [r]) cuts') ∧
      Agree answer (s.call r d).1 := by
  obtain ⟨cuts', hrequest⟩ := request_idle config hfits.length_le s d past cuts
  cases r with
  | ping =>
    simp only [call, ping, hrequest]
    exact ⟨_, _, rfl, .ok none⟩
  | read location =>
    have hlocation : checkLocation location = .ok () := checkLocation_of_fits hfits (by simp [Request.op])
    simp only [call, read, hlocation, hrequest, Store.answer, Store.call]
    rcases hread : s.read location d with e | secret
    · refine ⟨_, _, rfl, ?_⟩
      show Agree ((secretOf location (.failed e.status)).map some) (.error e)
      rw [secretOf_failed e.status_ne_ok]
      exact .error (Store.echoed_read hread location)
    · exact ⟨_, _, rfl, .ok (some secret)⟩
  | update location secret =>
    have hlocation : checkLocation location = .ok () := checkLocation_of_fits hfits (by simp [Request.op])
    have hmode : (connected config).mode ≠ .readOnly := by
      show AccessMode.readWrite ≠ .readOnly
      decide
    simp only [call, update, if_neg hmode, hlocation, hrequest, Store.answer, Store.call]
    rcases hwrite : s.write location secret d with ⟨e | ⟨⟩, d'⟩
    · refine ⟨_, _, rfl, ?_⟩
      show Agree ((successOf location (.failed e.status)).map fun _ => none) (.error e)
      rw [successOf_failed e.status_ne_ok]
      exact .error (Store.echoed_write (by rw [hwrite]) location)
    · exact ⟨_, _, rfl, .ok none⟩

/-- Calls one after the other. -/
theorem calls_idle (config : ChannelConfig) {requests : List Request} (hfits : ∀ r ∈ requests, r.Fits)
    (s : Store) (d : Disk) (past : List Request) (cuts : Nat → Nat) :
    ∃ answers cuts', (connected config).calls requests (Link.idle s d past cuts) =
      (answers, connected config, Link.idle s (s.calls requests d).2 (past ++ requests) cuts') ∧
      List.Forall₂ Agree answers (s.calls requests d).1 := by
  induction requests generalizing d past cuts with
  | nil => exact ⟨[], cuts, by rw [List.append_nil]; rfl, .nil⟩
  | cons r requests ih =>
    obtain ⟨answer, cuts', hcall, hagree⟩ :=
      call_idle config (hfits r List.mem_cons_self) s d past cuts
    obtain ⟨answers, cuts'', hcalls, hagrees⟩ :=
      ih (fun r hr => hfits r (List.mem_cons_of_mem _ hr)) (s.call r d).2 (past ++ [r]) cuts'
    refine ⟨answer :: answers, cuts'', ?_, .cons hagree hagrees⟩
    simp only [calls, hcall, hcalls, Store.calls, List.append_assoc, List.singleton_append]

/-! ## A session -/

section

variable {N : Type} [Network N] {session : Session} {n n' : N}

theorem request_connect (h : connect config n = (.ok session, n')) (r : Request) :
    (new config .readWrite).request r n = request ⟨config, .readWrite, some session⟩ r n' := by
  simp only [request, new, h]

/-- The first call of a channel is the one that connects. -/
theorem call_connect (hfits : r.Fits) (h : connect config n = (.ok session, n')) :
    (new config .readWrite).call r n = call ⟨config, .readWrite, some session⟩ r n' := by
  have hrequest := request_connect h r
  cases r with
  | ping => simp only [call, ping, hrequest]
  | read location =>
    have hlocation : checkLocation location = .ok () := checkLocation_of_fits hfits (by simp [Request.op])
    simp only [call, read, hlocation, hrequest]
  | update location secret =>
    have hlocation : checkLocation location = .ok () := checkLocation_of_fits hfits (by simp [Request.op])
    have hmode : AccessMode.readWrite ≠ .readOnly := by decide
    rw [new] at hrequest ⊢
    simp only [call, update, if_neg hmode, hlocation, hrequest]

end

/-- What a connection on a link is. -/
theorem connect_unused {session : Session} {link : Link}
    (h : connect config (Link.unused s d cuts) = (.ok session, link)) :
    session = ⟨0, .fresh, []⟩ ∧ link = Link.idle s d [] cuts := by
  unfold connect at h
  split at h
  · cases h
  · rename_i count _
    rcases hcount : count.toNat with _ | left <;> rw [hcount] at h <;> cases h
    exact ⟨rfl, rfl⟩

/-- **A session with a holder refines the holder's store.**  After any calls on a new channel, however
    its streams are cut, the next call's response is the one that the holder gave, and both it and all
    calls before it come to what they come to at the store itself.  The connection is still the first
    one, the holder has heard just those requests, and nothing is left on either side. -/
theorem refines_the_store {session : Session} {link : Link}
    (hconnect : connect config (Link.unused s d cuts) = (.ok session, link))
    {requests : List Request} (hfits : ∀ q ∈ requests, q.Fits) (hlast : r.Fits) :
    let (answers, c, n) := (new config .readWrite).calls requests (Link.unused s d cuts)
    let (expected, d) := s.calls requests d
    let (answer, c', n') := c.call r n
    List.Forall₂ Agree answers expected ∧
    (c.request r n).1 = .ok (s.answer r d).1 ∧
    Agree answer (s.call r d).1 ∧
    c' = connected config ∧
    ∃ cuts', n' = Link.idle s (s.call r d).2 (requests ++ [r]) cuts' := by
  -- The first call connects, be it the last one or not; from there on the link is idle between calls.
  obtain ⟨rfl, rfl⟩ := connect_unused hconnect
  have hlong : (utf8 r.location).length ≤ maxLocation := hlast.length_le
  rcases requests with _ | ⟨q, requests⟩
  · obtain ⟨answer, cuts', hcall, hagree⟩ := call_idle config hlast s d [] cuts
    obtain ⟨_, hrequest⟩ := request_idle config hlong s d [] cuts
    simp only [calls, Store.calls, call_connect hlast hconnect, request_connect hconnect]
    rw [← connected, hcall, hrequest]
    exact ⟨.nil, rfl, hagree, rfl, cuts', rfl⟩
  · obtain ⟨answers, cuts', hcalls, hagrees⟩ := calls_idle config hfits s d [] cuts
    obtain ⟨answer, cuts'', hcall, hagree⟩ :=
      call_idle config hlast s (s.calls (q :: requests) d).2 (q :: requests) cuts'
    obtain ⟨_, hrequest⟩ :=
      request_idle config hlong s (s.calls (q :: requests) d).2 (q :: requests) cuts'
    have hfirst : (new config .readWrite).calls (q :: requests) (Link.unused s d cuts) =
        (connected config).calls (q :: requests) (Link.idle s d [] cuts) := by
      rw [calls, calls, call_connect (hfits q List.mem_cons_self) hconnect, connected]
    rw [hfirst, hcalls]
    simp only [List.nil_append, hcall, hrequest]
    exact ⟨hagrees, trivial, hagree, trivial, cuts'', rfl⟩

/-- A disk on which one secret is stored. -/
def oneSecret : Disk :=
  ⟨[], [(["s"], .directory 0o755), (["s", "k"], .file 0)], [⟨0o600, [97, 98, 99, 10]⟩], 0⟩

/-- A ping, an update that the store refuses and a reading, on streams that arrive byte by byte. -/
theorem refines_the_store_of_three :
    let config : ChannelConfig := ⟨"/run/holder", 0, 0, 0⟩
    let secret : Passphrase := ⟨[97, 98, 99], rfl⟩
    let (_, c, n) := (new config .readWrite).calls [.ping, .update "../k" secret]
      (Link.unused ⟨"/s"⟩ oneSecret fun _ => 0)
    (c.call (.read "k") n).1 = .ok (some secret) := by
  have hfits : ∀ q ∈ [Request.ping, .update "../k" ⟨[97, 98, 99], rfl⟩], q.Fits := by
    intro q hq
    rcases List.mem_cons.mp hq with rfl | hq
    · exact .inl rfl
    · cases List.mem_singleton.mp hq
      exact .inr (by decide)
  have hconnect : connect ⟨"/run/holder", 0, 0, 0⟩ (Link.unused ⟨"/s"⟩ oneSecret fun _ => 0) =
      (.ok ⟨0, .fresh, []⟩, Link.idle ⟨"/s"⟩ oneSecret [] fun _ => 0) := rfl
  have hlast : (Request.read "k").Fits := .inr (by decide)
  obtain ⟨-, -, hagree, -⟩ := refines_the_store hconnect hfits hlast
  exact Agree.eq_ok hagree

end Channel

end Coffer.Keyring
