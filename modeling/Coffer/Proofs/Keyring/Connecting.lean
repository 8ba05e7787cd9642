import Coffer.Proofs.Keyring.Watched
/-
  Attempts to connect.

  A `Logged` network is any network together with a log of what was done to connect: the attempts, with
  what each of them came to, and the pauses.  The log is only written, so connecting comes to the same
  with it and without (`Logged.projects_net`).

  One run of attempts is some that were worth another one and a last one that decided, with a pause
  between any two (`attempts_spec`).  How many there may be is a 32-bit word, one more than the number of
  retries; for the greatest number of retries there is no such word (`attemptCount?_spec`), and then no
  attempt is made, however the program was built.
-/
namespace Coffer.Keyring

/-! ## A log of attempts -/

/-- What one attempt to connect comes to when it fails in a way that may pass. -/
def Attempt.mayPass : Attempt → Bool
  | connected _ => false
  | refused e => Channel.isTransient e
  | timedOut => true

/-- Why an attempt has failed. -/
def Attempt.reason : Attempt → String
  | connected _ => ""
  | refused e => e.message
  | timedOut => "connect timed out"

/-- Something that is done to connect. -/
inductive Effort
  | attempted (a : Attempt)
  /-- So many milliseconds pass. -/
  | paused (t : Nat)

/-- Attempts one after the other, with a pause between any two. -/
def Effort.inTurn (backoff : Nat) (made : List Attempt) : List Effort :=
  (made.map attempted).intersperse (paused backoff)

theorem Effort.inTurn_cons (backoff : Nat) (a : Attempt) {later : List Attempt} (h : later ≠ []) :
    inTurn backoff (a :: later) = .attempted a :: .paused backoff :: inTurn backoff later := by
  rcases later with _ | ⟨b, later⟩
  · exact absurd rfl h
  · rfl

/-- A network, and what was done to connect on it, the first thing first. -/
structure Logged (N : Type) where
  net : N
  efforts : List Effort

namespace Logged

variable {N : Type} [Network N]

instance : Network (Logged N) where
  overflow := Network.overflow N
  connect socket l :=
    let (a, n) := Network.connect socket l.net
    (a, ⟨n, l.efforts ++ [.attempted a]⟩)
  send line b l := (Network.send line b l.net).map id fun n => { l with net := n }
  receive line l := (Network.receive line l.net).map id fun n => { l with net := n }
  hangUp line l := { l with net := Network.hangUp line l.net }
  pause t l := ⟨Network.pause t l.net, l.efforts ++ [.paused t]⟩

/-- **Keeping a log changes nothing on the network.** -/
theorem projects_net : Projects (net : Logged N → N) where
  overflow := rfl
  connect _ _ := rfl
  send _ _ _ := rfl
  receive _ _ := rfl
  hangUp _ _ := rfl
  pause _ _ := rfl

/-- What is in the log after an attempt and a pause. -/
theorem efforts_of_connect {socket : String} {a : Attempt} {l l' : Logged N}
    (h : Network.connect socket l = (a, l')) : l'.efforts = l.efforts ++ [.attempted a] := by
  cases h
  rfl

theorem efforts_pause (t : Nat) (l : Logged N) :
    (Network.pause t l).efforts = l.efforts ++ [.paused t] := rfl

end Logged

/-! ## The attempts of one call -/

namespace Channel

variable {N : Type} [Network N]

/-- What connecting comes to when the attempt that decides is the one with this number. -/
def outcomeOf (c : ChannelConfig) (number : Nat) : Attempt → Except SecretError Session
  | .connected line => .ok ⟨line, .fresh, []⟩
  | a => .error (unavailable c number a.reason)

/-- An attempt that may pass is followed by the next one, after a pause if there is one. -/
theorem attempts_of_mayPass {c : ChannelConfig} {last : Option String} {attempt left : Nat} {n n' : N}
    {a : Attempt} (hconnect : Network.connect c.socket n = (a, n')) (ha : a.mayPass = true) :
    attempts c last attempt (left + 1) n = attempts c (some a.reason) (attempt + 1) left
      (if left = 0 then n' else Network.pause c.backoff n') := by
  rw [attempts, hconnect]
  rcases a with line | e | _
  · cases ha
  · exact if_pos ha
  · rfl

/-- Any other attempt decides. -/
theorem attempts_of_decisive {c : ChannelConfig} {last : Option String} {attempt left : Nat} {n n' : N}
    {a : Attempt} (hconnect : Network.connect c.socket n = (a, n')) (ha : a.mayPass = false) :
    attempts c last attempt (left + 1) n = (outcomeOf c attempt a, n') := by
  rw [attempts, hconnect]
  rcases a with line | e | _
  · rfl
  · exact if_neg (Bool.eq_false_iff.mp ha)
  · cases ha

/-- What a run of attempts leaves, when it begins with the attempt number `attempt` and may make `left`
    more than one: some that may pass, and one that decides. -/
structure Ran (c : ChannelConfig) (attempt left : Nat) (l : Logged N) (tried : List Attempt)
    (final : Attempt) (result : Except SecretError Session × Logged N) : Prop where
  efforts_eq : result.2.efforts = l.efforts ++ Effort.inTurn c.backoff (tried ++ [final])
  tried_mayPass : ∀ a ∈ tried, a.mayPass = true
  length_le : tried.length ≤ left
  /-- It does not give up early. -/
  exhausted : final.mayPass = true → tried.length = left
  outcome_eq : result.1 = outcomeOf c (attempt + tried.length) final

/-- **A run of attempts,** by induction on how many more there may be. -/
theorem attempts_spec (c : ChannelConfig) (last : Option String) (attempt left : Nat) (l : Logged N) :
    ∃ tried final, Ran c attempt left l tried final (attempts c last attempt (left + 1) l) := by
  induction left generalizing last attempt l with
  | zero =>
    rcases hconnect : Network.connect c.socket l with ⟨a, l'⟩
    have hefforts := Logged.efforts_of_connect hconnect
    -- No other attempt is left, so this one decides in either case; no pause follows it.
    refine ⟨[], a, ?_⟩
    rcases ha : a.mayPass with _ | _
    · rw [attempts_of_decisive hconnect ha]
      exact ⟨hefforts, fun _ h => absurd h List.not_mem_nil, Nat.le_refl _, fun _ => rfl, rfl⟩
    · rw [attempts_of_mayPass hconnect ha]
      refine ⟨hefforts, fun _ h => absurd h List.not_mem_nil, Nat.le_refl _, fun _ => rfl, ?_⟩
      rcases a with line | e | _
      · cases ha
      · rfl
      · rfl
  | succ left ih =>
    rcases hconnect : Network.connect c.socket l with ⟨a, l'⟩
    have hefforts := Logged.efforts_of_connect hconnect
    rcases ha : a.mayPass with _ | _
    · refine ⟨[], a, ?_⟩
      rw [attempts_of_decisive hconnect ha]
      refine ⟨hefforts, fun _ h => absurd h List.not_mem_nil, Nat.zero_le _, fun h => ?_, rfl⟩
      cases ha.symm.trans h
    · rw [attempts_of_mayPass hconnect ha, if_neg (Nat.succ_ne_zero left)]
      obtain ⟨tried, final, hran⟩ := ih (some a.reason) (attempt + 1) (Network.pause c.backoff l')
      refine ⟨a :: tried, final, ?_, ?_, Nat.succ_le_succ hran.length_le,
        fun h => congrArg (· + 1) (hran.exhausted h), ?_⟩
      · rw [hran.efforts_eq, Logged.efforts_pause, hefforts, List.cons_append,
          Effort.inTurn_cons _ _ (List.append_ne_nil_of_right_ne_nil _ (List.cons_ne_nil _ _))]
        simp only [List.append_assoc, List.cons_append, List.nil_append]
      · intro b hb
        rcases List.mem_cons.mp hb with rfl | hb
        · exact ha
        · exact hran.tried_mayPass b hb
      · rw [hran.outcome_eq, List.length_cons]
        congr 1
        omega

/-! ## How many attempts there may be -/

end Channel

/-- A sum that fits is what it is, however the program was built. -/
theorem Overflow.add?_of_lt (o : Overflow) {a b : UInt32} (h : a.toNat + b.toNat < UInt32.size) :
    o.add? a b = some (a + b) ∧ (a + b).toNat = a.toNat + b.toNat := by
  refine ⟨?_, by rw [UInt32.toNat_add, Nat.mod_eq_of_lt h]⟩
  cases o with
  | stops => exact if_pos h
  | wraps => rfl

namespace Channel

variable {N : Type} [Network N]

/-- **There may be one attempt more than retries,** unless that is no 32-bit word: then the program stops,
    or there may be none. -/
theorem attemptCount?_spec (o : Overflow) (c : ChannelConfig) :
    (c.retries ≠ 4294967295 →
      ∃ count, attemptCount? o c = some count ∧ count.toNat = c.retries.toNat + 1) ∧
    (c.retries = 4294967295 → (o = .stops → attemptCount? o c = none) ∧
      (o = .wraps → attemptCount? o c = some 0)) := by
  constructor
  · intro hroom
    have hlt := c.retries.toNat_lt
    have hne : c.retries.toNat ≠ 4294967295 := fun heq => hroom (UInt32.toNat_inj.mp heq)
    have hfits : c.retries.toNat + (1 : UInt32).toNat < UInt32.size := by
      show c.retries.toNat + 1 < 4294967296
      omega
    obtain ⟨hsum, hcount⟩ := o.add?_of_lt hfits
    exact ⟨_, hsum, hcount⟩
  · intro hgreatest
    rw [attemptCount?, hgreatest]
    exact ⟨fun h => by rw [h]; rfl, fun h => by rw [h]; rfl⟩

/-- **A channel connects in a bounded number of attempts, and counts them.**  Unless the number of retries
    is the greatest there is, the attempts that may be made are counted as they are, it makes at least one
    attempt and at most one more than there are retries; all but the last one have failed in a way that
    may pass; the last one has not, or nothing is left to try; there is a pause between any two and no
    other; and if there is no connection in the end, the failure tells the number of attempts made and why
    the last one failed.  With the greatest number of retries no attempt is made: the program stops, or it
    tells of no attempts, as it was built. -/
theorem connecting_counts_its_attempts (c : ChannelConfig) (l : Logged N) :
    (connect c l).map id Logged.net = connect c l.net ∧
    (c.retries ≠ 4294967295 →
      (∃ count, attemptCount? (Network.overflow N) c = some count ∧
        count.toNat = c.retries.toNat + 1) ∧
      ∃ (tried : List Attempt) (final : Attempt),
        (connect c l).2.efforts = l.efforts ++ Effort.inTurn c.backoff (tried ++ [final]) ∧
        (∀ a ∈ tried, a.mayPass = true) ∧
        (tried ++ [final]).length ≤ c.retries.toNat + 1 ∧
        (final.mayPass = true → (tried ++ [final]).length = c.retries.toNat + 1) ∧
        (∀ line, final = .connected line → (connect c l).1 = .ok ⟨line, .fresh, []⟩) ∧
        ((∀ line, final ≠ .connected line) →
          (connect c l).1 = .error (.unavailable c.socket (tried ++ [final]).length final.reason))) ∧
    (c.retries = 4294967295 →
      (Network.overflow N = .stops → connect c l = (.error .overflowed, l)) ∧
      (Network.overflow N = .wraps →
        connect c l = (.error (.unavailable c.socket 0 "no connection attempts made"), l))) := by
  obtain ⟨hcounts, hover⟩ := attemptCount?_spec (Network.overflow N) c
  have hbuilt : Network.overflow (Logged N) = Network.overflow N := rfl
  refine ⟨(connect_projects Logged.projects_net c l).symm, fun hroom => ?_, fun hgreatest => ?_⟩
  · obtain ⟨count, hcount?, hcount⟩ := hcounts hroom
    obtain ⟨tried, final, hran⟩ := attempts_spec c none 1 c.retries.toNat l
    have hconnect : connect c l = attempts c none 1 (c.retries.toNat + 1) l := by
      rw [connect, hbuilt, hcount?]
      simp only [hcount]
    rw [← hconnect] at hran
    have hlength : (tried ++ [final]).length = tried.length + 1 := List.length_append
    refine ⟨⟨count, hcount?, hcount⟩, tried, final, hran.efforts_eq, hran.tried_mayPass, ?_, fun h => ?_, ?_,
      fun h => ?_⟩
    · rw [hlength]
      exact Nat.succ_le_succ hran.length_le
    · rw [hlength, hran.exhausted h]
    · rintro line rfl
      exact hran.outcome_eq
    · rw [hlength, Nat.add_comm]
      refine hran.outcome_eq.trans ?_
      rcases final with line | e | _
      · exact absurd rfl (h line)
      · rfl
      · rfl
  · obtain ⟨hstops, hwraps⟩ := hover hgreatest
    refine ⟨fun h => ?_, fun h => ?_⟩
    · rw [connect, hbuilt, hstops h]
    · rw [connect, hbuilt, hwraps h]
      rfl

end Channel

/-! ## Attempts that are known beforehand -/

/-- A network on which attempts to connect come to what a list says, and are refused when the list is at
    its end. -/
structure Script (built : Overflow) where
  attempts : List Attempt

instance (built : Overflow) : Network (Script built) where
  overflow := built
  connect _ s :=
    match s.attempts with
    | [] => (.refused .connectionRefused, s)
    | a :: later => (a, ⟨later⟩)
  send _ _ s := (.stuck, s)
  receive _ s := (.silence, s)
  hangUp _ s := s
  pause _ s := s

namespace Channel

/-- With two retries a channel is refused, waits too long, and connects. -/
theorem connecting_counts_its_attempts_of_three :
    let c : ChannelConfig := ⟨"k.sock", 2, 200, 5000⟩
    let three := [Attempt.refused .connectionRefused, .timedOut, .connected 7]
    let result := connect c (Logged.mk (⟨three⟩ : Script .stops) [])
    c.retries ≠ 4294967295 ∧ result.1 = .ok ⟨7, .fresh, []⟩ ∧
      result.2.efforts = Effort.inTurn 200 three ∧
      ∃ tried final, Effort.inTurn 200 three = Effort.inTurn 200 (tried ++ [final]) ∧
        (∀ a ∈ tried, a.mayPass = true) ∧ (tried ++ [final]).length ≤ 3 := by
  intro c three result
  have hroom : c.retries ≠ 4294967295 := by decide
  have hefforts : result.2.efforts = Effort.inTurn 200 three := rfl
  obtain ⟨-, tried, final, hmade, htried, hlength, -⟩ :=
    (connecting_counts_its_attempts c (Logged.mk (⟨three⟩ : Script .stops) [])).2.1 hroom
  exact ⟨hroom, rfl, hefforts, tried, final, hefforts.symm.trans hmade, htried, hlength⟩

/-- **With the greatest number of retries a channel makes no attempt,** though the first one would
    connect it: the program stops, or it tells that the holder is not there. -/
theorem greatest_number_of_retries_makes_no_attempt :
    let c : ChannelConfig := ⟨"k.sock", 4294967295, 200, 5000⟩
    let checked := Logged.mk (⟨[.connected 7]⟩ : Script .stops) []
    let unchecked := Logged.mk (⟨[.connected 7]⟩ : Script .wraps) []
    (Network.connect c.socket checked).1 = .connected 7 ∧
      connect c checked = (.error .overflowed, checked) ∧
      (Network.connect c.socket unchecked).1 = .connected 7 ∧
      connect c unchecked = (.error (.unavailable "k.sock" 0 "no connection attempts made"), unchecked) :=
  ⟨rfl, rfl, rfl, rfl⟩

end Channel

end Coffer.Keyring
