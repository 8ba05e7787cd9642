import Coffer.Proofs.Keyring.Watched
import Mathlib.Data.List.Infix
/-
  No answer of a channel is stale.

  An `Action` is anything that a client does to a channel, and `Channel.acts` is a run of them against
  any network at all.  What was sent and received during the run stands in the record of a `Watched`
  network.  A holder is `Honest` when it says on each connection one response to each request, and
  nothing else.

  Three facts are kept by every action (`Orderly.act`):

  * the session belongs to the newest connection, and nothing is pending on it (`Channel.Current`);
  * on every connection there are whole requests only, and no updates in a channel for reading;
  * with an honest holder, what was received on the newest connection is the responses to the requests
    that were made on it, and then the bytes that the session has not looked at.

  So the response that a request decodes is the one that was made to it (`Orderly.response_eq`).
-/
namespace Coffer.Keyring

/-! ## Runs -/

/-- What can be done to a channel. -/
inductive Action
  | ask (r : Request)
  | close

namespace Channel

variable {N : Type} [Network N]

/-- The failure of a call that is made without asking anybody. -/
def refusal? (c : Channel) : Request → Option SecretError
  | .ping => none
  | .read location =>
    match checkLocation location with
    | .error e => some e
    | .ok () => none
  | .update location _ =>
    if c.mode = .readOnly then
      some (.permissionDenied s!"update of '{location}' on a read-only session")
    else
      match checkLocation location with
      | .error e => some e
      | .ok () => none

/-- What a response means to the call that it answers. -/
def verdict (r : Request) (response : Response) : Except SecretError (Option Passphrase) :=
  match r with
  | .ping => (successOf "" response).map fun _ => none
  | .read location => (secretOf location response).map some
  | .update location _ => (successOf location response).map fun _ => none

/-- **A call is refused at once, or it is a request.** -/
theorem call_eq (c : Channel) (r : Request) (n : N) :
    c.call r n = match c.refusal? r with
      | some e => (.error e, c, n)
      | none =>
        let (answer, c, n) := c.request r n
        (answer.bind (verdict r), c, n) := by
  cases r with
  | ping =>
    rcases hrequest : c.request .ping n with ⟨e | response, c', n'⟩ <;>
      simp only [call, ping, refusal?, hrequest] <;> rfl
  | read location =>
    rcases hlocation : checkLocation location with e | ⟨⟩
    · simp only [call, read, refusal?, hlocation]
      rfl
    · rcases hrequest : c.request (.read location) n with ⟨e | response, c', n'⟩ <;>
        simp only [call, read, refusal?, hlocation, hrequest] <;> rfl
  | update location secret =>
    by_cases hmode : c.mode = .readOnly
    · simp only [call, update, refusal?, if_pos hmode]
      rfl
    · rcases hlocation : checkLocation location with e | ⟨⟩
      · simp only [call, update, refusal?, if_neg hmode, hlocation]
        rfl
      · rcases hrequest : c.request (.update location secret) n with ⟨e | response, c', n'⟩ <;>
          simp only [call, update, refusal?, if_neg hmode, hlocation, hrequest] <;> rfl

/-- What an action comes to. -/
def act (c : Channel) (a : Action) (n : N) : Except SecretError (Option Passphrase) × Channel × N :=
  match a with
  | .ask r => c.call r n
  | .close => (.ok none, c.close n)

/-- Actions one after the other. -/
def acts (c : Channel) :
    List Action → N → List (Except SecretError (Option Passphrase)) × Channel × N
  | [], n => ([], c, n)
  | a :: actions, n =>
    let (answer, c, n) := c.act a n
    let (answers, c, n) := c.acts actions n
    (answer :: answers, c, n)

/-- What every action keeps, a run keeps. -/
theorem acts_induct {P : Channel → N → Prop}
    (hact : ∀ c n a, P c n → P (c.act a n).2.1 (c.act a n).2.2) {c : Channel} {n : N} (h : P c n)
    (actions : List Action) : P (c.acts actions n).2.1 (c.acts actions n).2.2 := by
  induction actions generalizing c n with
  | nil => exact h
  | cons a actions ih => exact ih (hact c n a h)

variable {M : Type} [Network M] {f : M → N}

theorem acts_projects (hf : Projects f) (c : Channel) (actions : List Action) (m : M) :
    c.acts actions (f m) = (c.acts actions m).map id (Prod.map id f) := by
  have hact : ∀ (c : Channel) (a : Action) (m : M),
      c.act a (f m) = (c.act a m).map id (Prod.map id f) := by
    intro c a m
    cases a with
    | ask r => exact call_projects hf c r m
    | close =>
      obtain ⟨config, mode, _ | s⟩ := c
      · rfl
      · simp only [act, close, hf.hangUp]
        rfl
  induction actions generalizing c m with
  | nil => rfl
  | cons a actions ih =>
    rcases hresult : c.act a m with ⟨answer, c', m'⟩
    simp only [acts, hact, hresult, Prod.map_apply, id_eq, ih]
    rfl

end Channel

/-! ## Honest holders -/

/-- The first `count` responses of a connection, one behind the other. -/
def said (answers : Nat → Response) (count : Nat) : Bytes :=
  (List.range count).flatMap fun i => (answers i).encode

theorem said_succ (answers : Nat → Response) (count : Nat) :
    said answers (count + 1) = said answers count ++ (answers count).encode := by
  rw [said, List.range_succ, List.flatMap_append, List.flatMap_singleton]
  rfl

theorem prefix_said (answers : Nat → Response) {count count' : Nat} (h : count ≤ count') :
    said answers count <+: said answers count' := by
  induction h with
  | refl => exact List.prefix_rfl
  | step _ ih =>
    rw [said_succ]
    exact ih.trans (List.prefix_append _ _)

/-- **What is decoded next is the next response,** when what was received behind the first `i` of them
    is in line with the others. -/
theorem response_of_said {answers : Nat → Response} {op : Op} {i count : Nat} {b rest : Bytes}
    {response : Response} (hanswers : (answers i).Answers op)
    (hsaid : said answers i ++ b <+: said answers count)
    (hframe : Response.decode (some op) b = .frame response rest) :
    response = answers i ∧ b = (answers i).encode ++ rest := by
  have hsome : 0 < b.length := by
    cases b with
    | nil => cases hframe
    | cons => exact Nat.succ_pos _
  have hlt : i < count := by
    -- Otherwise nothing is said behind the first `i` responses.
    by_contra hge
    have hle := (hsaid.trans (prefix_said answers (Nat.le_of_not_lt hge))).length_le
    rw [List.length_append] at hle
    omega
  obtain ⟨later, hlater⟩ := prefix_said answers (Nat.succ_le_of_lt hlt)
  obtain ⟨extra, hextra⟩ := hsaid
  have hwhole : b ++ extra = (answers i).encode ++ later := by
    rw [said_succ] at hlater
    rw [← hlater, List.append_assoc, List.append_assoc] at hextra
    exact List.append_cancel_left hextra
  have hlong : Response.decode (some op) (b ++ extra) = .frame response (rest ++ extra) := by
    rw [Response.steady_decode _ b extra (by rw [hframe]; exact fun h => nomatch h), hframe]
    rfl
  rw [hwhole, Response.decode_encode hanswers] at hlong
  cases hlong
  refine ⟨rfl, ?_⟩
  rw [← List.append_assoc] at hwhole
  exact List.append_cancel_right hwhole

namespace Connection

variable {k : Connection} {requests : List Request} {r : Request} {sent received : Bytes}

/-- What passed is what an honest holder lets pass: a response to each request that reached it, the
    responses in the order of the requests, and nothing else. -/
structure Answered (k : Connection) (answers : Nat → Response) : Prop where
  goesWith : ∀ i r, k.requests[i]? = some r → (answers i).Answers r.op
  received : k.received <+: said answers k.requests.length

/-- What was sent is these requests, all of them whole. -/
def Carries (k : Connection) (requests : List Request) : Prop :=
  Request.decodeAll k.sent = ⟨requests, none, []⟩

theorem Carries.requests_eq (h : k.Carries requests) : k.requests = requests := by
  rw [Connection.requests, h]

theorem carries_unused (line : Nat) : (unused line).Carries [] :=
  Request.decodeAll_of_incomplete rfl

theorem Carries.more_received (h : k.Carries requests) (received : Bytes) :
    (k.more [] received).Carries requests := by
  rw [Carries, more, List.append_nil]
  exact h

/-- One more request is sent. -/
theorem Carries.more (h : k.Carries requests) (hencode : r.encode = .ok sent) (received : Bytes) :
    (k.more sent received).Carries (requests ++ [r]) := by
  have hlast : Request.decodeAll sent = ⟨[r], none, []⟩ := by
    have hframe := Request.decode_encode hencode []
    rw [List.append_nil] at hframe
    rw [Request.decodeAll_of_frame hframe, Request.decodeAll_of_incomplete (b := []) rfl]
  have happend := Request.decodeAll_append k.sent sent
  rw [h] at happend
  rw [Carries, Connection.more, happend]
  simp only [Received.feed, List.nil_append, hlast]

end Connection

/-- Something holds of every connection and of the responses on it: to request number `i` on connection
    number `j` the holder says `answers j i`. -/
def OnEach (P : Connection → (Nat → Response) → Prop) (answers : Nat → Nat → Response)
    (connections : List Connection) : Prop :=
  ∀ k earlier, k :: earlier <:+ connections → P k (answers earlier.length)

section

variable {P Q : Connection → (Nat → Response) → Prop} {answers : Nat → Nat → Response} {k : Connection}
  {earlier connections : List Connection}

theorem onEach_nil : OnEach P answers [] := by
  intro k earlier hsuffix
  cases List.suffix_nil.mp hsuffix

theorem onEach_cons : OnEach P answers (k :: earlier) ↔
    P k (answers earlier.length) ∧ OnEach P answers earlier := by
  constructor
  · intro h
    exact ⟨h k earlier List.suffix_rfl, fun k' before hsuffix =>
      h k' before (hsuffix.trans (List.suffix_cons k earlier))⟩
  · rintro ⟨hk, hearlier⟩ k' before hsuffix
    rcases List.suffix_cons_iff.mp hsuffix with heq | hsuffix
    · cases heq
      exact hk
    · exact hearlier k' before hsuffix

theorem OnEach.imp (h : OnEach P answers connections) (himp : ∀ k said, P k said → Q k said) :
    OnEach Q answers connections :=
  fun k earlier hsuffix => himp k _ (h k earlier hsuffix)

end

/-- The holder is honest on every connection. -/
def Honest (answers : Nat → Nat → Response) (connections : List Connection) : Prop :=
  OnEach Connection.Answered answers connections

namespace Connection

/-- What passed is in line with what an honest holder will have said in the end.  It may not have said
    all of that yet. -/
structure InLine (k : Connection) (answers : Nat → Response) : Prop where
  goesWith : ∀ i r, k.requests[i]? = some r → (answers i).Answers r.op
  received : ∃ count, k.received <+: said answers count

variable {k : Connection} {answers : Nat → Response} {requests : List Request} {r : Request}
  {sent received : Bytes}

theorem Answered.inLine (h : k.Answered answers) : k.InLine answers := ⟨h.goesWith, _, h.received⟩

/-- What was in line in the end was in line before. -/
theorem InLine.of_more (h : (k.more sent received).InLine answers) (hcarries : k.Carries requests)
    (hsent : sent = [] ∨ r.encode = .ok sent) : k.InLine answers := by
  have hrequests : ∃ later, (k.more sent received).requests = k.requests ++ later := by
    rw [hcarries.requests_eq]
    rcases hsent with rfl | hencode
    · exact ⟨[], by rw [(hcarries.more_received received).requests_eq, List.append_nil]⟩
    · exact ⟨[r], (hcarries.more hencode received).requests_eq⟩
  obtain ⟨later, hlater⟩ := hrequests
  obtain ⟨count, hcount⟩ := h.received
  refine ⟨fun i q hq => h.goesWith i q ?_, count, (List.prefix_append _ _).trans hcount⟩
  rw [hlater, List.getElem?_append_left (List.getElem?_eq_some_iff.mp hq).1]
  exact hq

end Connection

theorem Honest.inLine {answers : Nat → Nat → Response} {connections : List Connection}
    (h : Honest answers connections) : OnEach Connection.InLine answers connections :=
  OnEach.imp h fun _ _ hanswered => hanswered.inLine

/-! ## What every action keeps -/

namespace Channel

variable {N : Type} {answers : Nat → Nat → Response} {mode : AccessMode}
  {c : Channel} {w : Watched N} {k : Connection} {earlier : List Connection} {received : Bytes}
  {r : Request}

/-- Whole requests were sent, and none that a channel of this mode refuses. -/
def Allows (mode : AccessMode) (k : Connection) : Prop :=
  ∃ requests, k.Carries requests ∧ ∀ r ∈ requests, r.op = .update → mode ≠ .readOnly

/-- What holds of a channel and its connections between any two actions. -/
structure Orderly (answers : Nat → Nat → Response) (c : Channel) (w : Watched N) : Prop where
  current : c.Current w
  allowed : ∀ k ∈ w.connections, Allows c.mode k
  /-- All responses that were received are used up, but for the bytes that the session still has. -/
  usedUp : OnEach Connection.InLine answers w.connections → ∀ s k earlier, c.session? = some s →
    w.connections = k :: earlier →
    k.received = said (answers earlier.length) k.requests.length ++ s.received

/-- The same of a request that is about to go out on the connection `k`. -/
structure Ready (answers : Nat → Nat → Response) (mode : AccessMode) (k : Connection)
    (earlier : List Connection) (received : Bytes) : Prop where
  allowed : Allows mode k
  allowedEarlier : ∀ k ∈ earlier, Allows mode k
  usedUp : OnEach Connection.InLine answers (k :: earlier) →
    k.received = said (answers earlier.length) k.requests.length ++ received

theorem Orderly.ready (h : Orderly answers c w) (hopens : c.Opens w k earlier received) :
    Ready answers c.mode k earlier received := by
  cases hopens with
  | kept hsession hk =>
    have hallowed := h.allowed
    have husedUp := h.usedUp
    rw [hk] at hallowed husedUp
    exact ⟨hallowed k List.mem_cons_self, fun k hk => hallowed k (List.mem_cons_of_mem _ hk),
      fun hinLine => husedUp hinLine _ k earlier hsession rfl⟩
  | @made line hnone hk hconnections =>
    subst hk hconnections
    have hcarries := Connection.carries_unused line
    refine ⟨⟨[], hcarries, fun r hr => nomatch hr⟩, h.allowed, fun _ => ?_⟩
    rw [hcarries.requests_eq]
    rfl

/-- What was in line behind a request was in line before it. -/
theorem Ready.inLine_of_more (h : Ready answers mode k earlier received) {sent more : Bytes}
    (hsent : sent = [] ∨ r.encode = .ok sent) (hinLine : OnEach Connection.InLine answers (k.more sent more :: earlier)) :
    OnEach Connection.InLine answers (k :: earlier) := by
  obtain ⟨requests, hcarries, -⟩ := h.allowed
  obtain ⟨hk, hearlier⟩ := onEach_cons.mp hinLine
  exact onEach_cons.mpr ⟨hk.of_more hcarries hsent, hearlier⟩

theorem Ready.allows_more (h : Ready answers mode k earlier received) {sent : Bytes}
    (hsent : sent = [] ∨ r.encode = .ok sent) (hmode : r.op = .update → mode ≠ .readOnly)
    (more : Bytes) : ∀ k' ∈ k.more sent more :: earlier, Allows mode k' := by
  obtain ⟨requests, hcarries, hrequests⟩ := h.allowed
  intro k' hk'
  rcases List.mem_cons.mp hk' with rfl | hk'
  · rcases hsent with rfl | hencode
    · exact ⟨requests, hcarries.more_received more, hrequests⟩
    · refine ⟨requests ++ [r], hcarries.more hencode more, fun q hq => ?_⟩
      rcases List.mem_append.mp hq with hq | hq
      · exact hrequests q hq
      · cases List.mem_singleton.mp hq
        exact hmode
  · exact h.allowedEarlier k' hk'

/-- **A response is the one that was made to its request.** -/
theorem Ready.response_eq (h : Ready answers mode k earlier received) {sent more rest : Bytes}
    {response : Response} (hencode : r.encode = .ok sent)
    (hframe : Response.decode (some r.op) (received ++ more) = .frame response rest)
    (hinLine : OnEach Connection.InLine answers (k.more sent more :: earlier)) :
    (k.more sent more).requests = k.requests ++ [r] ∧
    response = answers earlier.length k.requests.length ∧
    (k.more sent more).received =
      said (answers earlier.length) (k.more sent more).requests.length ++ rest := by
  have husedUp := h.usedUp (h.inLine_of_more (.inr hencode) hinLine)
  obtain ⟨requests, hcarries, -⟩ := h.allowed
  have hrequests : (k.more sent more).requests = k.requests ++ [r] := by
    rw [(hcarries.more hencode more).requests_eq, hcarries.requests_eq]
  obtain ⟨⟨hgoesWith, count, hreceived⟩, -⟩ := onEach_cons.mp hinLine
  have hlast : (k.more sent more).requests[k.requests.length]? = some r := by
    rw [hrequests, List.getElem?_concat_length]
  have hall : (k.more sent more).received =
      said (answers earlier.length) k.requests.length ++ (received ++ more) := by
    rw [Connection.more, husedUp, List.append_assoc]
  rw [hall] at hreceived
  obtain ⟨hresponse, hbytes⟩ := response_of_said (hgoesWith _ r hlast) hreceived hframe
  refine ⟨hrequests, hresponse, ?_⟩
  rw [hall, hrequests, List.length_append, List.length_singleton, said_succ, hbytes, List.append_assoc]

/-- A request keeps the order, unless its channel would refuse it. -/
theorem Orderly.asked (h : Orderly answers c w) (hmode : r.op = .update → c.mode ≠ .readOnly)
    {result : Except SecretError Response × Channel × Watched N} (hasked : Asked c r w result) :
    Orderly answers result.2.1 result.2.2 := by
  cases hasked with
  | unreached hnone hsame =>
    refine ⟨(fun _ hs => nomatch hs), ?_, (fun _ _ _ _ hs => nomatch hs)⟩
    rw [hsame]
    exact h.allowed
  | broken hopens hsent hk =>
    refine ⟨(fun _ hs => nomatch hs), ?_, (fun _ _ _ _ hs => nomatch hs)⟩
    rw [hk]
    exact (h.ready hopens).allows_more hsent hmode _
  | answered hopens hencode hk hframe =>
    have hready := h.ready hopens
    refine ⟨?_, ?_, ?_⟩
    · rintro s hs
      cases hs
      exact ⟨rfl, _, _, hk, rfl⟩
    · rw [hk]
      exact hready.allows_more (.inr hencode) hmode _
    · intro hinLine s k' earlier' hs hk'
      rw [hk] at hinLine hk'
      cases hs
      cases hk'
      exact (hready.response_eq hencode hframe hinLine).2.2

/-- A channel for reading refuses updates. -/
theorem mode_of_refusal?_none (h : c.refusal? r = none) (hop : r.op = .update) :
    c.mode ≠ .readOnly := by
  cases r with
  | ping => cases hop
  | read => cases hop
  | update location secret =>
    intro hmode
    rw [refusal?, if_pos hmode] at h
    cases h

theorem Asked.mode_eq {result : Except SecretError Response × Channel × Watched N}
    (h : Asked c r w result) : result.2.1.config = c.config ∧ result.2.1.mode = c.mode := by
  cases h <;> exact ⟨rfl, rfl⟩

variable [Network N]

/-- **Every action keeps the order,** and the channel is for the same things as before. -/
theorem Orderly.act (h : Orderly answers c w) (a : Action) :
    Orderly answers (c.act a w).2.1 (c.act a w).2.2 ∧
    (c.act a w).2.1.config = c.config ∧ (c.act a w).2.1.mode = c.mode := by
  cases a with
  | ask r =>
    show Orderly answers (c.call r w).2.1 (c.call r w).2.2 ∧
      (c.call r w).2.1.config = c.config ∧ (c.call r w).2.1.mode = c.mode
    rw [call_eq]
    rcases hrefusal : c.refusal? r with _ | e
    · have hasked := request_asked h.current r
      exact ⟨h.asked (mode_of_refusal?_none hrefusal) hasked, hasked.mode_eq⟩
    · exact ⟨h, rfl, rfl⟩
  | close =>
    obtain ⟨config, mode, _ | s⟩ := c
    · exact ⟨h, rfl, rfl⟩
    · exact ⟨⟨(fun _ hs => nomatch hs), h.allowed, (fun _ _ _ _ hs => nomatch hs)⟩, rfl, rfl⟩

/-- A network that is watched from now on. -/
def watch (n : N) : Watched N := ⟨n, []⟩

omit [Network N] in
theorem orderly_new (answers : Nat → Nat → Response) (config : ChannelConfig) (mode : AccessMode)
    (n : N) : Orderly answers (new config mode) (watch n) :=
  ⟨(fun _ hs => nomatch hs), (fun _ hk => nomatch hk), (fun _ _ _ _ hs => nomatch hs)⟩

/-- **Every run keeps the order.** -/
theorem orderly_acts (answers : Nat → Nat → Response) (config : ChannelConfig) (mode : AccessMode)
    (n : N) (actions : List Action) :
    let (_, c, w) := (new config mode).acts actions (watch n)
    Orderly answers c w ∧ c.config = config ∧ c.mode = mode := by
  refine acts_induct (P := fun c w => Orderly answers c w ∧ c.config = config ∧ c.mode = mode) ?_
    ⟨orderly_new answers config mode n, rfl, rfl⟩ actions
  rintro c w a ⟨horderly, hconfig, hmode⟩
  obtain ⟨horderly', hconfig', hmode'⟩ := horderly.act a
  exact ⟨horderly', hconfig'.trans hconfig, hmode'.trans hmode⟩

/-! ## The channel -/

/-- What a call comes to: it is refused at once and changes nothing; it breaks off and leaves a new
    channel; or there is a response, and the session goes on. -/
inductive Ends (c : Channel) (r : Request) (w : Watched N) :
    Except SecretError (Option Passphrase) × Channel × Watched N → Prop
  | refused {e : SecretError} : c.refusal? r = some e → Ends c r w (.error e, c, w)
  | broken {e : SecretError} {w' : Watched N} : c.request r w = (.error e, new c.config c.mode, w') →
      Ends c r w (.error e, new c.config c.mode, w')
  | denied {status : Status} {s : Session} {w' : Watched N} : status ≠ .ok →
      c.request r w = (.ok (.failed status), ⟨c.config, c.mode, some s⟩, w') →
      Ends c r w (.error (.ofStatus r.location status), ⟨c.config, c.mode, some s⟩, w')
  | granted {response : Response} {secret? : Option Passphrase} {s : Session} {w' : Watched N} :
      response.status = .ok → verdict r response = .ok secret? →
      c.request r w = (.ok response, ⟨c.config, c.mode, some s⟩, w') →
      Ends c r w (.ok secret?, ⟨c.config, c.mode, some s⟩, w')

omit [Network N] in
theorem verdict_of_answers {response : Response} (h : response.Answers r.op) :
    (∃ status, status ≠ .ok ∧ response = .failed status ∧
      verdict r response = .error (.ofStatus r.location status)) ∨
    response.status = .ok ∧ ∃ secret?, verdict r response = .ok secret? := by
  generalize hop : r.op = op at h
  cases h with
  | failed hstatus =>
    refine .inl ⟨_, hstatus, rfl, ?_⟩
    cases r <;> simp only [verdict, secretOf_failed hstatus, successOf_failed hstatus] <;> rfl
  | secret p =>
    refine .inr ⟨rfl, some p, ?_⟩
    cases r <;> first | rfl | cases hop
  | done hread =>
    refine .inr ⟨rfl, none, ?_⟩
    cases r with
    | read => exact absurd hop.symm hread
    | update | ping => rfl

theorem Orderly.call_ends (h : Orderly answers c w) (r : Request) : Ends c r w (c.call r w) := by
  rw [call_eq]
  rcases hrefusal : c.refusal? r with _ | e
  · have hasked := request_asked h.current r
    rcases hrequest : c.request r w with ⟨outcome, c', w'⟩
    rw [hrequest] at hasked
    cases hasked with
    | unreached => exact .broken hrequest
    | broken => exact .broken hrequest
    | answered _ _ _ hframe =>
      rcases verdict_of_answers (Response.answers_of_decode hframe) with
        ⟨status, hstatus, rfl, hverdict⟩ | ⟨hok, secret?, hverdict⟩
      · simp only [Except.bind, hverdict]
        exact .denied hstatus hrequest
      · simp only [Except.bind, hverdict]
        exact .granted hok hverdict hrequest
  · exact .refused hrefusal

omit [Network N] in
/-- The response that a request decodes is the one that the holder made to it. -/
theorem Orderly.response_eq {c' : Channel} {w' : Watched N} {response : Response}
    (h : Orderly answers c w) (hasked : Asked c r w (.ok response, c', w'))
    (hhonest : Honest answers w'.connections) :
    ∃ k earlier requests, w'.connections = k :: earlier ∧ k.requests = requests ++ [r] ∧
      answers earlier.length requests.length = response := by
  cases hasked with
  | answered hopens hencode hk hframe =>
    have hinLine := hhonest.inLine
    rw [hk] at hinLine
    obtain ⟨hrequests, hresponse, -⟩ := (h.ready hopens).response_eq hencode hframe hinLine
    exact ⟨_, _, _, hk, hrequests, hresponse.symm⟩

theorem secretOf_eq_ok {location : String} {response : Response} {secret : Passphrase}
    (h : secretOf location response = .ok secret) : response = .ofSecret secret := by
  obtain ⟨status, _ | p⟩ := response
  · cases status <;> cases h
  · cases status <;> cases h
    rfl

/-- A reading that gives a secret was a request. -/
theorem request_of_read {c' : Channel} {w' : Watched N} {location : String} {secret : Passphrase}
    (h : c.read location w = (.ok secret, c', w')) :
    c.request (.read location) w = (.ok (.ofSecret secret), c', w') := by
  rw [read] at h
  rcases hlocation : checkLocation location with e | ⟨⟩
  · rw [hlocation] at h
    cases h
  · rcases hrequest : c.request (.read location) w with ⟨e | response, c'', w''⟩ <;>
      simp only [hlocation, hrequest] at h
    · cases h
    · obtain ⟨hsecret, hstate⟩ := Prod.mk.inj h
      cases hstate
      cases secretOf_eq_ok hsecret
      rfl

theorem checkLocation_eq_error {location : String}
    (h : location = "" ∨ 65535 < (utf8 location).length) : ∃ e, checkLocation location = .error e := by
  rw [checkLocation]
  rcases h with rfl | hlong
  · exact ⟨_, rfl⟩
  · split
    · exact ⟨_, rfl⟩
    · exact ⟨_, if_pos hlong⟩

/-- **No answer of a channel is stale, and nothing forbidden is sent.**  After any run on any network,
    watching which changes nothing:
    a call is refused, breaks off and leaves a new channel, or is answered;
    a channel without a session is as new, and a request on it goes out on a new connection with a
    fresh codec and nothing received;
    a channel for reading has put whole requests on its connections, updates not among them, and an
    update changes nothing on it; neither does a location that is empty or too long;
    and with an honest holder a secret that is read is the one that was said to that very request. -/
theorem no_answer_is_stale (config : ChannelConfig) (mode : AccessMode) (n : N)
    (actions : List Action) (answers : Nat → Nat → Response) :
    let (given, c, w) := (new config mode).acts actions (watch n)
    (new config mode).acts actions n = (given, c, w.net) ∧
    (∀ r, Ends c r w (c.call r w)) ∧
    (c.session? = none → c = new config mode ∧
      ∀ r session w', connect config w = (.ok session, w') →
        session = ⟨session.line, .fresh, []⟩ ∧
        w'.connections = .unused session.line :: w.connections ∧
        c.request r w = request ⟨config, mode, some session⟩ r w') ∧
    (mode = .readOnly →
      (∀ k ∈ w.connections, ∃ requests, k.Carries requests ∧ ∀ r ∈ requests, r.op ≠ .update) ∧
      ∀ location secret, c.update location secret w =
        (.error (.permissionDenied s!"update of '{location}' on a read-only session"), c, w)) ∧
    (∀ location, location = "" ∨ 65535 < (utf8 location).length →
      (∃ e, c.read location w = (.error e, c, w)) ∧
      ∀ secret, ∃ e, c.update location secret w = (.error e, c, w)) ∧
    ∀ location secret c' w', c.read location w = (.ok secret, c', w') →
      Honest answers w'.connections →
      ∃ k earlier requests, w'.connections = k :: earlier ∧
        k.requests = requests ++ [.read location] ∧
        answers earlier.length requests.length = .ofSecret secret := by
  have hprojects := acts_projects Watched.projects_net (new config mode) actions (watch n)
  have hrun := orderly_acts answers config mode n actions
  rcases hacts : (new config mode).acts actions (watch n) with ⟨given, ⟨config', mode', session?⟩, w⟩
  rw [hacts] at hprojects hrun
  obtain ⟨horderly, rfl, rfl⟩ := hrun
  refine ⟨hprojects, horderly.call_ends, ?_, ?_, ?_, ?_⟩
  · rintro rfl
    refine ⟨rfl, fun r session w' hconnect => ?_⟩
    have hconnects := connect_connects config' w
    rw [hconnect] at hconnects
    cases hconnects with
    | reached hmade =>
      refine ⟨rfl, hmade, ?_⟩
      simp only [request, hconnect]
  · rintro rfl
    refine ⟨fun k hk => ?_, fun location secret => if_pos rfl⟩
    obtain ⟨requests, hcarries, hrequests⟩ := horderly.allowed k hk
    exact ⟨requests, hcarries, fun r hr hop => hrequests r hr hop rfl⟩
  · intro location hlocation
    obtain ⟨e, he⟩ := checkLocation_eq_error hlocation
    refine ⟨⟨e, by simp only [read, he]⟩, fun secret => ?_⟩
    by_cases hread : mode' = .readOnly
    · exact ⟨_, if_pos hread⟩
    · exact ⟨e, by simp only [update, if_neg hread, he]⟩
  · intro location secret c' w' hread hhonest
    have hrequest := request_of_read hread
    have hasked := request_asked horderly.current (.read location)
    rw [hrequest] at hasked
    exact horderly.response_eq hasked hhonest

/-! ## A holder that loses a connection -/

/-- Somebody who says what is written for him, whatever he is asked. -/
structure Script where
  replies : List Bytes

instance : Network Script where
  overflow := .stops
  connect _ n := (.connected 0, n)
  send _ _ n := (.sent, n)
  receive _ n := match n.replies with
    | [] => (.silence, n)
    | b :: replies => (.bytes b, ⟨replies⟩)
  hangUp _ n := n
  pause _ n := n

/-- A ping gets no response, and then a secret is read on another connection of the same number. -/
theorem no_answer_is_stale_of_two :
    let config : ChannelConfig := ⟨"/run/holder", 0, 0, 0⟩
    let secret : Passphrase := ⟨[97], rfl⟩
    let answers (j _ : Nat) : Response := if j = 0 then .done else .ofSecret secret
    let (_, c, w) := (new config .readWrite).acts [.ask .ping]
      (watch (⟨[[], [0, 0, 0, 0, 1, 97]]⟩ : Script))
    c = new config .readWrite ∧ ∃ k earlier requests, (c.read "k" w).2.2.connections = k :: earlier ∧
      k.requests = requests ++ [.read "k"] ∧ answers earlier.length requests.length = .ofSecret secret := by
  intro config secret answers
  have hfresh := no_answer_is_stale config .readWrite
    (⟨[[], [0, 0, 0, 0, 1, 97]]⟩ : Script) [.ask .ping] answers
  let first : Connection := ⟨0, [0x50, 0, 0], []⟩
  let second : Connection := ⟨0, [0x52, 0, 1, 0x6b], [0, 0, 0, 0, 1, 97]⟩
  let lost : Watched Script := ⟨⟨[[0, 0, 0, 0, 1, 97]]⟩, [first]⟩
  -- The first connection ends before a response.
  have hping : (new config .readWrite).acts [.ask .ping]
      (watch (⟨[[], [0, 0, 0, 0, 1, 97]]⟩ : Script)) =
      ([.error (exchangeFault config (cutShort []))], new config .readWrite, lost) := by
    have hconnect : connect config (watch (⟨[[], [0, 0, 0, 0, 1, 97]]⟩ : Script)) =
        (.ok ⟨0, .fresh, []⟩, ⟨⟨[[], [0, 0, 0, 0, 1, 97]]⟩, [.unused 0]⟩) := rfl
    have hexchange : exchange config ⟨0, .fresh, []⟩ .ping
        (⟨⟨[[], [0, 0, 0, 0, 1, 97]]⟩, [.unused 0]⟩ : Watched Script) =
        (.error (cutShort []), lost) := by
      show await config ⟨0, ⟨some .ping⟩, []⟩ _ = _
      rw [await_of_incomplete rfl]
      rfl
    simp only [acts, act, call, ping, request_connect hconnect]
    simp only [request, hexchange]
    rfl
  -- The second one brings all of it at once.
  have hread : (new config .readWrite).read "k" lost =
      (.ok secret, ⟨config, .readWrite, some ⟨0, .fresh, []⟩⟩, ⟨⟨[]⟩, [second, first]⟩) := by
    have hconnect : connect config lost =
        (.ok ⟨0, .fresh, []⟩, ⟨⟨[[0, 0, 0, 0, 1, 97]]⟩, [.unused 0, first]⟩) := rfl
    have hexchange : exchange config ⟨0, .fresh, []⟩ (.read "k")
        (⟨⟨[[0, 0, 0, 0, 1, 97]]⟩, [.unused 0, first]⟩ : Watched Script) =
        (.ok (.ofSecret secret, ⟨0, .fresh, []⟩), ⟨⟨[]⟩, [second, first]⟩) := by
      show await config ⟨0, ⟨some .read⟩, []⟩ _ = _
      rw [await_of_bytes rfl rfl (by decide), await_of_frame rfl]
      rfl
    have hlocation : checkLocation "k" = .ok () := rfl
    simp only [read, hlocation, request_connect hconnect]
    simp only [request, hexchange]
    rfl
  have hfirst : first.Answered (answers 0) := by
    have hrequests : first.requests = [.ping] :=
      ((Connection.carries_unused 0).more (r := .ping) rfl []).requests_eq
    refine ⟨fun i r hr => ?_, List.nil_prefix⟩
    rw [hrequests] at hr
    cases i with
    | zero =>
      cases hr
      refine .done ?_
      intro hop
      cases hop
    | succ i => cases hr
  have hsecond : second.Answered (answers 1) := by
    have hrequests : second.requests = [.read "k"] :=
      ((Connection.carries_unused 0).more (r := .read "k") rfl [0, 0, 0, 0, 1, 97]).requests_eq
    refine ⟨fun i r hr => ?_, ?_⟩
    · rw [hrequests] at hr
      cases i with
      | zero =>
        cases hr
        exact .secret secret
      | succ i => cases hr
    · rw [hrequests]
      show [0, 0, 0, 0, 1, 97] <+: said (fun _ => .ofSecret secret) 1
      rw [said_succ]
      show [0, 0, 0, 0, 1, 97] <+: [] ++ (0 :: (be32 1 ++ [97]))
      decide
  have hhonest : Honest answers [second, first] :=
    onEach_cons.mpr ⟨hsecond, onEach_cons.mpr ⟨hfirst, onEach_nil⟩⟩
  rw [hping] at hfresh ⊢
  obtain ⟨-, -, -, -, -, hfresh⟩ := hfresh
  refine ⟨rfl, ?_⟩
  rw [hread]
  exact hfresh "k" secret _ _ hread hhonest

end Channel

end Coffer.Keyring
