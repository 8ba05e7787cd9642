import Coffer.Proofs.Keyring.Session
/-
  What a channel puts on its connections, and what comes back.

  A `Watched` network is any network together with a record of what passed over every connection that
  was ever made on it.  The record is only written, so a channel does on the watched network what it
  does on the bare one (`Channel.request_projects`).
-/
namespace Coffer.Keyring

/-! ## Networks that show others -/

/-- `f` shows each state of one network as a state of another, and both answer alike. -/
structure Projects {M N : Type} [Network M] [Network N] (f : M → N) : Prop where
  overflow : Network.overflow N = Network.overflow M
  connect (socket : String) (m : M) :
    Network.connect socket (f m) = (Network.connect socket m).map id f
  send (line : Nat) (b : Bytes) (m : M) : Network.send line b (f m) = (Network.send line b m).map id f
  receive (line : Nat) (m : M) : Network.receive line (f m) = (Network.receive line m).map id f
  hangUp (line : Nat) (m : M) : Network.hangUp line (f m) = f (Network.hangUp line m)
  pause (t : Nat) (m : M) : Network.pause t (f m) = f (Network.pause t m)

namespace Channel

section

variable {M N : Type} [Network M] [Network N] {f : M → N}

theorem attempts_projects (hf : Projects f) (config : ChannelConfig) (last : Option String)
    (attempt left : Nat) (m : M) :
    attempts config last attempt left (f m) = (attempts config last attempt left m).map id f := by
  induction left generalizing last attempt m with
  | zero => rfl
  | succ left ih =>
    have hpause : ∀ m, (if left = 0 then f m else Network.pause config.backoff (f m)) =
        f (if left = 0 then m else Network.pause config.backoff m) := by
      intro m
      rw [hf.pause]
      split <;> rfl
    simp only [attempts, hf.connect]
    rcases Network.connect config.socket m with ⟨line | e | _, m'⟩
    · rfl
    · simp only [Prod.map_apply, id_eq, hpause, ih]
      split <;> rfl
    · simp only [Prod.map_apply, id_eq, hpause, ih]

theorem connect_projects (hf : Projects f) (config : ChannelConfig) (m : M) :
    connect config (f m) = (connect config m).map id f := by
  rw [connect, connect, hf.overflow]
  rcases attemptCount? (Network.overflow M) config with _ | count
  · rfl
  · exact attempts_projects hf config _ _ _ m

theorem await_projects (hf : Projects f) (config : ChannelConfig) (s : Session) (m : M) :
    await config s (f m) = (await config s m).map id f := by
  induction s, m using await.induct with
  | case1 s m response rest codec hd =>
    rw [await_of_frame hd, await_of_frame hd]
    rfl
  | case2 s m e rest codec hd =>
    rw [await_of_failed hd, await_of_failed hd]
    rfl
  | case3 s m codec hd m' harrive =>
    rw [await_of_incomplete hd, await_of_incomplete hd, hf.receive, harrive]
    rfl
  | case4 s m codec hd e m' harrive =>
    rw [await_of_incomplete hd, await_of_incomplete hd, hf.receive, harrive]
    rfl
  | case5 s m codec hd m' e hend harrive =>
    rw [await_of_incomplete hd, await_of_incomplete hd, hf.receive, harrive]
    rfl
  | case6 s m codec hd m' nothing hend harrive =>
    rw [await_of_incomplete hd, await_of_incomplete hd, hf.receive, harrive]
    rfl
  | case7 s m codec hd b m' harrive hb ih =>
    rw [await_of_incomplete hd, await_of_incomplete hd, hf.receive, harrive]
    simp only [Prod.map_apply, id_eq, if_neg hb]
    exact ih

theorem exchange_projects (hf : Projects f) (config : ChannelConfig) (s : Session) (r : Request) (m : M) :
    exchange config s r (f m) = (exchange config s r m).map id f := by
  rw [exchange, exchange]
  rcases s.codec.encode r with ⟨e | b, codec⟩
  · rfl
  · simp only [hf.send]
    rcases Network.send s.line b m with ⟨_ | e | _, m'⟩
    · exact await_projects hf config _ m'
    · rfl
    · rfl

/-- **A request comes to the same on a network and on one that it shows.** -/
theorem request_projects (hf : Projects f) (c : Channel) (r : Request) (m : M) :
    c.request r (f m) = (c.request r m).map id (Prod.map id f) := by
  have hsession : ∀ (s : Session) (m : M),
      request ⟨c.config, c.mode, some s⟩ r (f m) =
        (request ⟨c.config, c.mode, some s⟩ r m).map id (Prod.map id f) := by
    intro s m
    simp only [request, exchange_projects hf]
    rcases exchange c.config s r m with ⟨e | ⟨response, s'⟩, m'⟩
    · simp only [Prod.map_apply, id_eq, hf.hangUp]
    · rfl
  obtain ⟨config, mode, _ | s⟩ := c
  · have hconnect := connect_projects hf config m
    rcases hs : connect config m with ⟨e | s, m'⟩
    · simp only [request, hconnect, hs]
      rfl
    · have hopen := hsession s m'
      simp only [request] at hopen ⊢
      rw [hconnect, hs]
      exact hopen
  · exact hsession s m

/-- **And so does a call.** -/
theorem call_projects (hf : Projects f) (c : Channel) (r : Request) (m : M) :
    c.call r (f m) = (c.call r m).map id (Prod.map id f) := by
  have hrequest := fun r => request_projects hf c r m
  cases r with
  | ping =>
    simp only [call, ping, hrequest]
    rfl
  | read location =>
    simp only [call, read, hrequest]
    rcases checkLocation location with e | ⟨⟩ <;> rfl
  | update location secret =>
    simp only [call, update, hrequest]
    by_cases hmode : c.mode = .readOnly
    · simp only [if_pos hmode]
      rfl
    · simp only [if_neg hmode]
      rcases checkLocation location with e | ⟨⟩ <;> rfl

end

end Channel

/-! ## Watching a network -/

/-- What passed over one connection. -/
structure Connection where
  line : Nat
  sent : Bytes
  received : Bytes

namespace Connection

/-- A connection on which nothing has passed. -/
def unused (line : Nat) : Connection := ⟨line, [], []⟩

/-- The requests that reach the other side. -/
def requests (k : Connection) : List Request := (Request.decodeAll k.sent).requests

/-- More bytes pass in both directions. -/
def more (k : Connection) (sent received : Bytes) : Connection :=
  ⟨k.line, k.sent ++ sent, k.received ++ received⟩

@[simp] theorem more_nil (k : Connection) : k.more [] [] = k := by
  rw [more, List.append_nil, List.append_nil]

theorem more_more (k : Connection) (sent sent' received received' : Bytes) :
    (k.more sent received).more sent' received' = k.more (sent ++ sent') (received ++ received') := by
  rw [more, more, more, List.append_assoc, List.append_assoc]

end Connection

/-- The connection that an attempt makes. -/
def Attempt.opened : Attempt → List Connection
  | connected line => [.unused line]
  | _ => []

/-- The bytes that arrive. -/
def Arrival.content : Arrival → Bytes
  | bytes b => b
  | _ => []

/-- A network, and what passed over each of its connections.  The newest one is in front. -/
structure Watched (N : Type) where
  net : N
  connections : List Connection

namespace Watched

/-- Something passes over the newest connection with this number. -/
def note (line : Nat) (sent received : Bytes) : List Connection → List Connection
  | [] => []
  | k :: earlier =>
    if k.line = line then k.more sent received :: earlier else k :: note line sent received earlier

variable {N : Type} [Network N]

instance : Network (Watched N) where
  overflow := Network.overflow N
  connect socket w :=
    let (attempt, n) := Network.connect socket w.net
    (attempt, ⟨n, attempt.opened ++ w.connections⟩)
  send line b w :=
    let (outcome, n) := Network.send line b w.net
    (outcome, ⟨n, note line b [] w.connections⟩)
  receive line w :=
    let (arrival, n) := Network.receive line w.net
    (arrival, ⟨n, note line [] arrival.content w.connections⟩)
  hangUp line w := { w with net := Network.hangUp line w.net }
  pause t w := { w with net := Network.pause t w.net }

/-- **Watching a network changes nothing on it.** -/
theorem projects_net : Projects (net : Watched N → N) where
  overflow := rfl
  connect _ _ := rfl
  send _ _ _ := rfl
  receive _ _ := rfl
  hangUp _ _ := rfl
  pause _ _ := rfl

variable {w w' : Watched N} {k : Connection} {earlier : List Connection}

/-- A new connection is the newest one. -/
theorem connections_of_connect {socket : String} {attempt : Attempt}
    (h : Network.connect socket w = (attempt, w')) : w'.connections = attempt.opened ++ w.connections := by
  cases h
  rfl

/-- What is sent on the newest connection. -/
theorem connections_of_send {b : Bytes} {outcome : Sending} (hk : w.connections = k :: earlier)
    (h : Network.send k.line b w = (outcome, w')) : w'.connections = k.more b [] :: earlier := by
  cases h
  show note k.line b [] w.connections = _
  rw [hk]
  exact if_pos rfl

/-- What is received on the newest connection. -/
theorem connections_of_receive {arrival : Arrival} (hk : w.connections = k :: earlier)
    (h : Network.receive k.line w = (arrival, w')) :
    w'.connections = k.more [] arrival.content :: earlier := by
  cases h
  show note k.line [] _ w.connections = _
  rw [hk]
  exact if_pos rfl

end Watched

/-! ## What a request leaves in the record -/

namespace ClientCodec

variable {codec codec' : ClientCodec} {b rest : Bytes} {response : Response}

theorem decode_eq_frame (h : codec.decode b = (.frame response rest, codec')) :
    Response.decode codec.pending b = .frame response rest ∧ codec' = .fresh := by
  rw [decode] at h
  split at h <;> cases h
  exact ⟨by assumption, rfl⟩

theorem decode_eq_incomplete (h : codec.decode b = (.incomplete, codec')) : codec' = codec := by
  rw [decode] at h
  split at h <;> cases h
  rfl

end ClientCodec

namespace Channel

variable {N : Type} [Network N] {w w' : Watched N} {k : Connection} {earlier : List Connection}
  {config : ChannelConfig} {s : Session} {r : Request}

/-- What connecting comes to: a new connection with a session that knows nothing, or none. -/
inductive Connects (w : Watched N) : Except SecretError Session × Watched N → Prop
  | reached {line : Nat} {w' : Watched N} : w'.connections = .unused line :: w.connections →
      Connects w (.ok ⟨line, .fresh, []⟩, w')
  | unreached {e : SecretError} {w' : Watched N} : w'.connections = w.connections →
      Connects w (.error e, w')

omit [Network N] in
theorem Connects.of_same {result : Except SecretError Session × Watched N} (h : Connects w' result)
    (hsame : w'.connections = w.connections) : Connects w result := by
  cases h with
  | reached hmade => exact .reached (hmade.trans (by rw [hsame]))
  | unreached hnone => exact .unreached (hnone.trans hsame)

theorem attempts_connects (config : ChannelConfig) (last : Option String) (attempt left : Nat)
    (w : Watched N) : Connects w (attempts config last attempt left w) := by
  induction left generalizing last attempt w with
  | zero => exact .unreached rfl
  | succ left ih =>
    have hagain : ∀ (reason : String) (w' : Watched N), w'.connections = w.connections →
        Connects w (attempts config (some reason) (attempt + 1) left
          (if left = 0 then w' else Network.pause config.backoff w')) := by
      intro reason w' hsame
      refine (ih _ _ _).of_same ?_
      split
      · exact hsame
      · exact hsame
    rcases hconnect : Network.connect config.socket w with ⟨line | e | _, w'⟩ <;>
      simp only [attempts, hconnect] <;> have hmade := Watched.connections_of_connect hconnect
    · exact .reached hmade
    · split
      · exact hagain _ w' hmade
      · exact .unreached hmade
    · exact hagain _ w' hmade

theorem connect_connects (config : ChannelConfig) (w : Watched N) : Connects w (connect config w) := by
  rw [connect]
  split
  · exact .unreached rfl
  · exact attempts_connects config _ _ _ w

/-- What the exchange of a request on the newest connection `k` comes to, when `received` is what was
    already there and the bytes `sent` are put on it. -/
inductive Exchanges (k : Connection) (earlier : List Connection) (received : Bytes) (r : Request)
    (sent : Bytes) : Except SecretError (Response × Session) × Watched N → Prop
  | answered {more rest : Bytes} {response : Response} {w' : Watched N} :
      w'.connections = k.more sent more :: earlier →
      Response.decode (some r.op) (received ++ more) = .frame response rest →
      Exchanges k earlier received r sent (.ok (response, ⟨k.line, .fresh, rest⟩), w')
  | broken {more : Bytes} {e : SecretError} {w' : Watched N} :
      w'.connections = k.more sent more :: earlier → Exchanges k earlier received r sent (.error e, w')

omit [Network N] in
/-- An exchange that begins with the bytes `sent` and `more` on their way. -/
theorem Exchanges.behind {received sent sent' more : Bytes}
    {result : Except SecretError (Response × Session) × Watched N}
    (h : Exchanges (k.more sent more) earlier (received ++ more) r sent' result) :
    Exchanges k earlier received r (sent ++ sent') result := by
  cases h with
  | answered hk hframe =>
    rw [Connection.more_more] at hk
    rw [List.append_assoc] at hframe
    exact .answered hk hframe
  | broken hk =>
    rw [Connection.more_more] at hk
    exact .broken hk

/-- Waiting for a response only receives. -/
theorem await_exchanges (config : ChannelConfig) {received : Bytes} (r : Request)
    (hk : w.connections = k :: earlier) :
    Exchanges k earlier received r [] (await config ⟨k.line, ⟨some r.op⟩, received⟩ w) := by
  generalize hs : (⟨k.line, ⟨some r.op⟩, received⟩ : Session) = s
  induction s, w using await.induct generalizing k received with
  | case1 s w response rest codec hd =>
    subst hs
    obtain ⟨hframe, rfl⟩ := ClientCodec.decode_eq_frame hd
    rw [await_of_frame hd]
    exact .answered (by rw [Connection.more_nil, hk]) (by rw [List.append_nil]; exact hframe)
  | case2 s w e rest codec hd =>
    rw [await_of_failed hd]
    exact .broken (by rw [Connection.more_nil, hk])
  | case3 s w codec hd w' harrive =>
    subst hs
    rw [await_of_incomplete hd, harrive]
    exact .broken (Watched.connections_of_receive hk harrive)
  | case4 s w codec hd e w' harrive =>
    subst hs
    rw [await_of_incomplete hd, harrive]
    exact .broken (Watched.connections_of_receive hk harrive)
  | case5 s w codec hd w' e hend harrive =>
    subst hs
    rw [await_of_incomplete hd, harrive]
    exact .broken (Watched.connections_of_receive hk harrive)
  | case6 s w codec hd w' nothing hend harrive =>
    subst hs
    rw [await_of_incomplete hd, harrive]
    exact .broken (Watched.connections_of_receive hk harrive)
  | case7 s w codec hd b w' harrive hb ih =>
    subst hs
    have hcodec := ClientCodec.decode_eq_incomplete hd
    subst hcodec
    rw [await_of_bytes hd harrive hb]
    have hrest := ih (Watched.connections_of_receive hk harrive) rfl
    exact hrest.behind

/-- A request that cannot be written is not sent. -/
theorem exchange_of_unwritten (config : ChannelConfig) (s : Session) {e : SecretError}
    (h : r.encode = .error e) (w : Watched N) : exchange config s r w = (.error e, w) := by
  rw [exchange, ClientCodec.encode, h]

/-- **An exchange puts its request on the connection,** and a response is what has come back. -/
theorem exchange_exchanges (config : ChannelConfig) {received sent : Bytes} (codec : ClientCodec)
    (h : r.encode = .ok sent) (hk : w.connections = k :: earlier) :
    Exchanges k earlier received r sent (exchange config ⟨k.line, codec, received⟩ r w) := by
  rw [exchange, ClientCodec.encode, h]
  rcases hsend : Network.send k.line sent w with ⟨_ | e | _, w'⟩ <;>
    simp only [hsend] <;> have hsent := Watched.connections_of_send hk hsend
  · have hawait : Exchanges (k.more sent []) earlier (received ++ []) r []
        (await config ⟨k.line, ⟨some r.op⟩, received⟩ w') := by
      rw [List.append_nil]
      exact await_exchanges config r hsent
    have hwhole := hawait.behind
    rwa [List.append_nil] at hwhole
  · exact .broken hsent
  · exact .broken hsent

/-- The session of a channel belongs to the newest connection, and no request is pending on it. -/
def Current (c : Channel) (w : Watched N) : Prop :=
  ∀ s, c.session? = some s → s.codec = .fresh ∧ ∃ k earlier, w.connections = k :: earlier ∧ k.line = s.line

/-- What a request goes out on: the newest connection `k`, where the bytes `received` are still to be
    looked at, or a new one. -/
inductive Opens (c : Channel) (w : Watched N) (k : Connection) (earlier : List Connection) :
    Bytes → Prop
  | kept {received : Bytes} : c.session? = some ⟨k.line, .fresh, received⟩ →
      w.connections = k :: earlier → Opens c w k earlier received
  | made {line : Nat} : c.session? = none → k = .unused line → w.connections = earlier →
      Opens c w k earlier []

/-- What a request comes to: no connection, a failure that leaves no session, or a response. -/
inductive Asked (c : Channel) (r : Request) (w : Watched N) :
    Except SecretError Response × Channel × Watched N → Prop
  | unreached {e : SecretError} {w' : Watched N} : c.session? = none →
      w'.connections = w.connections → Asked c r w (.error e, new c.config c.mode, w')
  | broken {k : Connection} {earlier : List Connection} {received sent more : Bytes} {e : SecretError}
      {w' : Watched N} : Opens c w k earlier received → (sent = [] ∨ r.encode = .ok sent) →
      w'.connections = k.more sent more :: earlier → Asked c r w (.error e, new c.config c.mode, w')
  | answered {k : Connection} {earlier : List Connection} {received sent more rest : Bytes}
      {response : Response} {w' : Watched N} : Opens c w k earlier received →
      r.encode = .ok sent → w'.connections = k.more sent more :: earlier →
      Response.decode (some r.op) (received ++ more) = .frame response rest →
      Asked c r w (.ok response, ⟨c.config, c.mode, some ⟨k.line, .fresh, rest⟩⟩, w')

/-- A request on a session. -/
theorem request_of_session {c : Channel} {received : Bytes} (hopens : c.Opens w' k earlier received)
    (hk : w.connections = k :: earlier) (r : Request) :
    Asked c r w' (request ⟨c.config, c.mode, some ⟨k.line, .fresh, received⟩⟩ r w) := by
  rcases hencode : r.encode with e | sent
  · have hexchange := exchange_of_unwritten c.config ⟨k.line, .fresh, received⟩ hencode w
    simp only [request, hexchange]
    exact .broken hopens (.inl rfl) (by rw [Connection.more_nil]; exact hk)
  · have hexchange : Exchanges k earlier received r sent
        (exchange c.config ⟨k.line, .fresh, received⟩ r w) := exchange_exchanges c.config .fresh hencode hk
    simp only [request]
    generalize exchange c.config ⟨k.line, .fresh, received⟩ r w = result at hexchange ⊢
    cases hexchange with
    | answered hk' hframe => exact .answered hopens hencode hk' hframe
    | broken hk' => exact .broken hopens (.inr hencode) hk'

/-- **What a request comes to.** -/
theorem request_asked {c : Channel} (hcurrent : c.Current w) (r : Request) :
    Asked c r w (c.request r w) := by
  obtain ⟨config, mode, _ | ⟨line, codec, received⟩⟩ := c
  · have hconnects := connect_connects config w
    rcases hconnect : connect config w with ⟨outcome, w'⟩
    rw [hconnect] at hconnects
    cases hconnects with
    | unreached hsame =>
      simp only [request, hconnect]
      exact .unreached rfl hsame
    | @reached line w' hmade =>
      have hopens : Opens ⟨config, mode, none⟩ w (.unused line) w.connections [] := .made rfl rfl rfl
      have hsession := request_of_session hopens hmade r
      simp only [request, hconnect] at hsession ⊢
      exact hsession
  · obtain ⟨rfl, k, earlier, hk, rfl⟩ := hcurrent _ rfl
    exact request_of_session (.kept rfl hk) hk r

end Channel

end Coffer.Keyring
