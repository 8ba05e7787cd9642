import Coffer.Keyring.Response
import Coffer.Keyring.SecretSource
import Coffer.Text.Span
/-
  The client's channel to the secret holder.

  A `Channel` has at most one connection.  It is made at the first request, kept while requests
  succeed or are refused, and dropped when one breaks off, for then nobody knows where in the stream
  the next response begins.

  What lies behind a connection is a `Network`: it says what connecting, sending and receiving come
  to, and may say anything.  So a law about all networks is a law about all holders, honest or not.
  It also says how the program was built: what becomes of it when a sum overflows.

  * `Channel.connect`   — a bounded number of attempts;
  * `Channel.exchange`  — one request and its response on a connection;
  * `Channel.read`, `Channel.update`, `Channel.ping` — the requests;
  * `Channel.close`     — drops the connection.
-/
namespace Coffer.Keyring

/-! ## Sums of words -/

/-- What becomes of a program when a sum does not fit into its word; that is settled when the program is
    built. -/
inductive Overflow
  /-- The program stops. -/
  | stops
  /-- What does not fit is dropped. -/
  | wraps
  deriving DecidableEq, Repr

/-- The sum of two words, if the program goes on. -/
def Overflow.add? (a b : UInt32) : Overflow → Option UInt32
  | stops => if a.toNat + b.toNat < UInt32.size then some (a + b) else none
  | wraps => some (a + b)

/-! ## Networks -/

/-- What one attempt to connect comes to. -/
inductive Attempt
  /-- A connection, known by its number. -/
  | connected (line : Nat)
  | refused (e : IoError)
  | timedOut

/-- What is received next on a connection. -/
inductive Arrival
  /-- Bytes.  No bytes at all mean that the other side is done. -/
  | bytes (b : Bytes)
  | failed (e : IoError)
  /-- Nothing, until the time for the request is over. -/
  | silence

/-- What sending comes to. -/
inductive Sending
  | sent
  | failed (e : IoError)
  /-- Nobody took the bytes until the time for the request was over. -/
  | stuck

/-- The other side of channels, and how the programs on this side were built. -/
class Network (N : Type) where
  overflow : Overflow
  connect : String → N → Attempt × N
  send : Nat → Bytes → N → Sending × N
  receive : Nat → N → Arrival × N
  hangUp : Nat → N → N
  /-- Let so many milliseconds pass. -/
  pause : Nat → N → N

/-! ## Channels -/

/-- What a session is allowed to ask for. -/
inductive AccessMode
  | readOnly
  | readWrite
  deriving DecidableEq, Repr

/-- The name of a mode. -/
def AccessMode.name : AccessMode → String
  | readOnly => "ReadOnly"
  | readWrite => "ReadWrite"

/-- How a channel connects. -/
structure ChannelConfig where
  socket : String
  /-- Attempts beyond the first one. -/
  retries : UInt32
  /-- Milliseconds between attempts. -/
  backoff : Nat
  /-- Milliseconds that a request may take. -/
  timeout : Nat
  deriving DecidableEq, Repr

/-- A connection of a channel. -/
structure Session where
  line : Nat
  codec : ClientCodec
  /-- Bytes received and not decoded. -/
  received : Bytes

/-- A client's channel to the secret holder. -/
structure Channel where
  config : ChannelConfig
  mode : AccessMode
  session? : Option Session

namespace Channel

/-- A channel without a connection. -/
def new (config : ChannelConfig) (mode : AccessMode) : Channel := ⟨config, mode, none⟩

/-- Whether the channel has a connection. -/
def isConnected (c : Channel) : Bool := c.session?.isSome

/-- The diagnostic rendering. -/
def debug (c : Channel) : String :=
  Text.record "SecretChannel" [("socket", Text.quote c.config.socket), ("mode", c.mode.name)]

/-- The failure of a channel that does not reach its holder. -/
def unavailable (c : ChannelConfig) (attempts : Nat) (reason : String) : SecretError :=
  .unavailable c.socket attempts reason

variable {N : Type} [Network N]

/-! ## Connecting -/

/-- Whether a failed attempt is worth another one. -/
def isTransient (e : IoError) : Bool := e.kind = .connectionRefused || e.kind = .notFound

/-- The attempts number `attempt` and later, `left` of them; `last` is why the one before failed. -/
def attempts (c : ChannelConfig) (last : Option String) (attempt : Nat) :
    (left : Nat) → N → Except SecretError Session × N
  | 0, n => (.error (unavailable c (attempt - 1) (last.getD "no connection attempts made")), n)
  | left + 1, n =>
    let again (reason : String) (n : N) :=
      attempts c (some reason) (attempt + 1) left
        (if left = 0 then n else Network.pause c.backoff n)
    match Network.connect c.socket n with
    | (.connected line, n) => (.ok ⟨line, .fresh, []⟩, n)
    | (.refused e, n) =>
      if isTransient e then again e.message n else (.error (unavailable c attempt e.message), n)
    | (.timedOut, n) => again "connect timed out" n

/-- The number of attempts, a 32-bit word. -/
def attemptCount? (o : Overflow) (c : ChannelConfig) : Option UInt32 := o.add? c.retries 1

/-- A new connection. -/
def connect (c : ChannelConfig) (n : N) : Except SecretError Session × N :=
  match attemptCount? (Network.overflow N) c with
  | none => (.error .overflowed, n)
  | some count => attempts c none 1 count.toNat n

/-! ## Exchanges -/

/-- No response is longer than this many bytes. -/
def maxResponse : Nat := 5 + maxPassphrase

theorem length_lt_of_incomplete {c c' : ClientCodec} {b : Bytes}
    (h : c.decode b = (.incomplete, c')) : b.length < maxResponse := by
  have h : Response.decode c.pending b = .incomplete := by
    unfold ClientCodec.decode at h
    split at h
    · assumption
    · cases h
    · cases h
  unfold Response.decode at h
  split at h
  · simp [maxResponse, maxPassphrase]
  · split at h
    · cases h
    · split at h
      · cases h
      · split at h
        · rename_i rest _ _ _ _ hs
          unfold takeSecret at hs
          simp only at hs
          split at hs
          · simp only [List.length_cons, maxResponse, maxPassphrase]; omega
          · split at hs
            · cases hs
            · split at hs
              · rename_i hm hl
                simp only [List.length_cons, maxResponse]
                omega
              · split at hs <;> cases hs
        · cases h
        · cases h

/-- The failure of an exchange that the time ran out for. -/
def noResponse (c : ChannelConfig) : SecretError :=
  .io ⟨.timedOut, s!"no response within {Text.span c.timeout}"⟩

/-- The next response on a connection. -/
def await (c : ChannelConfig) (s : Session) (n : N) : Except SecretError (Response × Session) × N :=
  match _hdecode : s.codec.decode s.received with
  | (.frame r rest, codec) => (.ok (r, { s with codec := codec, received := rest }), n)
  | (.failed e _, _) => (.error e, n)
  | (.incomplete, codec) =>
    match Network.receive s.line n with
    | (.silence, n) => (.error (noResponse c), n)
    | (.failed e, n) => (.error (.io e), n)
    | (.bytes b, n) =>
      if _hb : b = [] then
        match (Decoded.incomplete (α := Response)).atEnd s.received with
        | .error e => (.error e, n)
        | .ok _ => (.error (.io ⟨.unexpectedEof, "secret holder closed the connection"⟩), n)
      else await c { s with codec := codec, received := s.received ++ b } n
termination_by maxResponse - s.received.length
decreasing_by
  have := length_lt_of_incomplete _hdecode
  have := List.length_pos_iff.2 _hb
  simp only [List.length_append]
  omega

/-- One request and its response. -/
def exchange (c : ChannelConfig) (s : Session) (r : Request) (n : N) :
    Except SecretError (Response × Session) × N :=
  match s.codec.encode r with
  | (.error e, _) => (.error e, n)
  | (.ok b, codec) =>
    match Network.send s.line b n with
    | (.failed e, n) => (.error (.io e), n)
    | (.stuck, n) => (.error (noResponse c), n)
    | (.sent, n) => await c { s with codec := codec } n

/-- The failure of a request whose exchange failed: a failure of input or output means that the
    holder is not there. -/
def exchangeFault (c : ChannelConfig) : SecretError → SecretError
  | .io e => unavailable c 1 e.message
  | other => other

/-- A request on the channel's connection, or on a new one. -/
def request (c : Channel) (r : Request) (n : N) : Except SecretError Response × Channel × N :=
  let opened : Except SecretError Session × N := match c.session? with
    | some s => (.ok s, n)
    | none => connect c.config n
  match opened with
  | (.error e, n) => (.error e, { c with session? := none }, n)
  | (.ok s, n) =>
    match exchange c.config s r n with
    | (.ok (response, s), n) => (.ok response, { c with session? := some s }, n)
    | (.error e, n) =>
      (.error (exchangeFault c.config e), { c with session? := none }, Network.hangUp s.line n)

/-! ## Requests -/

/-- Refuse a location that no frame can carry, or that names nothing. -/
def checkLocation (location : String) : Except SecretError Unit :=
  if location.isEmpty then .error (.badRequest "empty secret location")
  else if maxLocation < location.utf8ByteSize then
    .error (.badRequest s!"secret location is {location.utf8ByteSize} bytes, limit {maxLocation}")
  else .ok ()

/-- The secret in the answer to a read. -/
def secretOf (location : String) (r : Response) : Except SecretError Passphrase :=
  match r.status, r.secret? with
  | .ok, some secret => .ok secret
  | .ok, none => .error (.protocol "OK read response without a secret")
  | status, _ => .error (.ofStatus location status)

/-- Success or the failure in the answer to another request. -/
def successOf (location : String) (r : Response) : Except SecretError Unit :=
  if r.status = .ok then .ok () else .error (.ofStatus location r.status)

/-- The secret at a location. -/
def read (c : Channel) (location : String) (n : N) : Except SecretError Passphrase × Channel × N :=
  match checkLocation location with
  | .error e => (.error e, c, n)
  | .ok () =>
    let (answer, c, n) := c.request (.read location) n
    (answer.bind (secretOf location), c, n)

/-- Put another secret at a location; a channel for reading refuses without asking anybody. -/
def update (c : Channel) (location : String) (secret : Passphrase) (n : N) :
    Except SecretError Unit × Channel × N :=
  if c.mode = .readOnly then
    (.error (.permissionDenied s!"update of '{location}' on a read-only session"), c, n)
  else
    match checkLocation location with
    | .error e => (.error e, c, n)
    | .ok () =>
      let (answer, c, n) := c.request (.update location secret) n
      (answer.bind (successOf location), c, n)

/-- Ask whether the holder is there. -/
def ping (c : Channel) (n : N) : Except SecretError Unit × Channel × N :=
  let (answer, c, n) := c.request .ping n
  (answer.bind (successOf ""), c, n)

/-- Drop the connection, if there is one. -/
def close (c : Channel) (n : N) : Channel × N :=
  match c.session? with
  | some s => ({ c with session? := none }, Network.hangUp s.line n)
  | none => (c, n)

/-- A channel together with what is behind it gives secrets. -/
instance : SecretSource (Channel × N) where
  readSecret location s :=
    let (answer, c, n) := s.1.read location s.2
    (answer, c, n)

end Channel

end Coffer.Keyring
