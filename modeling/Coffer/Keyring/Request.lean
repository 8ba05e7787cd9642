import Coffer.Keyring.Wire
/-
  Requests to the secret holder.

      op (1 byte)   length (2 bytes)   location   [length (4 bytes)   secret]

  The op is the letter `R`, `U` or `P`; only an update carries a secret.  `Request.encode` writes a
  request and `Request.decode` reads the first one of the bytes received.
-/
namespace Coffer.Keyring

/-! ## Ops -/

/-- What is asked for. -/
inductive Op
  | read
  | update
  | ping
  deriving DecidableEq, Repr

namespace Op

/-- The letter of an op. -/
def byte : Op → UInt8
  | read => 0x52
  | update => 0x55
  | ping => 0x50

/-- The op of a letter. -/
def ofByte? (b : UInt8) : Option Op := [read, update, ping].find? (·.byte == b)

@[simp] theorem ofByte?_byte (op : Op) : ofByte? op.byte = some op := by cases op <;> rfl

/-- The name of an op. -/
def name : Op → String
  | read => "Read"
  | update => "Update"
  | ping => "Ping"

end Op

/-! ## Requests -/

/-- A request to the secret holder. -/
inductive Request
  | read (location : String)
  | update (location : String) (secret : Passphrase)
  /-- A location in a ping means nothing, and a client sends the empty one. -/
  | ping

/-- The longest location on the wire, in bytes. -/
def maxLocation : Nat := 65535

namespace Request

/-- The op of a request. -/
def op : Request → Op
  | read _ => .read
  | update _ _ => .update
  | ping => .ping

/-- The location that a request is about. -/
def location : Request → String
  | read location => location
  | update location _ => location
  | ping => ""

/-- The secret that a request carries. -/
def secret? : Request → Option Passphrase
  | update _ secret => some secret
  | _ => none

/-- The bytes of a request. -/
def encode (r : Request) : Except SecretError Bytes :=
  let location := utf8 r.location
  if maxLocation < location.length then
    .error (.badRequest s!"location is {location.length} bytes, limit {maxLocation}")
  else
    .ok (r.op.byte :: be16 location.length ++ location ++
      match r.secret? with | some p => secretFrame p | none => [])

/-- The text of a location. -/
def locationOf (b : Bytes) : Except SecretError String :=
  match ofUtf8? b with
  | some s => .ok s
  | none => .error (.badRequest "location is not UTF-8")

/-- A request without a secret, whose bytes end before `rest`. -/
def plain (op : Op) (location rest : Bytes) : Decoded Request :=
  match locationOf location with
  | .error e => .failed e rest
  | .ok l => .frame (if op = .ping then .ping else .read l) rest

/-- The update of the secret in front of `b`, which stands behind the location.  Its length is
    looked at first and its location next, and its bytes last. -/
def withSecret (whole location b : Bytes) : Decoded Request :=
  match takeSecret whole b, locationOf location with
  | .incomplete, _ => .incomplete
  | .failed .tooLarge _, _ => .failed .tooLarge whole
  | _, .error e => .failed e b
  | .failed e rest, .ok _ => .failed e rest
  | .frame secret rest, .ok l => .frame (.update l secret) rest

/-- The text of an unknown op. -/
def unknownOp (b : UInt8) : SecretError :=
  .badRequest s!"unknown op byte 0x{Text.hexByte b}"

/-- The first request of the bytes `b`. -/
def decode (b : Bytes) : Decoded Request :=
  match b with
  | letter :: high :: low :: rest =>
    match Op.ofByte? letter with
    | none => .failed (unknownOp letter) b
    | some op =>
      let size := bigEndian [high, low]
      if rest.length < size then .incomplete
      else if op = .update then withSecret b (rest.take size) (rest.drop size)
      else plain op (rest.take size) (rest.drop size)
  | _ => .incomplete

/-- **A request uses up some of the bytes received.** -/
theorem length_rest_decode {b rest : Bytes} {r : Request} (h : decode b = .frame r rest) :
    rest.length < b.length := by
  unfold decode at h
  split at h
  · split at h
    · cases h
    · simp only at h
      split at h
      · cases h
      · split at h
        · unfold withSecret at h
          split at h <;> cases h
          have := length_rest_takeSecret (by assumption)
          simp only [List.length_drop, List.length_cons] at *
          omega
        · unfold plain at h
          split at h
          · cases h
          · cases h
            simp only [List.length_drop, List.length_cons]
            omega
  · cases h

end Request

end Coffer.Keyring
