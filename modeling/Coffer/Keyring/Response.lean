import Coffer.Keyring.Request
/-
  Responses of the secret holder.

      status (1 byte)   [length (4 bytes)   secret]

  A secret follows only a status `ok` that answers a read, so how a response is read depends on the
  request before it.  A `ClientCodec` remembers that request's op until the response has come.
-/
namespace Coffer.Keyring

/-- An answer of the secret holder. -/
structure Response where
  status : Status
  secret? : Option Passphrase

namespace Response

/-- Success without a secret. -/
def done : Response := ⟨.ok, none⟩

/-- Success with a secret. -/
def ofSecret (p : Passphrase) : Response := ⟨.ok, some p⟩

/-- A failure. -/
def failed (s : Status) : Response := ⟨s, none⟩

/-- The bytes of a response. -/
def encode (r : Response) : Bytes :=
  r.status.byte :: match r.secret? with | some p => secretFrame p | none => []

/-- The diagnostic rendering. -/
def debug (r : Response) : String :=
  Text.record "Response"
    [("status", r.status.debug),
     ("secret", match r.secret? with | some p => s!"Some({p.debug})" | none => "None")]

/-- The failure that a byte is no status. -/
def unknownStatus (b : UInt8) : SecretError := .protocol s!"unknown status byte {b.toNat}"

/-- The first response of the bytes `b`, when the last request had the op `pending`. -/
def decode (pending : Option Op) (b : Bytes) : Decoded Response :=
  match b with
  | [] => .incomplete
  | byte :: rest =>
    match Status.ofByte? byte with
    | none => .failed (unknownStatus byte) b
    | some status =>
      if status ≠ .ok ∨ pending ≠ some .read then .frame (failed status) rest
      else
        match takeSecret b rest with
        | .incomplete => .incomplete
        | .failed e left => .failed e left
        | .frame secret left => .frame (ofSecret secret) left

end Response

/-! ## The client's side of the wire -/

/-- The client's side: it writes requests and reads responses. -/
structure ClientCodec where
  /-- The op of a request that was not answered yet. -/
  pending : Option Op
  deriving DecidableEq, Repr

namespace ClientCodec

/-- Before the first request. -/
def fresh : ClientCodec := ⟨none⟩

/-- The bytes of a request. -/
def encode (c : ClientCodec) (r : Request) : Except SecretError Bytes × ClientCodec :=
  match r.encode with
  | .ok b => (.ok b, ⟨some r.op⟩)
  | .error e => (.error e, c)

/-- The first response of the bytes `b`.  The request counts as answered once anything of the
    response is consumed. -/
def decode (c : ClientCodec) (b : Bytes) : Decoded Response × ClientCodec :=
  match Response.decode c.pending b with
  | .incomplete => (.incomplete, c)
  | .frame r rest => (.frame r rest, fresh)
  | .failed e rest => (.failed e rest, if rest.length < b.length then fresh else c)

/-- The diagnostic rendering. -/
def debug (c : ClientCodec) : String :=
  Text.record "ClientCodec"
    [("pending", match c.pending with | some op => s!"Some({op.byte.toNat})" | none => "None")]

end ClientCodec

end Coffer.Keyring
