import Coffer.Stream.Error
/-
  Failures of the secret holder.

  A `SecretError` is what a store, a server or a channel reports.  On the wire a failure is one
  `Status` byte: `SecretError.status` says which, and `SecretError.ofStatus` is the failure that a
  client makes of a byte it received.
-/
namespace Coffer.Keyring

/-! ## Statuses -/

/-- The answer byte of the secret holder. -/
inductive Status
  | ok
  | notConfigured
  | storeUnreadable
  | tooLarge
  | forbiddenByte
  | writeIncomplete
  | badRequest
  deriving DecidableEq, Repr, Inhabited

namespace Status

/-- Every status, in the order of their bytes. -/
def all : List Status :=
  [ok, notConfigured, storeUnreadable, tooLarge, forbiddenByte, writeIncomplete, badRequest]

/-- The byte of a status. -/
def byte : Status → UInt8
  | ok => 0
  | notConfigured => 1
  | storeUnreadable => 2
  | tooLarge => 3
  | forbiddenByte => 4
  | writeIncomplete => 5
  | badRequest => 6

/-- The status of a byte. -/
def ofByte? (b : UInt8) : Option Status := all[b.toNat]?

@[simp] theorem ofByte?_byte (s : Status) : ofByte? s.byte = some s := by cases s <;> rfl

/-- The name of a status in a diagnostic rendering. -/
def debug : Status → String
  | ok => "Ok"
  | notConfigured => "NotConfigured"
  | storeUnreadable => "StoreUnreadable"
  | tooLarge => "TooLarge"
  | forbiddenByte => "ForbiddenByte"
  | writeIncomplete => "WriteIncomplete"
  | badRequest => "BadRequest"

end Status

/-! ## Failures -/

/-- A failed request for a secret. -/
inductive SecretError
  /-- The holder could not be reached, or the exchange broke off. -/
  | unavailable (socket : String) (attempts : Nat) (reason : String)
  | permissionDenied (what : String)
  | notConfigured (location : String)
  | storeUnreadable (location reason : String)
  | tooLarge
  /-- A secret with a carriage return or a line feed in it. -/
  | forbiddenByte
  | writeIncomplete (location reason : String)
  | badRequest (what : String)
  | protocol (what : String)
  | io (e : IoError)
  /-- No failure that is told: a number did not fit into its word, and the program has stopped. -/
  | overflowed
  deriving DecidableEq, Repr

namespace SecretError

/-- The text of a failure. -/
def message : SecretError → String
  | unavailable socket attempts reason =>
    s!"secret holder at {socket} unavailable after {attempts} attempt(s): {reason}"
  | permissionDenied what => s!"permission denied: {what}"
  | notConfigured location => s!"no secret configured at '{location}'"
  | storeUnreadable location reason => s!"secret store unreadable at '{location}': {reason}"
  | tooLarge => "secret exceeds 4096 bytes"
  | forbiddenByte => "secret contains a forbidden CR or LF byte"
  | writeIncomplete location reason =>
    s!"write-back to secret store incomplete at '{location}': {reason}"
  | badRequest what => s!"bad request: {what}"
  | protocol what => s!"protocol error: {what}"
  | io e => s!"I/O error: {e.message}"
  | overflowed => ""

/-- The status that tells a client of this failure. -/
def status : SecretError → Status
  | notConfigured _ => .notConfigured
  | storeUnreadable _ _ | io _ => .storeUnreadable
  | tooLarge => .tooLarge
  | forbiddenByte => .forbiddenByte
  | writeIncomplete _ _ => .writeIncomplete
  | unavailable _ _ _ | permissionDenied _ | badRequest _ | protocol _ | overflowed => .badRequest

/-- The failure that a client makes of a status it received for `location`. -/
def ofStatus (location : String) : Status → SecretError
  | .ok => protocol "OK status treated as failure"
  | .notConfigured => notConfigured location
  | .storeUnreadable => storeUnreadable location "reported by secret holder"
  | .tooLarge => tooLarge
  | .forbiddenByte => forbiddenByte
  | .writeIncomplete => writeIncomplete location "reported by secret holder"
  | .badRequest => badRequest s!"secret holder rejected request for '{location}'"

/-- **A failure status survives the way to the client and back.** -/
theorem status_ofStatus (location : String) {s : Status} (h : s ≠ .ok) :
    (ofStatus location s).status = s := by
  cases s <;> first | rfl | exact absurd rfl h

/-- Whether the holder could not be reached. -/
def isUnavailable : SecretError → Bool
  | unavailable _ _ _ => true
  | _ => false

end SecretError

end Coffer.Keyring
