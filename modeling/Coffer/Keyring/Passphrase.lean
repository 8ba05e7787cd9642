import Coffer.Bytes
import Coffer.Keyring.Error
import Coffer.Text.Quoted
/-
  Passphrases.

  A `Passphrase` is between 1 and 4096 bytes without a carriage return or a line feed.  The rule is
  part of the type; `Passphrase.ofBytes` is the way in, and it names the first rule that is broken.
-/
namespace Coffer.Keyring

/-- The longest passphrase. -/
def maxPassphrase : Nat := 4096

/-- Whether `b` ends a line or begins its end. -/
def isLineBreak (b : UInt8) : Bool := b == 10 || b == 13

/-- The first rule that `b` breaks as a passphrase. -/
def passphraseFault? (b : Bytes) : Option SecretError :=
  if maxPassphrase < b.length then some .tooLarge
  else if b.isEmpty then some (.badRequest "empty passphrase")
  else if b.any isLineBreak then some .forbiddenByte
  else none

/-- Bytes that keep the rules. -/
structure Passphrase where
  bytes : Bytes
  faultless : passphraseFault? bytes = none

namespace Passphrase

/-- The passphrase of these bytes. -/
def ofBytes (b : Bytes) : Except SecretError Passphrase :=
  match h : passphraseFault? b with
  | some e => .error e
  | none => .ok ⟨b, h⟩

@[simp] theorem ofBytes_bytes (p : Passphrase) : ofBytes p.bytes = .ok p := by
  unfold ofBytes
  split
  · rename_i e h; rw [p.faultless] at h; cases h
  · rfl

/-- Bytes in the passphrase. -/
def size (p : Passphrase) : Nat := p.bytes.length

/-- The diagnostic rendering; it shows the length only. -/
def debug (p : Passphrase) : String :=
  Text.record "Passphrase" [("len", toString p.size), ("bytes", Text.quote "[REDACTED]")]

end Passphrase

end Coffer.Keyring
