import Coffer.Cipher.Error
import Coffer.Digest.Blake3
import Coffer.Kdf.Argon2
import Coffer.Text.Quoted
/-
  Cipher keys from passphrases.

  `deriveKey` turns a passphrase and a salt into a 32-byte key, at a cost the caller chooses;
  `keyCheck` is a fingerprint of a key that gives nothing of it away.  A container stores the
  fingerprint, so a wrong passphrase is noticed before anything is decrypted.
-/
namespace Coffer.Kdf

/-- Bytes in a derived key. -/
def keySize : Nat := 32

/-- Bytes in a salt. -/
def saltSize : Nat := 16

/-- Bytes in a key check value. -/
def keyCheckSize : Nat := 16

/-- The context that separates key check values from every other use of the digest. -/
def keyCheckContext : String := "vfcrypt key check v1"

/-- The key of a passphrase and a salt. -/
def deriveKey (passphrase salt : Bytes) (cost : Cost) : Except Cipher.CipherError Bytes :=
  match cost.fault? with
  | some fault => .error (.invalidArgument (.keyDerivation fault))
  | none => .ok (Argon2.tag cost keySize passphrase salt)

/-- The check value of a key. -/
def keyCheck (key : Bytes) : Bytes :=
  (Digest.Blake3.deriveKey keyCheckContext key).take keyCheckSize

/-- The diagnostic rendering of any derived key. -/
def debugKey : String := Text.record "DerivedKey" [("bytes", Text.quote "[REDACTED]")]

end Coffer.Kdf
