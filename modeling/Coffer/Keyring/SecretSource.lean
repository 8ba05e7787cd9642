import Coffer.Keyring.Passphrase
/-
  Where secrets come from.
-/
namespace Coffer.Keyring

/-- Something that gives the secret at a location, and may remember that it was asked. -/
class SecretSource (S : Type) where
  readSecret : String → S → Except SecretError Passphrase × S

end Coffer.Keyring
