import Coffer.Cipher.Error
import Coffer.Keyring.Error
/-
  Failures of opening, reading and writing resources.

  `FormatFault` lists what can be wrong with a container; `ResolveError` adds everything around it.
  Inside a byte stream only failures of input and output can be reported, so `ResolveError.toIo`
  wraps the others as invalid data with their text.
-/
namespace Coffer.Resource

/-- What is wrong with a container. -/
inductive FormatFault
  | truncatedHeader
  | badMagic
  | version (found : UInt8)
  | tag (found : UInt8)
  | memoryCost (found limit : Nat)
  | timeCost (found limit : Nat)
  | parallelism (found limit : Nat)
  /-- The cipher's blocks are not of the size that containers hold. -/
  | blockSize (algorithm : Algorithm) (found needed : Nat)
  | emptyBody
  | partialBlock (trailing : Nat)
  | padding
  deriving DecidableEq, Repr

/-- The text of a fault. -/
def FormatFault.message : FormatFault → String
  | truncatedHeader => "truncated header"
  | badMagic => "bad magic; not a vfcrypt container"
  | version found => s!"unsupported format version {found.toNat}"
  | tag found => s!"unknown algorithm tag {found.toNat}"
  | memoryCost found limit => s!"Argon2 memory cost (KiB) {found} exceeds {limit}"
  | timeCost found limit => s!"Argon2 time cost {found} exceeds {limit}"
  | parallelism found limit => s!"Argon2 parallelism {found} exceeds {limit}"
  | blockSize algorithm found needed =>
    s!"{algorithm.name} has a {found}-byte block; containers need {needed}"
  | emptyBody => "body is empty; padding block missing"
  | partialBlock trailing => s!"body is truncated: {trailing} trailing bytes do not form a block"
  | padding => "invalid padding; wrong key or corrupted data"

/-- A failed operation on a resource. -/
inductive ResolveError
  | unsupportedScheme (scheme : String)
  | invalidPath (path reason : String)
  | invalidParameter (name reason : String)
  /-- No local file is behind the scheme. -/
  | notLocal (scheme : String)
  | secret (e : Keyring.SecretError)
  | cipher (e : Cipher.CipherError)
  /-- The constructor of a backend did not return. -/
  | constructorCrashed
  | wrongPassphrase
  | algorithmMismatch (declared found : Algorithm)
  | format (fault : FormatFault)
  | io (e : IoError)
  deriving DecidableEq, Repr

namespace ResolveError

/-- The text of a failure. -/
def message : ResolveError → String
  | unsupportedScheme scheme => s!"unsupported scheme '{scheme}'"
  | invalidPath path reason => s!"invalid resource path '{path}': {reason}"
  | invalidParameter name reason => s!"invalid parameter '{name}': {reason}"
  | notLocal scheme => s!"scheme '{scheme}' does not name a local file"
  | secret e => s!"secret: {e.message}"
  | cipher e => s!"cipher: {e.message}"
  | constructorCrashed => ""
  | wrongPassphrase => "passphrase does not match the key this resource was encrypted with"
  | algorithmMismatch declared found =>
    s!"resource declares cipher {declared.name} but was encrypted with {found.name}"
  | format fault => s!"malformed encrypted resource: {fault.message}"
  | io e => s!"I/O error: {e.message}"

/-- The failure as a byte stream reports it. -/
def toIo : ResolveError → IoError
  | io e => e
  | other => ⟨.invalidData, other.message⟩

/-- Whether the secret holder could not be reached. -/
def isSecretUnavailable : ResolveError → Bool
  | secret e => e.isUnavailable
  | _ => false

end ResolveError

end Coffer.Resource
