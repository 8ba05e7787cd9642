import Coffer.Algorithm
import Coffer.Kdf.Cost
/-
  Failures of cipher operations.

  Each failure is a cause with its data; the wording is in one function per type.  `Misuse` lists
  the malformed calls, which are programming errors of the caller; the other constructors of
  `CipherError` are what a correct caller must expect.
-/
namespace Coffer.Cipher

/-- The version of the call contract that a backend implements.  A different `major` is a different
    contract; a larger `minor` only adds to it. -/
structure InterfaceVersion where
  major : UInt16
  minor : UInt16
  deriving DecidableEq, Repr, Inhabited

/-- The written form of a version. -/
def InterfaceVersion.text (v : InterfaceVersion) : String := s!"{v.major.toNat}.{v.minor.toNat}"

/-! ## Malformed calls -/

/-- How a call was malformed. -/
inductive Misuse
  /-- An expanded key does not fit its schedule. -/
  | expandedKeyTooLong (len capacity : Nat)
  /-- A block operation got buffers of other lengths than one block. -/
  | blockBuffers (blockSize input output : Nat)
  /-- A schedule of one direction came to an operation of the other. -/
  | scheduleDirection (schedule operation : Direction)
  /-- A schedule of one direction was to be keyed for the other. -/
  | keyingDirection (schedule keying : Direction)
  | emptyUserKey
  /-- The declared number of bits is not that of the key. -/
  | keyBits (len bits : Nat)
  | zeroBlockSize (cipher : String)
  | ivLength (blockSize len : Nat)
  /-- The two buffers of a call differ in length. -/
  | unequalBuffers (input output : Nat)
  | alreadyConstructed (algorithm : Algorithm)
  | keyDerivation (fault : Kdf.Cost.Fault)
  /-- A backend from outside gives its own reason. -/
  | reported (reason : String)
  deriving DecidableEq, Repr

/-- The text of a misuse. -/
def Misuse.message : Misuse → String
  | expandedKeyTooLong len capacity =>
    s!"expanded key of {len} bytes exceeds schedule capacity {capacity}"
  | blockBuffers blockSize input output =>
    s!"block operation needs {blockSize}-byte buffers, got in={input} out={output}"
  | scheduleDirection schedule operation =>
    s!"{schedule.name} schedule passed to {operation.name} operation"
  | keyingDirection schedule keying =>
    s!"{schedule.name} schedule passed to set_{keying.name}_key"
  | emptyUserKey => "empty user key"
  | keyBits len bits => s!"user key is {len} bytes but {bits} bits were declared"
  | zeroBlockSize cipher => s!"cipher '{cipher}' reports a zero block size"
  | ivLength blockSize len => s!"IV must be {blockSize} bytes, got {len}"
  | unequalBuffers input output => s!"input is {input} bytes but output is {output}"
  | alreadyConstructed algorithm =>
    s!"{algorithm.name} cipher already constructed; register before first use"
  | keyDerivation fault => s!"invalid Argon2id params: {fault.message}"
  | reported reason => reason

/-! ## Failed constructions and keys -/

/-- Why a backend could not be constructed. -/
inductive ConstructionFault
  | unregistered
  /-- The backend that was built serves another algorithm than its slot. -/
  | implementsOther (backend : String) (algorithm : Algorithm)
  | zeroSize (backend : String)
  | noInstructions
  /-- The constructor gives its own reason. -/
  | reported (reason : String)
  deriving DecidableEq, Repr

/-- The text of a construction fault. -/
def ConstructionFault.message : ConstructionFault → String
  | unregistered => "no backend registered"
  | implementsOther backend algorithm => s!"backend '{backend}' implements {algorithm.name}"
  | zeroSize backend => s!"backend '{backend}' reports a zero block or key size"
  | noInstructions => "CPU does not support AES instructions"
  | reported reason => reason

/-- Why a key was refused. -/
inductive KeyFault
  | empty
  | tooLong
  | notAesLength
  deriving DecidableEq, Repr

/-- The text of a key fault. -/
def KeyFault.message : KeyFault → String
  | empty => "empty key"
  | tooLong => "key too long"
  | notAesLength => "AES accepts 16, 24 or 32 byte keys"

/-! ## Failures -/

/-- A failed cipher operation. -/
inductive CipherError
  | invalidArgument (misuse : Misuse)
  /-- A backend speaks a contract that this library does not. -/
  | unsupportedInterfaceVersion (name : String) (found : InterfaceVersion) (supported : UInt16)
  | constructionFailed (algorithm : Algorithm) (fault : ConstructionFault)
  | allocationFailed (bytes : Nat)
  | invalidKeyMaterial (len : Nat) (fault : KeyFault)
  | notInitialized (direction : Direction)
  | invalidBufferLength (len blockSize : Nat)
  deriving DecidableEq, Repr

/-- The text of a failed cipher operation. -/
def CipherError.message : CipherError → String
  | invalidArgument misuse => s!"invalid argument: {misuse.message}"
  | unsupportedInterfaceVersion name found supported =>
    s!"cipher '{name}' implements interface {found.text}, " ++
      s!"this build understands major version {supported.toNat}"
  | constructionFailed algorithm fault =>
    s!"constructing {algorithm.name} cipher failed: {fault.message}"
  | allocationFailed bytes => s!"allocating {bytes} bytes of cipher state failed"
  | invalidKeyMaterial len fault => s!"invalid key material: {len} bytes ({fault.message})"
  | notInitialized direction =>
    s!"{direction.name} key schedule not initialized; call set_key first"
  | invalidBufferLength len blockSize =>
    s!"buffer length {len} is not a multiple of the {blockSize}-byte block size"

end Coffer.Cipher
