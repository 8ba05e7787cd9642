import Coffer.Bytes
import Coffer.Cipher.Error
import Coffer.Text.Quoted
/-
  The contract of a block cipher backend.

  A `BlockCipher` knows its sizes, expands a user key into a `KeySchedule` and transforms exactly
  one block at a time.  It keeps no state: everything that depends on a key is in the schedule the
  caller passes.  A buffer never changes its length, which is why `ExpandedKey.transform` and
  `BlockCipher.block` carry their length laws with them.

  * `KeySchedule.install`, `expanded` — a schedule takes what fits and hands out what it has;
  * `checkUserKey`                    — the checks every backend makes on a user key;
  * `transformBlock`                  — one block through the key a schedule holds; on a failure the
                                        output is as it was.
-/
namespace Coffer.Cipher

/-- The contract version of this library. -/
def currentInterface : InterfaceVersion := ⟨1, 0⟩

/-! ## Key schedules -/

/-- A key made ready for one direction. -/
structure ExpandedKey where
  /-- Bytes the expanded key occupies. -/
  size : Nat
  /-- One block through the key. -/
  transform : Bytes → Bytes
  length_transform : ∀ block, (transform block).length = block.length

/-- Room for the expanded key of one direction. -/
structure KeySchedule where
  direction : Direction
  /-- Bytes an expanded key may occupy here. -/
  capacity : Nat
  /-- The key that was installed, if any. -/
  key? : Option ExpandedKey

namespace KeySchedule

/-- An unset schedule. -/
def empty (direction : Direction) (capacity : Nat) : KeySchedule := ⟨direction, capacity, none⟩

/-- Whether a key is installed. -/
def isSet (s : KeySchedule) : Bool := s.key?.isSome

/-- Bytes the installed key occupies; none when unset. -/
def size (s : KeySchedule) : Nat := (s.key?.map (·.size)).getD 0

/-- The schedule with `key` installed; refused when the key does not fit. -/
def install (s : KeySchedule) (key : ExpandedKey) : Except CipherError KeySchedule :=
  if s.capacity < key.size then .error (.invalidArgument (.expandedKeyTooLong key.size s.capacity))
  else .ok { s with key? := some key }

/-- The schedule without its key. -/
def clear (s : KeySchedule) : KeySchedule := { s with key? := none }

/-- The installed key. -/
def expanded (s : KeySchedule) : Except CipherError ExpandedKey :=
  match s.key? with
  | some key => .ok key
  | none => .error (.notInitialized s.direction)

/-- The diagnostic rendering of a schedule; it shows no key material. -/
def debug (s : KeySchedule) : String :=
  Text.record "KeySchedule"
    [("direction", s.direction.debug), ("capacity", toString s.capacity),
     ("set", toString s.isSet)]

end KeySchedule

/-! ## Backends -/

/-- One block cipher.  `setKey` and `block` serve both directions; each gives the outcome and what
    the schedule or the output buffer holds afterwards. -/
structure BlockCipher where
  algorithm : Algorithm
  name : String
  version : InterfaceVersion
  /-- Bytes in a block. -/
  blockSize : Nat
  /-- The largest expanded key, in bytes. -/
  keySize : Nat
  /-- Expand a user key of the declared number of bits into a schedule. -/
  setKey : Direction → KeySchedule → (key : Bytes) → (bits : Nat) →
    Except CipherError Unit × KeySchedule
  /-- Transform `input` into the buffer `output`. -/
  block : Direction → (input output : Bytes) → KeySchedule → Except CipherError Unit × Bytes
  length_block : ∀ d input output s, (block d input output s).2.length = output.length

/-- Refuse a backend of another contract. -/
def ensureSupported (cipher : BlockCipher) : Except CipherError Unit :=
  if cipher.version.major = currentInterface.major then .ok ()
  else .error (.unsupportedInterfaceVersion cipher.name cipher.version currentInterface.major)

/-- The diagnostic rendering of a version. -/
def InterfaceVersion.debug (v : InterfaceVersion) : String :=
  Text.record "InterfaceVersion"
    [("major", toString v.major.toNat), ("minor", toString v.minor.toNat)]

/-- The diagnostic rendering of a backend. -/
def BlockCipher.debug (c : BlockCipher) : String :=
  Text.record "BlockCipher"
    [("algorithm", c.algorithm.debug), ("name", Text.quote c.name), ("version", c.version.debug),
     ("block_size", toString c.blockSize)]

/-! ## What backends share -/

/-- The checks on a user key: it is not empty and the declared bits are its own. -/
def checkUserKey (key : Bytes) (bits : Nat) : Except CipherError Unit :=
  if key.isEmpty then .error (.invalidArgument .emptyUserKey)
  else if bits ≠ key.length * 8 then .error (.invalidArgument (.keyBits key.length bits))
  else .ok ()

/-- One block of `input` into `output` through the key that `s` holds for direction `d`. -/
def transformBlock (blockSize : Nat) (d : Direction) (input output : Bytes) (s : KeySchedule) :
    Except CipherError Unit × Bytes :=
  if input.length ≠ blockSize ∨ output.length ≠ blockSize then
    (.error (.invalidArgument (.blockBuffers blockSize input.length output.length)), output)
  else if s.direction ≠ d then
    (.error (.invalidArgument (.scheduleDirection s.direction d)), output)
  else match s.expanded with
    | .error e => (.error e, output)
    | .ok key => (.ok (), key.transform input)

theorem length_transformBlock (blockSize : Nat) (d : Direction) (input output : Bytes)
    (s : KeySchedule) : (transformBlock blockSize d input output s).2.length = output.length := by
  unfold transformBlock
  split
  · rfl
  · rename_i h
    split
    · rfl
    · split
      · rfl
      · simp only [ExpandedKey.length_transform]; omega

end Coffer.Cipher
