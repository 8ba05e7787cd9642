import Coffer.Cipher.Aes.Key
import Coffer.Cipher.Backend
/-
  The AES backends.

  Both backends compute the same cipher; they differ in the slot they serve and in their name.  A
  key has 16, 24 or 32 bytes, and an expanded key occupies 16 bytes for each round and 16 more.
-/
namespace Coffer.Cipher.Aes

/-- Bytes in an AES block. -/
def blockSize : Nat := 16

/-- Bytes of the largest expanded key: fifteen round keys. -/
def maxSchedule : Nat := 15 * blockSize

/-- Round keys as a key for one direction.  A byte string that is no block stays as it is. -/
def RoundKeys.toExpanded (keys : RoundKeys) (d : Direction) : ExpandedKey where
  size := (keys.rounds + 1) * blockSize
  transform block :=
    match State.ofBytes? block with
    | none => block
    | some s => (match d with | .encrypt => keys.encrypt s | .decrypt => keys.decrypt s).toBytes
  length_transform block := by
    split
    · rfl
    · rename_i h
      rw [State.length_toBytes, ← State.toBytes_of_ofBytes? h, State.length_toBytes]

/-- A user key as a key for one direction. -/
def expand (d : Direction) (key : Bytes) : Except CipherError ExpandedKey :=
  match expandKey? key with
  | some keys => .ok (keys.toExpanded d)
  | none => .error (.invalidKeyMaterial key.length .notAesLength)

/-- Key a schedule: the key is checked, then the schedule's direction, then the key's length, then
    the room for it. -/
def keySchedule (d : Direction) (s : KeySchedule) (key : Bytes) (bits : Nat) :
    Except CipherError KeySchedule := do
  checkUserKey key bits
  if s.direction ≠ d then throw (.invalidArgument (.keyingDirection s.direction d))
  s.install (← expand d key)

/-- An AES backend for one slot. -/
def backend (algorithm : Algorithm) (name : String) : BlockCipher where
  algorithm := algorithm
  name := name
  version := currentInterface
  blockSize := blockSize
  keySize := maxSchedule
  setKey d s key bits :=
    match keySchedule d s key bits with
    | .ok s' => (.ok (), s')
    | .error e => (.error e, s)
  block := transformBlock blockSize
  length_block := length_transformBlock blockSize

/-- AES in plain arithmetic. -/
def portable : BlockCipher := backend .aes "AES (portable)"

/-- AES on the instructions of the processor. -/
def accelerated : BlockCipher := backend .aesAccel "AES (hardware accelerated)"

end Coffer.Cipher.Aes
