import Coffer.Bytes
/-
  Little-endian words.

  The digests of this library read their input as words of 32 or 64 bits, the lowest byte first.
-/
namespace Coffer.Digest

/-- The number whose little-endian digits are the bytes `b`. -/
def littleEndian (b : Bytes) : Nat := b.foldr (fun x n => x.toNat + 256 * n) 0

/-- The `count` lowest bytes of `n`, the lowest first. -/
def leBytes : (count n : Nat) → Bytes
  | 0, _ => []
  | count + 1, n => UInt8.ofNat n :: leBytes count (n / 256)

@[simp] theorem length_leBytes (count n : Nat) : (leBytes count n).length = count := by
  induction count generalizing n with
  | zero => rfl
  | succ k ih => simp [leBytes, ih]

/-- `b` with zeros added up to `size` bytes. -/
def zeroFilled (size : Nat) (b : Bytes) : Bytes := b ++ List.replicate (size - b.length) 0

/-- The pieces of `size` bytes of `b`, the last one possibly shorter; one empty piece when `b` is
    empty. -/
def pieces (size : Nat) (b : Bytes) : List Bytes :=
  let whole := (b.length - 1) / size
  blocksUpTo size whole b ++ [b.drop (whole * size)]

/-- The 64-bit words of a byte string. -/
def words64 (b : Bytes) : Array UInt64 :=
  ((blocks 8 b).map fun w => UInt64.ofNat (littleEndian w)).toArray

/-- The bytes of 64-bit words. -/
def bytes64 (ws : Array UInt64) : Bytes := ws.toList.flatMap fun w => leBytes 8 w.toNat

/-- The 32-bit words of a byte string. -/
def words32 (b : Bytes) : Array UInt32 :=
  ((blocks 4 b).map fun w => UInt32.ofNat (littleEndian w)).toArray

/-- The bytes of 32-bit words. -/
def bytes32 (ws : Array UInt32) : Bytes := ws.toList.flatMap fun w => leBytes 4 w.toNat

end Coffer.Digest
