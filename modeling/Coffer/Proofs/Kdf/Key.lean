import Coffer.Kdf.Key
/-
  The sizes of derived keys and of key check values.

  Both digests keep a state of eight words from the first compression to the last, so a derived key
  has 32 bytes (`length_deriveKey`) and a key check value has 16 (`length_keyCheck`), whatever they
  are made of.
-/
namespace Coffer.Digest

theorem length_flatMap_of_length_eq {α : Type} {f : α → Bytes} {n : Nat} (h : ∀ x, (f x).length = n)
    (xs : List α) : (xs.flatMap f).length = xs.length * n := by
  induction xs with
  | nil => exact (Nat.zero_mul n).symm
  | cons x xs ih =>
    rw [List.flatMap_cons, List.length_append, h, ih, List.length_cons, Nat.succ_mul, Nat.add_comm]

theorem length_bytes64 (ws : Array UInt64) : (bytes64 ws).length = ws.size * 8 :=
  length_flatMap_of_length_eq (fun _ => length_leBytes 8 _) ws.toList

theorem length_bytes32 (ws : Array UInt32) : (bytes32 ws).length = ws.size * 4 :=
  length_flatMap_of_length_eq (fun _ => length_leBytes 4 _) ws.toList

namespace Blake2b

theorem size_compress (h : Array UInt64) (piece : Bytes) (count : Nat) (isLast : Bool) :
    (compress h piece count isLast).size = h.size := by
  rw [compress, Array.size_mapIdx]

theorem size_absorb (h : Array UInt64) (count : Nat) (pieces : List Bytes) :
    (absorb h count pieces).size = h.size := by
  fun_induction absorb h count pieces with
  | case1 h count => rfl
  | case2 h count piece => exact size_compress h piece _ _
  | case3 h count piece rest hne ih => rw [ih, size_compress]

/-- **A digest has the size that is asked for.** -/
theorem length_hash {size : Nat} (h : size ≤ 64) (input : Bytes) : (hash size input).length = size := by
  have hstart : (initial.modify 0 (· ^^^ UInt64.ofNat (0x01010000 + size))).size = 8 := by
    rw [Array.size_modify]
    rfl
  rw [hash, List.length_take, length_bytes64, size_absorb, hstart]
  omega

end Blake2b

namespace Blake3

theorem size_compress (chaining : Array UInt32) (block : Bytes) (marks : Marks) :
    (compress chaining block marks).size = chaining.size := by
  rw [compress, Array.size_mapIdx]

theorem size_absorb (purpose start : UInt32) (chaining : Array UInt32) (blocks : List Bytes) :
    (absorb purpose start chaining blocks).size = chaining.size := by
  fun_induction absorb purpose start chaining blocks with
  | case1 => rfl
  | case2 => exact size_compress _ _ _
  | case3 _ _ _ _ _ ih => rw [ih, size_compress]

theorem length_deriveKey (context : String) (material : Bytes) :
    (deriveKey context material).length = 32 := by
  have hsize (purpose : UInt32) (key : Array UInt32) (input : Bytes) :
      (hashChunk purpose key input).size = key.size := size_absorb purpose 1 key _
  rw [deriveKey, length_bytes32, hsize, hsize]
  rfl

end Blake3

end Coffer.Digest

namespace Coffer.Kdf

open Digest (Blake2b.length_hash Blake3.length_deriveKey)

/-- **A derived key has 32 bytes.** -/
theorem length_deriveKey {passphrase salt key : Bytes} {cost : Cost}
    (h : deriveKey passphrase salt cost = .ok key) : key.length = keySize := by
  rcases hf : cost.fault? with _ | fault
  · simp only [deriveKey, hf] at h
    rw [← Except.ok.inj h, Argon2.tag, Argon2.longHash, if_pos (by decide)]
    exact Blake2b.length_hash (by decide) _
  · simp only [deriveKey, hf] at h
    cases h

/-- **A key check value has 16 bytes.** -/
theorem length_keyCheck (key : Bytes) : (keyCheck key).length = keyCheckSize := by
  rw [keyCheck, List.length_take, Blake3.length_deriveKey]
  rfl

end Coffer.Kdf
