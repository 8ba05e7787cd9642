import Coffer.Container.Padding
import Coffer.Proofs.Bytes
/-
  What padding is, and that its two functions keep to it.

  `Padded size data plain` says it without a program: `plain` is `data` and then `n` bytes that hold
  `n`, with `0 < n ≤ size`.  `pad` makes such a text (`padded_pad`), of whole blocks
  (`length_pad_mod`), and `unpaddedSize` finds the data in the last block of one, and in the last
  block of nothing else (`padded_append_iff`).

  A byte holds the number of padding bytes modulo 256 only, so a last block tells the truth about its
  data as long as no more than 255 bytes were added (`unpaddedSize_lastBlock`).
-/
namespace Coffer.Container

open Resource (ResolveError)

/-- `plain` is `data` with padding for blocks of `size` bytes. -/
def Padded (size : Nat) (data plain : Bytes) : Prop :=
  ∃ n, 0 < n ∧ n ≤ size ∧ n < 256 ∧ plain = data ++ List.replicate n (UInt8.ofNat n)

/-! ## Adding padding -/

theorem padCount_pos {size : Nat} (hsize : 0 < size) (len : Nat) : 0 < padCount size len := by
  have h := Nat.mod_lt len hsize
  rw [padCount]
  omega

theorem padCount_le (size len : Nat) : padCount size len ≤ size := Nat.sub_le _ _

/-- A length and its padding are one block more than its whole blocks. -/
theorem add_padCount {size : Nat} (hsize : 0 < size) (len : Nat) :
    len + padCount size len = (len / size + 1) * size := by
  have hlt := Nat.mod_lt len hsize
  have hdiv := Nat.div_add_mod len size
  rw [Nat.mul_comm] at hdiv
  rw [padCount, Nat.succ_mul]
  omega

/-- **Padding reaches the next whole block,** one further where a whole block is reached already. -/
theorem length_pad {size : Nat} (hsize : 0 < size) (b : Bytes) :
    (pad size b).length = (b.length / size + 1) * size := by
  rw [pad, List.length_append, List.length_replicate, add_padCount hsize]

theorem length_pad_mod {size : Nat} (hsize : 0 < size) (b : Bytes) :
    (pad size b).length % size = 0 := by
  rw [length_pad hsize, Nat.mul_mod_left]

/-- Padding looks at no more than the bytes behind the whole blocks. -/
theorem pad_append {size : Nat} {a : Bytes} (ha : a.length % size = 0) (b : Bytes) :
    pad size (a ++ b) = a ++ pad size b := by
  have hcount : padCount size (a ++ b).length = padCount size b.length := by
    rw [padCount, padCount, List.length_append, Nat.add_mod, ha, Nat.zero_add, Nat.mod_mod]
  rw [pad, pad, hcount, List.append_assoc]

/-- The rest of some data is padded as the data is. -/
theorem rest_append_padding (size : Nat) (b : Bytes) :
    rest size b ++ List.replicate (padCount size b.length) (UInt8.ofNat (padCount size b.length)) =
      pad size (rest size b) := by
  have happ : (blocks size b).flatten ++ pad size (rest size b) = pad size b := by
    rw [← pad_append (length_flatten_blocks_mod size b), flatten_blocks_append_rest]
  refine List.append_cancel_left (?_ : (blocks size b).flatten ++ _ = (blocks size b).flatten ++ _)
  rw [happ, ← List.append_assoc, flatten_blocks_append_rest]
  rfl

theorem padded_pad {size : Nat} (hsize : 0 < size) {b : Bytes}
    (hcount : padCount size b.length < 256) : Padded size b (pad size b) :=
  ⟨padCount size b.length, padCount_pos hsize _, padCount_le _ _, hcount, rfl⟩

/-- Padding is never empty. -/
theorem Padded.ne_nil {size : Nat} {data plain : Bytes} (h : Padded size data plain) : plain ≠ [] := by
  obtain ⟨n, hpos, -, -, rfl⟩ := h
  refine List.length_pos_iff.mp ?_
  rw [List.length_append, List.length_replicate]
  omega

/-! ## Finding the data again -/

/-- **A last block is accepted exactly when it ends in padding.** -/
theorem unpaddedSize_eq_ok_iff {block : Bytes} {k : Nat} :
    unpaddedSize block = .ok k ↔ ∃ n, 0 < n ∧ n < 256 ∧ k + n = block.length ∧
      block.drop k = List.replicate n (UInt8.ofNat n) := by
  constructor
  · intro h
    rcases hl : block.getLast? with _ | last
    · simp only [unpaddedSize, hl] at h
      cases h
    · simp only [unpaddedSize, hl] at h
      split at h
      · cases h
      · rename_i hn
        split at h
        · rename_i hall
          cases h
          have hlast := last.toNat_lt
          refine ⟨last.toNat, by omega, hlast, by omega, ?_⟩
          rw [UInt8.ofNat_toNat]
          refine List.eq_replicate_iff.mpr ⟨?_, ?_⟩
          · rw [List.length_drop]
            omega
          · intro x hx
            exact eq_of_beq (List.all_eq_true.mp hall x hx)
        · cases h
  · rintro ⟨n, hpos, hlt, hlen, hdrop⟩
    have hback : block = block.take k ++ List.replicate n (UInt8.ofNat n) := by
      rw [← hdrop, List.take_append_drop]
    have hlast : block.getLast? = some (UInt8.ofNat n) := by
      rw [hback, List.getLast?_append, List.getLast?_replicate, if_neg (by omega)]
      rfl
    have htoNat : (UInt8.ofNat n).toNat = n := by
      rw [UInt8.toNat_ofNat']
      exact Nat.mod_eq_of_lt hlt
    have hk : block.length - n = k := by omega
    simp only [unpaddedSize, hlast, htoNat, hk, hdrop]
    rw [if_neg (by omega), if_pos]
    refine List.all_eq_true.mpr ?_
    intro x hx
    rw [List.eq_of_mem_replicate hx]
    exact beq_self_eq_true _

/-- Every refusal is one of bad padding. -/
theorem unpaddedSize_eq_error {block : Bytes} {e : ResolveError}
    (h : unpaddedSize block = .error e) : e = .format .padding := by
  rcases hl : block.getLast? with _ | last
  · simp only [unpaddedSize, hl] at h
    cases h
    rfl
  · simp only [unpaddedSize, hl] at h
    split at h
    · cases h
      rfl
    · split at h
      · cases h
      · cases h
        rfl

/-- **The last block alone tells whether a text is padded, and where its data ends.** -/
theorem padded_append_iff {size : Nat} {front tail data : Bytes} (htail : tail.length = size) :
    Padded size data (front ++ tail) ↔ ∃ k, unpaddedSize tail = .ok k ∧ data = front ++ tail.take k := by
  constructor
  · rintro ⟨n, hpos, hle, hlt, hplain⟩
    have hlen := congrArg List.length hplain
    rw [List.length_append, List.length_append, List.length_replicate] at hlen
    -- The padding lies within the last block, so the data reaches at least to its start.
    have hfront : front.length + (size - n) = data.length := by omega
    refine ⟨size - n, unpaddedSize_eq_ok_iff.mpr ⟨n, hpos, hlt, by omega, ?_⟩, ?_⟩
    · have hdrop := congrArg (List.drop data.length) hplain
      rwa [List.drop_left, ← hfront, List.drop_length_add_append] at hdrop
    · have htake := congrArg (List.take data.length) hplain
      rw [List.take_left, ← hfront, List.take_length_add_append] at htake
      exact htake.symm
  · rintro ⟨k, hk, rfl⟩
    obtain ⟨n, hpos, hlt, hlen, hdrop⟩ := unpaddedSize_eq_ok_iff.mp hk
    refine ⟨n, hpos, by omega, hlt, ?_⟩
    rw [← hdrop, List.append_assoc, List.take_append_drop]

/-- A text is padded in one way only. -/
theorem Padded.unique {size : Nat} {data data' plain : Bytes} (h : Padded size data plain)
    (h' : Padded size data' plain) : data = data' := by
  obtain ⟨n, hpos, -, hlt, rfl⟩ := h
  obtain ⟨m, hpos', -, hlt', heq⟩ := h'
  -- The last byte is the count of either padding.
  have hlast := congrArg List.getLast? heq
  rw [List.getLast?_append, List.getLast?_append, List.getLast?_replicate, List.getLast?_replicate,
    if_neg (by omega), if_neg (by omega)] at hlast
  have hnm : n = m := by
    have h := congrArg UInt8.toNat (Option.some.inj hlast)
    rw [UInt8.toNat_ofNat', UInt8.toNat_ofNat', Nat.mod_eq_of_lt hlt, Nat.mod_eq_of_lt hlt'] at h
    exact h
  subst hnm
  exact List.append_cancel_right heq

/-! ## The last block of padded data -/

/-- The last bytes of a text, as many as a block has. -/
def lastBlock (size : Nat) (b : Bytes) : Bytes := b.drop (b.length - size)

/-- The last block of padded data is the data behind the whole blocks, padded. -/
theorem lastBlock_pad {size : Nat} (hsize : 0 < size) (b : Bytes) :
    lastBlock size (pad size b) = pad size (rest size b) := by
  have hparts : pad size b = (blocks size b).flatten ++ pad size (rest size b) := by
    rw [← pad_append (length_flatten_blocks_mod size b), flatten_blocks_append_rest]
  have hlen : (pad size (rest size b)).length = size := by
    rw [length_pad hsize, Nat.div_eq_of_lt (length_rest_lt hsize b), Nat.zero_add, Nat.one_mul]
  have hfront : (pad size b).length - size = (blocks size b).flatten.length := by
    rw [hparts, List.length_append, hlen, Nat.add_sub_cancel]
  rw [lastBlock, hfront, hparts, List.drop_left]

/-- Equal bytes at the end that hold their number modulo 256 are taken for so many. -/
theorem unpaddedSize_append_replicate (front : Bytes) {n : Nat} (hn : 0 < n) :
    unpaddedSize (front ++ List.replicate n (UInt8.ofNat n)) =
      if n % 256 = 0 then .error (.format .padding) else .ok (front.length + n - n % 256) := by
  have hlast : (front ++ List.replicate n (UInt8.ofNat n)).getLast? = some (UInt8.ofNat n) := by
    rw [List.getLast?_append, List.getLast?_replicate, if_neg (by omega)]
    rfl
  have htoNat : (UInt8.ofNat n).toNat = n % 256 := UInt8.toNat_ofNat'
  have hlen : (front ++ List.replicate n (UInt8.ofNat n)).length = front.length + n := by
    rw [List.length_append, List.length_replicate]
  have hle : n % 256 ≤ n := Nat.mod_le n 256
  split
  · rename_i hzero
    simp only [unpaddedSize, hlast, htoNat, hzero, true_or, if_true]
  · rename_i hpos
    refine unpaddedSize_eq_ok_iff.mpr ⟨n % 256, by omega, Nat.mod_lt n (by decide), by omega, ?_⟩
    have hcut : front.length + n - n % 256 = front.length + (n - n % 256) := by omega
    have hcount : n - (n - n % 256) = n % 256 := by omega
    have hbyte : UInt8.ofNat n = UInt8.ofNat (n % 256) := by
      rw [← UInt8.toNat_inj, UInt8.toNat_ofNat', UInt8.toNat_ofNat', Nat.mod_mod]
    rw [hcut, List.drop_length_add_append, List.drop_replicate, hcount, ← hbyte]

/-- **What is found in the last block of padded data:** the data, short of a multiple of 256 bytes of
    the padding, or nothing when the number of padding bytes is such a multiple. -/
theorem unpaddedSize_lastBlock {size : Nat} (hsize : 0 < size) (b : Bytes) :
    unpaddedSize (lastBlock size (pad size b)) =
      if padCount size b.length % 256 = 0 then .error (.format .padding)
      else .ok (size - padCount size b.length % 256) := by
  have hlen : (rest size b).length + padCount size b.length = size := by
    have hlt := Nat.mod_lt b.length hsize
    rw [length_rest, padCount]
    omega
  rw [lastBlock_pad hsize, ← rest_append_padding,
    unpaddedSize_append_replicate _ (padCount_pos hsize _), hlen]

/-- A block is accepted with so many bytes of data exactly when it is these bytes, padded. -/
theorem unpaddedSize_eq_ok_iff_pad {size k : Nat} (hsize : size ≤ 255) {block : Bytes}
    (hlen : block.length = size) :
    unpaddedSize block = .ok k ↔ k < size ∧ block = pad size (block.take k) := by
  have hpad : k < size → pad size (block.take k) =
      block.take k ++ List.replicate (size - k) (UInt8.ofNat (size - k)) := by
    intro hk
    have htake : (block.take k).length = k := by
      rw [List.length_take]
      omega
    rw [pad, htake, padCount, Nat.mod_eq_of_lt hk]
  rw [unpaddedSize_eq_ok_iff]
  constructor
  · rintro ⟨n, hpos, hlt, hn, hdrop⟩
    have hk : k < size := by omega
    have hcount : size - k = n := by omega
    refine ⟨hk, ?_⟩
    rw [hpad hk, hcount, ← hdrop, List.take_append_drop]
  · rintro ⟨hk, hblock⟩
    rw [hpad hk] at hblock
    refine ⟨size - k, by omega, by omega, by omega, ?_⟩
    -- Both sides start with the data, so what is behind it is the same.
    refine List.append_cancel_left (?_ : block.take k ++ _ = block.take k ++ _)
    rw [List.take_append_drop]
    exact hblock

/-- **Padding is taken off exactly.**  Between one byte and a whole block is added, up to a multiple of
    the block size, and the last block gives the length of the data in it exactly when no more than 255
    bytes were added, which is always so in blocks of up to 255 bytes.  Such a block is accepted with
    the data that, padded, is the block, and refused when there is none. -/
theorem padding_is_taken_off_exactly {size : Nat} (hsize : 0 < size) :
    (∀ b : Bytes, ∃ n, n = size - b.length % size ∧ 1 ≤ n ∧ n ≤ size ∧
      pad size b = b ++ List.replicate n (UInt8.ofNat n) ∧ (pad size b).length % size = 0 ∧
      (unpaddedSize (lastBlock size (pad size b)) = .ok (b.length % size) ↔ n ≤ 255) ∧
      (size ≤ 255 → unpaddedSize (lastBlock size (pad size b)) = .ok (b.length % size))) ∧
    ∀ block : Bytes, block.length = size → size ≤ 255 →
      (∀ k, unpaddedSize block = .ok k ↔ k < size ∧ block = pad size (block.take k)) ∧
      ((¬ ∃ k, k < size ∧ block = pad size (block.take k)) →
        unpaddedSize block = .error (.format .padding)) := by
  constructor
  · intro b
    have hpos := padCount_pos hsize b.length
    have hle := padCount_le size b.length
    have hlt := Nat.mod_lt b.length hsize
    have hexact : unpaddedSize (lastBlock size (pad size b)) = .ok (b.length % size) ↔
        padCount size b.length ≤ 255 := by
      rw [unpaddedSize_lastBlock hsize]
      have hmod := Nat.mod_lt (padCount size b.length) (by decide : 0 < 256)
      have hdata : size - padCount size b.length = b.length % size := by
        rw [padCount]
        omega
      constructor
      · intro h
        split at h
        · cases h
        · have hread := Except.ok.inj h
          omega
      · intro hfits
        have hsame : padCount size b.length % 256 = padCount size b.length := Nat.mod_eq_of_lt (by omega)
        rw [hsame, if_neg (by omega), hdata]
    exact ⟨padCount size b.length, rfl, hpos, hle, rfl, length_pad_mod hsize b, hexact,
      fun hsmall => hexact.mpr (Nat.le_trans hle hsmall)⟩
  · intro block hlen hsmall
    have haccepts := fun k => unpaddedSize_eq_ok_iff_pad (k := k) hsmall hlen
    refine ⟨haccepts, fun hnone => ?_⟩
    rcases h : unpaddedSize block with e | k
    · rw [unpaddedSize_eq_error h]
    · exact absurd ⟨k, (haccepts k).mp h⟩ hnone

/-- Thirteen bytes are found again in a block of sixteen, and none in a block of 300: what was added
    there are 300 bytes that hold 44. -/
theorem padding_is_taken_off_exactly_on_thirteen :
    unpaddedSize (lastBlock 16 (pad 16 (List.replicate 13 0xAA))) = .ok 13 ∧
      unpaddedSize (lastBlock 300 (pad 300 [])) ≠ .ok 0 := by
  have hsixteen : 0 < 16 := by decide
  have hlarge : 0 < 300 := by decide
  obtain ⟨_, -, -, -, -, -, -, hread⟩ :=
    (padding_is_taken_off_exactly hsixteen).1 (List.replicate 13 0xAA)
  obtain ⟨_, rfl, -, -, -, -, hlost, -⟩ := (padding_is_taken_off_exactly hlarge).1 []
  exact ⟨hread (by decide), fun h => absurd (hlost.mp h) (by decide)⟩

end Coffer.Container
