import Coffer.Bytes
import Mathlib.Algebra.Group.Nat.Defs
/-
  Laws of cutting and combining byte strings.

  * `blocks` cuts a byte string into its whole blocks: `flatten_blocks` puts them together again up
    to the shorter tail, and `blocks_append` says that cutting may stop and go on at any multiple
    of the block size.
  * `xorOnto` with the same bytes twice is the identity (`xorOnto_xorOnto`).
  * A number is written with the four digits that it is read from (`be32_bigEndian`).
  * A byte below 128 in a text is a character of it (`toNat_of_mem_utf8EncodeChar`).

  Everything that is processed block by block, in however many calls, rests on these.
-/
namespace Coffer

/-! ## Text -/

theorem utf8_ofList (cs : List Char) :
    utf8 (String.ofList cs) = cs.flatMap String.utf8EncodeChar := by
  rw [utf8, String.toUTF8_eq_toByteArray, String.toByteArray_ofList, List.utf8Encode,
    List.data_toByteArray]

theorem utf8_eq_flatMap (s : String) : utf8 s = s.toList.flatMap String.utf8EncodeChar := by
  rw [← utf8_ofList, String.ofList_toList]

theorem utf8_append (s t : String) : utf8 (s ++ t) = utf8 s ++ utf8 t := by
  rw [utf8_eq_flatMap, utf8_eq_flatMap s, utf8_eq_flatMap t, String.toList_append,
    List.flatMap_append]

/-- A byte below 128 is the only byte of its character. -/
theorem toNat_of_mem_utf8EncodeChar {c : Char} {b : UInt8} (h : b ∈ String.utf8EncodeChar c)
    (hb : b.toNat < 128) : c.toNat = b.toNat := by
  simp only [String.utf8EncodeChar] at h
  split at h
  · rename_i hc
    rw [List.mem_singleton.mp h, UInt8.toNat_ofNat']
    exact (Nat.mod_eq_of_lt (Nat.lt_of_le_of_lt hc (by decide))).symm
  · exfalso
    split at h
    · simp only [List.mem_cons, List.not_mem_nil, or_false] at h
      rcases h with rfl | rfl <;> simp only [UInt8.toNat_ofNat'] at hb <;> omega
    · split at h <;> simp only [List.mem_cons, List.not_mem_nil, or_false] at h
      · rcases h with rfl | rfl | rfl <;> simp only [UInt8.toNat_ofNat'] at hb <;> omega
      · rcases h with rfl | rfl | rfl | rfl <;> simp only [UInt8.toNat_ofNat'] at hb <;> omega

/-- A character below 128 is a byte. -/
theorem utf8EncodeChar_of_lt {c : Char} (h : c.toNat < 128) :
    String.utf8EncodeChar c = [UInt8.ofNat c.toNat] := by
  have hval : c.val.toNat ≤ 127 := Nat.le_of_lt_succ h
  simp only [String.utf8EncodeChar]
  rw [if_pos hval]
  rfl

/-- Characters whose first byte is below 128 start with the character of that byte, and behind it come
    the bytes of the others. -/
theorem exists_of_flatMap_cons {cs : List Char} {b : UInt8} {rest : Bytes}
    (h : cs.flatMap String.utf8EncodeChar = b :: rest) (hb : b.toNat < 128) :
    ∃ c later, cs = c :: later ∧ c.toNat = b.toNat ∧
      later.flatMap String.utf8EncodeChar = rest := by
  rcases cs with _ | ⟨c, later⟩
  · cases h
  · rw [List.flatMap_cons] at h
    have hc : c.toNat = b.toNat := by
      apply toNat_of_mem_utf8EncodeChar _ hb
      rcases hc : String.utf8EncodeChar c with _ | ⟨first, others⟩
      · exact absurd hc String.utf8EncodeChar_ne_nil
      · rw [hc, List.cons_append] at h
        rw [(List.cons.inj h).1]
        exact List.mem_cons_self
    rw [utf8EncodeChar_of_lt (by omega), List.singleton_append] at h
    exact ⟨c, later, rfl, hc, (List.cons.inj h).2⟩

/-- A text whose first byte is below 128 starts with the character of that byte. -/
theorem exists_of_utf8_cons {s : String} {b : UInt8} {rest : Bytes} (h : utf8 s = b :: rest)
    (hb : b.toNat < 128) : ∃ c cs, s.toList = c :: cs ∧ c.toNat = b.toNat := by
  rw [utf8_eq_flatMap] at h
  obtain ⟨c, later, hs, hc, -⟩ := exists_of_flatMap_cons h hb
  exact ⟨c, later, hs, hc⟩

/-! ## Exclusive or -/

theorem xor_xor_cancel_right (a b : UInt8) : a ^^^ b ^^^ b = a := by
  rw [UInt8.xor_assoc, UInt8.xor_self, UInt8.xor_zero]

/-- **Combining with the same bytes twice gives the first bytes back.** -/
@[simp] theorem xorOnto_xorOnto (dst src : Bytes) : xorOnto (xorOnto dst src) src = dst := by
  fun_induction xorOnto dst src with
  | case1 d ds s ss ih => rw [xorOnto, ih, xor_xor_cancel_right]
  | case2 ds => cases ds <;> rfl
  | case3 src _ => cases src <;> rfl

/-! ## Numbers -/

/-- Digits behind a number leave it below the next number with as many digits behind it. -/
theorem foldl_digits_lt (b : Bytes) (n : Nat) :
    b.foldl (fun n x => n * 256 + x.toNat) n < (n + 1) * 256 ^ b.length := by
  induction b generalizing n with
  | nil => simp
  | cons x b ih =>
    have hx : x.toNat < 256 := x.toNat_lt
    have hfront : (n * 256 + x.toNat + 1) * 256 ^ b.length ≤ (n + 1) * 256 * 256 ^ b.length :=
      Nat.mul_le_mul_right _ (by omega)
    rw [List.foldl_cons, List.length_cons, Nat.pow_succ, Nat.mul_comm (256 ^ b.length),
      ← Nat.mul_assoc]
    exact Nat.lt_of_lt_of_le (ih _) hfront

/-- A number is below the power of the base that has one digit more. -/
theorem bigEndian_lt_pow (b : Bytes) : bigEndian b < 256 ^ b.length := by
  have h := foldl_digits_lt b 0
  rwa [Nat.zero_add, Nat.one_mul] at h

/-- A number of two digits. -/
theorem bigEndian_lt {b : Bytes} (h : b.length = 2) : bigEndian b < 65536 := by
  have hlt := bigEndian_lt_pow b
  rwa [h] at hlt

/-- **Four bytes are the digits of the number that they spell.** -/
theorem be32_bigEndian {b : Bytes} (h : b.length = 4) : be32 (bigEndian b) = b := by
  match b, h with
  | [b3, b2, b1, b0], _ =>
    have h3 : b3.toNat < 256 := b3.toNat_lt
    have h2 : b2.toNat < 256 := b2.toNat_lt
    have h1 : b1.toNat < 256 := b1.toNat_lt
    have h0 : b0.toNat < 256 := b0.toNat_lt
    have hvalue : bigEndian [b3, b2, b1, b0] =
        ((b3.toNat * 256 + b2.toNat) * 256 + b1.toNat) * 256 + b0.toNat := by
      simp only [bigEndian, List.foldl_cons, List.foldl_nil]
      omega
    rw [be32, hvalue]
    simp only [List.cons.injEq, ← UInt8.toNat_inj, UInt8.toNat_ofNat', and_true]
    omega

/-! ## Blocks -/

theorem getLastD_append {α : Type} (xs ys : List α) (a : α) :
    (xs ++ ys).getLastD a = ys.getLastD (xs.getLastD a) := by
  induction xs generalizing a with
  | nil => rfl
  | cons x xs ih => rw [List.cons_append, List.getLastD_cons, ih, List.getLastD_cons]

@[simp] theorem length_blocksUpTo (size count : Nat) (b : Bytes) :
    (blocksUpTo size count b).length = count := by
  induction count generalizing b with
  | zero => rfl
  | succ count ih => rw [blocksUpTo, List.length_cons, ih]

@[simp] theorem length_blocks (size : Nat) (b : Bytes) :
    (blocks size b).length = b.length / size :=
  length_blocksUpTo size _ b

/-- A cut may stop after any number of blocks and go on from there. -/
theorem blocksUpTo_append {size m : Nat} {a : Bytes} (ha : a.length = m * size) (n : Nat)
    (b : Bytes) : blocksUpTo size (m + n) (a ++ b) = blocksUpTo size m a ++ blocksUpTo size n b := by
  induction m generalizing a with
  | zero =>
    have ha' : a = [] := List.eq_nil_of_length_eq_zero (by omega)
    rw [ha', Nat.zero_add]
    rfl
  | succ m ih =>
    rw [Nat.succ_mul] at ha
    have hle : size ≤ a.length := by omega
    have hdrop : (a.drop size).length = m * size := by rw [List.length_drop]; omega
    rw [show m + 1 + n = (m + n) + 1 from by omega, blocksUpTo, blocksUpTo,
      List.take_append_of_le_length hle, List.drop_append_of_le_length hle, ih hdrop]
    rfl

theorem blocks_eq_nil {size : Nat} {b : Bytes} (h : b.length < size) : blocks size b = [] := by
  rw [blocks, Nat.div_eq_of_lt h]
  rfl

@[simp] theorem blocks_nil (size : Nat) : blocks size [] = [] := by
  rw [blocks, List.length_nil, Nat.zero_div]
  rfl

/-- **Cutting may stop at any multiple of the block size and go on from there.** -/
theorem blocks_append {size : Nat} (hsize : 0 < size) {a : Bytes} (ha : a.length % size = 0)
    (b : Bytes) : blocks size (a ++ b) = blocks size a ++ blocks size b := by
  have hm : a.length = a.length / size * size := (Nat.div_mul_cancel (Nat.dvd_of_mod_eq_zero ha)).symm
  have hcount : (a ++ b).length / size = a.length / size + b.length / size := by
    rw [List.length_append, Nat.add_comm, hm, Nat.add_mul_div_right _ _ hsize,
      Nat.mul_div_cancel _ hsize, Nat.add_comm]
  rw [blocks, hcount, blocksUpTo_append hm]
  rfl

/-- Every block of a cut has the block size. -/
theorem length_of_mem_blocksUpTo {size count : Nat} {b x : Bytes} (h : count * size ≤ b.length)
    (hx : x ∈ blocksUpTo size count b) : x.length = size := by
  induction count generalizing b with
  | zero => cases hx
  | succ count ih =>
    rw [Nat.succ_mul] at h
    rw [blocksUpTo] at hx
    rcases List.mem_cons.mp hx with rfl | hx
    · rw [List.length_take]; omega
    · exact ih (by rw [List.length_drop]; omega) hx

theorem length_of_mem_blocks {size : Nat} {b x : Bytes} (hx : x ∈ blocks size b) :
    x.length = size :=
  length_of_mem_blocksUpTo (Nat.div_mul_le_self _ _) hx

theorem flatten_blocksUpTo {size count : Nat} {b : Bytes} (h : count * size ≤ b.length) :
    (blocksUpTo size count b).flatten = b.take (count * size) := by
  induction count generalizing b with
  | zero => rw [Nat.zero_mul, List.take_zero]; rfl
  | succ count ih =>
    rw [Nat.succ_mul] at h
    rw [blocksUpTo, List.flatten_cons, ih (by rw [List.length_drop]; omega), Nat.succ_mul,
      Nat.add_comm, List.take_add]

/-- **The blocks of a byte string, put together, are its whole blocks.** -/
theorem flatten_blocks (size : Nat) (b : Bytes) :
    (blocks size b).flatten = b.take (b.length / size * size) :=
  flatten_blocksUpTo (Nat.div_mul_le_self _ _)

theorem flatten_blocks_of_mod_eq_zero {size : Nat} {b : Bytes} (h : b.length % size = 0) :
    (blocks size b).flatten = b := by
  rw [flatten_blocks, Nat.div_mul_cancel (Nat.dvd_of_mod_eq_zero h), List.take_length]

/-- A cut of whole blocks gives the blocks back. -/
theorem blocks_flatten {size : Nat} (hsize : 0 < size) {xs : List Bytes}
    (h : ∀ x ∈ xs, x.length = size) : blocks size xs.flatten = xs := by
  induction xs with
  | nil => exact blocks_nil size
  | cons x xs ih =>
    have hx : x.length = size := h x List.mem_cons_self
    have hone : blocks size x = [x] := by
      rw [blocks, hx, Nat.div_self hsize, blocksUpTo, List.take_of_length_le (by omega)]
      rfl
    rw [List.flatten_cons, blocks_append hsize (by rw [hx, Nat.mod_self]), hone,
      ih fun y hy => h y (List.mem_cons_of_mem x hy)]
    rfl

/-- The first blocks of a byte string, and those behind them, are cut as in the byte string. -/
theorem blocks_take_drop {size count : Nat} (hsize : 0 < size) {b : Bytes}
    (h : count * size ≤ b.length) :
    blocks size (b.take (count * size)) = (blocks size b).take count ∧
      blocks size (b.drop (count * size)) = (blocks size b).drop count := by
  have hfront : (b.take (count * size)).length = count * size := by
    rw [List.length_take, Nat.min_eq_left h]
  have hcount : (blocks size (b.take (count * size))).length = count := by
    rw [length_blocks, hfront, Nat.mul_div_cancel _ hsize]
  have hcut := blocks_append hsize (show (b.take (count * size)).length % size = 0 by
    rw [hfront, Nat.mul_mod_left]) (b.drop (count * size))
  rw [List.take_append_drop] at hcut
  rw [hcut, List.take_left' hcount, List.drop_left' hcount]
  exact ⟨rfl, rfl⟩

/-- In front of a block there are whole blocks, and from it on as well, when the bytes are whole blocks. -/
theorem length_take_drop_mod {size count : Nat} {b : Bytes} (hlen : b.length % size = 0)
    (h : count * size ≤ b.length) :
    (b.take (count * size)).length % size = 0 ∧ (b.drop (count * size)).length % size = 0 := by
  constructor
  · rw [List.length_take, Nat.min_eq_left h, Nat.mul_mod_left]
  · rw [List.length_drop, Nat.mul_comm, Nat.sub_mul_mod (by rw [Nat.mul_comm]; exact h), hlen]

/-- A block that is there is not empty, and stands within the bytes. -/
theorem bounds_of_getElem?_blocks {size i : Nat} {b x : Bytes} (h : (blocks size b)[i]? = some x) :
    i < b.length / size ∧ 0 < size ∧ i * size ≤ b.length := by
  have hlt := (List.getElem?_eq_some_iff.mp h).1
  rw [length_blocks] at hlt
  have hsize : 0 < size := by
    refine Nat.pos_of_ne_zero fun h0 => ?_
    rw [h0, Nat.div_zero] at hlt
    exact absurd hlt (Nat.not_lt_zero i)
  exact ⟨hlt, hsize, (Nat.le_div_iff_mul_le hsize).mp (Nat.le_of_lt hlt)⟩

/-! ## Whole blocks and the rest -/

/-- The bytes behind the whole blocks of a byte string. -/
def rest (size : Nat) (b : Bytes) : Bytes := b.drop (b.length / size * size)

theorem flatten_blocks_append_rest (size : Nat) (b : Bytes) :
    (blocks size b).flatten ++ rest size b = b := by
  rw [flatten_blocks]
  exact List.take_append_drop _ _

theorem length_rest (size : Nat) (b : Bytes) : (rest size b).length = b.length % size := by
  have h := Nat.div_add_mod b.length size
  rw [Nat.mul_comm] at h
  rw [rest, List.length_drop]
  omega

theorem length_rest_lt {size : Nat} (hsize : 0 < size) (b : Bytes) :
    (rest size b).length < size := by
  rw [length_rest]
  exact Nat.mod_lt _ hsize

theorem length_flatten_blocks_mod (size : Nat) (b : Bytes) :
    (blocks size b).flatten.length % size = 0 := by
  have hle : b.length / size * size ≤ b.length := Nat.div_mul_le_self _ _
  rw [flatten_blocks, List.length_take, Nat.min_eq_left hle, Nat.mul_mod_left]

/-- **A cut goes on with the rest of what was cut before.** -/
theorem blocks_append_rest {size : Nat} (hsize : 0 < size) (a b : Bytes) :
    blocks size (a ++ b) = blocks size a ++ blocks size (rest size a ++ b) := by
  have hcut := blocks_flatten hsize fun x (hx : x ∈ blocks size a) => length_of_mem_blocks hx
  have h := blocks_append hsize (length_flatten_blocks_mod size a) (rest size a ++ b)
  rwa [hcut, ← List.append_assoc, flatten_blocks_append_rest] at h

/-- The whole blocks of a byte string are cut as in the byte string. -/
theorem blocks_take {size : Nat} (hsize : 0 < size) (b : Bytes) :
    blocks size (b.take (b.length / size * size)) = blocks size b := by
  rw [← flatten_blocks]
  exact blocks_flatten hsize fun _ hx => length_of_mem_blocks hx

/-- More bytes only add blocks. -/
theorem prefix_blocks_append {size : Nat} (hsize : 0 < size) (a b : Bytes) :
    blocks size a <+: blocks size (a ++ b) := by
  rw [blocks_append_rest hsize]
  exact List.prefix_append _ _

theorem rest_append_of_mod_eq_zero {size : Nat} (hsize : 0 < size) {a : Bytes}
    (ha : a.length % size = 0) (b : Bytes) : rest size (a ++ b) = rest size b := by
  obtain ⟨m, hm⟩ := Nat.dvd_of_mod_eq_zero ha
  rw [Nat.mul_comm] at hm
  have hcount : (a ++ b).length / size * size = a.length + b.length / size * size := by
    rw [List.length_append, Nat.add_comm, hm, Nat.add_mul_div_right _ _ hsize, Nat.add_mul,
      Nat.add_comm]
  rw [rest, hcount, List.drop_length_add_append]
  rfl

theorem rest_append {size : Nat} (hsize : 0 < size) (a b : Bytes) :
    rest size (a ++ b) = rest size (rest size a ++ b) := by
  have h := rest_append_of_mod_eq_zero hsize (length_flatten_blocks_mod size a) (rest size a ++ b)
  rwa [← List.append_assoc, flatten_blocks_append_rest] at h

theorem length_flatten_of_length_eq {size : Nat} {xs : List Bytes} (h : ∀ x ∈ xs, x.length = size) :
    xs.flatten.length = xs.length * size := by
  induction xs with
  | nil => simp
  | cons x xs ih =>
    rw [List.flatten_cons, List.length_append, h x List.mem_cons_self,
      ih fun y hy => h y (List.mem_cons_of_mem x hy), List.length_cons, Nat.succ_mul, Nat.add_comm]

end Coffer
