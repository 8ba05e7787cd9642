/-
  Byte strings.

  Everything this library stores, sends or chains is a `Bytes`: a plain list, so that laws about
  cutting, joining and chaining are laws about lists.  Three views are kept here:

  * TEXT     — `utf8` and `ofUtf8?`; a text is recovered exactly from its bytes
               (`ofUtf8?_utf8`), and no other bytes spell it (`ofUtf8?_eq_some_iff`);
  * NUMBERS  — `bigEndian`, read from the front, and the writers `be16` and `be32`;
  * BLOCKS   — `blocks`, the whole blocks of a byte string in order.
-/
namespace Coffer

/-- A finite string of bytes. -/
abbrev Bytes := List UInt8

/-! ## Text -/

/-- The UTF-8 bytes of a text. -/
def utf8 (s : String) : Bytes := s.toUTF8.data.toList

/-- The text that `b` spells in UTF-8, when it spells one. -/
def ofUtf8? (b : Bytes) : Option String := String.fromUTF8? ⟨b.toArray⟩

@[simp] theorem ofUtf8?_utf8 (s : String) : ofUtf8? (utf8 s) = some s := by
  simp [ofUtf8?, utf8, String.fromUTF8?, String.fromUTF8, s.isValidUTF8]

/-- **Only the UTF-8 bytes of `s` are read back as `s`.** -/
theorem ofUtf8?_eq_some_iff {b : Bytes} {s : String} : ofUtf8? b = some s ↔ b = utf8 s := by
  refine ⟨fun h => ?_, fun h => h ▸ ofUtf8?_utf8 s⟩
  unfold ofUtf8? String.fromUTF8? at h
  split at h
  · cases h
    simp [utf8, String.fromUTF8]
  · cases h

/-- Bytes shown as text, with the replacement character for bytes that spell none. -/
def showText (b : Bytes) : String := (ofUtf8? b).getD "\ufffd"

/-! ## Numbers -/

/-- The number whose big-endian digits are the bytes `b`. -/
def bigEndian (b : Bytes) : Nat := b.foldl (fun n x => n * 256 + x.toNat) 0

/-- The two big-endian bytes of `n`, taken modulo `2 ^ 16`. -/
def be16 (n : Nat) : Bytes := [UInt8.ofNat (n / 256), UInt8.ofNat n]

/-- The four big-endian bytes of `n`, taken modulo `2 ^ 32`. -/
def be32 (n : Nat) : Bytes :=
  [UInt8.ofNat (n / 16777216), UInt8.ofNat (n / 65536), UInt8.ofNat (n / 256), UInt8.ofNat n]

theorem bigEndian_be16 {n : Nat} (h : n < 65536) : bigEndian (be16 n) = n := by
  simp [bigEndian, be16]; omega

theorem bigEndian_be32 {n : Nat} (h : n < 4294967296) : bigEndian (be32 n) = n := by
  simp [bigEndian, be32]; omega

/-! ## Combining and cutting -/

/-- `dst` with each byte xored with the byte of `src` at its place; bytes of `dst` past the end of
    `src` stay as they are. -/
def xorOnto : (dst src : Bytes) → Bytes
  | d :: ds, s :: ss => (d ^^^ s) :: xorOnto ds ss
  | ds, [] => ds
  | [], _ => []

@[simp] theorem length_xorOnto (dst src : Bytes) : (xorOnto dst src).length = dst.length := by
  fun_induction xorOnto dst src <;> simp_all

/-- The first `count` blocks of `size` bytes of `b`. -/
def blocksUpTo (size : Nat) : (count : Nat) → Bytes → List Bytes
  | 0, _ => []
  | count + 1, b => b.take size :: blocksUpTo size count (b.drop size)

/-- The whole blocks of `size` bytes of `b`, in order; a shorter tail is left out. -/
def blocks (size : Nat) (b : Bytes) : List Bytes := blocksUpTo size (b.length / size) b

end Coffer
