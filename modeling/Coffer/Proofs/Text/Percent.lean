import Coffer.Text.Percent
import Coffer.Text.Blank
import Coffer.Proofs.Bytes
import Coffer.Proofs.Outcome
/-
  What is written with percent escapes is read back.

  * READING BACK — every byte has an escape or stands for itself, so `decode_encode` gives any text
    back: `decodeBytes_encodeBytes` says it of bytes, and `utf8_asciiText` that the characters in
    between are bytes of their own.
  * SEPARATORS — an encoded text has no blank and none of the characters that it escapes
    (`reserved_not_mem_encode`, `isBlank_of_mem_encode`), so it can stand between them.  A slash is
    not one of these: it stands for itself (`toList_encode_of_slash`), so an encoded text has one
    exactly where the text has one (`slash_mem_of_mem_encode`).
  * FRONTS — a text that is read has a first character when what it is read from has one
    (`ne_empty_of_decode`), and a slash in front stays there (`slash_of_decode`).
-/
namespace Coffer.Text.Percent

variable {b x : UInt8} {s t : String}

/-! ## Digits -/

/-- Values below 16 have a digit each, which is not a sign and stands for itself. -/
theorem digitByte_spec {n : UInt8} (h : n < 16) :
    digit? (digitByte n) = some n ∧ digitByte n ≠ 0x2B ∧ digitByte n ≠ 0x2F ∧
      isReserved (digitByte n) = false := by
  have hall : ∀ k : Fin 16, digit? (digitByte (UInt8.ofNat k)) = some (UInt8.ofNat k) ∧
      digitByte (UInt8.ofNat k) ≠ 0x2B ∧ digitByte (UInt8.ofNat k) ≠ 0x2F ∧
      isReserved (digitByte (UInt8.ofNat k)) = false := by decide
  have hn := hall ⟨n.toNat, UInt8.lt_iff_toNat_lt.mp h⟩
  rwa [UInt8.ofNat_toNat] at hn

theorem div_lt (b : UInt8) : b / 16 < 16 := by
  rw [UInt8.lt_iff_toNat_lt, UInt8.toNat_div]
  have hb := b.toNat_lt
  show b.toNat / 16 < 16
  omega

theorem mod_lt (b : UInt8) : b % 16 < 16 := by
  rw [UInt8.lt_iff_toNat_lt, UInt8.toNat_mod]
  exact Nat.mod_lt _ (by decide)

/-- **The two digits of a byte denote it.** -/
theorem pair?_digitByte (b : UInt8) : pair? (digitByte (b / 16)) (digitByte (b % 16)) = some b := by
  obtain ⟨hhigh, hplus, -, -⟩ := digitByte_spec (div_lt b)
  obtain ⟨hlow, -, -, -⟩ := digitByte_spec (mod_lt b)
  have hvalue : b / 16 * 16 + b % 16 = b := by
    rw [← UInt8.toNat_inj, UInt8.toNat_add, UInt8.toNat_mul, UInt8.toNat_div, UInt8.toNat_mod]
    have hb := b.toNat_lt
    show (b.toNat / 16 * 16 % 256 + b.toNat % 16) % 256 = b.toNat
    omega
  rw [pair?, if_neg hplus, hhigh, hlow]
  exact congrArg some hvalue

/-! ## Reading back -/

theorem decodeBytes_escape (offset : Nat) (b : UInt8) (rest : Bytes) :
    decodeBytes offset (0x25 :: digitByte (b / 16) :: digitByte (b % 16) :: rest) =
      (decodeBytes (offset + 3) rest).map (b :: ·) := by
  rw [decodeBytes, pair?_digitByte]

theorem decodeBytes_cons (offset : Nat) (h : b ≠ 0x25) (rest : Bytes) :
    decodeBytes offset (b :: rest) = (decodeBytes (offset + 1) rest).map (b :: ·) := by
  rw [decodeBytes, if_neg h]
  intro _ _ _ hb
  exact absurd hb h

/-- **Bytes are read back from what they are written as.** -/
theorem decodeBytes_encodeBytes (offset : Nat) (b : Bytes) :
    decodeBytes offset (encodeBytes b) = .ok b := by
  -- The offset is for faults only, and there are none.
  induction b generalizing offset with
  | nil => rfl
  | cons b rest ih =>
    rw [encodeBytes, List.flatMap_cons, ← encodeBytes, encodeByte]
    split
    · rw [List.cons_append, List.cons_append, List.cons_append, List.nil_append,
        decodeBytes_escape, ih]
      rfl
    · rename_i hkept
      have hpercent : b ≠ 0x25 := by
        rintro rfl
        exact hkept rfl
      rw [List.cons_append, List.nil_append, decodeBytes_cons _ hpercent, ih]
      rfl

/-- A byte that is written is a percent sign or is not reserved. -/
theorem eq_or_isReserved_of_mem_encodeByte (h : x ∈ encodeByte b) :
    x = 0x25 ∨ isReserved x = false := by
  rw [encodeByte] at h
  split at h
  · simp only [List.mem_cons, List.not_mem_nil, or_false] at h
    rcases h with rfl | rfl | rfl
    · exact .inl rfl
    · exact .inr (digitByte_spec (div_lt b)).2.2.2
    · exact .inr (digitByte_spec (mod_lt b)).2.2.2
  · rename_i hkept
    rw [List.mem_singleton.mp h]
    exact .inr (Bool.eq_false_iff.mpr hkept)

/-- What is not reserved is between the blank and the last of the ASCII bytes. -/
theorem bounds_of_isReserved (h : isReserved x = false) : 0x20 < x.toNat ∧ x.toNat < 0x7F := by
  simp only [isReserved, Bool.or_eq_false_iff, decide_eq_false_iff_not, UInt8.le_iff_toNat_le,
    Nat.not_le] at h
  exact ⟨h.1.2, h.2⟩

theorem bounds_of_mem_encodeBytes {bs : Bytes} (h : x ∈ encodeBytes bs) :
    0x20 < x.toNat ∧ x.toNat < 0x7F := by
  obtain ⟨b, -, hx⟩ := List.mem_flatMap.mp h
  rcases eq_or_isReserved_of_mem_encodeByte hx with rfl | hx
  · decide
  · exact bounds_of_isReserved hx

theorem toNat_ofNat {n : Nat} (h : n < 0x80) : (Char.ofNat n).toNat = n := by
  have hvalid : n.isValidChar := .inl (by omega)
  rw [Char.ofNat, dif_pos hvalid]
  rfl

/-- An ASCII character is a byte. -/
theorem utf8_asciiText {bs : Bytes} (h : ∀ x ∈ bs, x.toNat < 0x80) : utf8 (asciiText bs) = bs := by
  have hchar : ∀ x ∈ bs, String.utf8EncodeChar (Char.ofNat x.toNat) = [x] := by
    intro x hx
    have hval : (Char.ofNat x.toNat).val.toNat = x.toNat := toNat_ofNat (h x hx)
    simp only [String.utf8EncodeChar, hval]
    rw [if_pos (Nat.le_of_lt_succ (h x hx)), UInt8.ofNat_toNat]
  rw [asciiText, utf8_ofList, List.flatMap_map]
  induction bs with
  | nil => rfl
  | cons x rest ih =>
    rw [List.flatMap_cons, hchar x List.mem_cons_self,
      ih (fun y hy => h y (List.mem_cons_of_mem _ hy))
        fun y hy => hchar y (List.mem_cons_of_mem _ hy)]
    rfl

theorem utf8_encode (s : String) : utf8 (encode s) = encodeBytes (utf8 s) :=
  utf8_asciiText fun _ hx => Nat.lt_succ_of_lt (bounds_of_mem_encodeBytes hx).2

/-- A text is read exactly when its bytes are read as the bytes of the other text. -/
theorem decode_eq_ok_iff : decode s = .ok t ↔ decodeBytes 0 (utf8 s) = .ok (utf8 t) := by
  rw [decode, bind_eq_ok_iff]
  constructor
  · rintro ⟨bs, hbs, ht⟩
    split at ht
    · rename_i text htext
      cases ht
      rw [hbs, ofUtf8?_eq_some_iff.mp htext]
    · cases ht
  · intro h
    refine ⟨utf8 t, h, ?_⟩
    rw [ofUtf8?_utf8]
    rfl

/-- **Every text is read back from what it is written as.** -/
theorem decode_encode (s : String) : decode (encode s) = .ok s := by
  rw [decode_eq_ok_iff, utf8_encode, decodeBytes_encodeBytes]

/-! ## The characters of an encoded text -/

theorem encode_append (s t : String) : encode (s ++ t) = encode s ++ encode t := by
  rw [encode, utf8_append, encodeBytes, List.flatMap_append, asciiText, List.map_append,
    String.ofList_append]
  rfl

/-- The characters of an encoded text are the bytes that are written. -/
theorem exists_of_mem_encode {c : Char} (h : c ∈ (encode s).toList) :
    ∃ x ∈ encodeBytes (utf8 s), c.toNat = x.toNat := by
  rw [encode, asciiText, String.toList_ofList] at h
  obtain ⟨x, hx, rfl⟩ := List.mem_map.mp h
  exact ⟨x, hx, toNat_ofNat (Nat.lt_succ_of_lt (bounds_of_mem_encodeBytes hx).2)⟩

/-- **No reserved character but the percent sign stands in an encoded text.** -/
theorem reserved_not_mem_encode {c : Char} (s : String) (hb : isReserved b = true)
    (hpercent : b ≠ 0x25) (hc : c.toNat = b.toNat) : c ∉ (encode s).toList := by
  intro h
  obtain ⟨x, hx, heq⟩ := exists_of_mem_encode h
  obtain ⟨y, -, hx⟩ := List.mem_flatMap.mp hx
  obtain rfl : x = b := UInt8.toNat_inj.mp (heq.symm.trans hc)
  rcases eq_or_isReserved_of_mem_encodeByte hx with hx | hx
  · exact hpercent hx
  · rw [hx] at hb
    cases hb

theorem isBlank_of_mem_encode {c : Char} (h : c ∈ (encode s).toList) : isBlank c = false := by
  obtain ⟨x, hx, hc⟩ := exists_of_mem_encode h
  have hbounds := bounds_of_mem_encodeBytes hx
  rw [← hc] at hbounds
  simp only [isBlank, Bool.or_eq_false_iff, Bool.and_eq_false_iff, decide_eq_false_iff_not,
    beq_eq_false_iff_ne]
  omega

/-- **An encoded text has a slash only where the text has one.** -/
theorem slash_mem_of_mem_encode (h : '/' ∈ (encode s).toList) : '/' ∈ s.toList := by
  obtain ⟨x, hx, hslash⟩ := exists_of_mem_encode h
  obtain rfl : x = 0x2F := UInt8.toNat_inj.mp hslash.symm
  obtain ⟨b, hb, hx⟩ := List.mem_flatMap.mp hx
  have hbyte : b = 0x2F := by
    rw [encodeByte] at hx
    split at hx
    · simp only [List.mem_cons, List.not_mem_nil, or_false] at hx
      rcases hx with hx | hx | hx
      · cases hx
      · exact absurd hx.symm (digitByte_spec (div_lt b)).2.2.1
      · exact absurd hx.symm (digitByte_spec (mod_lt b)).2.2.1
    · exact (List.mem_singleton.mp hx).symm
  subst hbyte
  rw [utf8_eq_flatMap] at hb
  obtain ⟨c, hc, hb⟩ := List.mem_flatMap.mp hb
  have hnat : c.toNat = 0x2F := toNat_of_mem_utf8EncodeChar hb (by decide)
  have heq : c = '/' := by
    rw [← Char.ofNat_toNat c, hnat]
  rwa [← heq]

/-- A slash is written where it stands. -/
theorem toList_encode_of_slash {a b : List Char} (h : s.toList = a ++ '/' :: b) :
    (encode s).toList =
      (encode (String.ofList a)).toList ++ '/' :: (encode (String.ofList b)).toList := by
  have hslash : encode (String.ofList ['/']) = "/" := by decide
  have hparts : s = String.ofList a ++ (String.ofList ['/'] ++ String.ofList b) := by
    rw [← String.ofList_append, ← String.ofList_append, List.singleton_append, ← h,
      String.ofList_toList]
  rw [hparts, encode_append, encode_append, hslash, String.toList_append, String.toList_append]
  rfl

/-! ## The first character that is read -/

theorem ne_nil_of_decodeBytes {offset : Nat} {bs out : Bytes} (hne : bs ≠ [])
    (h : decodeBytes offset bs = .ok out) : out ≠ [] := by
  rintro rfl
  fun_cases decodeBytes offset bs with
  | case1 => exact hne rfl
  | case2 high low rest hpair =>
    rw [decodeBytes, hpair] at h
    cases h
  | case3 high low rest b hpair =>
    rw [decodeBytes, hpair] at h
    rcases hrest : decodeBytes (offset + 3) rest with _ | out <;> simp only [hrest] at h <;> cases h
  | case4 rest hshort =>
    rw [decodeBytes, if_pos rfl] at h
    · cases h
    · exact hshort
  | case5 b rest _ hb =>
    rw [decodeBytes_cons _ hb] at h
    rcases hrest : decodeBytes (offset + 1) rest with _ | out <;> rw [hrest] at h <;> cases h

/-- A text that is read from something is something. -/
theorem ne_empty_of_decode (hne : s ≠ "") (h : decode s = .ok t) : t ≠ "" := by
  rintro rfl
  have hbytes : utf8 s ≠ [] := by
    intro hnil
    apply hne
    have hread := ofUtf8?_utf8 s
    rw [hnil] at hread
    exact (Option.some.inj hread).symm
  exact ne_nil_of_decodeBytes hbytes (decode_eq_ok_iff.mp h) rfl

/-- **A slash in front is read as a slash in front.** -/
theorem slash_of_decode {cs : List Char} (h : decode (String.ofList ('/' :: cs)) = .ok t) :
    ∃ rest, t.toList = '/' :: rest := by
  have hbytes : utf8 (String.ofList ('/' :: cs)) = 0x2F :: utf8 (String.ofList cs) := by
    rw [utf8_ofList, utf8_ofList, List.flatMap_cons]
    rfl
  rw [decode_eq_ok_iff, hbytes, decodeBytes_cons _ (by decide)] at h
  rcases hrest : decodeBytes (0 + 1) (utf8 (String.ofList cs)) with _ | out
  · rw [hrest] at h
    cases h
  · rw [hrest] at h
    obtain ⟨c, rest, ht, hc⟩ := exists_of_utf8_cons (Except.ok.inj h).symm (by decide)
    rw [ht, ← Char.ofNat_toNat c, hc]
    exact ⟨rest, rfl⟩

/-- A slash in front of an encoded text is one in front of the text. -/
theorem exists_of_toList_encode {cs : List Char} (h : (encode s).toList = '/' :: cs) :
    ∃ rest, s.toList = '/' :: rest ∧ cs = (encode (String.ofList rest)).toList := by
  -- The text is what the encoded text is read as, so the slash in front of one is in front of both.
  have hread : decode (String.ofList ('/' :: cs)) = .ok s := by
    rw [← h, String.ofList_toList]
    exact decode_encode s
  obtain ⟨rest, hs⟩ := slash_of_decode hread
  have htext := toList_encode_of_slash (a := []) hs
  rw [h] at htext
  exact ⟨rest, hs, (List.cons.inj htext).2⟩

end Coffer.Text.Percent
