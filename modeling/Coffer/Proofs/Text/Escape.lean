import Coffer.Proofs.Text.Blank
import Coffer.Proofs.Text.Percent
/-
  The grammar of percent escapes.

  `Spells pair cs b` reads a text by its characters, from left to right: a percent sign and the two
  characters behind it spell the byte that `pair` gives them, and every other character spells its own
  UTF-8 bytes.  The grammar of two hexadecimal digits is that of `digitPair?`; that of `signedPair?`
  allows a plus sign in place of the first digit.

  * `decode_eq_ok_iff_spells` — decoding follows the grammar of `signedPair?`: a derivation says what is
    decoded, and what is decoded has a derivation, character by character.
  * `spells_digitPair?_iff` — the two grammars differ only where a plus sign follows a percent sign.
-/
namespace Coffer.Text.Percent

variable {pair : Char → Char → Option UInt8} {cs : List Char} {b : Bytes} {s t : String}

/-! ## The grammar -/

/-- The value of a hexadecimal digit, in either letter case. -/
def digitValue? (c : Char) : Option Nat := "0123456789abcdef".toList.idxOf? c.toLower

/-- The byte that two hexadecimal digits denote. -/
def digitPair? (high low : Char) : Option UInt8 := do
  return UInt8.ofNat ((← digitValue? high) * 16 + (← digitValue? low))

/-- The byte that two hexadecimal digits denote, or a plus sign and one digit. -/
def signedPair? (high low : Char) : Option UInt8 :=
  if high = '+' then (digitValue? low).map UInt8.ofNat else digitPair? high low

/-- The bytes that a text spells. -/
inductive Spells (pair : Char → Char → Option UInt8) : List Char → Bytes → Prop
  | nil : Spells pair [] []
  | char {c : Char} {cs : List Char} {b : Bytes} : c ≠ '%' → Spells pair cs b →
      Spells pair (c :: cs) (String.utf8EncodeChar c ++ b)
  | escape {high low : Char} {x : UInt8} {cs : List Char} {b : Bytes} : pair high low = some x →
      Spells pair cs b → Spells pair ('%' :: high :: low :: cs) (x :: b)

theorem digitPair?_plus (low : Char) : digitPair? '+' low = none := by
  have hplus : digitValue? '+' = none := by decide
  rw [digitPair?, hplus]
  rfl

/-- **A plus sign behind a percent sign is all that the two grammars differ in.** -/
theorem spells_digitPair?_iff (h : ¬ ['%', '+'] <:+: cs) :
    Spells digitPair? cs b ↔ Spells signedPair? cs b := by
  constructor <;> intro hspells
  · induction hspells with
    | nil => exact .nil
    | char hc _ ih => exact .char hc (ih fun hin => h (List.infix_cons hin))
    | @escape high low x cs b hpair _ ih =>
      refine .escape ?_ (ih fun hin => h (List.infix_cons (List.infix_cons (List.infix_cons hin))))
      have hplus : high ≠ '+' := by
        rintro rfl
        rw [digitPair?_plus] at hpair
        cases hpair
      rw [signedPair?, if_neg hplus, hpair]
  · induction hspells with
    | nil => exact .nil
    | char hc _ ih => exact .char hc (ih fun hin => h (List.infix_cons hin))
    | @escape high low x cs b hpair _ ih =>
      refine .escape ?_ (ih fun hin => h (List.infix_cons (List.infix_cons (List.infix_cons hin))))
      have hplus : high ≠ '+' := by
        rintro rfl
        exact h ⟨[], low :: cs, rfl⟩
      rw [signedPair?, if_neg hplus] at hpair
      exact hpair

/-! ## Digits as bytes and as characters -/

/-- A digit is the same digit as a byte and as a character. -/
theorem digit?_eq {c : Char} {x : UInt8} (h : c.toNat = x.toNat) :
    digit? x = (digitValue? c).map UInt8.ofNat := by
  have hall : ∀ n < 256, digit? (UInt8.ofNat n) = (digitValue? (Char.ofNat n)).map UInt8.ofNat := by
    decide +kernel
  have hx := hall x.toNat x.toNat_lt
  rwa [UInt8.ofNat_toNat, ← h, Char.ofNat_toNat] at hx

theorem pair?_eq {high low : Char} {x y : UInt8} (hhigh : high.toNat = x.toNat)
    (hlow : low.toNat = y.toNat) : pair? x y = signedPair? high low := by
  have hplus : x = 0x2B ↔ high = '+' := by
    rw [← UInt8.toNat_inj, ← hhigh, ← Char.toNat_inj]
    exact Iff.rfl
  rw [pair?, signedPair?, digitPair?, digit?_eq hhigh, digit?_eq hlow]
  by_cases hp : high = '+'
  · rw [if_pos (hplus.mpr hp), if_pos hp]
  · rw [if_neg fun hx => hp (hplus.mp hx), if_neg hp]
    rcases digitValue? high with _ | h
    · rfl
    · rcases digitValue? low with _ | l
      · rfl
      · show some (UInt8.ofNat h * 16 + UInt8.ofNat l) = some (UInt8.ofNat (h * 16 + l))
        rw [UInt8.ofNat_add, UInt8.ofNat_mul]
        rfl

/-- Digits are ASCII. -/
theorem lt_of_digit? {x d : UInt8} (h : digit? x = some d) : x.toNat < 128 := by
  have hall : ∀ n < 256, 128 ≤ n → digit? (UInt8.ofNat n) = none := by decide +kernel
  refine Nat.lt_of_not_le fun hx => ?_
  have hnone := hall x.toNat x.toNat_lt hx
  rw [UInt8.ofNat_toNat, h] at hnone
  cases hnone

theorem lt_of_pair? {x y d : UInt8} (h : pair? x y = some d) : x.toNat < 128 ∧ y.toNat < 128 := by
  rw [pair?] at h
  split at h
  · rename_i hplus
    rw [hplus]
    exact ⟨by decide, lt_of_digit? h⟩
  · obtain ⟨high, hhigh, h⟩ := Option.bind_eq_some_iff.mp h
    obtain ⟨low, hlow, -⟩ := Option.bind_eq_some_iff.mp h
    exact ⟨lt_of_digit? hhigh, lt_of_digit? hlow⟩

/-- A digit is an ASCII character. -/
theorem lt_of_digitValue? {c : Char} {n : Nat} (h : digitValue? c = some n) : c.toNat < 128 := by
  have hmem : c.toLower ∈ "0123456789abcdef".toList := by
    rw [← List.isSome_idxOf?]
    exact Option.isSome_of_eq_some h
  by_cases hup : c.isUpper = true
  · have := (isUpper_iff.mp hup).2
    omega
  · rw [toLower_of_not_isUpper hup] at hmem
    have hall : "0123456789abcdef".toList.all (·.toNat < 128) = true := by decide
    exact of_decide_eq_true (List.all_eq_true.mp hall c hmem)

theorem lt_of_signedPair? {high low : Char} {x : UInt8} (h : signedPair? high low = some x) :
    high.toNat < 128 ∧ low.toNat < 128 := by
  rw [signedPair?] at h
  split at h
  · rename_i hplus
    obtain ⟨l, hl, -⟩ := Option.map_eq_some_iff.mp h
    rw [hplus]
    exact ⟨by decide, lt_of_digitValue? hl⟩
  · obtain ⟨n, hn, h⟩ := Option.bind_eq_some_iff.mp h
    obtain ⟨l, hl, -⟩ := Option.bind_eq_some_iff.mp h
    exact ⟨lt_of_digitValue? hn, lt_of_digitValue? hl⟩

/-! ## Decoding by characters -/

/-- Decoding passes over bytes that are no percent signs. -/
theorem decodeBytes_append (offset : Nat) {front : Bytes} (h : ∀ x ∈ front, x ≠ 0x25) (bs : Bytes) :
    decodeBytes offset (front ++ bs) = (decodeBytes (offset + front.length) bs).map (front ++ ·) := by
  induction front generalizing offset with
  | nil =>
    show decodeBytes offset bs = (decodeBytes offset bs).map id
    cases decodeBytes offset bs <;> rfl
  | cons x rest ih =>
    rw [List.cons_append, decodeBytes_cons _ (h x List.mem_cons_self),
      ih _ fun y hy => h y (List.mem_cons_of_mem _ hy), List.length_cons, Nat.add_right_comm,
      ← Nat.add_assoc]
    cases decodeBytes (offset + rest.length + 1) bs <;> rfl

/-- **A percent sign is decoded with the two bytes behind it,** and these must denote a byte. -/
theorem decodeBytes_percent_eq_ok_iff {offset : Nat} {bs out : Bytes} :
    decodeBytes offset (0x25 :: bs) = .ok out ↔ ∃ high low rest x later,
      bs = high :: low :: rest ∧ pair? high low = some x ∧
        decodeBytes (offset + 3) rest = .ok later ∧ out = x :: later := by
  constructor
  · intro h
    match bs with
    | [] | [_] => cases h
    | high :: low :: rest =>
      rw [decodeBytes] at h
      split at h
      · cases h
      · rename_i x hpair
        rcases hrest : decodeBytes (offset + 3) rest with e | later
        · rw [hrest] at h
          cases h
        · rw [hrest] at h
          cases h
          exact ⟨high, low, rest, x, later, rfl, hpair, hrest, rfl⟩
  · rintro ⟨high, low, rest, x, later, rfl, hpair, hrest, rfl⟩
    rw [decodeBytes, hpair]
    simp only [hrest]
    rfl

theorem not_percent_of_mem {c : Char} (h : c ≠ '%') :
    ∀ x ∈ String.utf8EncodeChar c, x ≠ 0x25 := by
  rintro x hx rfl
  have hnat := toNat_of_mem_utf8EncodeChar hx (by decide)
  exact h (Char.toNat_inj.mp hnat)

/-- Characters that denote a byte are bytes of their own, which denote it too. -/
theorem pair?_of_signedPair? {high low : Char} {x : UInt8} (h : signedPair? high low = some x) :
    ∃ y z, String.utf8EncodeChar high = [y] ∧ String.utf8EncodeChar low = [z] ∧
      pair? y z = some x := by
  obtain ⟨hhigh, hlow⟩ := lt_of_signedPair? h
  have htoNat : ∀ c : Char, c.toNat < 128 → c.toNat = (UInt8.ofNat c.toNat).toNat := by
    intro c hc
    rw [UInt8.toNat_ofNat', Nat.mod_eq_of_lt (by omega)]
  refine ⟨_, _, utf8EncodeChar_of_lt hhigh, utf8EncodeChar_of_lt hlow, ?_⟩
  rw [pair?_eq (htoNat high hhigh) (htoNat low hlow), h]

/-- What a text spells is decoded. -/
theorem decodeBytes_of_spells (h : Spells signedPair? cs b) (offset : Nat) :
    decodeBytes offset (cs.flatMap String.utf8EncodeChar) = .ok b := by
  induction h generalizing offset with
  | nil => rfl
  | char hc _ ih =>
    rw [List.flatMap_cons, decodeBytes_append _ (not_percent_of_mem hc), ih]
    rfl
  | @escape high low x cs b hpair _ ih =>
    obtain ⟨y, z, hhigh, hlow, hbyte⟩ := pair?_of_signedPair? hpair
    have hpercent : String.utf8EncodeChar '%' = [0x25] := by decide
    rw [List.flatMap_cons, List.flatMap_cons, List.flatMap_cons, hpercent, hhigh, hlow]
    exact decodeBytes_percent_eq_ok_iff.mpr ⟨y, z, _, x, b, rfl, hbyte, ih (offset + 3), rfl⟩

/-- What is decoded from a text is spelled by it. -/
theorem spells_of_decodeBytes {offset : Nat}
    (h : decodeBytes offset (cs.flatMap String.utf8EncodeChar) = .ok b) : Spells signedPair? cs b := by
  -- An escape is three characters, so the induction is on their number.
  induction hn : cs.length using Nat.strongRecOn generalizing cs offset b with
  | _ n ih =>
    match cs with
    | [] =>
      cases h
      exact .nil
    | c :: cs =>
      rw [List.length_cons] at hn
      by_cases hc : c = '%'
      · subst hc
        obtain ⟨y, z, rest, x, later, hbytes, hpair, hrest, rfl⟩ := decodeBytes_percent_eq_ok_iff.mp h
        obtain ⟨hy, hz⟩ := lt_of_pair? hpair
        obtain ⟨high, cs, rfl, hhigh, hbytes⟩ := exists_of_flatMap_cons hbytes hy
        obtain ⟨low, cs, rfl, hlow, rfl⟩ := exists_of_flatMap_cons hbytes hz
        rw [pair?_eq hhigh hlow] at hpair
        simp only [List.length_cons] at hn
        exact .escape hpair (ih cs.length (by omega) hrest rfl)
      · rw [List.flatMap_cons, decodeBytes_append _ (not_percent_of_mem hc)] at h
        rcases hrest : decodeBytes (offset + (String.utf8EncodeChar c).length)
          (cs.flatMap String.utf8EncodeChar) with e | later
        · rw [hrest] at h
          cases h
        · rw [hrest] at h
          cases h
          exact .char hc (ih cs.length (by omega) hrest rfl)

/-- **Decoding follows the grammar of escapes:** the bytes that a text spells must be those of a text. -/
theorem decode_eq_ok_iff_spells :
    decode s = .ok t ↔ Spells signedPair? s.toList (utf8 t) := by
  rw [decode_eq_ok_iff, utf8_eq_flatMap s]
  exact ⟨spells_of_decodeBytes, fun h => decodeBytes_of_spells h 0⟩

end Coffer.Text.Percent
