import Coffer.Text.Blank
import Mathlib.Data.List.Forall2
import Mathlib.Data.List.TakeWhile
/-
  Laws of letter case and of blanks.

  * Folding letter case once is folding it for good (`lower_lower`), and it turns letters into
    letters (`isLetter_toLower`).  A text folds to a word in lower case if it is that word with each
    of its letters in either case (`lower_eq_iff_inAnyCase`).
  * A text without blanks is its own trimmed form (`trim_of_forall`).

  Classes of characters are ranges of their numbers here: `isUpper_iff`, `isLower_iff`,
  `isDigit_iff`.
-/
namespace Coffer.Text

variable {c : Char} {s : String}

/-! ## Characters by their numbers -/

theorem isUpper_iff : c.isUpper = true ↔ 65 ≤ c.toNat ∧ c.toNat ≤ 90 := by
  show decide (c.val ≥ 65 ∧ c.val ≤ 90) = true ↔ _
  simp only [decide_eq_true_eq, ge_iff_le, UInt32.le_iff_toNat_le]
  rfl

theorem isLower_iff : c.isLower = true ↔ 97 ≤ c.toNat ∧ c.toNat ≤ 122 := by
  show (decide (c.val ≥ 97) && decide (c.val ≤ 122)) = true ↔ _
  simp only [Bool.and_eq_true, decide_eq_true_eq, ge_iff_le, UInt32.le_iff_toNat_le]
  rfl

theorem isDigit_iff : c.isDigit = true ↔ 48 ≤ c.toNat ∧ c.toNat ≤ 57 := Char.isDigit_iff_toNat

theorem isLetter_eq (c : Char) : isLetter c = (c.isUpper || c.isLower) := rfl

/-! ## Letter case -/

theorem toLower_of_not_isUpper (h : ¬c.isUpper = true) : c.toLower = c := by
  have hrange : ¬(c.val ≥ 65 ∧ c.val ≤ 90) := fun hr => h (decide_eq_true hr)
  exact dif_neg hrange

theorem toNat_toLower (h : c.isUpper = true) : c.toLower.toNat = c.toNat + 32 := by
  have hval : c.toLower.val = c.val + 32 := congrArg Char.val (dif_pos (of_decide_eq_true h))
  have hbound : c.val.toNat ≤ 90 := (isUpper_iff.mp h).2
  show c.toLower.val.toNat = c.val.toNat + 32
  rw [hval, UInt32.toNat_add]
  exact Nat.mod_eq_of_lt (Nat.lt_of_le_of_lt (Nat.add_le_add_right hbound 32) (by decide))

theorem isLower_toLower (h : c.isUpper = true) : c.toLower.isLower = true := by
  have hrange := isUpper_iff.mp h
  rw [isLower_iff, toNat_toLower h]
  omega

theorem toLower_toLower (c : Char) : c.toLower.toLower = c.toLower := by
  apply toLower_of_not_isUpper
  by_cases h : c.isUpper = true
  · have hrange := isUpper_iff.mp h
    rw [isUpper_iff, toNat_toLower h]
    omega
  · rwa [toLower_of_not_isUpper h]

theorem isLetter_toLower (c : Char) : isLetter c.toLower = isLetter c := by
  by_cases h : c.isUpper = true
  · rw [isLetter_eq, isLetter_eq, isLower_toLower h, h, Bool.or_true, Bool.true_or]
  · rw [toLower_of_not_isUpper h]

/-- Folding letter case twice is folding it once. -/
theorem lower_lower (s : String) : lower (lower s) = lower s := by
  rw [lower, lower, String.toList_ofList, List.map_map]
  exact congrArg String.ofList (List.map_congr_left fun c _ => toLower_toLower c)

theorem toUpper_of_not_isLower (h : ¬c.isLower = true) : c.toUpper = c := by
  refine dif_neg fun hrange => h (isLower_iff.mpr ?_)
  simp only [UInt32.le_iff_toNat_le] at hrange
  exact hrange

theorem toNat_toUpper (h : c.isLower = true) : c.toUpper.toNat = c.toNat - 32 := by
  have hrange := isLower_iff.mp h
  have hlower : 'a'.val ≤ c.val ∧ c.val ≤ 'z'.val := by
    simp only [UInt32.le_iff_toNat_le]
    exact hrange
  have hval : c.toUpper = ⟨c.val + ('A'.val - 'a'.val), _⟩ := dif_pos hlower
  have hmod : c.toUpper.toNat = (c.toNat + 4294967264) % 4294967296 := by
    rw [hval]
    exact UInt32.toNat_add c.val ('A'.val - 'a'.val)
  omega

/-- The characters that fold to `w` are `w` and its capital. -/
theorem toLower_eq_iff {w : Char} (hw : ¬w.isUpper = true) :
    c.toLower = w ↔ c = w ∨ c = w.toUpper := by
  by_cases hc : c.isUpper = true
  · have hfold := toNat_toLower hc
    have hlower := isLower_toLower hc
    constructor
    · rintro rfl
      refine .inr (Char.toNat_inj.mp ?_)
      rw [toNat_toUpper hlower, hfold]
      omega
    · rintro (rfl | rfl)
      · exact absurd hc hw
      · by_cases hl : w.isLower = true
        · have hrange := isLower_iff.mp hl
          refine Char.toNat_inj.mp ?_
          rw [hfold, toNat_toUpper hl]
          omega
        · rw [toUpper_of_not_isLower hl] at hc
          exact absurd hc hw
  · rw [toLower_of_not_isUpper hc]
    refine ⟨Or.inl, ?_⟩
    rintro (rfl | rfl)
    · rfl
    · by_cases hl : w.isLower = true
      · have hrange := isLower_iff.mp hl
        rw [isUpper_iff, toNat_toUpper hl] at hc
        omega
      · exact toUpper_of_not_isLower hl

/-- A text is a word with each of its letters as it is there, or capital. -/
def InAnyCase (word s : String) : Prop :=
  List.Forall₂ (fun w c => c = w ∨ c = w.toUpper) word.toList s.toList

/-- **Folding tells whether a text is a word in any letter case.** -/
theorem lower_eq_iff_inAnyCase {word : String} (hword : ∀ w ∈ word.toList, ¬w.isUpper = true) :
    lower s = word ↔ InAnyCase word s := by
  have hfold : lower s = word ↔ List.Forall₂ (fun w c => c.toLower = w) word.toList s.toList := by
    rw [lower, ← String.toList_inj, String.toList_ofList, ← List.forall₂_eq_eq_eq,
      List.forall₂_map_left_iff]
    exact ⟨List.Forall₂.flip, List.Forall₂.flip⟩
  rw [hfold, InAnyCase]
  generalize word.toList = ws at hword
  generalize s.toList = cs
  induction ws generalizing cs with
  | nil => cases cs <;> simp only [List.forall₂_nil_left_iff]
  | cons w ws ih =>
    rcases cs with _ | ⟨c, cs⟩
    · exact ⟨nofun, nofun⟩
    · rw [List.forall₂_cons, List.forall₂_cons, toLower_eq_iff (hword w List.mem_cons_self)]
      exact and_congr_right fun _ => ih (fun w' hw' => hword w' (List.mem_cons_of_mem w hw')) cs

/-! ## Blanks -/

/-- A text without blanks has none at its ends. -/
theorem trim_of_forall (h : ∀ c ∈ s.toList, isBlank c = false) : trim s = s := by
  have hdrop : ∀ cs : List Char, (∀ c ∈ cs, isBlank c = false) → cs.dropWhile isBlank = cs := by
    intro cs hcs
    rw [List.dropWhile_eq_self_iff]
    intro hpos
    rw [hcs _ (List.getElem_mem hpos)]
    exact Bool.false_ne_true
  have hreverse : ∀ c ∈ s.toList.reverse, isBlank c = false := fun c hc =>
    h c (List.mem_reverse.mp hc)
  rw [trim, dropTrailingBlanks, hdrop _ h, hdrop _ hreverse, List.reverse_reverse,
    String.ofList_toList]

end Coffer.Text
