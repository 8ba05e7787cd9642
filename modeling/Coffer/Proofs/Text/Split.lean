import Coffer.Text.Split
import Mathlib.Data.List.Basic
/-
  Laws of cutting at a character.

  * `splitOnce` finds the first occurrence, wherever it stands (`splitOnce_append_cons`), and there
    is none to find in a text without the character (`splitOnce_of_not_mem`).
  * `splitOn` cuts between any two texts that the character joins (`splitOn_append_cons`), so texts
    without it are read back from their joined text (`splitOn_intercalate`).
-/
namespace Coffer.Text

variable {c : Char} {a b : List Char}

/-! ## The first occurrence -/

/-- The first occurrence is where it was put, whatever comes behind it. -/
theorem splitOnce_append_cons (h : c ∉ a) : splitOnce c (a ++ c :: b) = some (a, b) := by
  induction a with
  | nil => rw [List.nil_append, splitOnce, if_pos rfl]
  | cons x rest ih =>
    rw [List.mem_cons, not_or] at h
    rw [List.cons_append, splitOnce, if_neg (Ne.symm h.1), ih h.2]
    rfl

theorem splitOnce_of_not_mem (h : c ∉ a) : splitOnce c a = none := by
  induction a with
  | nil => rfl
  | cons x rest ih =>
    rw [List.mem_cons, not_or] at h
    rw [splitOnce, if_neg (Ne.symm h.1), ih h.2]
    rfl

/-! ## Every occurrence -/

theorem splitOn_ne_nil (c : Char) (cs : List Char) : splitOn c cs ≠ [] := by
  cases cs with
  | nil => exact List.cons_ne_nil _ _
  | cons x rest =>
    rw [splitOn]
    split
    · exact List.cons_ne_nil _ _
    · split <;> exact List.cons_ne_nil _ _

/-- A separator between two texts separates their pieces. -/
theorem splitOn_append_cons (c : Char) (a b : List Char) :
    splitOn c (a ++ c :: b) = splitOn c a ++ splitOn c b := by
  induction a with
  | nil =>
    show splitOn c (c :: b) = [] :: splitOn c b
    rw [splitOn, if_pos rfl]
  | cons x rest ih =>
    rw [List.cons_append, splitOn, splitOn, ih]
    by_cases hx : x = c
    · rw [if_pos hx, if_pos hx, List.cons_append]
    · rw [if_neg hx, if_neg hx]
      rcases hs : splitOn c rest with _ | ⟨piece, pieces⟩
      · exact absurd hs (splitOn_ne_nil c rest)
      · rfl

theorem splitOn_of_not_mem (h : c ∉ a) : splitOn c a = [a] := by
  induction a with
  | nil => rfl
  | cons x rest ih =>
    rw [List.mem_cons, not_or] at h
    rw [splitOn, if_neg (Ne.symm h.1), ih h.2]

/-- No piece holds the separator. -/
theorem not_mem_of_mem_splitOn {cs piece : List Char} (h : piece ∈ splitOn c cs) : c ∉ piece := by
  induction cs generalizing piece with
  | nil =>
    rw [splitOn, List.mem_singleton] at h
    rw [h]
    exact List.not_mem_nil
  | cons x rest ih =>
    rw [splitOn] at h
    by_cases hx : x = c
    · rw [if_pos hx, List.mem_cons] at h
      rcases h with rfl | h
      · exact List.not_mem_nil
      · exact ih h
    · rw [if_neg hx] at h
      rcases hs : splitOn c rest with _ | ⟨first, later⟩
      · exact absurd hs (splitOn_ne_nil c rest)
      · rw [hs] at h ih
        rcases List.mem_cons.mp h with rfl | h
        · rw [List.mem_cons, not_or]
          exact ⟨Ne.symm hx, ih List.mem_cons_self⟩
        · exact ih (List.mem_cons_of_mem _ h)

/-- **Texts without the separator are read back from the text that it joins them to.** -/
theorem splitOn_intercalate {pieces : List (List Char)} (hne : pieces ≠ [])
    (h : ∀ piece ∈ pieces, c ∉ piece) : splitOn c ([c].intercalate pieces) = pieces := by
  induction pieces with
  | nil => exact absurd rfl hne
  | cons first rest ih =>
    have hfirst : splitOn c first = [first] := splitOn_of_not_mem (h first List.mem_cons_self)
    cases rest with
    | nil => rw [List.intercalate_singleton, hfirst]
    | cons second rest =>
      have hrest := ih (List.cons_ne_nil _ _) fun piece hp => h piece (List.mem_cons_of_mem _ hp)
      have hjoined : [c].intercalate (first :: second :: rest) =
          first ++ c :: [c].intercalate (second :: rest) := by
        rw [List.intercalate_cons_cons, List.append_assoc, List.singleton_append]
      rw [hjoined, splitOn_append_cons, hfirst, hrest, List.singleton_append]

/-- A character of the joined text is the separator or of one of the texts. -/
theorem mem_intercalate {x : Char} {pieces : List (List Char)} (h : x ∈ [c].intercalate pieces) :
    x = c ∨ ∃ piece ∈ pieces, x ∈ piece := by
  induction pieces with
  | nil => cases h
  | cons first rest ih =>
    cases rest with
    | nil =>
      rw [List.intercalate_singleton] at h
      exact .inr ⟨first, List.mem_cons_self, h⟩
    | cons second rest =>
      rw [List.intercalate_cons_cons, List.mem_append, List.mem_append, List.mem_singleton] at h
      rcases h with (h | h) | h
      · exact .inr ⟨first, List.mem_cons_self, h⟩
      · exact .inl h
      · rcases ih h with h | ⟨piece, hpiece, h⟩
        · exact .inl h
        · exact .inr ⟨piece, List.mem_cons_of_mem _ hpiece, h⟩

end Coffer.Text
