import Coffer.Disk.Path
import Coffer.Proofs.Text.Split
import Mathlib.Data.List.TakeWhile
/-
  The names at the end of paths.

  A temporary file stands beside the file it is for: its path ends in the temporary name
  (`lastName?_join`), and the path of the file ends in the file's own name or leads through it
  (`lastName?_of_fileName?`).  So the two never name the same place, whatever directory they are
  looked up in.
-/
namespace Coffer

namespace Path

variable {p base name : String}

/-! ## The last name -/

/-- The last piece of a path that is not empty: what a look-up of the path ends with. -/
def lastName? (p : String) : Option String := ((pieces p).filter (!·.isEmpty)).getLast?

theorem toList_append_slash (a b : String) :
    (a ++ "/" ++ b).toList = a.toList ++ '/' :: b.toList := by
  rw [String.toList_append, String.toList_append, List.append_assoc]
  rfl

theorem pieces_append_slash (a b : String) : pieces (a ++ "/" ++ b) = pieces a ++ pieces b := by
  rw [pieces, toList_append_slash, Text.splitOn_append_cons, List.map_append]
  rfl

theorem pieces_of_not_mem (h : '/' ∉ name.toList) : pieces name = [name] := by
  rw [pieces, Text.splitOn_of_not_mem h, List.map_singleton, String.ofList_toList]

/-- No piece of a path holds a slash. -/
theorem not_mem_of_mem_pieces (h : name ∈ pieces p) : '/' ∉ name.toList := by
  obtain ⟨piece, hpiece, rfl⟩ := List.mem_map.mp h
  rw [String.toList_ofList]
  exact Text.not_mem_of_mem_splitOn hpiece

theorem filter_name (hne : name ≠ "") : [name].filter (!·.isEmpty) = [name] := by
  have hkept : (!name.isEmpty) = true := by
    rw [Bool.not_eq_true', String.isEmpty_eq_false_iff]
    exact hne
  exact List.filter_cons_of_pos hkept

/-- A path that goes on with a name behind a slash ends in that name. -/
theorem lastName?_append_slash (a : String) (hslash : '/' ∉ name.toList) (hne : name ≠ "") :
    lastName? (a ++ "/" ++ name) = some name := by
  rw [lastName?, pieces_append_slash, pieces_of_not_mem hslash, List.filter_append,
    filter_name hne]
  exact List.getLast?_concat

/-- **A path that is joined from a directory and a name ends in the name.** -/
theorem lastName?_join (base : String) (hslash : '/' ∉ name.toList) (hne : name ≠ "") :
    lastName? (join base name) = some name := by
  have halone : lastName? name = some name := by
    rw [lastName?, pieces_of_not_mem hslash, filter_name hne]
    rfl
  rw [join]
  split
  · exact halone
  · split
    · -- The base ends in a slash already.
      rename_i hlast
      have hlast : base.toList.getLast? = some '/' := by simpa using hlast
      obtain ⟨front, hfront⟩ := List.getLast?_eq_some_iff.mp hlast
      have hbase : base = String.ofList front ++ "/" := by
        rw [← String.toList_inj, hfront, String.toList_append, String.toList_ofList]
        rfl
      rw [hbase]
      exact lastName?_append_slash _ hslash hne
    · exact lastName?_append_slash _ hslash hne

/-! ## The name of a file -/

/-- Trimming takes pieces away that name nothing. -/
theorem trimEnd_append (ps : List String) : ∃ idle, ps = trimEnd ps ++ idle ∧ ∀ x ∈ idle, isIdle x := by
  cases ps with
  | nil => exact ⟨[], rfl, fun _ h => absurd h List.not_mem_nil⟩
  | cons first rest =>
    refine ⟨(rest.reverse.takeWhile isIdle).reverse, ?_, ?_⟩
    · rw [trimEnd, List.cons_append, ← List.reverse_append, List.takeWhile_append_dropWhile,
        List.reverse_reverse]
    · intro x hx
      exact List.mem_takeWhile_imp (List.mem_reverse.mp hx)

/-- What a path has for a last name when it has a file name. -/
theorem fileName?_eq_some (h : fileName? p = some name) :
    (trimEnd (pieces p)).getLast? = some name ∧ name ≠ "" ∧ name ≠ "." ∧ name ≠ ".." := by
  rw [fileName?] at h
  rcases hl : (trimEnd (pieces p)).getLast? with _ | last
  · rw [hl] at h
    cases h
  · rw [hl] at h
    simp only at h
    split at h
    · cases h
    · rename_i hcond
      cases h
      simp only [Bool.or_eq_true, String.isEmpty_iff, beq_iff_eq, not_or] at hcond
      exact ⟨rfl, hcond.1.1, hcond.1.2, hcond.2⟩

/-- **The path of a file ends in the file's name,** unless idle pieces lead on behind it. -/
theorem lastName?_of_fileName? (h : fileName? p = some name) :
    lastName? p = some name ∨ lastName? p = some "." := by
  obtain ⟨hlast, hne, -, -⟩ := fileName?_eq_some h
  obtain ⟨idle, hpieces, hidle⟩ := trimEnd_append (pieces p)
  rw [lastName?, hpieces, List.filter_append, List.getLast?_append]
  rcases hd : (idle.filter (!·.isEmpty)).getLast? with _ | dot <;> simp only [hd]
  · left
    obtain ⟨front, hfront⟩ := List.getLast?_eq_some_iff.mp hlast
    rw [hfront, List.filter_append, filter_name hne, Option.none_or]
    exact List.getLast?_concat
  · right
    obtain ⟨hmem, hkept⟩ := List.mem_filter.mp (List.mem_of_getLast? hd)
    have hdot := hidle dot hmem
    simp only [isIdle, Bool.or_eq_true, beq_iff_eq] at hdot
    rw [Option.some_or]
    rcases hdot with hempty | rfl
    · rw [hempty] at hkept
      cases hkept
    · rfl

theorem not_mem_of_fileName? (h : fileName? p = some name) : '/' ∉ name.toList := by
  obtain ⟨hlast, -⟩ := fileName?_eq_some h
  obtain ⟨idle, hpieces, -⟩ := trimEnd_append (pieces p)
  apply not_mem_of_mem_pieces (p := p)
  rw [hpieces]
  exact List.mem_append_left _ (List.mem_of_getLast? hlast)

/-! ## The temporary name -/

theorem toList_temporaryName (name : String) :
    (temporaryName name).toList = '.' :: (name.toList ++ ['.', 't', 'm', 'p']) := by
  rw [temporaryName, String.toList_append, String.toList_append, List.append_assoc]
  rfl

theorem temporaryName_ne (name : String) : temporaryName name ≠ name := by
  intro h
  have hlen := congrArg (fun s => s.toList.length) h
  simp only [toList_temporaryName, List.length_cons, List.length_append, List.length_nil] at hlen
  omega

/-- A temporary name is a name: it has no slash. -/
theorem not_mem_temporaryName (h : fileName? p = some name) : '/' ∉ (temporaryName name).toList := by
  have hname := not_mem_of_fileName? h
  rw [toList_temporaryName]
  simp only [List.mem_cons, List.mem_append, List.not_mem_nil, or_false]
  rintro (hc | hc | hc | hc | hc | hc)
  · cases hc
  · exact hname hc
  all_goals cases hc

theorem temporaryName_ne_empty (name : String) : temporaryName name ≠ "" := by
  intro hempty
  have hlen := congrArg String.toList hempty
  rw [toList_temporaryName] at hlen
  cases hlen

theorem lastName?_temporary (base : String) (h : fileName? p = some name) :
    lastName? (join base (temporaryName name)) = some (temporaryName name) :=
  lastName?_join base (not_mem_temporaryName h) (temporaryName_ne_empty name)

/-- **A path and the temporary file for it do not end in the same name.** -/
theorem lastName?_temporary_ne (base : String) (h : fileName? p = some name) :
    lastName? (join base (temporaryName name)) ≠ lastName? p := by
  rw [lastName?_temporary base h]
  rcases lastName?_of_fileName? h with hp | hp
  · rw [hp]
    intro heq
    exact temporaryName_ne name (Option.some.inj heq)
  · rw [hp]
    intro heq
    have hlen := congrArg String.toList (Option.some.inj heq)
    rw [toList_temporaryName] at hlen
    have hnil := (List.cons.inj hlen).2
    have := congrArg List.length hnil
    simp at this

end Path

end Coffer
