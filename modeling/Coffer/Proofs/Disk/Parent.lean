import Coffer.Proofs.Disk.Place
/-
  A path and the directory that it stands in.

  A look-up of a path goes the way of its parent and then takes the last name (`exists_standsIn`), and a
  look-up of a file beside it goes the same way (`steps_join`).  Pieces that name nothing may be in
  between and behind.  So what a path and the path of a temporary file for it have in common, and where
  they part, can be read off from the texts.
-/
namespace Coffer.Path

open Disk (steps)

variable {p up last name : String}

/-! ## Pieces -/

theorem pieces_ofPieces {ps : List String} (hne : ps ≠ []) (h : ∀ x ∈ ps, '/' ∉ x.toList) :
    pieces (ofPieces ps) = ps := by
  have htexts : Text.splitOn '/' (ofPieces ps).toList = ps.map String.toList := by
    rw [ofPieces, String.toList_intercalate]
    refine Text.splitOn_intercalate (fun hnil => hne (List.map_eq_nil_iff.mp hnil)) fun piece hpiece => ?_
    obtain ⟨x, hx, rfl⟩ := List.mem_map.mp hpiece
    exact h x hx
  rw [pieces, htexts, List.map_map]
  exact (List.map_congr_left fun x _ => String.ofList_toList).trans (List.map_id ps)

/-- A path starts at the root when its first piece is empty and others follow. -/
theorem isAbsolute_iff : isAbsolute p = true ↔ ∃ more, more ≠ [] ∧ pieces p = "" :: more := by
  rw [isAbsolute, pieces]
  rcases p.toList with _ | ⟨x, rest⟩
  · constructor
    · rintro ⟨⟩
    · rintro ⟨more, hmore, h⟩
      exact absurd (List.cons.inj h).2.symm hmore
  · by_cases hx : x = '/'
    · subst hx
      refine ⟨fun _ => ⟨_, ?_, rfl⟩, fun _ => rfl⟩
      exact fun hnil => Text.splitOn_ne_nil '/' rest (List.map_eq_nil_iff.mp hnil)
    · constructor
      · intro h
        exact absurd (Option.some.inj (beq_iff_eq.mp h)) hx
      · -- The first piece begins with this character.
        rintro ⟨more, -, h⟩
        rw [Text.splitOn, if_neg hx] at h
        rcases hs : Text.splitOn '/' rest with _ | ⟨piece, later⟩
        · exact absurd hs (Text.splitOn_ne_nil '/' rest)
        · rw [hs] at h
          have hfirst := congrArg String.toList (List.cons.inj h).1
          rw [String.toList_ofList] at hfirst
          cases hfirst

/-- What the pieces that name nothing leave in a look-up. -/
theorem eq_dot_of_idle {idle : List String} (h : ∀ x ∈ idle, isIdle x) :
    ∀ x ∈ idle.filter (!·.isEmpty), x = "." := by
  intro x hx
  obtain ⟨hmem, hkept⟩ := List.mem_filter.mp hx
  have hidle := h x hmem
  rw [Bool.not_eq_true'] at hkept
  rw [isIdle, hkept, Bool.false_or, beq_iff_eq] at hidle
  exact hidle

/-! ## Parents -/

/-- The path `p` is `up` and then the name `last`, with nothing but dots in between and behind. -/
structure StandsIn (p up last : String) : Prop where
  steps_eq : ∃ idle idle', (∀ x ∈ idle, x = ".") ∧ (∀ x ∈ idle', x = ".") ∧
    steps p = steps up ++ (idle ++ last :: idle')
  last_eq : (trimEnd (pieces p)).getLast? = some last
  /-- Only a path of one piece has no directory. -/
  absolute : (up = "" ∧ isAbsolute p = false) ∨ (up ≠ "" ∧ isAbsolute up = isAbsolute p ∧ last ≠ ".")

/-- Behind the first piece a trimmed path ends in a name. -/
theorem not_idle_of_trimEnd {first : String} {front : List String} {ps : List String}
    (h : trimEnd ps = first :: (front ++ [last])) : isIdle last = false := by
  rcases ps with _ | ⟨x, rest⟩
  · cases h
  · have hrest : rest.reverse.dropWhile isIdle = last :: front.reverse := by
      have htail := (List.cons.inj h).2
      rw [← List.reverse_reverse (List.dropWhile _ _), htail, List.reverse_append]
      rfl
    have hhead := List.head?_dropWhile_not isIdle rest.reverse
    rw [hrest] at hhead
    exact hhead

/-- The directory of some pieces has a text that spells them. -/
theorem directory_spec {first : String} {kept : List String}
    (hup : (if first :: kept = [""] then some "/" else some (ofPieces (first :: kept))) = some up)
    (hslash : ∀ x ∈ first :: kept, '/' ∉ x.toList) :
    up ≠ "" ∧ steps up = (first :: kept).filter (!·.isEmpty) ∧ (isAbsolute up = true ↔ first = "") := by
  split_ifs at hup with hroot <;> cases hup
  · cases hroot
    exact ⟨by decide, rfl, fun _ => rfl, fun _ => rfl⟩
  · have hpieces := pieces_ofPieces (List.cons_ne_nil first kept) hslash
    refine ⟨fun hempty => ?_, by rw [steps, hpieces], ?_⟩
    · rw [hempty] at hpieces
      exact hroot hpieces.symm
    · rw [isAbsolute_iff, hpieces]
      constructor
      · rintro ⟨more, -, hmore⟩
        exact (List.cons.inj hmore).1
      · rintro rfl
        exact ⟨kept, fun hnil => hroot (by rw [hnil]), rfl⟩

/-- A path of one piece is relative, and stands in no directory that it names. -/
theorem standsIn_of_piece {idle : List String} (htrim : trimEnd (pieces p) = [last])
    (hpieces : pieces p = [last] ++ idle) (hidle : ∀ x ∈ idle, isIdle x) (hne : last ≠ "") :
    StandsIn p "" last := by
  refine ⟨⟨[], _, fun x hx => absurd hx List.not_mem_nil, eq_dot_of_idle hidle, ?_⟩, ?_, .inl ⟨rfl, ?_⟩⟩
  · rw [steps, hpieces, List.filter_append, filter_name hne]
    rfl
  · rw [htrim]
    rfl
  · rw [← Bool.not_eq_true, isAbsolute_iff]
    rintro ⟨more, -, hmore⟩
    rw [hpieces] at hmore
    exact hne (List.cons.inj hmore).1

/-- Of several pieces the last one stands in what the others name. -/
theorem standsIn_of_front {first : String} {front idle' : List String}
    (htrim : trimEnd (pieces p) = first :: (front ++ [last]))
    (hpieces : pieces p = first :: (front ++ [last]) ++ idle') (hidle' : ∀ x ∈ idle', isIdle x)
    (hup : (if trimEnd (first :: front) = [""] then some "/" else some (ofPieces (trimEnd (first :: front)))) =
      some up) : StandsIn p up last := by
  have hidle := not_idle_of_trimEnd htrim
  rw [isIdle, Bool.or_eq_false_iff, beq_eq_false_iff_ne] at hidle
  -- What is left of the front is the directory.
  obtain ⟨idle, hdir, hbetween⟩ := trimEnd_append (first :: front)
  have hkept : trimEnd (first :: front) = first :: (front.reverse.dropWhile isIdle).reverse := rfl
  generalize (front.reverse.dropWhile isIdle).reverse = kept at hkept
  rw [hkept] at hup hdir
  have hall : pieces p = (first :: kept) ++ (idle ++ last :: idle') := by
    rw [hpieces, ← List.cons_append, hdir]
    simp only [List.append_assoc, List.singleton_append]
  have hslash : ∀ x ∈ first :: kept, '/' ∉ x.toList := by
    intro x hx
    apply not_mem_of_mem_pieces (p := p)
    rw [hall]
    exact List.mem_append_left _ hx
  obtain ⟨hne, hsteps, habsolute⟩ := directory_spec hup hslash
  refine ⟨⟨_, _, eq_dot_of_idle hbetween, eq_dot_of_idle hidle', ?_⟩, ?_, .inr ⟨hne, ?_, hidle.2⟩⟩
  · have hlast : (!last.isEmpty) = true := by rw [hidle.1]; rfl
    rw [hsteps, steps, hall, List.filter_append, List.filter_append,
      List.filter_cons_of_pos (p := fun x : String => !x.isEmpty) hlast]
  · rw [htrim, ← List.cons_append]
    exact List.getLast?_concat
  · rw [Bool.eq_iff_iff, habsolute, isAbsolute_iff, hall]
    constructor
    · rintro rfl
      exact ⟨_, List.append_ne_nil_of_right_ne_nil _ (List.append_ne_nil_of_right_ne_nil _
        (List.cons_ne_nil _ _)), rfl⟩
    · rintro ⟨more, -, hmore⟩
      exact (List.cons.inj hmore).1

/-- **A path with a parent stands in it.** -/
theorem exists_standsIn (h : parent? p = some up) : ∃ last, StandsIn p up last := by
  obtain ⟨idle', hpieces, hidle'⟩ := trimEnd_append (pieces p)
  rw [parent?] at h
  rcases htrim : trimEnd (pieces p) with _ | ⟨first, _ | ⟨second, rest⟩⟩ <;>
    rw [htrim] at h hpieces
  · cases h
  · simp only at h
    split_ifs at h with hempty
    cases h
    have hfirst : first ≠ "" := fun heq => hempty (by rw [heq]; rfl)
    exact ⟨first, standsIn_of_piece htrim hpieces hidle' hfirst⟩
  · obtain ⟨front, last, hfront⟩ := List.eq_nil_or_concat' (second :: rest) |>.resolve_left
      (List.cons_ne_nil _ _)
    have hdropped : (first :: second :: rest).dropLast = first :: front := by
      rw [hfront, ← List.cons_append, List.dropLast_concat]
    simp only [hdropped] at h
    rw [hfront] at htrim hpieces
    exact ⟨last, standsIn_of_front htrim hpieces hidle' h⟩

/-- A path and its directory start at the same place. -/
theorem StandsIn.isAbsolute_eq (h : StandsIn p up last) : isAbsolute up = isAbsolute p := by
  rcases h.absolute with ⟨rfl, habsolute⟩ | ⟨-, habsolute, -⟩
  · exact habsolute.symm
  · exact habsolute

/-- **A look-up of a relative path in a directory goes the way of the directory first.** -/
theorem steps_join_of_relative (up : String) (hrelative : isAbsolute p = false) :
    steps (join up p) = steps up ++ steps p ∧ isAbsolute (join up p) = isAbsolute up := by
  have hbehind : ∀ front : String, steps (front ++ "/" ++ p) = steps front ++ steps p := by
    intro front
    rw [steps, pieces_append_slash, List.filter_append]
    rfl
  rw [join, hrelative, Bool.false_or]
  by_cases hempty : up.isEmpty = true
  · rw [if_pos hempty, String.isEmpty_iff.mp hempty]
    exact ⟨rfl, hrelative⟩
  · have hhead : ∀ tail : String, isAbsolute (up ++ tail) = isAbsolute up := by
      intro tail
      have hne : up.toList ≠ [] := fun hnil => hempty (String.isEmpty_iff.mpr (String.toList_eq_nil_iff.mp hnil))
      rw [isAbsolute, isAbsolute, String.toList_append, List.head?_append_of_ne_nil _ hne]
    rw [if_neg hempty]
    split
    · -- The directory ends in a slash already.
      rename_i hlast
      obtain ⟨front, hfront⟩ := List.getLast?_eq_some_iff.mp (beq_iff_eq.mp hlast)
      have hup : up = String.ofList front ++ "/" := by
        rw [← String.toList_inj, hfront, String.toList_append, String.toList_ofList]
        rfl
      refine ⟨?_, hhead p⟩
      have hsteps : steps (String.ofList front ++ "/") = steps (String.ofList front) := by
        have hpieces := pieces_append_slash (String.ofList front) ""
        rw [String.append_empty] at hpieces
        rw [steps, steps, hpieces, List.filter_append]
        exact List.append_nil _
      rw [hup, hbehind, hsteps]
    · refine ⟨hbehind up, ?_⟩
      rw [String.append_assoc]
      exact hhead _

/-- A name without a slash is a relative path, and the only step of it. -/
theorem steps_of_name (hslash : '/' ∉ name.toList) (hne : name ≠ "") :
    steps name = [name] ∧ isAbsolute name = false := by
  refine ⟨by rw [steps, pieces_of_not_mem hslash, filter_name hne], ?_⟩
  rw [isAbsolute, beq_eq_false_iff_ne]
  intro hhead
  exact hslash (List.mem_of_mem_head? hhead)

/-- A look-up of a name in a directory ends in the name. -/
theorem steps_join (up : String) (hslash : '/' ∉ name.toList) (hne : name ≠ "") :
    steps (join up name) = steps up ++ [name] ∧ isAbsolute (join up name) = isAbsolute up := by
  obtain ⟨hsteps, hrelative⟩ := steps_of_name hslash hne
  rw [← hsteps]
  exact steps_join_of_relative up hrelative

end Coffer.Path
