import Coffer.Proofs.Disk.Tree
/-
  The place that a path spells.

  `Disk.placeOf` follows the pieces of a path by their text alone, so it says where a path leads even
  where nothing is.  A path that names a place spells it (`Names.placeOf_eq`), and what a path spells
  does not depend on what is on the disk (`placeOf_of_keeps`).
-/
namespace Coffer.Disk

variable {d d' : Disk} {path : String} {p q : Place}

/-- The place that a piece leads to from another one. -/
def walk (p : Place) (piece : String) : Place :=
  if piece = "." then p else if piece = ".." then p.dropLast else p ++ [piece]

/-- The place that a path spells. -/
def placeOf (d : Disk) (path : String) : Place := (steps path).foldl walk (d.start path)

/-- A directory that is entered is the one that the piece spells. -/
theorem walk_of_enter {piece : String} (h : d.enter p piece = .ok q) : walk p piece = q := by
  unfold enter child at h
  rw [walk]
  by_cases hdot : piece = "."
  · rw [if_pos hdot] at h ⊢
    exact Except.ok.inj h
  · rw [if_neg hdot] at h ⊢
    by_cases hup : piece = ".."
    · rw [if_pos hup] at h ⊢
      exact Except.ok.inj h
    · rw [if_neg hup] at h ⊢
      obtain ⟨found, -, h⟩ := bind_eq_ok_iff.mp h
      rcases found with _ | (mode | i | ⟨mode, number⟩) <;> cases h
      rfl

theorem foldl_walk_of_enter {names : List String} (h : names.foldlM d.enter p = .ok q) :
    names.foldl walk p = q := by
  induction names generalizing p with
  | nil => exact Except.ok.inj h
  | cons piece rest ih =>
    rw [List.foldlM_cons] at h
    obtain ⟨r, hr, h⟩ := bind_eq_ok_iff.mp h
    rw [List.foldl_cons, walk_of_enter hr]
    exact ih h

/-- Where a look-up ends is what the path spells, the last name included. -/
theorem placeOf_of_seat {s : Seat} {name : String} (hs : d.seat path = .ok s)
    (hname : s.name? = some name) : d.placeOf path = s.dir ++ [name] := by
  obtain ⟨hdir, hlast⟩ := seat_eq_ok hs
  obtain ⟨hsome, hdots⟩ := Seat.name?_eq_some hname
  obtain ⟨front, hfront⟩ := List.getLast?_eq_some_iff.mp (hlast.symm.trans hsome)
  have hfront : steps path = front ++ [name] := hfront
  have hwalk : walk s.dir name = s.dir ++ [name] := by
    rw [isDots, Bool.or_eq_false_iff, beq_eq_false_iff_ne, beq_eq_false_iff_ne] at hdots
    rw [walk, if_neg hdots.1, if_neg hdots.2]
  rw [hfront, List.dropLast_concat] at hdir
  rw [placeOf, hfront, List.foldl_append, foldl_walk_of_enter hdir]
  exact hwalk

/-- **A path spells the place that it names.** -/
theorem Names.placeOf_eq (h : d.Names path p) : d.placeOf path = p := by
  obtain ⟨s, name, hs, hname, -, -, rfl⟩ := h
  exact placeOf_of_seat hs hname

/-- What a path spells outlives every change that leaves the directories. -/
theorem placeOf_of_keeps (h : d.Keeps d') (path : String) : d'.placeOf path = d.placeOf path := by
  rw [placeOf, placeOf, start, start, h.current_eq]

end Coffer.Disk
