import Coffer.Proofs.Disk.Directories
import Mathlib.Data.List.Induction
/-
  What is seen through a path, and what is not.

  `Disk.seen` is all that a reader learns of a path: the bytes of a file, that something else is there,
  or why there is nothing.  It depends on the way to the last name and on what is at that name
  (`seen_eq`).  So it does not notice a temporary file beside the path (`seen_of_only`), and it notices
  new directories only where there was nothing (`seen_of_deepens`); without a way upwards and without
  names that are too long there is nothing still (`seen_of_made`).
-/
namespace Coffer.Disk

variable {d d' : Disk} {path temporary up last : String} {p q t dir : Place} {e : IoError}
  {names : List String}

/-- What is seen through a path: the bytes of a file, or that something else is there. -/
def seen (path : String) (d : Disk) : Except IoError (Option Bytes) :=
  (d.stat path).map fun
    | .file i => some (d.inode i).data
    | _ => none

/-! ## The way and the last name -/

/-- What is wrong with a path as a text. -/
def textFault? (path : String) : Option IoError :=
  if path.toList.contains '\x00' then some .zeroInPath
  else if path.isEmpty then some .noEntry
  else if maxPath ≤ path.utf8ByteSize then some .nameTooLong
  else none

/-- What is seen of a name in a directory. -/
def peek (d : Disk) (dir : Place) (name : String) (slash : Bool) : Except IoError (Option Bytes) :=
  if maxName < name.utf8ByteSize then .error .nameTooLong
  else match d.entryAt? (dir ++ [name]), slash with
    | none, _ => .error .noEntry
    | some (.directory _), _ => .ok none
    | some _, true => .error .notDirectory
    | some (.file i), false => .ok (some (d.inode i).data)
    | some (.socket _ _), false => .ok none

theorem peek_of_sameAt {name : String} (h : d.SameAt d' (dir ++ [name])) (slash : Bool) :
    d'.peek dir name slash = d.peek dir name slash := by
  obtain ⟨hentry, hinode⟩ := h
  unfold peek
  rw [hentry]
  rcases he : d.entryAt? (dir ++ [name]) with _ | (mode | i | ⟨mode, number⟩)
  · rfl
  · rfl
  · cases slash with
    | true => rfl
    | false => simp only [hinode i he]
  · cases slash <;> rfl

/-- A piece that is no name leads on from every directory. -/
theorem enter_of_isDots {piece : String} (h : isDots piece = true) (d : Disk) (p : Place) :
    d.enter p piece = .ok (walk p piece) := by
  rw [isDots, Bool.or_eq_true, beq_iff_eq, beq_iff_eq] at h
  rw [enter, walk]
  split_ifs with hdot hup
  · rfl
  · rfl
  · exact absurd h (not_or.mpr ⟨hdot, hup⟩)

theorem walk_of_name {name : String} (h : isDots name = false) (p : Place) : walk p name = p ++ [name] := by
  rw [isDots, Bool.or_eq_false_iff, beq_eq_false_iff_ne, beq_eq_false_iff_ne] at h
  rw [walk, if_neg h.1, if_neg h.2]

/-- What entering a name comes to. -/
theorem enter_of_name {name : String} (h : isDots name = false) (d : Disk) (p : Place) :
    d.enter p name = if maxName < name.utf8ByteSize then .error .nameTooLong
      else match d.entryAt? (p ++ [name]) with
        | none => .error .noEntry
        | some (.directory _) => .ok (p ++ [name])
        | some _ => .error .notDirectory := by
  rw [isDots, Bool.or_eq_false_iff, beq_eq_false_iff_ne, beq_eq_false_iff_ne] at h
  rw [enter, if_neg h.1, if_neg h.2, child_eq]
  split_ifs <;> rfl

/-- **A reader goes the way of a path and looks at its last name.** -/
theorem seen_eq (hd : d.Sound) (path : String) :
    d.seen path = match textFault? path with
      | some e => .error e
      | none => (steps path).dropLast.foldlM d.enter (d.start path) >>= fun dir =>
        match Path.lastName? path with
        | none => .ok none
        | some last =>
          if isDots last then .ok none else d.peek dir last (path.toList.getLast? == some '/') := by
  have hseat := seat_eq d path
  rw [seen, stat, find, textFault?]
  split_ifs at hseat ⊢
  · rw [hseat]
    rfl
  · rw [hseat]
    rfl
  · rw [hseat]
    rfl
  · rcases hway : (steps path).dropLast.foldlM d.enter (d.start path) with e | dir <;>
      rw [hway] at hseat
    · rw [hseat]
      rfl
    · -- The way leads to a directory, and what is at the last name decides.
      have hseat : d.seat path = .ok ⟨dir, Path.lastName? path, path.toList.getLast? == some '/'⟩ := hseat
      have hdir := hd.directory_of_seat hseat
      rw [hseat]
      simp only [ok_bind]
      rcases Path.lastName? path with _ | last
      · rfl
      · by_cases hdots : isDots last = true
        · simp only [hdots, if_true]
          have henter := enter_of_isDots hdots d dir
          obtain ⟨mode, hmode⟩ := hd.enter hdir henter
          simp only [henter, ok_bind, hmode]
          rfl
        · rw [Bool.not_eq_true] at hdots
          simp only [hdots, Bool.false_eq_true, if_false, child_eq, peek]
          split_ifs
          · rfl
          · simp only [ok_bind]
            generalize (path.toList.getLast? == some '/') = slash
            rcases d.entryAt? (dir ++ [last]) with _ | (mode | i | ⟨mode, number⟩) <;>
              rcases slash with _ | _ <;> rfl

/-- **Two disks look alike through a path** when the way is the same on both, and the place at its end. -/
theorem seen_congr (hd : d.Sound) (hd' : d'.Sound) (hcurrent : d'.current = d.current)
    (hway : (steps path).dropLast.foldlM d'.enter (d.start path) =
      (steps path).dropLast.foldlM d.enter (d.start path))
    (hlast : ∀ dir name, (steps path).dropLast.foldlM d.enter (d.start path) = .ok dir →
      Path.lastName? path = some name → isDots name = false →
      ∀ slash, d'.peek dir name slash = d.peek dir name slash) :
    d'.seen path = d.seen path := by
  have hstart : d'.start path = d.start path := by rw [start, start, hcurrent]
  rw [seen_eq hd, seen_eq hd', hstart, hway]
  rcases textFault? path with _ | fault
  · rcases hdir : (steps path).dropLast.foldlM d.enter (d.start path) with e | dir
    · rfl
    · rcases hname : Path.lastName? path with _ | name
      · rfl
      · rcases hdots : isDots name with _ | _
        · simp only [ok_bind, hdots, Bool.false_eq_true, if_false]
          exact hlast dir name hdir hname hdots _
        · simp only [ok_bind, hdots, if_true]
  · rfl

theorem enter_of_sameAt {piece : String} (h : d.SameAt d' (p ++ [piece])) :
    d'.enter p piece = d.enter p piece := by
  rw [enter, enter, child_eq, child_eq, h.1]

theorem foldlM_enter_of_dots (h : ∀ x ∈ names, x = ".") (d : Disk) (p : Place) :
    names.foldlM d.enter p = .ok p := by
  induction names with
  | nil => rfl
  | cons name rest ih =>
    rw [List.foldlM_cons, h name List.mem_cons_self, enter, if_pos rfl, ok_bind]
    exact ih fun x hx => h x (List.mem_cons_of_mem _ hx)

/-! ## A temporary file beside the path -/

/-- What is behind a directory is seen alike where its name in there is the same. -/
theorem seen_of_standsIn (hd : d.Sound) (hd' : d'.Sound) (hcurrent : d'.current = d.current)
    (hstands : Path.StandsIn path up last) (hdir : (steps up).foldlM d.enter (d.start path) = .ok dir)
    (hdir' : (steps up).foldlM d'.enter (d.start path) = .ok dir)
    (hsame : d.SameAt d' (dir ++ [last])) : d'.seen path = d.seen path := by
  obtain ⟨idle, idle', hidle, hidle', hsteps⟩ := hstands.steps_eq
  have hfront : ∀ names, (steps up ++ (idle ++ names)).foldlM d'.enter (d.start path) =
      names.foldlM d'.enter dir ∧
      (steps up ++ (idle ++ names)).foldlM d.enter (d.start path) = names.foldlM d.enter dir := by
    intro names
    constructor
    · rw [List.foldlM_append, hdir', ok_bind, List.foldlM_append, foldlM_enter_of_dots hidle, ok_bind]
    · rw [List.foldlM_append, hdir, ok_bind, List.foldlM_append, foldlM_enter_of_dots hidle, ok_bind]
  have hend : Path.lastName? path = (idle ++ last :: idle').getLast? := by
    have hne := List.append_ne_nil_of_right_ne_nil idle (List.cons_ne_nil last idle')
    show (steps path).getLast? = _
    rw [hsteps, List.getLast?_append_of_ne_nil _ hne]
  rcases List.eq_nil_or_concat' idle' with rfl | ⟨behind, dot, rfl⟩
  · have hway : (steps path).dropLast = steps up ++ (idle ++ []) := by
      rw [hsteps, List.append_nil, ← List.append_assoc, List.dropLast_concat]
    refine seen_congr hd hd' hcurrent ?_ fun dir name hwalked hlast _ => ?_
    · rw [hway, (hfront []).1, (hfront []).2]
      rfl
    · rw [hway, (hfront []).2] at hwalked
      rw [hend, List.getLast?_concat] at hlast
      cases hwalked
      cases hlast
      exact peek_of_sameAt hsame
  · -- Behind the name there are dots, and the name is on the way.
    have hway : (steps path).dropLast = steps up ++ (idle ++ last :: behind) := by
      rw [hsteps, ← List.cons_append, ← List.append_assoc, ← List.append_assoc, List.dropLast_concat,
        List.append_assoc]
    have hbehind : ∀ x ∈ behind, x = "." := fun x hx => hidle' x (List.mem_append_left _ hx)
    refine seen_congr hd hd' hcurrent ?_ fun dir name _ hlast hname => ?_
    · rw [hway, (hfront _).1, (hfront _).2, List.foldlM_cons, List.foldlM_cons, enter_of_sameAt hsame]
      rcases d.enter dir last with e | r
      · rfl
      · rw [ok_bind, ok_bind, foldlM_enter_of_dots hbehind, foldlM_enter_of_dots hbehind]
    · rw [hend, ← List.cons_append, ← List.append_assoc, List.getLast?_concat] at hlast
      cases hlast
      rw [hidle' dot (List.mem_append_right _ (List.mem_singleton.mpr rfl))] at hname
      cases hname

/-- The temporary file of a path is in the directory of the path. -/
theorem exists_directory_of_temporary (hstands : Path.StandsIn path up last)
    (hname : Path.fileName? path = some last)
    (ht : d.Names (Path.join up (Path.temporaryName last)) t) :
    ∃ dir, (steps up).foldlM d.enter (d.start path) = .ok dir ∧
      t = dir ++ [Path.temporaryName last] := by
  obtain ⟨hsteps, habsolute⟩ := Path.steps_join up (Path.not_mem_temporaryName hname)
    (Path.temporaryName_ne_empty last)
  obtain ⟨s, name, hs, hsname, -, -, rfl⟩ := ht
  obtain ⟨hdir, hlast⟩ := seat_eq_ok hs
  have hstart : d.start (Path.join up (Path.temporaryName last)) = d.start path := by
    rw [start, start, habsolute, hstands.isAbsolute_eq]
  rw [hsteps, List.dropLast_concat, hstart] at hdir
  rw [(Seat.name?_eq_some hsname).1, Path.lastName?_temporary up hname] at hlast
  exact ⟨s.dir, hdir, by rw [Option.some.inj hlast]⟩

/-- **What happens to the temporary file of a path is not seen through the path.** -/
theorem seen_of_only (hd : d.Sound) (hd' : d'.Sound) (hstands : Path.StandsIn path up last)
    (hname : Path.fileName? path = some last)
    (ht : d.Names (Path.join up (Path.temporaryName last)) t) (honly : Only [t] d d') :
    d'.seen path = d.seen path := by
  obtain ⟨dir, hdir, rfl⟩ := exists_directory_of_temporary hstands hname ht
  refine seen_of_standsIn hd hd' honly.keeps.current_eq hstands hdir
    (foldlM_enter_of_keeps honly.keeps hdir) (honly.same _ fun hmem => ?_)
  have heq := List.append_cancel_left (List.mem_singleton.mp hmem)
  exact Path.temporaryName_ne last (List.cons.inj heq).1.symm

/-! ## New directories -/

/-- A way that does not end for want of a directory is the same when there are more of them. -/
theorem foldlM_enter_of_deepens (h : d.Deepens d') (he : e ≠ .noEntry)
    (hfails : names.foldlM d.enter p = .error e) : names.foldlM d'.enter p = .error e := by
  induction names generalizing p with
  | nil => cases hfails
  | cons name rest ih =>
    rw [List.foldlM_cons] at hfails ⊢
    rcases henter : d.enter p name with e' | r <;> rw [henter] at hfails
    · cases hfails
      have henter' : d'.enter p name = .error e := by
        rw [enter, child_eq] at henter ⊢
        split_ifs at henter ⊢
        · exact henter
        · rcases hent : d.entryAt? (p ++ [name]) with _ | found <;> rw [hent] at henter
          · cases henter
            exact absurd rfl he
          · rw [h.entry_eq _ _ hent]
            exact henter
      rw [henter']
      rfl
    · rw [enter_of_keeps h.keeps henter]
      exact ih hfails

theorem peek_of_deepens (h : d.Deepens d') (dir : Place) (name : String) (slash : Bool) :
    d'.peek dir name slash = d.peek dir name slash ∨
      ∀ slash, d.peek dir name slash = .error .noEntry := by
  rcases hent : d.entryAt? (dir ++ [name]) with _ | found
  · by_cases hlong : maxName < name.utf8ByteSize
    · left
      unfold peek
      rw [if_pos hlong, if_pos hlong]
    · right
      intro slash
      simp only [peek, if_neg hlong, hent]
  · left
    exact peek_of_sameAt ⟨(h.entry_eq _ _ hent).trans hent.symm, fun i _ => h.inode_eq i⟩ slash

/-- **New directories are seen through no path behind which something is.** -/
theorem seen_of_deepens (hd : d.Sound) (hd' : d'.Sound) (h : d.Deepens d') (path : String) :
    d'.seen path = d.seen path ∨ d.seen path = .error .noEntry := by
  rcases hfault : textFault? path with _ | fault
  · rcases hway : (steps path).dropLast.foldlM d.enter (d.start path) with e | dir
    · by_cases he : e = .noEntry
      · right
        rw [seen_eq hd, hfault, hway, he]
        rfl
      · left
        refine seen_congr hd hd' h.current_eq ?_ fun dir name hok => ?_
        · rw [hway, foldlM_enter_of_deepens h he hway]
        · rw [hway] at hok
          cases hok
    · have hway' := foldlM_enter_of_keeps h.keeps hway
      by_cases hpeek : ∀ name, Path.lastName? path = some name → isDots name = false →
          ∀ slash, d'.peek dir name slash = d.peek dir name slash
      · left
        refine seen_congr hd hd' h.current_eq (hway'.trans hway.symm) fun dir' name hok => ?_
        cases hway.symm.trans hok
        exact hpeek name
      · -- The last name can have become a directory's only if there was nothing.
        right
        push Not at hpeek
        obtain ⟨name, hname, hdots, slash, hne⟩ := hpeek
        have hnone := (peek_of_deepens h dir name slash).resolve_left hne
        rw [seen_eq hd, hfault, hway, hname]
        simp only [ok_bind, hdots, Bool.false_eq_true, if_false, hnone]
  · left
    rw [seen_eq hd, seen_eq hd', hfault]

/-- A way leads nowhere: something is missing on it, or it has a name that is too long. -/
def Lost (d : Disk) (p : Place) (names : List String) : Prop :=
  names.foldlM d.enter p = .error .noEntry ∨
    (names.foldlM d.enter p = .error .nameTooLong ∧ ∃ name ∈ names, maxName < name.utf8ByteSize)

theorem Lost.cons {name : String} (hname : d.enter p name = .ok q) (h : d.Lost q names) :
    d.Lost p (name :: names) := by
  rw [Lost, List.foldlM_cons, hname, ok_bind]
  exact h.imp id fun ⟨hfails, long, hmem, hlong⟩ => ⟨hfails, long, List.mem_cons_of_mem _ hmem, hlong⟩

/-- Where there are directories only, a way to a place where nothing is leads nowhere. -/
theorem lost_of_hollow (hup : ".." ∉ names) (hp : ∃ mode, d.entryAt? p = some (.directory mode))
    (hollow : ∀ q e, p <+: q → d.entryAt? q = some e → ∃ mode, e = .directory mode)
    (habsent : d.entryAt? (names.foldl walk p) = none) : d.Lost p names := by
  induction names generalizing p with
  | nil =>
    obtain ⟨mode, hmode⟩ := hp
    cases hmode.symm.trans habsent
  | cons name rest ih =>
    rw [List.mem_cons, not_or] at hup
    rw [List.foldl_cons] at habsent
    rcases hdots : isDots name with _ | _
    · rw [walk_of_name hdots] at habsent
      have henter := enter_of_name hdots d p
      by_cases hlong : maxName < name.utf8ByteSize
      · rw [if_pos hlong] at henter
        refine .inr ⟨?_, name, List.mem_cons_self, hlong⟩
        rw [List.foldlM_cons, henter, error_bind]
      · rw [if_neg hlong] at henter
        rcases hent : d.entryAt? (p ++ [name]) with _ | found <;> rw [hent] at henter
        · left
          rw [List.foldlM_cons, henter, error_bind]
        · obtain ⟨mode, rfl⟩ := hollow _ _ (List.prefix_append _ _) hent
          exact .cons henter (ih hup.2 ⟨mode, hent⟩
            (fun q e hq => hollow q e ((List.prefix_append _ _).trans hq)) habsent)
    · -- The piece leads nowhere else, for it does not lead upwards.
      have hdot : name = "." := by
        rw [isDots, Bool.or_eq_true, beq_iff_eq, beq_iff_eq] at hdots
        exact hdots.resolve_right (Ne.symm hup.1)
      have hwalk : walk p name = p := by rw [walk, if_pos hdot]
      have henter := enter_of_isDots hdots d p
      rw [hwalk] at habsent henter
      exact .cons henter (ih hup.2 hp hollow habsent)

/-- Above what is there everything is there. -/
theorem Sound.entry_of_prefix (hd : d.Sound) (habove : p <+: q) {found : Entry}
    (hq : d.entryAt? q = some found) : ∃ above, d.entryAt? p = some above := by
  obtain ⟨more, rfl⟩ := habove
  induction more using List.reverseRecOn generalizing found with
  | nil => exact ⟨found, by rwa [List.append_nil] at hq⟩
  | append_singleton front name ih =>
    obtain ⟨mode, hmode⟩ := hd.parent_directory _ _ hq
    rw [← List.append_assoc, List.dropLast_concat] at hmode
    exact ih hmode

/-- What is missing when a name cannot be entered for want of a directory. -/
theorem absent_of_enter {name : String} (h : d.enter p name = .error .noEntry) :
    isDots name = false ∧ ¬ maxName < name.utf8ByteSize ∧ d.entryAt? (p ++ [name]) = none := by
  rcases hdots : isDots name with _ | _
  · rw [enter_of_name hdots] at h
    split_ifs at h with hlong
    · cases h
    refine ⟨rfl, hlong, ?_⟩
    rcases hent : d.entryAt? (p ++ [name]) with _ | (mode | i | ⟨mode, number⟩)
    · rfl
    all_goals
      rw [hent] at h
      cases h
  · rw [enter_of_isDots hdots] at h
    cases h

/-- **A way that ends for want of a directory leads nowhere still when directories are made on it,** if
    none is made at its end. -/
theorem lost_of_deepens (hd : d.Sound) (h : d.Deepens d') (hup : ".." ∉ names)
    (hfails : names.foldlM d.enter p = .error .noEntry)
    (hend : d'.entryAt? (names.foldl walk p) = d.entryAt? (names.foldl walk p)) : d'.Lost p names := by
  induction names generalizing p with
  | nil => cases hfails
  | cons name rest ih =>
    rw [List.mem_cons, not_or] at hup
    rw [List.foldlM_cons] at hfails
    rcases henter : d.enter p name with e | r <;> rw [henter] at hfails
    · cases hfails
      -- From here on there is nothing but new directories.
      obtain ⟨hdots, hlong, habsent⟩ := absent_of_enter henter
      have hbelow : ∀ q, p ++ [name] <+: q → d.entryAt? q = none := by
        intro q hq
        rcases hent : d.entryAt? q with _ | found
        · rfl
        · obtain ⟨above, habove⟩ := hd.entry_of_prefix hq hent
          cases habove.symm.trans habsent
      rw [List.foldl_cons, walk_of_name hdots, hbelow _ (prefix_foldl_walk hup.2 _)] at hend
      have henter' := enter_of_name hdots d' p
      rw [if_neg hlong] at henter'
      rcases hent : d'.entryAt? (p ++ [name]) with _ | found <;> rw [hent] at henter'
      · left
        rw [List.foldlM_cons, henter', error_bind]
      · have hnew : ∀ q e, p ++ [name] <+: q → d'.entryAt? q = some e → ∃ mode, e = .directory mode := by
          intro q e hq he
          refine (h.directory q e he).resolve_left fun hold => ?_
          cases hold.symm.trans (hbelow q hq)
        obtain ⟨mode, rfl⟩ := hnew _ _ (List.prefix_refl _) hent
        exact .cons henter' (lost_of_hollow hup.2 ⟨mode, hent⟩ hnew hend)
    · rw [List.foldl_cons, walk_of_enter henter] at hend
      exact .cons (enter_of_keeps h.keeps henter) (ih hup.2 hfails hend)

/-- A look-up that finds nothing, or a name that is too long, has gone its way to the end. -/
theorem seen_eq_error_iff (hd : d.Sound) (hfault : textFault? path = none)
    (he : e = .noEntry ∨ e = .nameTooLong) :
    d.seen path = .error e ↔ (steps path).foldlM d.enter (d.start path) = .error e := by
  have hlast : Path.lastName? path = (steps path).getLast? := rfl
  rw [seen_eq hd, hfault, hlast]
  rcases List.eq_nil_or_concat' (steps path) with hnil | ⟨front, last, hfront⟩
  · rw [hnil]
    exact ⟨nofun, nofun⟩
  · rw [hfront, List.dropLast_concat, List.getLast?_concat, List.foldlM_append]
    rcases front.foldlM d.enter (d.start path) with e' | dir
    · simp only [error_bind, Except.error.injEq]
    · simp only [ok_bind, List.foldlM_cons, List.foldlM_nil]
      rcases hdots : isDots last with _ | _
      · rw [enter_of_name hdots]
        simp only [Bool.false_eq_true, if_false, peek]
        generalize (path.toList.getLast? == some '/') = slash
        split_ifs
        · simp only [error_bind, Except.error.injEq]
        · -- A file is seen where none can be entered, but neither of these is the failure.
          rcases d.entryAt? (dir ++ [last]) with _ | (mode | i | ⟨mode, number⟩)
          · simp only [error_bind, Except.error.injEq]
          all_goals rcases slash with _ | _ <;> rcases he with rfl | rfl <;> exact ⟨nofun, nofun⟩
      · rw [enter_of_isDots hdots]
        exact ⟨nofun, nofun⟩

/-- **Where nothing was seen, nothing is seen when directories are made on the way,** unless a name is too
    long to be looked up. -/
theorem seen_of_made (hd : d.Sound) (hd' : d'.Sound) (h : d.Deepens d') (hup : ".." ∉ steps path)
    (hend : d'.entryAt? (d.placeOf path) = d.entryAt? (d.placeOf path)) :
    d'.seen path = d.seen path ∨ (d.seen path = .error .noEntry ∧
      d'.seen path = .error .nameTooLong ∧ ∃ name ∈ steps path, maxName < name.utf8ByteSize) := by
  rcases seen_of_deepens hd hd' h path with hsame | hnone
  · exact .inl hsame
  · rcases hfault : textFault? path with _ | fault
    · have hfails := (seen_eq_error_iff hd hfault (.inl rfl)).mp hnone
      have hstart : d'.start path = d.start path := by rw [start, start, h.current_eq]
      rcases lost_of_deepens hd h hup hfails hend with hlost | ⟨hlost, hlong⟩ <;> rw [← hstart] at hlost
      · exact .inl (((seen_eq_error_iff hd' hfault (.inl rfl)).mpr hlost).trans hnone.symm)
      · exact .inr ⟨hnone, (seen_eq_error_iff hd' hfault (.inr rfl)).mpr hlost, hlong⟩
    · left
      rw [seen_eq hd, seen_eq hd', hfault]

end Coffer.Disk
