import Coffer.Disk.Tree
import Coffer.Proofs.Disk.Path
import Coffer.Proofs.Outcome
/-
  What stays where it is on a disk.

  `Names d path p` says that a path is a name for the place `p`.  It depends on the directories alone
  (`Names.of_keeps`), so it outlives every step that makes or moves files.  `SameAt d d' p` says that
  a place holds on `d'` what it held on `d`; `Sound` disks are those on which a file has one name and
  every name stands in a directory, and there a path that leads to a file names its place
  (`Sound.find_eq_file_iff`).
-/
namespace Coffer

namespace Disk

variable {d d' d'' : Disk} {path : String} {p q : Place} {e : Entry} {i : Nat}

/-! ## Entries and inodes after a change -/

@[simp] theorem entryAt?_nil (d : Disk) : d.entryAt? [] = some (.directory 0o755) := rfl

theorem lookup_filter_ne (entries : List (Place × Entry)) (p q : Place) :
    (entries.filter (·.1 ≠ p)).lookup q = if q = p then none else entries.lookup q := by
  induction entries with
  | nil => simp
  | cons x rest ih =>
    obtain ⟨r, e⟩ := x
    by_cases hr : r = p
    · have hdrop : ((r, e) :: rest).filter (·.1 ≠ p) = rest.filter (·.1 ≠ p) := by simp [hr]
      rw [hdrop, ih]
      by_cases hq : q = p
      · rw [if_pos hq, if_pos hq]
      · have hne : (q == r) = false := by
          rw [hr]
          exact beq_eq_false_iff_ne.mpr hq
        rw [if_neg hq, if_neg hq, List.lookup_cons, hne]
    · have hkeep : ((r, e) :: rest).filter (·.1 ≠ p) = (r, e) :: rest.filter (·.1 ≠ p) := by simp [hr]
      rw [hkeep, List.lookup_cons, List.lookup_cons, ih]
      by_cases hq : q = r
      · have hqp : q ≠ p := by
          rw [hq]
          exact hr
        rw [if_neg hqp, if_neg hqp]
      · have hne : (q == r) = false := beq_eq_false_iff_ne.mpr hq
        rw [hne]

theorem entryAt?_clearEntry (d : Disk) (hp : p ≠ []) (q : Place) :
    (d.clearEntry p).entryAt? q = if q = p then none else d.entryAt? q := by
  rcases q with _ | ⟨x, rest⟩
  · rw [if_neg (Ne.symm hp), entryAt?_nil, entryAt?_nil]
  · exact lookup_filter_ne d.entries p (x :: rest)

theorem entryAt?_setEntry (d : Disk) (hp : p ≠ []) (e : Entry) (q : Place) :
    (d.setEntry p e).entryAt? q = if q = p then some e else d.entryAt? q := by
  rcases q with _ | ⟨x, rest⟩
  · rw [if_neg (Ne.symm hp), entryAt?_nil, entryAt?_nil]
  · show ((p, e) :: d.entries.filter (·.1 ≠ p)).lookup (x :: rest) = _
    rw [List.lookup_cons, lookup_filter_ne]
    by_cases hq : x :: rest = p
    · rw [if_pos hq, beq_iff_eq.mpr hq, if_pos hq]
    · rw [if_neg hq, beq_eq_false_iff_ne.mpr hq, if_neg hq]
      rfl

@[simp] theorem entryAt?_newInode (d : Disk) (mode : Nat) (b : Bytes) (q : Place) :
    (d.newInode mode b).2.entryAt? q = d.entryAt? q := rfl

@[simp] theorem inode_setEntry (d : Disk) (p : Place) (e : Entry) (i : Nat) :
    (d.setEntry p e).inode i = d.inode i := rfl

@[simp] theorem length_inodes_setData (d : Disk) (i : Nat) (b : Bytes) :
    (d.setData i b).inodes.length = d.inodes.length := List.length_modify ..

theorem inode_setData_of_ne (d : Disk) {i j : Nat} (h : j ≠ i) (b : Bytes) :
    (d.setData i b).inode j = d.inode j := by
  rw [inode, inode, setData, List.getD_eq_getElem?_getD, List.getElem?_modify_ne _ _ (Ne.symm h),
    List.getD_eq_getElem?_getD]

theorem inode_setData_self (d : Disk) (h : i < d.inodes.length) (b : Bytes) :
    (d.setData i b).inode i = { d.inode i with data := b } := by
  rw [inode, inode, setData, List.getD_eq_getElem?_getD, List.getElem?_modify_eq,
    List.getD_eq_getElem?_getD, List.getElem?_eq_getElem h]
  rfl

/-- A new file has the number that comes next; the others keep theirs. -/
theorem inode_newInode (d : Disk) (mode : Nat) (b : Bytes) (h : i < d.inodes.length) :
    (d.newInode mode b).2.inode i = d.inode i := by
  show (d.inodes ++ [(⟨mode, b⟩ : Inode)]).getD i ⟨0, []⟩ = d.inodes.getD i ⟨0, []⟩
  rw [List.getD_eq_getElem?_getD, List.getElem?_append_left h, List.getD_eq_getElem?_getD]

theorem inode_newInode_self (d : Disk) (mode : Nat) (b : Bytes) :
    (d.newInode mode b).2.inode d.inodes.length = ⟨mode, b⟩ := by
  show (d.inodes ++ [(⟨mode, b⟩ : Inode)]).getD d.inodes.length ⟨0, []⟩ = _
  rw [List.getD_eq_getElem?_getD, List.getElem?_concat_length]
  rfl

/-! ## Looking paths up on disks that have the same directories -/

/-- Everything that is a directory on one disk is one on the other. -/
structure Keeps (d d' : Disk) : Prop where
  current_eq : d'.current = d.current
  directory : ∀ p mode, d.entryAt? p = some (.directory mode) → d'.entryAt? p = some (.directory mode)

theorem Keeps.refl (d : Disk) : d.Keeps d := ⟨rfl, fun _ _ h => h⟩

theorem Keeps.trans (h : d.Keeps d') (h' : d'.Keeps d'') : d.Keeps d'' :=
  ⟨h'.current_eq.trans h.current_eq, fun p mode hp => h'.directory p mode (h.directory p mode hp)⟩

theorem enter_of_keeps (h : d.Keeps d') {piece : String} (hp : d.enter p piece = .ok q) :
    d'.enter p piece = .ok q := by
  unfold enter child at hp ⊢
  by_cases hdot : piece = "."
  · rw [if_pos hdot] at hp ⊢
    exact hp
  · rw [if_neg hdot] at hp ⊢
    by_cases hup : piece = ".."
    · rw [if_pos hup] at hp ⊢
      exact hp
    · rw [if_neg hup] at hp ⊢
      by_cases hlen : maxName < piece.utf8ByteSize
      · rw [if_pos hlen] at hp
        cases hp
      · rw [if_neg hlen] at hp ⊢
        rcases he : d.entryAt? (p ++ [piece]) with _ | (mode | _ | _)
        · rw [he] at hp
          cases hp
        · rw [he] at hp
          rw [h.directory _ mode he]
          exact hp
        · rw [he] at hp
          cases hp
        · rw [he] at hp
          cases hp

theorem foldlM_enter_of_keeps (h : d.Keeps d') {names : List String}
    (hp : names.foldlM d.enter p = .ok q) : names.foldlM d'.enter p = .ok q := by
  induction names generalizing p with
  | nil => exact hp
  | cons piece rest ih =>
    rw [List.foldlM_cons] at hp ⊢
    rcases he : d.enter p piece with e | r
    · rw [he] at hp
      cases hp
    · rw [he] at hp
      rw [enter_of_keeps h he]
      exact ih hp

/-- The pieces of a path that a look-up follows. -/
def steps (path : String) : List String := (Path.pieces path).filter (!·.isEmpty)

/-- Where a look-up starts. -/
def start (d : Disk) (path : String) : Place := if Path.isAbsolute path then [] else d.current

theorem seat_eq (d : Disk) (path : String) :
    d.seat path =
      if path.toList.contains '\x00' then .error .zeroInPath
      else if path.isEmpty then .error .noEntry
      else if maxPath ≤ path.utf8ByteSize then .error .nameTooLong
      else ((steps path).dropLast.foldlM d.enter (d.start path)).map fun dir =>
        ⟨dir, Path.lastName? path, path.toList.getLast? == some '/'⟩ := by
  unfold seat
  by_cases hzero : path.toList.contains '\x00' = true
  · rw [if_pos hzero, if_pos hzero]
    rfl
  · rw [if_neg hzero, if_neg hzero]
    by_cases hempty : path.isEmpty = true
    · rw [if_pos hempty, if_pos hempty]
      rfl
    · rw [if_neg hempty, if_neg hempty]
      by_cases hlong : maxPath ≤ path.utf8ByteSize
      · rw [if_pos hlong, if_pos hlong]
        rfl
      · rw [if_neg hlong, if_neg hlong]
        show ((steps path).dropLast.foldlM d.enter (d.start path) >>= fun dir => _) = _
        cases (steps path).dropLast.foldlM d.enter (d.start path) with
        | error e => rfl
        | ok dir => rfl

variable {s : Seat}

/-- Where a path ends up depends on the way there and on its last name. -/
theorem seat_eq_ok (h : d.seat path = .ok s) :
    (steps path).dropLast.foldlM d.enter (d.start path) = .ok s.dir ∧
      s.last = Path.lastName? path := by
  rw [seat_eq] at h
  split_ifs at h
  rcases hdir : (steps path).dropLast.foldlM d.enter (d.start path) with e | dir
  · rw [hdir] at h
    cases h
  · rw [hdir] at h
    cases h
    exact ⟨rfl, rfl⟩

theorem seat_of_keeps (h : d.Keeps d') (hs : d.seat path = .ok s) : d'.seat path = .ok s := by
  have hstart : d'.start path = d.start path := by rw [start, start, h.current_eq]
  have hdir := foldlM_enter_of_keeps h (seat_eq_ok hs).1
  rw [seat_eq] at hs ⊢
  rw [(seat_eq_ok (by rw [seat_eq]; exact hs)).1] at hs
  rw [hstart, hdir]
  exact hs

/-! ## Places and their names -/

/-- A path names a place: it leads to a directory, and the place is that of its last piece there. -/
def Names (d : Disk) (path : String) (p : Place) : Prop :=
  ∃ s name, d.seat path = .ok s ∧ s.name? = some name ∧ s.slash = false ∧
    name.utf8ByteSize ≤ maxName ∧ p = s.dir ++ [name]

theorem Names.unique (hp : d.Names path p) (hq : d.Names path q) : p = q := by
  obtain ⟨s, name, hs, hname, -, -, rfl⟩ := hp
  obtain ⟨s', name', hs', hname', -, -, rfl⟩ := hq
  cases hs.symm.trans hs'
  cases hname.symm.trans hname'
  rfl

theorem Names.ne_nil (hp : d.Names path p) : p ≠ [] := by
  obtain ⟨s, name, -, -, -, -, rfl⟩ := hp
  exact List.append_ne_nil_of_right_ne_nil _ (List.cons_ne_nil _ _)

/-- A name outlives every change that leaves the directories. -/
theorem Names.of_keeps (h : d.Keeps d') (hp : d.Names path p) : d'.Names path p := by
  obtain ⟨s, name, hs, hrest⟩ := hp
  exact ⟨s, name, seat_of_keeps h hs, hrest⟩

theorem Seat.name?_eq_some {name : String} (h : s.name? = some name) :
    s.last = some name ∧ isDots name = false := by
  rw [Seat.name?] at h
  split at h
  · split at h
    · cases h
    · rename_i n hlast hdots
      cases h
      exact ⟨hlast, Bool.not_eq_true _ ▸ hdots⟩
  · cases h

/-- A path ends in the last name of the place that it names. -/
theorem Names.getLast?_eq (hp : d.Names path p) : p.getLast? = Path.lastName? path := by
  obtain ⟨s, name, hs, hname, -, -, rfl⟩ := hp
  rw [← (seat_eq_ok hs).2, (Seat.name?_eq_some hname).1, List.getLast?_concat]

/-- **Paths that end in different names are names of different places.** -/
theorem Names.ne {path' : String} (h : Path.lastName? path ≠ Path.lastName? path')
    (hp : d.Names path p) (hq : d'.Names path' q) : p ≠ q := by
  rintro rfl
  exact h (hp.getLast?_eq.symm.trans hq.getLast?_eq)

/-- A place holds what it held, the bytes of a file included. -/
def SameAt (d d' : Disk) (p : Place) : Prop :=
  d'.entryAt? p = d.entryAt? p ∧ ∀ i, d.entryAt? p = some (.file i) → d'.inode i = d.inode i

theorem SameAt.refl (d : Disk) (p : Place) : d.SameAt d p := ⟨rfl, fun _ _ => rfl⟩

theorem SameAt.trans (h : d.SameAt d' p) (h' : d'.SameAt d'' p) : d.SameAt d'' p := by
  refine ⟨h'.1.trans h.1, fun i hi => ?_⟩
  rw [h'.2 i (h.1.trans hi), h.2 i hi]

theorem SameAt.symm (h : d.SameAt d' p) : d'.SameAt d p :=
  ⟨h.1.symm, fun i hi => (h.2 i (h.1.symm.trans hi)).symm⟩

/-- A place holds a file with these bytes. -/
def Holds (d : Disk) (p : Place) (b : Bytes) : Prop :=
  ∃ i, d.entryAt? p = some (.file i) ∧ (d.inode i).data = b

theorem Holds.of_sameAt {b : Bytes} (h : d.SameAt d' p) (hp : d.Holds p b) : d'.Holds p b := by
  obtain ⟨i, hi, rfl⟩ := hp
  exact ⟨i, h.1.trans hi, by rw [h.2 i hi]⟩

theorem Holds.unique {a b : Bytes} (ha : d.Holds p a) (hb : d.Holds p b) : a = b := by
  obtain ⟨i, hi, rfl⟩ := ha
  obtain ⟨j, hj, rfl⟩ := hb
  cases hi.symm.trans hj
  rfl

/-! ## Sound disks -/

/-- Every name stands in a directory, and every file has a number of its own. -/
structure Sound (d : Disk) : Prop where
  current_directory : ∃ mode, d.entryAt? d.current = some (.directory mode)
  parent_directory : ∀ p e, d.entryAt? p = some e → ∃ mode, d.entryAt? p.dropLast = some (.directory mode)
  inode_lt : ∀ p i, d.entryAt? p = some (.file i) → i < d.inodes.length
  /-- There are no links: a file has one name. -/
  place_eq : ∀ p q i, d.entryAt? p = some (.file i) → d.entryAt? q = some (.file i) → p = q

/-- A disk without files. -/
def blank : Disk := ⟨[], [], [], 0⟩

theorem blank_sound : blank.Sound where
  current_directory := ⟨0o755, rfl⟩
  parent_directory p e h := by
    rcases p with _ | ⟨x, rest⟩
    · exact ⟨0o755, rfl⟩
    · cases h
  inode_lt p i h := by
    rcases p with _ | ⟨x, rest⟩ <;> cases h
  place_eq p q i h := by
    rcases p with _ | ⟨x, rest⟩ <;> cases h

theorem Sound.enter (hd : d.Sound) {piece : String} (hp : ∃ mode, d.entryAt? p = some (.directory mode))
    (h : d.enter p piece = .ok q) : ∃ mode, d.entryAt? q = some (.directory mode) := by
  unfold Disk.enter child at h
  split_ifs at h
  · cases h
    exact hp
  · cases h
    obtain ⟨mode, hmode⟩ := hp
    exact hd.parent_directory p _ hmode
  · cases h
  · rcases he : d.entryAt? (p ++ [piece]) with _ | (mode | _ | _)
    · rw [he] at h
      cases h
    · rw [he] at h
      cases h
      exact ⟨mode, he⟩
    · rw [he] at h
      cases h
    · rw [he] at h
      cases h

/-- **A look-up leads into a directory.** -/
theorem Sound.directory_of_seat (hd : d.Sound) (h : d.seat path = .ok s) :
    ∃ mode, d.entryAt? s.dir = some (.directory mode) := by
  have hstart : ∃ mode, d.entryAt? (d.start path) = some (.directory mode) := by
    rw [start]
    split_ifs
    · exact ⟨_, entryAt?_nil d⟩
    · exact hd.current_directory
  have hfold := (seat_eq_ok h).1
  generalize d.start path = p at hstart hfold
  generalize (steps path).dropLast = names at hfold
  induction names generalizing p with
  | nil =>
    cases hfold
    exact hstart
  | cons piece rest ih =>
    rw [List.foldlM_cons] at hfold
    rcases he : d.enter p piece with e | r
    · rw [he] at hfold
      cases hfold
    · rw [he] at hfold
      exact ih r (hd.enter hstart he) hfold

theorem child_eq (d : Disk) (dir : Place) (name : String) :
    d.child dir name =
      if maxName < name.utf8ByteSize then .error .nameTooLong else .ok (d.entryAt? (dir ++ [name])) := rfl

/-- **A path that names a place leads to what is there.** -/
theorem find_of_names (h : d.Names path p) : d.find path = match d.entryAt? p with
    | none => .error .noEntry
    | some e => .ok (p, e) := by
  obtain ⟨⟨dir, last, slash⟩, name, hs, hname, hslash, hlen, rfl⟩ := h
  obtain ⟨hlast, hdots⟩ := Seat.name?_eq_some hname
  have hlast : last = some name := hlast
  have hslash : slash = false := hslash
  subst hlast hslash
  have hchild : d.child dir name = .ok (d.entryAt? (dir ++ [name])) := by rw [child_eq, if_neg (by omega)]
  simp only [find, hs, ok_bind, hdots, Bool.false_eq_true, if_false, hchild]
  rcases d.entryAt? (dir ++ [name]) with _ | (mode | i | ⟨mode, number⟩) <;> rfl

/-- **A path leads to a file exactly when it names the file's place.** -/
theorem Sound.find_eq_file_iff (hd : d.Sound) :
    d.find path = .ok (p, .file i) ↔ d.Names path p ∧ d.entryAt? p = some (.file i) := by
  constructor
  · rw [find, bind_eq_ok_iff]
    rintro ⟨⟨dir, last, slash⟩, hs, h⟩
    rcases last with _ | last
    · cases h
    · simp only at h
      split_ifs at h with hdots
      · -- Such a piece leads into a directory, which is no file.
        obtain ⟨r, hr, h⟩ := bind_eq_ok_iff.mp h
        obtain ⟨mode, hmode⟩ := hd.enter (hd.directory_of_seat hs) hr
        rw [hmode] at h
        cases h
      · obtain ⟨found, hfound, h⟩ := bind_eq_ok_iff.mp h
        rw [child_eq] at hfound
        split_ifs at hfound with hlong
        cases hfound
        rcases he : d.entryAt? (dir ++ [last]) with _ | e
        · rw [he] at h
          cases h
        · rw [he] at h
          rcases e with mode | j | ⟨mode, number⟩ <;> rcases slash with _ | _ <;> cases h
          exact ⟨⟨_, last, hs, by rw [Seat.name?]; simp only [hdots]; rfl, rfl, by omega, rfl⟩, he⟩
  · rintro ⟨hnames, he⟩
    rw [find_of_names hnames, he]

end Disk

end Coffer
