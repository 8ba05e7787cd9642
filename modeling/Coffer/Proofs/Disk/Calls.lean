import Coffer.Disk.Calls
import Coffer.Proofs.Disk.Tree
/-
  What each call on a disk changes.

  A call that fails changes nothing, and one that succeeds changes the places that its paths name
  (`create_spec`, `unlink_spec`, `rename_spec`).  `Only ts d d'` says that everything outside the places
  `ts` is as it was and the directories are the same; a write to an open file stays within the places
  that hold its inode (`only_write`).
-/
namespace Coffer.Disk

variable {d d' d'' : Disk} {path old new : String} {p q : Place} {e : Entry} {i mode : Nat}
  {ts us : List Place}

/-! ## One call -/

/-- A disk with a new, empty file at a place. -/
def withFile (d : Disk) (p : Place) (mode : Nat) : Disk :=
  (d.newInode mode []).2.setEntry p (.file d.inodes.length)

/-- What opening a file for writing comes to. -/
inductive Creates (d : Disk) (path : String) (mode : Nat) : Except IoError OpenFile × Disk → Prop
  | refused (e : IoError) : Creates d path mode (.error e, d)
  | emptied {p : Place} {i : Nat} : d.Names path p → d.entryAt? p = some (.file i) →
      Creates d path mode (.ok ⟨i, 0⟩, d.setData i [])
  | made {p : Place} : d.Names path p → d.entryAt? p = none →
      Creates d path mode (.ok ⟨d.inodes.length, 0⟩, d.withFile p mode)

/-- A file is opened at the place that the path names, or nothing happens. -/
theorem create_spec (d : Disk) (path : String) (mode : Nat) :
    d.Creates path mode (d.create path mode) := by
  rcases hs : d.seat path with e | s
  · simp only [create, hs, error_bind]
    exact .refused e
  · rcases hname : s.name? with _ | name
    · simp only [create, hs, hname, ok_bind, throw_eq_error]
      exact .refused _
    · by_cases hslash : s.slash = true
      · simp only [create, hs, hname, hslash, ok_bind, throw_eq_error, error_bind, if_true]
        exact .refused _
      · by_cases hlong : maxName < name.utf8ByteSize
        · simp only [create, hs, hname, hslash, ok_bind, error_bind, child_eq, if_pos hlong]
          exact .refused _
        · have hnames : d.Names path (s.dir ++ [name]) :=
            ⟨s, name, hs, hname, Bool.not_eq_true _ ▸ hslash, by omega, rfl⟩
          have hchild : d.child s.dir name = .ok (d.entryAt? (s.dir ++ [name])) := by
            rw [child_eq, if_neg hlong]
          simp only [create, hs, hname, hslash, ok_bind, hchild]
          rcases he : d.entryAt? (s.dir ++ [name]) with _ | (_ | i | _)
          · exact .made hnames he
          · exact .refused _
          · exact .emptied hnames he
          · exact .refused _

/-- What taking a name away comes to. -/
inductive Unlinks (d : Disk) (path : String) : Except IoError Unit × Disk → Prop
  | refused (e : IoError) : Unlinks d path (.error e, d)
  | removed {p : Place} {e : Entry} : d.Names path p → d.entryAt? p = some e →
      (∀ mode, e ≠ .directory mode) → Unlinks d path (.ok (), d.clearEntry p)

theorem unlink_spec (d : Disk) (path : String) : d.Unlinks path (d.unlink path) := by
  rcases hs : d.seat path with e | s
  · simp only [unlink, hs, error_bind]
    exact .refused e
  · rcases hname : s.name? with _ | name
    · simp only [unlink, hs, hname, ok_bind, throw_eq_error]
      exact .refused _
    · by_cases hlong : maxName < name.utf8ByteSize
      · simp only [unlink, hs, hname, ok_bind, error_bind, child_eq, if_pos hlong]
        exact .refused _
      · have hchild : d.child s.dir name = .ok (d.entryAt? (s.dir ++ [name])) := by
          rw [child_eq, if_neg hlong]
        simp only [unlink, hs, hname, ok_bind, hchild]
        rcases he : d.entryAt? (s.dir ++ [name]) with _ | e
        · exact .refused _
        · rcases hslash : s.slash with _ | _
          · have hnames : d.Names path (s.dir ++ [name]) :=
              ⟨s, name, hs, hname, hslash, by omega, rfl⟩
            rcases e with mode | i | ⟨mode, number⟩
            · exact .refused _
            · exact .removed hnames he (fun _ => Entry.noConfusion)
            · exact .removed hnames he (fun _ => Entry.noConfusion)
          · rcases e with mode | i | ⟨mode, number⟩ <;> exact .refused _

/-- A file is taken away whose place the path names. -/
theorem unlink_of_file (hp : d.Names path p) (he : d.entryAt? p = some (.file i)) :
    d.unlink path = (.ok (), d.clearEntry p) := by
  obtain ⟨s, name, hs, hname, hslash, hlen, rfl⟩ := hp
  have hchild : d.child s.dir name = .ok (some (.file i)) := by
    rw [child_eq, if_neg (by omega), he]
  simp only [unlink, hs, hname, ok_bind, hchild, hslash]
  rfl

/-- What giving a file another name comes to. -/
inductive Renames (d : Disk) (old new : String) : Except IoError Unit × Disk → Prop
  | refused (e : IoError) : Renames d old new (.error e, d)
  | moved {p q : Place} {e : Entry} : d.Names old p → d.Names new q → d.entryAt? p = some e →
      (∀ mode, e ≠ .directory mode) → (∀ mode, d.entryAt? q ≠ some (.directory mode)) →
      Renames d old new (.ok (), (d.clearEntry p).setEntry q e)
  /-- Both are names of one file. -/
  | same {p q : Place} {i : Nat} : d.Names old p → d.Names new q → d.entryAt? p = some (.file i) →
      d.entryAt? q = some (.file i) → Renames d old new (.ok (), d)

/-- The last steps of a renaming, where both paths end in names. -/
theorem renames_of_names {s t : Seat} {name name' : String} (hs : d.seat old = .ok s)
    (ht : d.seat new = .ok t) (hname : s.name? = some name) (hname' : t.name? = some name')
    (he : d.entryAt? (s.dir ++ [name]) = some e) (hfile : ∀ mode, e ≠ .directory mode)
    (hlen : name.utf8ByteSize ≤ maxName) (hlen' : name'.utf8ByteSize ≤ maxName)
    (hslash : (s.slash || t.slash) = false)
    (hfree : ∀ mode, d.entryAt? (t.dir ++ [name']) ≠ some (.directory mode)) :
    let d' := (d.clearEntry (s.dir ++ [name])).setEntry (t.dir ++ [name']) e
    d.Renames old new (.ok (), d') ∧
      ∀ i, d.entryAt? (t.dir ++ [name']) = some (.file i) →
        d.Renames old new (.ok (), if e = .file i then d else d') := by
  rw [Bool.or_eq_false_iff] at hslash
  have hold : d.Names old (s.dir ++ [name]) := ⟨s, name, hs, hname, hslash.1, hlen, rfl⟩
  have hnew : d.Names new (t.dir ++ [name']) := ⟨t, name', ht, hname', hslash.2, hlen', rfl⟩
  have hmoved := Renames.moved hold hnew he hfile hfree
  refine ⟨hmoved, fun i hi => ?_⟩
  split_ifs with hsame
  · exact .same hold hnew (hsame ▸ he) hi
  · exact hmoved

theorem rename_spec (d : Disk) (old new : String) : d.Renames old new (d.rename old new) := by
  rcases hs : d.seat old with e | s
  · simp only [rename, hs, error_bind]
    exact .refused e
  rcases ht : d.seat new with e | t
  · simp only [rename, hs, ht, ok_bind, error_bind]
    exact .refused e
  rcases hname : s.name? with _ | name
  · simp only [rename, hs, ht, hname, ok_bind, throw_eq_error]
    exact .refused _
  rcases hname' : t.name? with _ | name'
  · simp only [rename, hs, ht, hname, hname', ok_bind, throw_eq_error]
    exact .refused _
  by_cases hlong : maxName < name.utf8ByteSize
  · simp only [rename, hs, ht, hname, hname', ok_bind, error_bind, child_eq, if_pos hlong]
    exact .refused _
  have hchild : d.child s.dir name = .ok (d.entryAt? (s.dir ++ [name])) := by
    rw [child_eq, if_neg hlong]
  simp only [rename, hs, ht, hname, hname', ok_bind, hchild]
  by_cases hlong' : maxName < name'.utf8ByteSize
  · have hchild' : d.child t.dir name' = .error .nameTooLong := by rw [child_eq, if_pos hlong']
    simp only [hchild', error_bind]
    rcases d.entryAt? (s.dir ++ [name]) with _ | (_ | _ | _) <;> exact .refused _
  have hchild' : d.child t.dir name' = .ok (d.entryAt? (t.dir ++ [name'])) := by
    rw [child_eq, if_neg hlong']
  simp only [hchild', ok_bind]
  by_cases hslash : (s.slash || t.slash) = true
  · simp only [hslash, if_true, throw_eq_error, error_bind]
    rcases d.entryAt? (s.dir ++ [name]) with _ | (_ | _ | _) <;> exact .refused _
  simp only [hslash]
  have hmoves := fun e' he' hfile hfree => renames_of_names (e := e') hs ht hname hname' he' hfile
    (Nat.le_of_not_lt hlong) (Nat.le_of_not_lt hlong') (Bool.not_eq_true _ ▸ hslash) hfree
  rcases he : d.entryAt? (s.dir ++ [name]) with _ | (mode | i | ⟨mode, number⟩)
  · exact .refused _
  · exact .refused _
  all_goals
    rcases ht : d.entryAt? (t.dir ++ [name']) with _ | (mode' | j | ⟨mode', number'⟩)
    · exact (hmoves _ he (fun _ => Entry.noConfusion) (by simp [ht])).1
    · exact .refused _
    · exact (hmoves _ he (fun _ => Entry.noConfusion) (by simp [ht])).2 j ht
    · exact (hmoves _ he (fun _ => Entry.noConfusion) (by simp [ht])).1

/-! ## What a call leaves alone -/

/-- Outside some places everything is as it was, and the directories are the same. -/
structure Only (ts : List Place) (d d' : Disk) : Prop where
  keeps : d.Keeps d'
  kept : d'.Keeps d
  same : ∀ p ∉ ts, d.SameAt d' p

theorem Only.refl (ts : List Place) (d : Disk) : Only ts d d :=
  ⟨.refl d, .refl d, fun p _ => .refl d p⟩

theorem Only.trans (h : Only ts d d') (h' : Only ts d' d'') : Only ts d d'' :=
  ⟨h.keeps.trans h'.keeps, h'.kept.trans h.kept, fun p hp => (h.same p hp).trans (h'.same p hp)⟩

theorem Only.mono (h : Only ts d d') (hsub : ts ⊆ us) : Only us d d' :=
  ⟨h.keeps, h.kept, fun p hp => h.same p fun hmem => hp (hsub hmem)⟩

theorem Only.names_iff (h : Only ts d d') : d'.Names path p ↔ d.Names path p :=
  ⟨.of_keeps h.kept, .of_keeps h.keeps⟩

/-- Bytes written into a file are seen where the file has its name. -/
theorem only_setData (h : ∀ p, d.entryAt? p = some (.file i) → p ∈ ts) (b : Bytes) :
    Only ts d (d.setData i b) := by
  refine ⟨⟨rfl, fun _ _ hp => hp⟩, ⟨rfl, fun _ _ hp => hp⟩, fun p hp => ⟨rfl, fun j hj => ?_⟩⟩
  apply inode_setData_of_ne
  rintro rfl
  exact hp (h p hj)

theorem only_write {f : OpenFile} (h : ∀ p, d.entryAt? p = some (.file f.inode) → p ∈ ts) (b : Bytes) :
    Only ts d (d.write f b).2 :=
  only_setData h _

theorem only_newInode (hd : d.Sound) (mode : Nat) (b : Bytes) :
    Only ts d (d.newInode mode b).2 :=
  ⟨⟨rfl, fun _ _ hp => hp⟩, ⟨rfl, fun _ _ hp => hp⟩,
    fun q _ => ⟨rfl, fun j hj => inode_newInode d mode b (hd.inode_lt q j hj)⟩⟩

theorem only_clearEntry (hp : p ≠ []) (hfile : ∀ mode, d.entryAt? p ≠ some (.directory mode)) :
    Only [p] d (d.clearEntry p) := by
  refine ⟨⟨rfl, fun q mode hq => ?_⟩, ⟨rfl, fun q mode hq => ?_⟩, fun q hq => ⟨?_, fun _ _ => rfl⟩⟩
  · rw [entryAt?_clearEntry d hp, if_neg]
    · exact hq
    · rintro rfl
      exact hfile mode hq
  · rw [entryAt?_clearEntry d hp] at hq
    split_ifs at hq
    exact hq
  · rw [entryAt?_clearEntry d hp, if_neg]
    rintro rfl
    exact hq List.mem_cons_self

theorem only_setEntry (hp : p ≠ []) (hfile : ∀ mode, d.entryAt? p ≠ some (.directory mode))
    (he : ∀ mode, e ≠ .directory mode) : Only [p] d (d.setEntry p e) := by
  refine ⟨⟨rfl, fun q mode hq => ?_⟩, ⟨rfl, fun q mode hq => ?_⟩, fun q hq => ⟨?_, fun _ _ => rfl⟩⟩
  · rw [entryAt?_setEntry d hp, if_neg]
    · exact hq
    · rintro rfl
      exact hfile mode hq
  · rw [entryAt?_setEntry d hp] at hq
    split_ifs at hq
    · cases hq
      exact absurd rfl (he mode)
    · exact hq
  · rw [entryAt?_setEntry d hp, if_neg]
    rintro rfl
    exact hq List.mem_cons_self

/-- **Opening a file changes the place that its path names.** -/
theorem Creates.only {f : OpenFile} (hd : d.Sound) (h : d.Creates path mode (.ok f, d')) :
    ∃ p, d.Names path p ∧ d'.entryAt? p = some (.file f.inode) ∧ Only [p] d d' ∧
      d'.Holds p [] ∧ f.offset = 0 := by
  cases h with
  | @emptied p i hp he =>
    refine ⟨p, hp, he, only_setData (fun q hq => ?_) [], ⟨i, he, ?_⟩, rfl⟩
    · rw [List.mem_singleton]
      exact hd.place_eq q p i hq he
    · rw [inode_setData_self d (hd.inode_lt p i he)]
  | @made p hp he =>
    have hne := hp.ne_nil
    have hentry : (d.withFile p mode).entryAt? p = some (.file d.inodes.length) := by
      rw [withFile, entryAt?_setEntry _ hne, if_pos rfl]
    refine ⟨p, hp, hentry, ?_, ⟨_, hentry, ?_⟩, rfl⟩
    · have hset := @only_setEntry (d.newInode mode []).2 p (.file d.inodes.length) hne
        (fun m hm => by rw [entryAt?_newInode, he] at hm; cases hm) (fun _ => Entry.noConfusion)
      exact (only_newInode hd mode []).trans hset
    · rw [withFile, inode_setEntry, inode_newInode_self]

/-- **Giving a file another name changes the places of both names.** -/
theorem Renames.only (hd : d.Sound) (h : d.Renames old new (.ok (), d')) :
    ∃ p q e, d.Names old p ∧ d.Names new q ∧ d.entryAt? p = some e ∧ d'.entryAt? q = some e ∧
      (∀ i, d'.inode i = d.inode i) ∧ (p ≠ q → d'.entryAt? p = none) ∧ Only [p, q] d d' := by
  cases h with
  | @moved p q e hp hq he hfile hfree =>
    have hclear := @only_clearEntry d p hp.ne_nil fun mode hm => hfile mode (Option.some.inj (he.symm.trans hm))
    have hfree' : ∀ mode, (d.clearEntry p).entryAt? q ≠ some (.directory mode) := by
      intro mode hm
      exact hfree mode (hclear.kept.directory q mode hm)
    have hset := @only_setEntry (d.clearEntry p) q e hq.ne_nil hfree' hfile
    refine ⟨p, q, e, hp, hq, he, ?_, fun _ => rfl, fun hne => ?_, ?_⟩
    · rw [entryAt?_setEntry _ hq.ne_nil, if_pos rfl]
    · rw [entryAt?_setEntry _ hq.ne_nil, if_neg hne, entryAt?_clearEntry _ hp.ne_nil, if_pos rfl]
    · exact (hclear.mono (List.cons_subset_cons p (List.nil_subset _))).trans
        (hset.mono (List.subset_cons_self p [q]))
  | @same p q i hp hq he he' =>
    have hone : p = q := hd.place_eq p q i he he'
    exact ⟨p, q, _, hp, hq, he, he', fun _ => rfl, fun hne => absurd hone hne, .refl _ d⟩

/-! ## Sound disks stay sound -/

theorem Sound.setData (hd : d.Sound) (i : Nat) (b : Bytes) : (d.setData i b).Sound := by
  refine ⟨hd.current_directory, hd.parent_directory, fun p j hj => ?_, hd.place_eq⟩
  rw [length_inodes_setData]
  exact hd.inode_lt p j hj

theorem Sound.newInode (hd : d.Sound) (mode : Nat) (b : Bytes) : (d.newInode mode b).2.Sound := by
  refine ⟨hd.current_directory, hd.parent_directory, fun p j hj => ?_, hd.place_eq⟩
  have hlt := hd.inode_lt p j hj
  show j < (d.inodes ++ [_]).length
  rw [List.length_append]
  omega

/-- A name that is no directory's can be taken away, for nothing is below it. -/
theorem Sound.clearEntry (hd : d.Sound) (hp : p ≠ [])
    (hfile : ∀ mode, d.entryAt? p ≠ some (.directory mode)) : (d.clearEntry p).Sound := by
  have hold : ∀ q e, (d.clearEntry p).entryAt? q = some e → d.entryAt? q = some e := by
    intro q e hq
    rw [entryAt?_clearEntry d hp] at hq
    split_ifs at hq
    exact hq
  have hkeeps := (only_clearEntry hp hfile).keeps
  obtain ⟨mode, hcurrent⟩ := hd.current_directory
  refine ⟨⟨mode, hkeeps.directory _ mode hcurrent⟩, fun q e hq => ?_, fun q j hj => ?_,
    fun q r j hq hr => ?_⟩
  · obtain ⟨mode, hmode⟩ := hd.parent_directory q e (hold q e hq)
    exact ⟨mode, hkeeps.directory _ mode hmode⟩
  · exact hd.inode_lt q j (hold q _ hj)
  · exact hd.place_eq q r j (hold q _ hq) (hold r _ hr)

/-- An entry can be put into a directory, in place of what is no directory; a file's number must not
    be that of a file elsewhere. -/
theorem Sound.setEntry (hd : d.Sound) (hp : p ≠ [])
    (hfile : ∀ mode, d.entryAt? p ≠ some (.directory mode))
    (hdir : ∃ mode, d.entryAt? p.dropLast = some (.directory mode))
    (hlt : ∀ i, e = .file i → i < d.inodes.length)
    (hone : ∀ i q, e = .file i → d.entryAt? q = some (.file i) → q = p) : (d.setEntry p e).Sound := by
  have hkeeps : ∀ q mode, d.entryAt? q = some (.directory mode) →
      (d.setEntry p e).entryAt? q = some (.directory mode) := by
    intro q mode hq
    rw [entryAt?_setEntry d hp, if_neg]
    · exact hq
    · rintro rfl
      exact hfile mode hq
  have hold : ∀ q e', (d.setEntry p e).entryAt? q = some e' → (q = p ∧ e' = e) ∨ d.entryAt? q = some e' := by
    intro q e' hq
    rw [entryAt?_setEntry d hp] at hq
    split_ifs at hq with heq
    · cases hq
      exact Or.inl ⟨heq, rfl⟩
    · exact Or.inr hq
  obtain ⟨mode, hcurrent⟩ := hd.current_directory
  refine ⟨⟨mode, hkeeps _ mode hcurrent⟩, fun q e' hq => ?_, fun q j hj => ?_, fun q r j hq hr => ?_⟩
  · rcases hold q e' hq with ⟨rfl, -⟩ | hq
    · obtain ⟨mode, hmode⟩ := hdir
      exact ⟨mode, hkeeps _ mode hmode⟩
    · obtain ⟨mode, hmode⟩ := hd.parent_directory q e' hq
      exact ⟨mode, hkeeps _ mode hmode⟩
  · rcases hold q _ hj with ⟨-, he⟩ | hj
    · exact hlt j he.symm
    · exact hd.inode_lt q j hj
  · rcases hold q _ hq with ⟨rfl, he⟩ | hq'
    · rcases hold r _ hr with ⟨rfl, -⟩ | hr'
      · rfl
      · exact (hone j r he.symm hr').symm
    · rcases hold r _ hr with ⟨rfl, he⟩ | hr'
      · exact hone j q he.symm hq'
      · exact hd.place_eq q r j hq' hr'

theorem Names.parent_directory (hd : d.Sound) (hp : d.Names path p) :
    ∃ mode, d.entryAt? p.dropLast = some (.directory mode) := by
  obtain ⟨s, name, hs, -, -, -, rfl⟩ := hp
  rw [List.dropLast_concat]
  exact hd.directory_of_seat hs

theorem Creates.sound (hd : d.Sound) {r : Except IoError OpenFile × Disk}
    (h : d.Creates path mode r) : r.2.Sound := by
  cases h with
  | refused e => exact hd
  | emptied hp he => exact hd.setData _ _
  | @made p hp he =>
    have hdir := hp.parent_directory hd
    refine (hd.newInode mode []).setEntry hp.ne_nil (fun m hm => ?_) hdir ?_ ?_
    · rw [entryAt?_newInode, he] at hm
      cases hm
    · rintro i hi
      cases hi
      show d.inodes.length < (d.inodes ++ [_]).length
      rw [List.length_append, List.length_singleton]
      omega
    · rintro i q hi hq
      cases hi
      exact absurd (hd.inode_lt q _ hq) (Nat.lt_irrefl _)

theorem Unlinks.sound (hd : d.Sound) {r : Except IoError Unit × Disk} (h : d.Unlinks path r) :
    r.2.Sound := by
  cases h with
  | refused e => exact hd
  | removed hp he hfile =>
    exact hd.clearEntry hp.ne_nil fun mode hm => hfile mode (Option.some.inj (he.symm.trans hm))

theorem Renames.sound (hd : d.Sound) {r : Except IoError Unit × Disk} (h : d.Renames old new r) :
    r.2.Sound := by
  cases h with
  | refused e => exact hd
  | @moved p q e hp hq he hfile hfree =>
    have hfile' : ∀ mode, d.entryAt? p ≠ some (.directory mode) :=
      fun mode hm => hfile mode (Option.some.inj (he.symm.trans hm))
    have hclear := @only_clearEntry d p hp.ne_nil hfile'
    obtain ⟨mode, hmode⟩ := hq.parent_directory hd
    refine (hd.clearEntry hp.ne_nil hfile').setEntry hq.ne_nil
      (fun mode hm => hfree mode (hclear.kept.directory q mode hm))
      ⟨mode, hclear.keeps.directory _ mode hmode⟩ ?_ ?_
    · rintro i rfl
      exact hd.inode_lt p i he
    · -- The file had no other name than the one taken away.
      rintro i r rfl hr
      rw [entryAt?_clearEntry d hp.ne_nil] at hr
      split_ifs at hr with hne
      exact absurd (hd.place_eq r p i hr he) hne
  | same _ _ _ _ => exact hd

theorem Sound.write (hd : d.Sound) (f : OpenFile) (b : Bytes) : (d.write f b).2.Sound :=
  hd.setData _ _

/-! ## A device that may fail -/

/-- A call that succeeds was made. -/
theorem call_of_attempt {α : Type} {fault? : Option Fault} {call : Disk → Except IoError α × Disk} {a : α}
    (h : d.attempt fault? call = (.ok a, d')) : call d = (.ok a, d') := by
  rcases fault? with _ | fault
  · exact h
  · cases h

/-- A call that leaves no trace when it is refused leaves none when the device fails. -/
theorem attempt_of_error {α : Type} {fault? : Option Fault} {call : Disk → Except IoError α × Disk}
    {e : IoError} (hcall : ∀ d', call d = (.error e, d') → d' = d)
    (h : d.attempt fault? call = (.error e, d')) : d' = d := by
  rcases fault? with _ | fault
  · exact hcall d' h
  · cases h
    rfl

/-- A call that changes nothing changes nothing when it fails. -/
theorem attempt_of_still {α : Type} {call : Disk → Except IoError α × Disk} (h : (call d).2 = d)
    (fault? : Option Fault) : (d.attempt fault? call).2 = d := by
  rcases fault? with _ | fault
  · exact h
  · rfl

/-! ## Reading a file -/

/-- What a path that names a place is opened as, to be read. -/
theorem openRead_of_names (h : d.Names path p) : d.openRead path = match d.entryAt? p with
    | none => .error .noEntry
    | some (.file i) => .ok (.file i)
    | some (.directory _) => .ok .directory
    | some (.socket _ _) => .error .noDevice := by
  rw [openRead, stat, find_of_names h]
  rcases d.entryAt? p with _ | (mode | i | ⟨mode, number⟩) <;> rfl

theorem Sound.openRead_eq_file_iff (hd : d.Sound) :
    d.openRead path = .ok (.file i) ↔ ∃ p, d.Names path p ∧ d.entryAt? p = some (.file i) := by
  constructor
  · intro h
    obtain ⟨e, hstat, hopened⟩ := bind_eq_ok_iff.mp h
    rcases hfind : d.find path with err | ⟨p, found⟩
    · rw [stat, hfind] at hstat
      cases hstat
    · rw [stat, hfind] at hstat
      cases hstat
      rcases found with mode | j | ⟨mode, number⟩ <;> cases hopened
      exact ⟨p, hd.find_eq_file_iff.mp hfind⟩
  · rintro ⟨p, hnames, hi⟩
    rw [openRead_of_names hnames, hi]

/-- **A path can be read exactly when it names a file,** and then its bytes are read. -/
theorem Sound.readFile_eq_ok_iff (hd : d.Sound) {b : Bytes} :
    d.readFile path = .ok b ↔ ∃ p, d.Names path p ∧ d.Holds p b := by
  rw [readFile, bind_eq_ok_iff]
  constructor
  · rintro ⟨opened, hopened, h⟩
    rcases opened with i | - <;> cases h
    obtain ⟨p, hnames, hi⟩ := hd.openRead_eq_file_iff.mp hopened
    exact ⟨p, hnames, i, hi, rfl⟩
  · rintro ⟨p, hnames, i, hi, rfl⟩
    exact ⟨.file i, hd.openRead_eq_file_iff.mpr ⟨p, hnames, hi⟩, rfl⟩

/-! ## A file that is being written -/

/-- A file is open behind its last byte, and a path names it. -/
structure Grows (f : OpenFile) (path : String) (t : Place) (b : Bytes) (d : Disk) : Prop where
  names : d.Names path t
  entry_eq : d.entryAt? t = some (.file f.inode)
  data_eq : (d.inode f.inode).data = b
  offset_eq : f.offset = b.length

variable {f : OpenFile} {t : Place} {b : Bytes}

theorem Grows.holds (hf : Grows f path t b d) : d.Holds t b := ⟨_, hf.entry_eq, hf.data_eq⟩

/-- What happens elsewhere is nothing to it. -/
theorem Grows.of_only (h : Only ts d d') (ht : t ∉ ts) (hf : Grows f path t b d) :
    Grows f path t b d' := by
  obtain ⟨hentry, hinode⟩ := h.same t ht
  refine ⟨h.names_iff.mpr hf.names, hentry.trans hf.entry_eq, ?_, hf.offset_eq⟩
  rw [hinode _ hf.entry_eq, hf.data_eq]

/-- **A file that is opened is empty,** and its place is the only one that changes. -/
theorem create_grows (hd : d.Sound) (h : d.create path mode = (.ok f, d')) :
    ∃ t, Grows f path t [] d' ∧ Only [t] d d' ∧ d'.Sound := by
  have hspec := d.create_spec path mode
  rw [h] at hspec
  obtain ⟨t, hnames, hentry, honly, ⟨i, hi, hdata⟩, hoffset⟩ := hspec.only hd
  cases hentry.symm.trans hi
  exact ⟨t, ⟨honly.names_iff.mpr hnames, hentry, hdata, hoffset⟩, honly, hspec.sound hd⟩

/-- A path is read from the file that was opened exactly when both paths name one place. -/
theorem names_iff_of_create {other : String} {opened : Opened} (hd : d.Sound)
    (h : d.create path mode = (.ok f, d')) (hp : d.Names path p) (hopened : d.openRead other = .ok opened) :
    d.Names other p ↔ opened = .file f.inode := by
  have hspec := d.create_spec path mode
  rw [h] at hspec
  constructor
  · intro hother
    rw [openRead_of_names hother] at hopened
    cases hspec with
    | emptied hq hj =>
      cases hp.unique hq
      rw [hj] at hopened
      exact (Except.ok.inj hopened).symm
    | made hq hnone =>
      cases hp.unique hq
      rw [hnone] at hopened
      cases hopened
  · rintro rfl
    obtain ⟨r, hother, hr⟩ := hd.openRead_eq_file_iff.mp hopened
    cases hspec with
    | emptied hq hj =>
      cases hp.unique hq
      cases hd.place_eq r p _ hr hj
      exact hother
    | made _ _ => exact absurd (hd.inode_lt r _ hr) (Nat.lt_irrefl _)

theorem create_of_error {e : IoError} (h : d.create path mode = (.error e, d')) : d' = d := by
  have hspec := d.create_spec path mode
  rw [h] at hspec
  cases hspec
  rfl

theorem overwrite_at_end (data b : Bytes) : overwrite data data.length b = data ++ b := by
  rw [overwrite, List.take_length, Nat.sub_self, List.replicate_zero, List.append_nil,
    List.drop_eq_nil_of_le (Nat.le_add_right _ _), List.append_nil]

/-- **What is written comes behind what was written before.** -/
theorem Grows.write (hd : d.Sound) (hf : Grows f path t b d) (c : Bytes) :
    Grows (d.write f c).1 path t (b ++ c) (d.write f c).2 ∧ Only [t] d (d.write f c).2 := by
  have honly : Only [t] d (d.write f c).2 := by
    apply only_write
    intro p hp
    rw [List.mem_singleton]
    exact hd.place_eq p t _ hp hf.entry_eq
  refine ⟨⟨honly.names_iff.mpr hf.names, hf.entry_eq, ?_, ?_⟩, honly⟩
  · show ((d.setData f.inode _).inode f.inode).data = _
    rw [inode_setData_self d (hd.inode_lt t _ hf.entry_eq), hf.offset_eq, hf.data_eq, overwrite_at_end]
  · show f.offset + c.length = _
    rw [hf.offset_eq, List.length_append]

/-- Taking away the name of what is at a place changes nothing else. -/
theorem unlink_only (hd : d.Sound) (hp : d.Names path t) :
    Only [t] d (d.unlink path).2 ∧ (d.unlink path).2.Sound := by
  have hspec := d.unlink_spec path
  refine ⟨?_, hspec.sound hd⟩
  rcases hr : d.unlink path with ⟨r, d'⟩
  rw [hr] at hspec
  cases hspec with
  | refused e => exact .refl _ _
  | removed hp' he hfile =>
    cases hp'.unique hp
    exact only_clearEntry hp.ne_nil fun mode hm => hfile mode (Option.some.inj (he.symm.trans hm))

theorem unlink_of_no_name (hp : ∀ p, ¬ d.Names path p) : (d.unlink path).2 = d := by
  have hspec := d.unlink_spec path
  rcases hr : d.unlink path with ⟨r, d'⟩
  rw [hr] at hspec
  cases hspec with
  | refused e => rfl
  | removed hp' he hfile => exact absurd hp' (hp _)

/-- **A file moves with all its bytes.** -/
theorem rename_holds (hd : d.Sound) (hp : d.Names old t) (hb : d.Holds t b)
    (h : d.rename old new = (.ok (), d')) :
    ∃ q e, d.Names new q ∧ d.entryAt? t = some e ∧ d'.entryAt? q = some e ∧ d'.Holds q b ∧
      (t ≠ q → d'.entryAt? t = none) ∧ Only [t, q] d d' ∧ d'.Sound := by
  have hspec := d.rename_spec old new
  rw [h] at hspec
  obtain ⟨p, q, e, hp', hq, he, heq, hinode, hclear, honly⟩ := hspec.only hd
  cases hp'.unique hp
  obtain ⟨i, hi, hdata⟩ := hb
  cases he.symm.trans hi
  exact ⟨q, _, hq, he, heq, ⟨i, heq, by rw [hinode, hdata]⟩, hclear, honly, hspec.sound hd⟩

theorem rename_of_error {e : IoError} (h : d.rename old new = (.error e, d')) : d' = d := by
  have hspec := d.rename_spec old new
  rw [h] at hspec
  cases hspec
  rfl

end Coffer.Disk
