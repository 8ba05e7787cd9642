import Coffer.Proofs.Disk.Calls
import Coffer.Proofs.Disk.Parent
/-
  Making directories.

  Whatever becomes of making a directory and those above it, `Deepens` says what it can do to a disk:
  new directories may be there afterwards, and everything that was there before is as it was
  (`makeDirectories_deepens`).  They are at the places that the path and its parents spell
  (`makeDirectories_entry`), so that none is at the place of a file in the directory
  (`makeDirectories_spares`).
-/
namespace Coffer.Disk

variable {d d' d'' : Disk} {path : String} {p q : Place} {b : Bytes}

/-- Nothing is different but that there may be new directories. -/
structure Deepens (d d' : Disk) : Prop where
  current_eq : d'.current = d.current
  inodes_eq : d'.inodes = d.inodes
  entry_eq : ∀ p e, d.entryAt? p = some e → d'.entryAt? p = some e
  directory : ∀ p e, d'.entryAt? p = some e → d.entryAt? p = some e ∨ ∃ mode, e = .directory mode

theorem Deepens.refl (d : Disk) : d.Deepens d := ⟨rfl, rfl, fun _ _ h => h, fun _ _ h => .inl h⟩

theorem Deepens.trans (h : d.Deepens d') (h' : d'.Deepens d'') : d.Deepens d'' := by
  refine ⟨h'.current_eq.trans h.current_eq, h'.inodes_eq.trans h.inodes_eq,
    fun p e hp => h'.entry_eq p e (h.entry_eq p e hp), fun p e hp => ?_⟩
  rcases h'.directory p e hp with hp | hdir
  · exact h.directory p e hp
  · exact .inr hdir

theorem Deepens.keeps (h : d.Deepens d') : d.Keeps d' :=
  ⟨h.current_eq, fun p _ hp => h.entry_eq p _ hp⟩

theorem Deepens.inode_eq (h : d.Deepens d') (i : Nat) : d'.inode i = d.inode i := by
  rw [inode, inode, h.inodes_eq]

/-- The files are the same. -/
theorem Deepens.entry_file_iff (h : d.Deepens d') {i : Nat} :
    d'.entryAt? p = some (.file i) ↔ d.entryAt? p = some (.file i) := by
  constructor
  · intro hp
    rcases h.directory p _ hp with hp | ⟨mode, hdir⟩
    · exact hp
    · cases hdir
  · exact h.entry_eq p _

theorem Deepens.holds_iff (h : d.Deepens d') : d'.Holds p b ↔ d.Holds p b := by
  constructor
  · rintro ⟨i, hi, hdata⟩
    exact ⟨i, h.entry_file_iff.mp hi, by rw [← h.inode_eq, hdata]⟩
  · rintro ⟨i, hi, hdata⟩
    exact ⟨i, h.entry_file_iff.mpr hi, by rw [h.inode_eq, hdata]⟩

theorem Deepens.grows (h : d.Deepens d') {f : OpenFile} (hf : Grows f path p b d) :
    Grows f path p b d' :=
  ⟨hf.names.of_keeps h.keeps, h.entry_eq _ _ hf.entry_eq, by rw [h.inode_eq, hf.data_eq],
    hf.offset_eq⟩

/-- A place holds what it held, or a directory where nothing was. -/
def Spared (d d' : Disk) (p : Place) : Prop :=
  d.SameAt d' p ∨ (d.entryAt? p = none ∧ ∃ mode, d'.entryAt? p = some (.directory mode))

theorem Spared.refl (d : Disk) (p : Place) : d.Spared d p := .inl (.refl d p)

theorem Spared.trans (h : d.Spared d' p) (h' : d'.Spared d'' p) : d.Spared d'' p := by
  rcases h with hsame | ⟨hnone, mode, hdir⟩
  · rcases h' with hsame' | ⟨hnone', hdir'⟩
    · exact .inl (hsame.trans hsame')
    · exact .inr ⟨hsame.1.symm.trans hnone', hdir'⟩
  · rcases h' with hsame' | ⟨hnone', -⟩
    · exact .inr ⟨hnone, mode, hsame'.1.trans hdir⟩
    · cases hdir.symm.trans hnone'

/-- The files are the same. -/
theorem Spared.holds_iff (h : d.Spared d' p) : d'.Holds p b ↔ d.Holds p b := by
  rcases h with hsame | ⟨hnone, mode, hdir⟩
  · exact ⟨.of_sameAt hsame.symm, .of_sameAt hsame⟩
  · constructor
    · rintro ⟨i, hi, -⟩
      cases hdir.symm.trans hi
    · rintro ⟨i, hi, -⟩
      cases hnone.symm.trans hi

/-- **Directories that are made spare every place.** -/
theorem Deepens.spared (h : d.Deepens d') (p : Place) : d.Spared d' p := by
  rcases hp : d.entryAt? p with _ | e
  · rcases hp' : d'.entryAt? p with _ | e'
    · exact .inl ⟨hp'.trans hp.symm, fun i hi => by cases hp.symm.trans hi⟩
    · rcases h.directory p e' hp' with hold | ⟨mode, rfl⟩
      · cases hp.symm.trans hold
      · exact .inr ⟨hp, mode, hp'⟩
  · exact .inl ⟨(h.entry_eq p e hp).trans hp.symm, fun i _ => h.inode_eq i⟩

/-- One directory is made at a free place in a directory, or none is. -/
theorem makeDirectory_cases (hd : d.Sound) (path : String) (mode : Nat) :
    (d.makeDirectory path mode).2 = d ∨
      ∃ p, p ≠ [] ∧ p = d.placeOf path ∧ d.entryAt? p = none ∧
        (∃ m, d.entryAt? p.dropLast = some (.directory m)) ∧
        (d.makeDirectory path mode).2 = d.setEntry p (.directory mode) := by
  rcases hs : d.seat path with e | s
  · left
    simp only [makeDirectory, hs, error_bind]
  · rcases hname : s.name? with _ | name
    · left
      simp only [makeDirectory, hs, hname, ok_bind, throw_eq_error]
    · by_cases hlong : maxName < name.utf8ByteSize
      · left
        simp only [makeDirectory, hs, hname, ok_bind, error_bind, child_eq, if_pos hlong]
      · have hchild : d.child s.dir name = .ok (d.entryAt? (s.dir ++ [name])) := by
          rw [child_eq, if_neg hlong]
        rcases he : d.entryAt? (s.dir ++ [name]) with _ | e
        · right
          refine ⟨s.dir ++ [name], List.append_ne_nil_of_right_ne_nil _ (List.cons_ne_nil _ _),
            (placeOf_of_seat hs hname).symm, he, ?_, ?_⟩
          · rw [List.dropLast_concat]
            exact hd.directory_of_seat hs
          · simp only [makeDirectory, hs, hname, ok_bind, hchild, he]
            rfl
        · left
          simp only [makeDirectory, hs, hname, ok_bind, hchild, he, throw_eq_error]

theorem makeDirectory_deepens (hd : d.Sound) (path : String) (mode : Nat) :
    d.Deepens (d.makeDirectory path mode).2 ∧ (d.makeDirectory path mode).2.Sound := by
  rcases makeDirectory_cases hd path mode with heq | ⟨p, hp, -, hfree, hdir, heq⟩ <;> rw [heq]
  · exact ⟨.refl d, hd⟩
  · have hnone : ∀ m, d.entryAt? p ≠ some (.directory m) := by
      rw [hfree]
      exact fun _ h => nomatch h
    refine ⟨⟨rfl, rfl, fun q e hq => ?_, fun q e hq => ?_⟩, hd.setEntry hp hnone hdir ?_ ?_⟩
    · rw [entryAt?_setEntry d hp, if_neg]
      · exact hq
      · rintro rfl
        rw [hfree] at hq
        cases hq
    · rw [entryAt?_setEntry d hp] at hq
      split_ifs at hq
      · cases hq
        exact .inr ⟨mode, rfl⟩
      · exact .inl hq
    · exact fun _ h => nomatch h
    · exact fun _ _ h => nomatch h

theorem makeEach_deepens (hd : d.Sound) (mode : Nat) (paths : List String) :
    d.Deepens (d.makeEach mode paths).2 ∧ (d.makeEach mode paths).2.Sound := by
  induction paths with
  | nil => exact ⟨.refl d, hd⟩
  | cons path above ih =>
    have hmake := makeDirectory_deepens hd path mode
    rw [makeEach]
    rcases hm : d.makeDirectory path mode with ⟨e | ⟨⟩, d'⟩ <;> rw [hm] at hmake
    · by_cases hkind : e.kind = .notFound
      · -- Those above come first, and then the directory is tried once more.
        simp only [hkind, if_true]
        rcases ha : makeEach mode d above with ⟨e' | ⟨⟩, d₁⟩ <;> rw [ha] at ih
        · exact ih
        · by_cases hempty : above.isEmpty = true
          · simp only [hempty, if_true]
            exact ih
          · simp only [hempty]
            have hagain := makeDirectory_deepens ih.2 path mode
            rcases hm' : d₁.makeDirectory path mode with ⟨e'' | ⟨⟩, d₂⟩ <;> rw [hm'] at hagain
            · by_cases hdir : d₁.isDirectory path = true
              · simp only [hdir, if_true]
                exact ih
              · simp only [hdir]
                exact ih
            · exact ⟨ih.1.trans hagain.1, hagain.2⟩
      · simp only [hkind, if_false]
        by_cases hdir : d.isDirectory path = true
        · simp only [hdir, if_true]
          exact ⟨.refl d, hd⟩
        · simp only [hdir]
          exact ⟨.refl d, hd⟩
    · exact hmake

/-- Directories are made on the whole way, or on the part of it that a failing device lets through. -/
theorem makeDirectories_eq_makeEach (d : Disk) {path : String} (hne : ¬ path.isEmpty = true) (mode : Nat)
    (fault? : Option Fault) :
    ∃ way, way ⊆ ancestors path ∧ (d.makeDirectories path mode fault?).2 = (d.makeEach mode way).2 := by
  rcases fault? with _ | fault
  · refine ⟨_, fun _ h => h, ?_⟩
    rw [makeDirectories, if_neg hne]
  · refine ⟨(ancestors path).drop ((ancestors path).length - fault.extent),
      fun _ => List.mem_of_mem_drop, ?_⟩
    rw [makeDirectories, if_neg hne]
    simp only
    split <;> rename_i hmade <;> rw [hmade]

/-- **Making directories leaves everything that is there as it is.** -/
theorem makeDirectories_deepens (hd : d.Sound) (path : String) (mode : Nat) (fault? : Option Fault) :
    d.Deepens (d.makeDirectories path mode fault?).2 ∧ (d.makeDirectories path mode fault?).2.Sound := by
  by_cases hempty : path.isEmpty = true
  · rw [makeDirectories, if_pos hempty]
    exact ⟨.refl d, hd⟩
  · obtain ⟨way, -, heq⟩ := d.makeDirectories_eq_makeEach hempty mode fault?
    rw [heq]
    exact makeEach_deepens hd mode way

/-! ## Where directories are made -/

theorem makeDirectory_entry (hd : d.Sound) (path : String) (mode : Nat) (q : Place) :
    (d.makeDirectory path mode).2.entryAt? q = d.entryAt? q ∨ q = d.placeOf path := by
  rcases makeDirectory_cases hd path mode with heq | ⟨p, hp, rfl, -, -, heq⟩ <;> rw [heq]
  · exact .inl rfl
  · rw [entryAt?_setEntry d hp]
    split_ifs with hq
    · exact .inr hq
    · exact .inl rfl

theorem makeEach_entry (hd : d.Sound) (mode : Nat) (paths : List String) (q : Place) :
    (d.makeEach mode paths).2.entryAt? q = d.entryAt? q ∨ ∃ path ∈ paths, q = d.placeOf path := by
  induction paths with
  | nil => exact .inl rfl
  | cons path above ih =>
    have hmake := makeDirectory_entry hd path mode q
    have hdeep := makeEach_deepens hd mode above
    have hfirst : q = d.placeOf path → ∃ p ∈ path :: above, q = d.placeOf p :=
      fun h => ⟨path, List.mem_cons_self, h⟩
    have hlater : (∃ p ∈ above, q = d.placeOf p) → ∃ p ∈ path :: above, q = d.placeOf p :=
      fun ⟨p, hp, h⟩ => ⟨p, List.mem_cons_of_mem _ hp, h⟩
    rw [makeEach]
    rcases hm : d.makeDirectory path mode with ⟨e | ⟨⟩, d'⟩ <;> rw [hm] at hmake
    · by_cases hkind : e.kind = .notFound
      · simp only [hkind, if_true]
        rcases ha : makeEach mode d above with ⟨e' | ⟨⟩, d₁⟩ <;> rw [ha] at ih hdeep
        · exact ih.imp id hlater
        · by_cases hempty : above.isEmpty = true
          · simp only [hempty, if_true]
            exact ih.imp id hlater
          · simp only [hempty]
            have hagain := makeDirectory_entry hdeep.2 path mode q
            rw [placeOf_of_keeps hdeep.1.keeps] at hagain
            rcases hm' : d₁.makeDirectory path mode with ⟨e'' | ⟨⟩, d₂⟩ <;> rw [hm'] at hagain
            · by_cases hdir : d₁.isDirectory path = true
              · simp only [hdir, if_true]
                exact ih.imp id hlater
              · simp only [hdir]
                exact ih.imp id hlater
            · rcases hagain with hagain | hagain
              · exact ih.imp hagain.trans hlater
              · exact .inr (hfirst hagain)
      · simp only [hkind, if_false]
        split <;> exact .inl rfl
    · exact hmake.imp id hfirst

/-- What stands above a path is on the way to it. -/
theorem prefix_of_mem_ancestors {path p : String} (h : p ∈ ancestors path) :
    steps p <+: steps path ∧ Path.isAbsolute p = Path.isAbsolute path := by
  have hgo : ∀ (n : Nat) (path : String), p ∈ ancestors.go n path →
      steps p <+: steps path ∧ Path.isAbsolute p = Path.isAbsolute path := by
    intro n
    induction n with
    | zero =>
      intro path hp
      rw [ancestors.go, List.mem_singleton] at hp
      rw [hp]
      exact ⟨List.prefix_refl _, rfl⟩
    | succ n ih =>
      intro path hp
      rw [ancestors.go] at hp
      have hself : p = path → steps p <+: steps path ∧ Path.isAbsolute p = Path.isAbsolute path := by
        rintro rfl
        exact ⟨List.prefix_refl _, rfl⟩
      rcases hparent : Path.parent? path with _ | up <;> rw [hparent] at hp <;> simp only at hp
      · exact hself (List.mem_singleton.mp hp)
      · split_ifs at hp
        · exact hself (List.mem_singleton.mp hp)
        · rcases List.mem_cons.mp hp with heq | hmem
          · exact hself heq
          · obtain ⟨last, hstands⟩ := Path.exists_standsIn hparent
            obtain ⟨idle, idle', -, -, hsteps⟩ := hstands.steps_eq
            obtain ⟨hfront, habsolute⟩ := ih up hmem
            rw [hsteps, habsolute, hstands.isAbsolute_eq]
            exact ⟨hfront.trans (List.prefix_append _ _), rfl⟩
  exact hgo _ path h

/-- Names that do not lead upwards only add to a place. -/
theorem prefix_foldl_walk {names : List String} (hup : ".." ∉ names) (p : Place) :
    p <+: names.foldl walk p := by
  induction names generalizing p with
  | nil => exact List.prefix_refl p
  | cons name rest ih =>
    rw [List.mem_cons, not_or] at hup
    have hstep : p <+: walk p name := by
      rw [walk, if_neg (Ne.symm hup.1)]
      split_ifs
      · exact List.prefix_refl p
      · exact List.prefix_append _ _
    exact hstep.trans (ih hup.2 _)

theorem foldl_walk_of_dots {names : List String} (h : ∀ x ∈ names, x = ".") (p : Place) :
    names.foldl walk p = p := by
  induction names with
  | nil => rfl
  | cons name rest ih =>
    rw [List.foldl_cons, h name List.mem_cons_self, walk, if_pos rfl]
    exact ih fun x hx => h x (List.mem_cons_of_mem _ hx)

/-- **No directory is made at the place of what stands in it.** -/
theorem makeDirectories_spares (hd : d.Sound) {path up last : String} (h : Path.StandsIn path up last)
    (hup : ".." ∉ steps path) (mode : Nat) (fault? : Option Fault) :
    (d.makeDirectories up mode fault?).2.entryAt? (d.placeOf path) = d.entryAt? (d.placeOf path) := by
  rcases h.absolute with ⟨rfl, -⟩ | ⟨hne, -, hdot⟩
  · rfl
  · obtain ⟨way, hway, hmade⟩ := d.makeDirectories_eq_makeEach
      (fun hempty => hne (String.isEmpty_iff.mp hempty)) mode fault?
    rw [hmade]
    refine (makeEach_entry hd mode _ _).resolve_right ?_
    rintro ⟨p, hp, heq⟩
    obtain ⟨⟨more, hmore⟩, habsolute⟩ := prefix_of_mem_ancestors (hway hp)
    obtain ⟨idle, idle', hidle, hidle', hsteps⟩ := h.steps_eq
    have hstart : d.start p = d.start path := by
      rw [start, start, habsolute, h.isAbsolute_eq]
    rw [hsteps, List.mem_append, List.mem_append, List.mem_cons] at hup
    -- The path spells a place below that of the directory, and the parents spell places above it.
    have hplace : d.placeOf path = (steps up).foldl walk (d.start path) ++ [last] := by
      rw [placeOf, hsteps, List.foldl_append, List.foldl_append, foldl_walk_of_dots hidle,
        List.foldl_cons, foldl_walk_of_dots hidle', walk, if_neg hdot, if_neg]
      rintro rfl
      exact hup (.inr (.inr (.inl rfl)))
    have habove : d.placeOf p <+: (steps up).foldl walk (d.start path) := by
      rw [placeOf, hstart, ← hmore, List.foldl_append]
      refine prefix_foldl_walk (fun hmem => hup (.inl ?_)) _
      rw [← hmore]
      exact List.mem_append_right _ hmem
    have hlength := habove.length_le
    rw [← heq, hplace, List.length_append, List.length_singleton] at hlength
    omega

end Coffer.Disk
