import Coffer.Proofs.Disk.Place
import Coffer.Proofs.Keyring.Store
/-
  What a write leaves of the other secrets.

  A write touches two places: that of its location's file and that of the temporary file beside it
  (`Update.spared_advance` for one step, `Update.spared_run` for a run at which the device may fail).
  A secret at any other place stays what it is.  A secret at the place of the temporary file does not
  outlive a write that succeeds: `Update.Cleared` says that nothing is there once the file has moved.
-/
namespace Coffer.Keyring

open Disk (blank blank_sound)

variable {d d' : Disk} {q t : Place} {s : Store} {path temporary : String} {u : Update}

/-! ## Places -/

namespace Store

/-- The place of a location's file. -/
def fileOf (s : Store) (d : Disk) (location : String) : Option Place :=
  (s.resolve location).toOption.map d.placeOf

/-- The path of the temporary file of a write to a location. -/
def temporaryPath? (s : Store) (location : String) : Option String := do
  let path ← (s.resolve location).toOption
  let parent ← Path.parent? path
  let name ← Path.fileName? path
  return Path.join parent (Path.temporaryName name)

/-- The place of the temporary file of a write to a location. -/
def temporaryOf (s : Store) (d : Disk) (location : String) : Option Place :=
  (s.temporaryPath? location).map d.placeOf

/-- A write that begins goes to the location's file by way of the location's temporary file. -/
theorem places_of_beginUpdate {location : String} {secret : Passphrase}
    (h : s.beginUpdate location secret = .ok u) :
    s.fileOf d location = some (d.placeOf u.path) ∧
      s.temporaryOf d location = u.temporary?.map d.placeOf := by
  obtain ⟨path, parent, hpath, hparent, rfl⟩ := beginUpdate_eq_ok h
  constructor
  · rw [fileOf, hpath]
    rfl
  · rw [temporaryOf, temporaryPath?, hpath]
    simp only [Except.toOption, hparent, Option.bind_eq_bind, Option.bind_some, Update.temporary?]
    cases Path.fileName? path <;> rfl

end Store

/-! ## The other files -/

namespace Update

/-- A write leaves a place alone that is neither its file's nor its temporary file's. -/
structure Spares (u : Update) (d : Disk) (q : Place) : Prop where
  file : d.placeOf u.path ≠ q
  temporary : ∀ temporary, u.temporary? = some temporary → d.placeOf temporary ≠ q

/-- No path of a write names a place, whatever directories are made. -/
structure Misses (u : Update) (d : Disk) (q : Place) : Prop where
  file : ∀ d', d.Keeps d' → ¬ d'.Names u.path q
  temporary : ∀ temporary, u.temporary? = some temporary → ∀ d', d.Keeps d' → ¬ d'.Names temporary q

/-- What a path does not spell it does not name. -/
theorem Spares.misses (h : u.Spares d q) : u.Misses d q := by
  have hplace : ∀ path d', d.Keeps d' → d'.Names path q → d.placeOf path = q :=
    fun path d' hkeeps hnames => (Disk.placeOf_of_keeps hkeeps path).symm.trans hnames.placeOf_eq
  exact ⟨fun d' hkeeps hnames => h.file (hplace _ d' hkeeps hnames),
    fun temporary ht d' hkeeps hnames => h.temporary temporary ht (hplace _ d' hkeeps hnames)⟩

theorem Misses.step (h : u.Misses d q) (hkeeps : d.Keeps d') (stage : Stage) :
    ({ u with stage := stage } : Update).Misses d' q :=
  ⟨fun d'' hkeeps' => h.file d'' (hkeeps.trans hkeeps'),
    fun temporary ht d'' hkeeps' => h.temporary temporary ht d'' (hkeeps.trans hkeeps')⟩

/-- A file comes into its place by a renaming, and then stays there. -/
theorem placed_advance {fault? : Option Disk.Fault} (h : (u.advance d fault?).1.placed = true) :
    (u.stage = .rename ∧
      d.rename (u.temporary?.getD "") u.path = (.ok (), (u.advance d fault?).2)) ∨
    (u.stage.placed = true ∧ (u.advance d fault?).2 = d) := by
  unfold advance at h ⊢
  rcases hstage : u.stage with _ | _ | f | f | _ | _ | _ | e | outcome | e <;> simp only [hstage] at h ⊢
  · split at h
    · cases h
    · split at h <;> cases h
  · split at h <;> cases h
  · split at h <;> cases h
  · split at h <;> cases h
  · split at h <;> cases h
  · split at h
    · cases h
    · rename_i hrename
      exact .inl ⟨trivial, Disk.call_of_attempt hrename⟩
  · have hstill : (d.attempt fault? fun d => (fileLength u.path d, d)).2 = d :=
      Disk.attempt_of_still rfl fault?
    refine .inr ⟨rfl, ?_⟩
    split <;> rename_i hread <;> rw [hread] at hstill
    · exact hstill
    · split <;> exact hstill
  · cases h
  · exact .inr ⟨h, trivial⟩
  · exact .inr ⟨h, trivial⟩

/-- **One step spares every other place.** -/
theorem spared_advance (hd : d.Sound) (hintact : u.Intact d) (hmisses : u.Misses d q)
    (fault? : Option Disk.Fault) : d.Spared (u.advance d fault?).2 q := by
  have hmoves := hintact.moves hd fault?
  have htemp : ∀ temporary t, u.temporary? = some temporary → d.Names temporary t → q ≠ t := by
    rintro temporary t ht hnames rfl
    exact hmisses.temporary temporary ht d (.refl d) hnames
  by_cases hactive : u.stage.holds = true ∨ u.stage.opens = true
  · rcases hnext : (u.advance d fault?).1.placed with _ | _
    · rcases hmoves.beside hactive hnext with hsame | ⟨temporary, t, ht, hnames, honly⟩
      · rw [hsame]
        exact .refl d q
      · exact .inl (honly.same q fun hmem => htemp temporary t ht hnames (List.mem_singleton.mp hmem))
    · -- Only a renaming brings the file into its place.
      rcases placed_advance hnext with ⟨hstage, hrename⟩ | ⟨hplaced, -⟩
      · rw [Intact, hstage] at hintact
        obtain ⟨temporary, t, ht, hnames, hholds⟩ := hintact
        rw [ht, Option.getD_some] at hrename
        obtain ⟨r, e, hr, -, -, -, -, honly, -⟩ := Disk.rename_holds hd hnames hholds hrename
        refine .inl (honly.same q fun hmem => ?_)
        rw [List.mem_cons, List.mem_singleton] at hmem
        rcases hmem with hqt | rfl
        · exact htemp temporary t ht hnames hqt
        · exact hmisses.file d (.refl d) hr
      · cases hplaced.symm.trans (not_placed_of_active hactive)
  · rw [not_or, Bool.not_eq_true, Bool.not_eq_true] at hactive
    exact (hmoves.deepens hactive.1 hactive.2).spared q

/-- Steps one after the other, at each of which the device may fail. -/
def run (u : Update) (d : Disk) (faults : List (Option Disk.Fault)) : Update × Disk :=
  faults.foldl (fun w fault? => w.1.step w.2 fault?) (u, d)

theorem step_eq (u : Update) (d : Disk) (fault? : Option Disk.Fault) :
    u.step d fault? = ({ u with stage := (u.advance d fault?).1 }, (u.advance d fault?).2) := by
  rw [step]

theorem run_cons (u : Update) (d : Disk) (fault? : Option Disk.Fault)
    (faults : List (Option Disk.Fault)) :
    u.run d (fault? :: faults) = (u.step d fault?).1.run (u.step d fault?).2 faults := by
  rw [run, List.foldl_cons, run]

/-- What is true of a write after every step is true of it after a run. -/
theorem run_spec (hd : d.Sound) (hintact : u.Intact d) (faults : List (Option Disk.Fault)) :
    (u.run d faults).2.Sound ∧ d.Keeps (u.run d faults).2 := by
  induction faults generalizing u d with
  | nil => exact ⟨hd, .refl d⟩
  | cons fault? faults ih =>
    have hmoves := hintact.moves hd fault?
    obtain ⟨hsound, hkeeps⟩ := ih hmoves.sound hmoves.intact
    rw [run_cons, step_eq]
    exact ⟨hsound, hmoves.keeps.trans hkeeps⟩

/-- **A run spares every other place.** -/
theorem spared_run (hd : d.Sound) (hintact : u.Intact d) (hmisses : u.Misses d q)
    (faults : List (Option Disk.Fault)) : d.Spared (u.run d faults).2 q := by
  induction faults generalizing u d with
  | nil => exact .refl d q
  | cons fault? faults ih =>
    have hmoves := hintact.moves hd fault?
    rw [run_cons, step_eq]
    exact (spared_advance hd hintact hmisses fault?).trans
      (ih hmoves.sound hmoves.intact (hmisses.step hmoves.keeps _))

/-- The outcome of a write that succeeded is that of one stage. -/
theorem outcome_eq_ok_iff {stage : Stage} : stage.outcome? = some (.ok ()) ↔ stage = .done (.ok ()) := by
  refine ⟨fun h => ?_, fun h => by rw [h]; rfl⟩
  unfold Stage.outcome? at h
  split at h <;> cases h
  rfl

theorem advance_of_ended {outcome : Except SecretError Unit} (h : u.stage.outcome? = some outcome)
    (d : Disk) (fault? : Option Disk.Fault) : u.advance d fault? = (u.stage, d) := by
  rcases hu : u.stage with _ | _ | f | f | _ | _ | _ | e | outcome | e <;> rw [hu] at h
  case done => rw [advance, hu]
  case unmeasured => rw [advance, hu]
  all_goals cases h

/-- A write that has ended stays as it is. -/
theorem run_of_ended {outcome : Except SecretError Unit} (h : u.stage.outcome? = some outcome)
    (faults : List (Option Disk.Fault)) : u.run d faults = (u, d) := by
  induction faults with
  | nil => rfl
  | cons fault? faults ih => rw [run_cons, step_eq, advance_of_ended h, ih]

/-- **All remaining steps of a write are a run** on a device that does not fail. -/
theorem run_replicate_none (u : Update) (d : Disk) {n : Nat} (hn : u.stage.remaining ≤ n) :
    (u.run d (List.replicate n none)).1.stage.outcome? = some (u.finish d).1 ∧
      (u.run d (List.replicate n none)).2 = (u.finish d).2 := by
  fun_induction finish u d generalizing n with
  | case1 u d outcome hend =>
    rw [run_of_ended hend]
    exact ⟨hend, rfl⟩
  | case2 u d hgoes ih =>
    have hpos := Stage.remaining_pos hgoes
    have hless := remaining_advance_lt u d none hpos
    obtain ⟨m, rfl⟩ := Nat.exists_eq_succ_of_ne_zero (by omega : n ≠ 0)
    rw [List.replicate_succ, run_cons]
    refine ih ?_
    rw [step_eq]
    show (u.advance d none).1.remaining ≤ m
    omega

theorem finish_of_done {n : Nat} (hn : u.stage.remaining ≤ n) {outcome : Except SecretError Unit}
    (h : (u.run d (List.replicate n none)).1.stage = .done outcome) :
    u.finish d = (outcome, (u.run d (List.replicate n none)).2) := by
  obtain ⟨hend, hdisk⟩ := u.run_replicate_none d hn
  rw [h] at hend
  exact Prod.ext (Option.some.inj hend).symm hdisk.symm

/-! ## The temporary file's place -/

/-- Nothing is at the place of the temporary file. -/
def Cleared (u : Update) (d : Disk) : Prop :=
  ∃ temporary t, u.temporary? = some temporary ∧ d.Names temporary t ∧ d.entryAt? t = none

/-- It does not matter how far the write has come. -/
theorem Cleared.step (h : u.Cleared d) (stage : Stage) :
    ({ u with stage := stage } : Update).Cleared d := h

/-- **The place of the temporary file is empty once the file has moved,** for no path ends in the name
    of its own temporary file. -/
theorem cleared_advance (hd : d.Sound) (hintact : u.Intact d)
    (hbefore : u.stage.placed = true → u.Cleared d) (fault? : Option Disk.Fault)
    (h : (u.advance d fault?).1.placed = true) : u.Cleared (u.advance d fault?).2 := by
  rcases placed_advance h with ⟨hstage, hrename⟩ | ⟨hplaced, hsame⟩
  · rw [Intact, hstage] at hintact
    obtain ⟨temporary, t, htemp, hnames, hholds⟩ := hintact
    rw [htemp, Option.getD_some] at hrename
    obtain ⟨q, e, hq, -, -, -, hclear, honly, -⟩ := Disk.rename_holds hd hnames hholds hrename
    exact ⟨temporary, t, htemp, honly.names_iff.mpr hnames,
      hclear (hnames.ne (lastName?_temporary?_ne htemp) hq)⟩
  · rw [hsame]
    exact hbefore hplaced

theorem cleared_run (hd : d.Sound) (hintact : u.Intact d)
    (hbefore : u.stage.placed = true → u.Cleared d) (faults : List (Option Disk.Fault))
    (h : (u.run d faults).1.stage.placed = true) : u.Cleared (u.run d faults).2 := by
  induction faults generalizing u d with
  | nil => exact hbefore h
  | cons fault? faults ih =>
    have hmoves := hintact.moves hd fault?
    rw [run_cons, step_eq] at h ⊢
    have hcleared := cleared_advance hd hintact hbefore fault?
    have hlater := ih hmoves.sound hmoves.intact (fun hplaced => (hcleared hplaced).step _) h
    exact hlater.step u.stage

end Update

/-! ## Reading what a write left -/

/-- A file that is not there is a secret that is not configured. -/
theorem Store.read_of_absent {location : String} (hpath : s.resolve location = .ok path)
    (hq : d.Names path q) (habsent : d.entryAt? q = none) :
    s.read location d = .error (.notConfigured location) := by
  have hfind := Disk.find_of_names hq
  rw [habsent] at hfind
  have hstat : d.stat path = .error .noEntry := by
    rw [Disk.stat, hfind]
    rfl
  simp only [read, hpath, ok_bind, hstat]
  rfl

/-- **A write keeps the secrets of other files,** whether or not it succeeds: at no step of it and
    whatever the device does is another one different, unless it is at the place of the temporary file.
    A secret that is there is lost with every write that succeeds. -/
theorem other_secrets_are_kept {location other : String} {kept : Passphrase} (hd : d.Sound)
    (hread : s.read other d = .ok kept) (hfile : s.fileOf d location ≠ s.fileOf d other)
    (secret : Passphrase) :
    (s.temporaryOf d location ≠ s.fileOf d other →
      s.read other (s.write location secret d).2 = .ok kept ∧
      ∀ u, s.beginUpdate location secret = .ok u →
        ∀ faults, s.read other (u.run d faults).2 = .ok kept) ∧
    (s.temporaryOf d location = s.fileOf d other → (s.write location secret d).1 = .ok () →
      s.read other (s.write location secret d).2 = .error (.notConfigured other)) := by
  obtain ⟨path, q, b, hpath, hq, hholds, hsecret⟩ := (Store.read_eq_ok_iff hd).mp hread
  have hother : s.fileOf d other = some q := by
    rw [Store.fileOf, hpath, ← hq.placeOf_eq]
    rfl
  rw [hother] at hfile ⊢
  rcases hbegin : s.beginUpdate location secret with e | u
  · have hwrite : s.write location secret d = (.error e, d) := by rw [Store.write, hbegin]
    rw [hwrite]
    refine ⟨fun _ => ⟨hread, ?_⟩, ?_⟩
    · intro u hu
      cases hu
    · intro _ hok
      cases hok
  · have hwrite : s.write location secret d = u.finish d := by rw [Store.write, hbegin]
    obtain ⟨hplace, htemporary⟩ := Store.places_of_beginUpdate (d := d) hbegin
    obtain ⟨_, _, -, -, hu⟩ := Store.beginUpdate_eq_ok hbegin
    have hstage : u.stage = .prepare := by rw [hu]
    have hintact : u.Intact d := by
      rw [Update.Intact, hstage]
      trivial
    obtain ⟨houtcome, hdisk⟩ := u.run_replicate_none d (Nat.le_refl _)
    generalize List.replicate u.stage.remaining none = faults at houtcome hdisk
    rw [hwrite, ← hdisk]
    constructor
    · intro htemp
      have hspares : u.Spares d q := by
        refine ⟨fun h => hfile (hplace.trans (congrArg some h)), fun temporary ht h => htemp ?_⟩
        rw [htemporary, ht]
        exact congrArg some h
      have hkept : ∀ faults, s.read other (u.run d faults).2 = .ok kept := by
        intro faults
        obtain ⟨hsound, hkeeps⟩ := Update.run_spec hd hintact faults
        have hspared := Update.spared_run hd hintact hspares.misses faults
        exact (Store.read_eq_ok_iff hsound).mpr
          ⟨path, q, b, hpath, hq.of_keeps hkeeps, hspared.holds_iff.mpr hholds, hsecret⟩
      refine ⟨hkept faults, fun u' hu' => ?_⟩
      cases hu'
      exact hkept
    · intro htemp hok
      have hplaced : (u.run d faults).1.stage.placed = true := by
        rw [hok] at houtcome
        rw [Update.outcome_eq_ok_iff.mp houtcome]
        rfl
      have hbefore : u.stage.placed = true → u.Cleared d := by
        rw [hstage]
        intro hplaced
        cases hplaced
      obtain ⟨temporary, t, ht, hnames, habsent⟩ := Update.cleared_run hd hintact hbefore faults hplaced
      obtain ⟨-, hkeeps⟩ := Update.run_spec hd hintact faults
      have htq : t = q := by
        rw [htemporary, ht] at htemp
        rw [← hnames.placeOf_eq, Disk.placeOf_of_keeps hkeeps]
        exact Option.some.inj htemp
      rw [htq] at habsent
      exact Store.read_of_absent hpath (hq.of_keeps hkeeps) habsent

/-- Two secrets. -/
def one : Passphrase := ⟨[111, 110, 101], rfl⟩

@[inherit_doc one]
def two : Passphrase := ⟨[116, 119, 111], rfl⟩

/-- A disk on which one secret is stored, at a name of its root `/s`. -/
def storing (name : String) : Disk :=
  (Update.run ⟨name, one, "/s/" ++ name, "/s", .prepare⟩ blank (List.replicate 8 none)).2

theorem storing_sound (name : String) : (storing name).Sound :=
  (Update.run_spec blank_sound (by trivial) _).1

/-- The secret at `j` outlives a write to `k`. -/
theorem other_secrets_are_kept_of_two :
    (Store.mk "/s").read "j" (storing "j") = .ok one ∧
      (Store.mk "/s").read "j" ((Store.mk "/s").write "k" two (storing "j")).2 = .ok one := by
  have hread : (Store.mk "/s").read "j" (storing "j") = .ok one := rfl
  have hother : (Store.mk "/s").fileOf (storing "j") "j" = some ["s", "j"] := rfl
  have hfile : (Store.mk "/s").fileOf (storing "j") "k" = some ["s", "k"] := rfl
  have htemp : (Store.mk "/s").temporaryOf (storing "j") "k" = some ["s", ".k.tmp"] := rfl
  have h := other_secrets_are_kept (storing_sound "j") hread (by rw [hfile, hother]; decide) two
  exact ⟨hread, (h.1 (by rw [htemp, hother]; decide)).1⟩

/-- A write to `k` that has not begun. -/
def replacing : Update := ⟨"k", two, "/s/k", "/s", .prepare⟩

/-- **A write to `k` takes the secret at `.k.tmp` away,** and succeeds. -/
theorem secret_at_the_temporary_is_lost :
    (Store.mk "/s").fileOf (storing ".k.tmp") "k" ≠
        (Store.mk "/s").fileOf (storing ".k.tmp") ".k.tmp" ∧
      (Store.mk "/s").read ".k.tmp" (storing ".k.tmp") = .ok one ∧
      ((Store.mk "/s").write "k" two (storing ".k.tmp")).1 = .ok () ∧
      (Store.mk "/s").read ".k.tmp" ((Store.mk "/s").write "k" two (storing ".k.tmp")).2 =
        .error (.notConfigured ".k.tmp") := by
  have hother : (Store.mk "/s").fileOf (storing ".k.tmp") ".k.tmp" = some ["s", ".k.tmp"] := by rfl
  have hfile : (Store.mk "/s").fileOf (storing ".k.tmp") "k" = some ["s", "k"] := by rfl
  have hwrite : (Store.mk "/s").write "k" two (storing ".k.tmp") =
      replacing.finish (storing ".k.tmp") := by rfl
  have hread : (Store.mk "/s").read ".k.tmp" (storing ".k.tmp") = .ok one := by rfl
  have hdone : (replacing.run (storing ".k.tmp") (List.replicate 8 none)).1.stage =
      .done (.ok ()) := by rfl
  have hlost : (Store.mk "/s").read ".k.tmp"
      (replacing.run (storing ".k.tmp") (List.replicate 8 none)).2 =
        .error (.notConfigured ".k.tmp") := by rfl
  rw [hwrite, Update.finish_of_done (Nat.le_refl 8) hdone]
  exact ⟨by rw [hfile, hother]; decide, hread, rfl, hlost⟩

end Coffer.Keyring
