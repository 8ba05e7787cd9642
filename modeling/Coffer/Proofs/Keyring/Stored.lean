import Coffer.Proofs.Disk.Seen
import Coffer.Proofs.Keyring.Neighbours
/-
  What is stored is what is read.

  A file spells a secret with at most one line ending behind it (`Spells`), and reading it answers what
  the rules of passphrases make of that secret (`verdict`), whatever the size of the file.

  A write comes to its end with the secret in its place, or with nothing to be seen of it but the
  directories that it has made (`Update.Stands`, kept by every step at which the device may fail).  A
  write that has failed and yet stands with the secret in its place is one that could not read back the
  length of its file (`Store.LeftUnmeasured`).  New directories can change an answer in two ways only, and
  both times there was no secret before (`AnswersAsBefore`).  All three do happen
  (`failed_writes_change_answers`), and where a file may have two names, a write can lose the secret.
-/
namespace Coffer.Keyring

open Disk (blank blank_sound)

variable {d d' made : Disk} {s : Store} {location path : String} {content secret : Bytes} {u : Update}

/-! ## The secret in a file -/

/-- The content of a file is a secret with one line ending, or none. -/
inductive Spells : Bytes → Bytes → Prop
  | crlf (secret : Bytes) : Spells (secret ++ [13, 10]) secret
  | lf {secret : Bytes} : secret.getLast? ≠ some 13 → Spells (secret ++ [10]) secret
  | bare {secret : Bytes} : secret.getLast? ≠ some 10 → Spells secret secret

theorem Spells.stripLineEnding_eq (h : Spells content secret) :
    Store.stripLineEnding content = secret := by
  cases h with
  | crlf =>
    rw [Store.stripLineEnding, List.reverse_append]
    exact List.reverse_reverse secret
  | lf hlast =>
    have hreverse : (secret ++ [10]).reverse = 10 :: secret.reverse := List.reverse_append
    rw [List.getLast?_eq_head?_reverse] at hlast
    rw [Store.stripLineEnding, hreverse]
    split
    · rename_i heq
      rw [(List.cons.inj heq).2] at hlast
      exact absurd rfl hlast
    · rename_i heq
      rw [← (List.cons.inj heq).2, List.reverse_reverse]
    · rename_i hother
      exact absurd rfl (hother _)
  | bare hlast =>
    rw [List.getLast?_eq_head?_reverse] at hlast
    rw [Store.stripLineEnding]
    split
    · rename_i heq
      rw [heq] at hlast
      exact absurd rfl hlast
    · rename_i heq
      rw [heq] at hlast
      exact absurd rfl hlast
    · rfl

theorem spells_stripLineEnding (content : Bytes) : Spells content (Store.stripLineEnding content) := by
  rw [Store.stripLineEnding]
  split
  · rename_i rest heq
    rw [List.reverse_eq_iff, List.reverse_cons, List.reverse_cons, List.append_assoc] at heq
    rw [heq]
    exact .crlf rest.reverse
  · rename_i rest hne heq
    rw [List.reverse_eq_iff, List.reverse_cons] at heq
    rw [heq]
    refine .lf fun hlast => ?_
    rw [List.getLast?_reverse] at hlast
    obtain ⟨front, hfront⟩ := List.head?_eq_some_iff.mp hlast
    exact hne front hfront
  · rename_i hother
    refine .bare fun hlast => ?_
    rw [List.getLast?_eq_head?_reverse] at hlast
    obtain ⟨front, hfront⟩ := List.head?_eq_some_iff.mp hlast
    exact hother front hfront

/-- What reading makes of a secret: it is there, it fits, it breaks no line, and then it is given out as
    it is. -/
def verdict (location : String) (secret : Bytes) : Except SecretError Bytes :=
  if secret = [] then .error (.notConfigured location)
  else if 4096 < secret.length then .error .tooLarge
  else if 10 ∈ secret ∨ 13 ∈ secret then .error .forbiddenByte
  else .ok secret

theorem ofBytes_map (b : Bytes) : (Passphrase.ofBytes b).map (·.bytes) =
    match passphraseFault? b with
    | some e => .error e
    | none => .ok b := by
  unfold Passphrase.ofBytes
  split <;> rename_i h <;> simp only [h] <;> rfl

/-- **Looking at the size first makes no difference.** -/
theorem secretOf_eq_verdict (h : Spells content secret) :
    (Store.secretOf location content).map (·.bytes) = verdict location secret := by
  have hlength : content.length ≤ secret.length + 2 := by
    cases h with
    | crlf => exact Nat.le_of_eq List.length_append
    | lf => exact (Nat.le_of_eq List.length_append).trans (Nat.le_succ _)
    | bare => exact Nat.le_add_right _ _
  have hstrip := h.stripLineEnding_eq
  rw [Store.secretOf, verdict]
  by_cases hlarge : Store.maxFile < content.length
  · have hlong : 4096 < secret.length := by
      rw [Store.maxFile, maxPassphrase] at hlarge
      omega
    have hne : secret ≠ [] := by
      rintro rfl
      cases hlong
    rw [if_pos hlarge, if_neg hne, if_pos hlong]
    rfl
  · rw [if_neg hlarge]
    simp only [hstrip]
    by_cases hempty : secret = []
    · rw [if_pos hempty, if_pos (List.isEmpty_iff.mpr hempty)]
      rfl
    · have hisEmpty : ¬ secret.isEmpty = true := fun h => hempty (List.isEmpty_iff.mp h)
      rw [if_neg hempty, if_neg hisEmpty, ofBytes_map, passphraseFault?, if_neg hisEmpty]
      simp only [any_isLineBreak_iff, maxPassphrase]
      split_ifs <;> rfl

/-! ## Reading -/

/-- **A reader answers by what is seen of the location's file.** -/
theorem Store.read_eq (hpath : s.resolve location = .ok path) :
    s.read location d = match d.seen path with
      | .error e =>
        if e.kind = .notFound then .error (.notConfigured location)
        else .error (.storeUnreadable location e.message)
      | .ok none => .error (.storeUnreadable location "not a regular file")
      | .ok (some content) => secretOf location content := by
  rw [read, hpath, ok_bind, Disk.seen]
  rcases d.stat path with e | mode | i | ⟨mode, number⟩ <;> rfl

theorem Store.read_congr (hpath : s.resolve location = .ok path) (hseen : d'.seen path = d.seen path) :
    s.read location d' = s.read location d := by
  rw [read_eq hpath, read_eq hpath, hseen]

/-! ## Writing -/

namespace Update

/-- How a write stands that has begun by leaving the disk `made`: nothing else is to be seen of it, or the
    secret is in its place. -/
inductive Stands (made : Disk) (u : Update) (d : Disk) : Prop
  | underWay : u.stage ≠ .prepare → u.stage.placed = false → d.seen u.path = made.seen u.path →
      Stands made u d
  | placed {q : Place} : u.stage.placed = true → d.Names u.path q → d.Holds q u.secret.line →
      Stands made u d

/-- No step leads back to the beginning. -/
theorem advance_ne_prepare (u : Update) (d : Disk) (fault? : Option Disk.Fault) :
    (u.advance d fault?).1 ≠ .prepare := by
  intro hback
  have hmost : u.stage.remaining ≤ Stage.prepare.remaining := by
    cases u.stage <;> simp [Stage.remaining]
  rcases hgoes : u.stage.outcome? with _ | outcome
  · have hless := remaining_advance_lt u d fault? (Stage.remaining_pos hgoes)
    rw [hback] at hless
    exact absurd hless (Nat.not_lt.mpr hmost)
  · rw [advance_of_ended hgoes] at hback
    have hprepare : u.stage = .prepare := hback
    rw [hprepare] at hgoes
    cases hgoes

/-- The first step makes directories. -/
theorem advance_of_prepare (hu : u.stage = .prepare) (d : Disk) (fault? : Option Disk.Fault) :
    (u.advance d fault?).1.placed = false ∧
      (u.advance d fault?).2 = (makePrivate u.parent d fault?).2 := by
  rw [advance, hu]
  rcases makePrivate u.parent d fault? with ⟨e | ⟨⟩, d'⟩
  · exact ⟨rfl, rfl⟩
  · rcases u.temporary? with _ | temporary
    · exact ⟨rfl, rfl⟩
    · exact ⟨rfl, rfl⟩

theorem stands_of_prepare (hu : u.stage = .prepare) (d : Disk) (fault? : Option Disk.Fault) :
    ({ u with stage := (u.advance d fault?).1 } : Update).Stands (makePrivate u.parent d fault?).2
      (u.advance d fault?).2 := by
  obtain ⟨hplaced, hdisk⟩ := advance_of_prepare hu d fault?
  exact .underWay (advance_ne_prepare u d fault?) hplaced (congrArg (Disk.seen u.path) hdisk)

/-- A write that is under way has to do with its temporary file, or has failed. -/
theorem active_or_failed (hbegun : u.stage ≠ .prepare) (hplaced : u.stage.placed = false) :
    (u.stage.holds = true ∨ u.stage.opens = true) ∨ ∃ e, u.stage = .done (.error e) := by
  rcases hu : u.stage with _ | _ | _ | _ | _ | _ | _ | _ | (e | ⟨⟩) | e <;>
    rw [hu] at hbegun hplaced <;>
    first
    | exact .inl (.inl rfl)
    | exact .inl (.inr rfl)
    | exact .inr ⟨_, rfl⟩
    | exact absurd rfl hbegun
    | cases hplaced

/-- **What happens to the temporary file of a write is not seen at its location.** -/
theorem seen_of_beside (hparent : Path.parent? u.path = some u.parent) (hd : d.Sound) (hd' : d'.Sound)
    {temporary : String} {t : Place} (htemp : u.temporary? = some temporary)
    (ht : d.Names temporary t) (honly : Disk.Only [t] d d') : d'.seen u.path = d.seen u.path := by
  obtain ⟨name, hname, rfl⟩ := Option.map_eq_some_iff.mp htemp
  obtain ⟨last, hstands⟩ := Path.exists_standsIn hparent
  cases hstands.last_eq.symm.trans (Path.fileName?_eq_some hname).1
  exact Disk.seen_of_only hd hd' hstands hname ht honly

/-- **One step leaves the secret in its place, or is not seen.** -/
theorem Stands.advance (hparent : Path.parent? u.path = some u.parent) (hd : d.Sound)
    (hintact : u.Intact d) (h : u.Stands made d) (fault? : Option Disk.Fault) :
    ({ u with stage := (u.advance d fault?).1 } : Update).Stands made (u.advance d fault?).2 := by
  have hmoves := hintact.moves hd fault?
  cases h with
  | underWay hbegun hplaced hseen =>
    rcases active_or_failed hbegun hplaced with hactive | ⟨e, hu⟩
    · rcases hnext : (u.advance d fault?).1.placed with _ | _
      · refine .underWay (advance_ne_prepare u d fault?) hnext (Eq.trans ?_ hseen)
        rcases hmoves.beside hactive hnext with hsame | ⟨temporary, t, htemp, ht, honly⟩
        · rw [hsame]
        · exact seen_of_beside hparent hd hmoves.sound htemp ht honly
      · rcases hmoves.placed hnext with hbefore | ⟨q, hnames, hholds⟩
        · cases hplaced.symm.trans hbefore
        · exact .placed hnext hnames hholds
    · rw [Update.advance, hu]
      refine .underWay (fun hprepare => ?_) rfl hseen
      cases hprepare
  | placed hplaced hnames hholds =>
    -- Nothing is done any more but to compare the length, and it is right.
    have hquiet : ¬ (u.stage.holds = true ∨ u.stage.opens = true) := fun hactive => by
      cases hplaced.symm.trans (not_placed_of_active hactive)
    rw [not_or, Bool.not_eq_true, Bool.not_eq_true] at hquiet
    have hdeepens := hmoves.deepens hquiet.1 hquiet.2
    exact .placed ((hmoves.found hplaced).resolve_right fun hmissed => hmissed _ hnames hholds)
      (hnames.of_keeps hdeepens.keeps) (hdeepens.holds_iff.mpr hholds)

theorem run_stage (u : Update) (d : Disk) (faults : List (Option Disk.Fault)) :
    (u.run d faults).1 = { u with stage := (u.run d faults).1.stage } := by
  induction faults generalizing u d with
  | nil => rfl
  | cons fault? faults ih =>
    rw [run_cons, ih, step_eq]

/-- **A run leaves the secret in its place, or is not seen,** wherever it stops and whatever the device
    does. -/
theorem Stands.run (hparent : Path.parent? u.path = some u.parent) (hd : d.Sound)
    (hintact : u.Intact d) (h : u.Stands made d) (faults : List (Option Disk.Fault)) :
    (u.run d faults).1.Stands made (u.run d faults).2 := by
  induction faults generalizing u d with
  | nil => exact h
  | cons fault? faults ih =>
    have hmoves := hintact.moves hd fault?
    rw [run_cons, step_eq]
    exact ih hparent hmoves.sound hmoves.intact (h.advance hparent hd hintact fault?)

/-- The file of a write is there once it was put in its place. -/
theorem Stands.holds (h : u.Stands made d) (hplaced : u.stage.placed = true) :
    ∃ q, d.Names u.path q ∧ d.Holds q u.secret.line := by
  cases h with
  | underWay _ hquiet => cases hquiet.symm.trans hplaced
  | placed _ hnames hholds => exact ⟨_, hnames, hholds⟩

/-- **A run fails behind the renaming only when the device fails as the length is to be read.** -/
theorem Stands.unmeasured (hparent : Path.parent? u.path = some u.parent) (hd : d.Sound)
    (hintact : u.Intact d) (h : u.Stands made d) {faults : List (Option Disk.Fault)} {e : SecretError}
    (hend : (u.run d faults).1.stage = .unmeasured e) :
    (u.stage = .unmeasured e ∧ (u.run d faults).2 = d) ∨
      ∃ before fault, some fault ∈ faults ∧ (u.run d before).1.stage = .measure ∧
        e = u.incomplete fault.error.message ∧ (u.run d faults).2 = (u.run d before).2 := by
  induction faults generalizing u d with
  | nil => exact .inl ⟨hend, rfl⟩
  | cons fault? faults ih =>
    have hmoves := hintact.moves hd fault?
    rw [run_cons, step_eq] at hend ⊢
    rcases ih (u := { u with stage := (u.advance d fault?).1 }) hparent hmoves.sound hmoves.intact
        (h.advance hparent hd hintact fault?) hend with
      ⟨hstage, hdisk⟩ | ⟨before, fault, hfault, hmeasure, he, hdisk⟩
    · have hfile : u.stage.placed = true → ∃ q b, d.Names u.path q ∧ d.Holds q b := by
        intro hplaced
        obtain ⟨q, hnames, hholds⟩ := h.holds hplaced
        exact ⟨q, _, hnames, hholds⟩
      obtain ⟨hsame, hbefore | ⟨hmeasure, fault, rfl, he⟩⟩ := advance_eq_unmeasured hd hfile hstage
      · exact .inl ⟨hbefore, hdisk.trans hsame⟩
      · exact .inr ⟨[], fault, List.mem_cons_self, hmeasure, he, hdisk.trans hsame⟩
    · refine .inr ⟨fault? :: before, fault, List.mem_cons_of_mem _ hfault, ?_, he, ?_⟩ <;>
        rw [run_cons, step_eq]
      · exact hmeasure
      · exact hdisk

/-- **A write that has begun leaves the secret in its place, or is not seen.** -/
theorem stands_of_run (hparent : Path.parent? u.path = some u.parent) (hd : d.Sound)
    (hu : u.stage = .prepare) (fault? : Option Disk.Fault) (faults : List (Option Disk.Fault)) :
    (u.run d (fault? :: faults)).2.Sound ∧
      (u.run d (fault? :: faults)).1.Stands (makePrivate u.parent d fault?).2
        (u.run d (fault? :: faults)).2 := by
  have hintact : u.Intact d := by
    rw [Intact, hu]
    trivial
  have hmoves := hintact.moves hd fault?
  rw [run_cons, step_eq]
  exact ⟨(run_spec hmoves.sound hmoves.intact faults).1,
    (stands_of_prepare hu d fault?).run (u := { u with stage := (u.advance d fault?).1 }) hparent
      hmoves.sound hmoves.intact faults⟩

/-- **A write that fails behind its renaming could not read back the length of its file.** -/
theorem unmeasured_of_run (hparent : Path.parent? u.path = some u.parent) (hd : d.Sound)
    (hu : u.stage = .prepare) {faults : List (Option Disk.Fault)} {e : SecretError}
    (hend : (u.run d faults).1.stage = .unmeasured e) :
    ∃ before fault, some fault ∈ faults ∧ (u.run d before).1.stage = .measure ∧
      e = u.incomplete fault.error.message ∧ (u.run d faults).2 = (u.run d before).2 := by
  rcases faults with _ | ⟨fault?, faults⟩
  · cases hu.symm.trans hend
  · have hintact : u.Intact d := by
      rw [Intact, hu]
      trivial
    have hmoves := hintact.moves hd fault?
    rw [run_cons, step_eq] at hend ⊢
    rcases (stands_of_prepare hu d fault?).unmeasured (u := { u with stage := (u.advance d fault?).1 })
        hparent hmoves.sound hmoves.intact hend with
      ⟨hnever, -⟩ | ⟨before, fault, hfault, hmeasure, he, hdisk⟩
    · -- The first step does not measure anything.
      have hquiet := (advance_of_prepare hu d fault?).1
      have hnever : (u.advance d fault?).1 = .unmeasured e := hnever
      rw [hnever] at hquiet
      cases hquiet
    · refine ⟨fault? :: before, fault, List.mem_cons_of_mem _ hfault, ?_, he, ?_⟩ <;>
        rw [run_cons, step_eq]
      · exact hmeasure
      · exact hdisk

end Update

namespace Store

/-- How a write ends on a device that may fail at any of its steps, and the disk that it leaves. -/
inductive Writes (s : Store) (location : String) (secret : Passphrase) (d : Disk) :
    Except SecretError Unit → Disk → Prop
  | refused {e : SecretError} : s.beginUpdate location secret = .error e →
      Writes s location secret d (.error e) d
  | ended {u : Update} {faults : List (Option Disk.Fault)} {outcome : Except SecretError Unit} :
      s.beginUpdate location secret = .ok u → (u.run d faults).1.stage.outcome? = some outcome →
      Writes s location secret d outcome (u.run d faults).2

/-- A write on a device that does not fail is one of these. -/
theorem writes_write (s : Store) (location : String) (secret : Passphrase) (d : Disk) :
    s.Writes location secret d (s.write location secret d).1 (s.write location secret d).2 := by
  rw [write]
  rcases hbegin : s.beginUpdate location secret with e | u
  · exact .refused hbegin
  · obtain ⟨hend, hdisk⟩ := u.run_replicate_none d (Nat.le_refl _)
    have hended := Writes.ended hbegin hend
    rwa [hdisk] at hended

/-- How a write fails behind its renaming: the file is in its place, and the device fails when its length
    is to be read. -/
inductive LeftUnmeasured (s : Store) (location : String) (secret : Passphrase) (d : Disk) :
    SecretError → Disk → Prop
  | intro {u : Update} {before : List (Option Disk.Fault)} (fault : Disk.Fault) :
      s.beginUpdate location secret = .ok u → (u.run d before).1.stage = .measure →
      LeftUnmeasured s location secret d (u.incomplete fault.error.message) (u.run d before).2

/-- What the steps of a write have come to, the device having failed as it did. -/
inductive Ends (s : Store) (location : String) (secret : Passphrase) (d : Disk)
    (faults : List (Option Disk.Fault)) : Except SecretError Unit → Disk → Prop
  | stored {d' : Disk} {path : String} {q : Place} : s.resolve location = .ok path →
      d'.Names path q → s.read location d' = .ok secret → Ends s location secret d faults (.ok ()) d'
  | unseen {d' : Disk} {e : SecretError} {path parent : String} {fault? : Option Disk.Fault} :
      fault? ∈ faults → s.resolve location = .ok path → Path.parent? path = some parent →
      d'.seen path = (Update.makePrivate parent d fault?).2.seen path →
      Ends s location secret d faults (.error e) d'
  | unmeasured {d' : Disk} {e : SecretError} {fault : Disk.Fault} : some fault ∈ faults →
      s.LeftUnmeasured location secret d e d' → s.read location d' = .ok secret →
      Ends s location secret d faults (.error e) d'

/-- **What a run of a write has come to.** -/
theorem ends_run {secret : Passphrase} {faults : List (Option Disk.Fault)}
    {outcome : Except SecretError Unit} (hd : d.Sound) (hbegin : s.beginUpdate location secret = .ok u)
    (hend : (u.run d faults).1.stage.outcome? = some outcome) :
    s.Ends location secret d faults outcome (u.run d faults).2 := by
  obtain ⟨hpath, hparent, hsecret, hfresh⟩ : s.resolve location = .ok u.path ∧
      Path.parent? u.path = some u.parent ∧ u.secret = secret ∧ u.stage = .prepare := by
    obtain ⟨path, parent, hpath, hparent, rfl⟩ := beginUpdate_eq_ok hbegin
    exact ⟨hpath, hparent, rfl, rfl⟩
  rcases faults with _ | ⟨fault?, faults⟩
  · have hend : u.stage.outcome? = some outcome := hend
    rw [hfresh] at hend
    cases hend
  obtain ⟨hsound, hstands⟩ := Update.stands_of_run hparent hd hfresh fault? faults
  have hread : (u.run d (fault? :: faults)).1.stage.placed = true →
      ∃ q, (u.run d (fault? :: faults)).2.Names u.path q ∧
        s.read location (u.run d (fault? :: faults)).2 = .ok secret := by
    intro hplaced
    obtain ⟨q, hnames, hholds⟩ := hstands.holds hplaced
    rw [Update.run_stage] at hnames hholds
    exact ⟨q, hnames, read_of_holds hsound hpath hnames (hsecret ▸ hholds)⟩
  rcases hstage : (u.run d (fault? :: faults)).1.stage with
    _ | _ | _ | _ | _ | _ | _ | _ | (e | ⟨⟩) | e <;> rw [hstage] at hend hread
  case done.error =>
    cases hend
    cases hstands with
    | placed hplaced =>
      rw [hstage] at hplaced
      cases hplaced
    | underWay _ _ hseen =>
      rw [Update.run_stage] at hseen
      exact .unseen List.mem_cons_self hpath hparent hseen
  case done.ok =>
    cases hend
    obtain ⟨q, hnames, hread⟩ := hread rfl
    exact .stored hpath hnames hread
  case unmeasured =>
    cases hend
    obtain ⟨_, -, hstored⟩ := hread rfl
    obtain ⟨before, fault, hfault, hmeasure, rfl, hdisk⟩ :=
      Update.unmeasured_of_run hparent hd hfresh hstage
    refine .unmeasured hfault ?_ hstored
    rw [hdisk]
    exact .intro fault hbegin hmeasure
  all_goals cases hend

/-- What a write on a device that does not fail has come to, once it has begun. -/
theorem ends_write {secret : Passphrase} (hd : d.Sound) (hbegin : s.beginUpdate location secret = .ok u) :
    s.Ends location secret d (List.replicate u.stage.remaining none) (s.write location secret d).1
      (s.write location secret d).2 := by
  have hwrite : s.write location secret d = u.finish d := by rw [write, hbegin]
  obtain ⟨hend, hdisk⟩ := u.run_replicate_none d (Nat.le_refl _)
  rw [hwrite, ← hdisk]
  exact ends_run hd hbegin hend

/-- What a location answers after a write that failed: the same as before; or the write has made a
    directory that was missing, so that there was no secret before, and on the way behind it the root
    leads upwards, or a name is too long to be looked up. -/
inductive AnswersAsBefore (s : Store) (location : String) (d d' : Disk) : Prop
  | same : s.read location d' = s.read location d → AnswersAsBefore s location d d'
  | upwards {path parent : String} : s.resolve location = .ok path →
      Path.parent? path = some parent → d.isDirectory parent = false → Path.leadsUp path = true →
      s.read location d = .error (.notConfigured location) → AnswersAsBefore s location d d'
  | tooLong {path parent name : String} : s.resolve location = .ok path →
      Path.parent? path = some parent → d.isDirectory parent = false → name ∈ Path.pieces path →
      255 < name.utf8ByteSize → s.read location d = .error (.notConfigured location) →
      s.read location d' = .error (.storeUnreadable location IoError.nameTooLong.message) →
      AnswersAsBefore s location d d'

/-- **The directories that a write makes are seen at its location in two cases only.** -/
theorem answersAsBefore_of_made (hd : d.Sound) {parent : String}
    (hpath : s.resolve location = .ok path) (hparent : Path.parent? path = some parent)
    {fault? : Option Disk.Fault}
    (hseen : d'.seen path = (Update.makePrivate parent d fault?).2.seen path) :
    s.AnswersAsBefore location d d' := by
  rcases hdir : d.isDirectory parent with _ | _
  · obtain ⟨hdeepens, hsound⟩ := Update.makePrivate_deepens hd parent fault?
    have hmade : Update.makePrivate parent d fault? = d.makeDirectories parent 0o700 fault? := by
      rw [Update.makePrivate, hdir]
      rfl
    have hnone : d.seen path = .error .noEntry →
        s.read location d = .error (.notConfigured location) := by
      intro hnone
      rw [read_eq hpath, hnone]
      rfl
    obtain ⟨last, hstands⟩ := Path.exists_standsIn hparent
    by_cases hup : ".." ∈ Disk.steps path
    · have hleads : Path.leadsUp path = true :=
        List.any_eq_true.mpr ⟨"..", (List.mem_filter.mp hup).1, rfl⟩
      rcases Disk.seen_of_deepens hd hsound hdeepens path with hsame | hnoEntry
      · exact .same (read_congr hpath (hseen.trans hsame))
      · exact .upwards hpath hparent hdir hleads (hnone hnoEntry)
    · have hspared := Disk.makeDirectories_spares hd hstands hup 0o700 fault?
      rw [← hmade] at hspared
      rcases Disk.seen_of_made hd hsound hdeepens hup hspared with
        hsame | ⟨hnoEntry, hlong, name, hname, hsize⟩
      · exact .same (read_congr hpath (hseen.trans hsame))
      · refine .tooLong hpath hparent hdir (List.mem_filter.mp hname).1 hsize (hnone hnoEntry) ?_
        rw [read_eq hpath, hseen, hlong]
        rfl
  · have hmade : (Update.makePrivate parent d fault?).2 = d := by
      rw [Update.makePrivate, hdir]
      exact Disk.attempt_of_still rfl fault?
    rw [hmade] at hseen
    exact .same (read_congr hpath hseen)

/-- **What a location answers when the steps of a write are over.** -/
theorem Ends.answers {secret : Passphrase} {faults : List (Option Disk.Fault)}
    {outcome : Except SecretError Unit} (hd : d.Sound) (h : s.Ends location secret d faults outcome d') :
    (outcome = .ok () → s.read location d' = .ok secret) ∧
      ∀ e, outcome = .error e → s.AnswersAsBefore location d d' ∨
        (∃ fault, some fault ∈ faults) ∧ s.LeftUnmeasured location secret d e d' ∧
          s.read location d' = .ok secret := by
  cases h with
  | stored _ _ hread =>
    refine ⟨fun _ => hread, fun e he => ?_⟩
    cases he
  | unseen _ hpath hparent hseen =>
    refine ⟨fun hok => ?_, fun _ _ => .inl (answersAsBefore_of_made hd hpath hparent hseen)⟩
    cases hok
  | unmeasured hfault hleft hread =>
    refine ⟨fun hok => ?_, fun e he => .inr ⟨⟨_, hfault⟩, ?_, hread⟩⟩
    · cases hok
    · cases he
      exact hleft

/-- **A read gives out the secret that the file spells,** or says what is wrong with it. -/
theorem read_eq_verdict {i : Nat} (hpath : s.resolve location = .ok path)
    (hfile : d.stat path = .ok (.file i)) (h : Spells (d.inode i).data secret) :
    (s.read location d).map (·.bytes) = verdict location secret := by
  have hseen : d.seen path = .ok (some (d.inode i).data) := by
    rw [Disk.seen, hfile]
    rfl
  rw [read_eq hpath, hseen]
  exact secretOf_eq_verdict h

/-- **Secrets are read as they are stored.**  A file reads as the secret that it spells, or is refused for
    what is wrong with that secret, never for its size alone.  And where no file has two names: after a
    write that succeeds the location reads as the new secret; after one that fails it answers as before,
    at whatever step the device has failed; but when only the length of the file in its place could not be
    read, the location reads as the new secret. -/
theorem secrets_are_read_as_they_are_stored (s : Store) (location : String) (d : Disk) :
    (∀ path i, s.resolve location = .ok path → d.stat path = .ok (.file i) →
      (∃ secret, Spells (d.inode i).data secret) ∧
      ∀ secret, Spells (d.inode i).data secret →
        (s.read location d).map (·.bytes) = verdict location secret) ∧
    (d.Sound → ∀ secret : Passphrase,
      s.Writes location secret d (s.write location secret d).1 (s.write location secret d).2 ∧
      (∀ e, (s.write location secret d).1 = .error e →
        s.AnswersAsBefore location d (s.write location secret d).2) ∧
      ∀ outcome d', s.Writes location secret d outcome d' →
        (outcome = .ok () → s.read location d' = .ok secret) ∧
        ∀ e, outcome = .error e → s.AnswersAsBefore location d d' ∨
          s.LeftUnmeasured location secret d e d' ∧ s.read location d' = .ok secret) := by
  constructor
  · intro path i hpath hfile
    exact ⟨⟨_, spells_stripLineEnding _⟩, fun secret => read_eq_verdict hpath hfile⟩
  · intro hd secret
    refine ⟨writes_write s location secret d, fun e he => ?_, fun outcome d' hwrites => ?_⟩
    · rcases hbegin : s.beginUpdate location secret with e' | u
      · have hwrite : s.write location secret d = (.error e', d) := by rw [write, hbegin]
        rw [hwrite]
        exact .same rfl
      · rcases ((ends_write hd hbegin).answers hd).2 e he with hsame | ⟨⟨fault, hfault⟩, -⟩
        · exact hsame
        · cases List.eq_of_mem_replicate hfault
    · cases hwrites with
      | refused hbegin =>
        refine ⟨fun hok => ?_, fun _ _ => .inl (.same rfl)⟩
        cases hok
      | ended hbegin hend =>
        obtain ⟨hread, hanswers⟩ := (ends_run hd hbegin hend).answers hd
        exact ⟨hread, fun e he => (hanswers e he).imp_right And.right⟩

/-- The secret `one` is stored at `k`, and `two` when it is put there. -/
theorem secrets_are_read_as_they_are_stored_of_two :
    ((Store.mk "/s").read "k" (storing "k")).map (·.bytes) = .ok one.bytes ∧
      ((Store.mk "/s").write "k" two (storing "k")).1 = .ok () ∧
      (Store.mk "/s").read "k" ((Store.mk "/s").write "k" two (storing "k")).2 = .ok two := by
  have h := secrets_are_read_as_they_are_stored ⟨"/s"⟩ "k" (storing "k")
  have hspells : Spells (one.bytes ++ [10]) one.bytes := .lf (by decide)
  have hwrite : (Store.mk "/s").write "k" two (storing "k") = replacing.finish (storing "k") := by rfl
  have hdone : (replacing.run (storing "k") (List.replicate 8 none)).1.stage = .done (.ok ()) := by rfl
  have hok : ((Store.mk "/s").write "k" two (storing "k")).1 = .ok () := by
    rw [hwrite, Update.finish_of_done (Nat.le_refl 8) hdone]
  obtain ⟨hwrites, -, hreads⟩ := h.2 (storing_sound "k") two
  exact ⟨(h.1 "/s/k" 0 rfl rfl).2 _ hspells, hok, (hreads _ _ hwrites).1 hok⟩

/-! ## Answers that change -/

/-- A name that is too long to be looked up. -/
def longName : String := String.ofList (List.replicate 256 'n')

theorem utf8ByteSize_longName : longName.utf8ByteSize = 256 := by decide +kernel

theorem longName_ne {x : String} (hx : x.utf8ByteSize ≠ 256) : longName ≠ x := by
  rintro rfl
  exact hx utf8ByteSize_longName

theorem isEmpty_longName : longName.isEmpty = false :=
  String.isEmpty_eq_false_iff.mpr (longName_ne (by decide))

theorem toList_longName : longName.toList = List.replicate 256 'n' := String.toList_ofList

theorem not_mem_longName {c : Char} (hc : c ≠ 'n') : c ∉ longName.toList := by
  rw [toList_longName, List.mem_replicate]
  exact fun hmem => hc hmem.2

theorem pieces_longName (base : String) :
    Path.pieces (base ++ "/" ++ longName) = Path.pieces base ++ [longName] := by
  have hslash : '/' ∉ longName.toList := not_mem_longName (by decide)
  rw [Path.pieces_append_slash, Path.pieces_of_not_mem hslash]

theorem isEmpty_append_longName (base : String) : (base ++ "/" ++ longName).isEmpty = false := by
  rw [String.isEmpty_eq_false_iff, Ne, ← String.toList_eq_nil_iff, Path.toList_append_slash]
  exact List.append_ne_nil_of_right_ne_nil _ (List.cons_ne_nil _ _)

/-- The file of a long name in the directory `a` that is not there. -/
def longFile : String := "/s/a" ++ "/" ++ longName

theorem pieces_longFile : Path.pieces longFile = ["", "s", "a", longName] := pieces_longName "/s/a"

theorem resolve_longFile : (Store.mk "/s").resolve ("a" ++ "/" ++ longName) = .ok longFile := by
  have hpieces : Path.pieces ("a" ++ "/" ++ longName) = ["a", longName] := pieces_longName "a"
  have hup : Path.leadsUp ("a" ++ "/" ++ longName) = false := by
    have hne : (longName == "..") = false := beq_eq_false_iff_ne.mpr (longName_ne (by decide))
    rw [Path.leadsUp, hpieces]
    simp only [List.any_cons, hne]
    rfl
  have hrelative : Path.isAbsolute ("a" ++ "/" ++ longName) = false := by
    rw [Path.isAbsolute, Path.toList_append_slash]
    rfl
  have hjoin : "/s" ++ "/" ++ ("a" ++ "/" ++ longName) = longFile := by
    have hfront : "/s" ++ "/" ++ ("a" ++ "/") = "/s/a" ++ "/" := by decide
    rw [longFile, ← String.append_assoc, hfront]
  have hroot : "/s".isEmpty = false ∧ ("/s".toList.getLast? == some '/') = false := ⟨rfl, rfl⟩
  rw [resolve, isEmpty_append_longName, hup, Path.join, hrelative]
  simp only [hroot, Bool.or_self, Bool.false_eq_true, if_false, hjoin]

theorem parent_longFile : Path.parent? longFile = some "/s/a" := by
  have hidle : ¬ Path.isIdle longName = true := by
    have hne : (longName == ".") = false := beq_eq_false_iff_ne.mpr (longName_ne (by decide))
    rw [Path.isIdle, hne, isEmpty_longName]
    decide
  have htrim : Path.trimEnd ["", "s", "a", longName] = ["", "s", "a", longName] := by
    have hreverse : ["s", "a", longName].reverse = [longName, "a", "s"] := rfl
    rw [Path.trimEnd, hreverse, List.dropWhile_cons_of_neg hidle]
    rfl
  rw [Path.parent?, pieces_longFile, htrim]
  rfl

theorem textFault_longFile : Disk.textFault? longFile = none := by
  have hempty : ¬ longFile.isEmpty = true := Bool.eq_false_iff.mp (isEmpty_append_longName "/s/a")
  have hsize : ¬ Disk.maxPath ≤ longFile.utf8ByteSize := by
    rw [longFile, String.utf8ByteSize_append, utf8ByteSize_longName]
    decide
  have hzero : ¬ longFile.toList.contains '\x00' = true := by
    rw [List.contains_iff_mem, longFile, Path.toList_append_slash, List.mem_append, List.mem_cons]
    have hlong : '\x00' ∉ longName.toList := not_mem_longName (by decide)
    rintro (h | h | h)
    · revert h
      decide
    · cases h
    · exact hlong h
  rw [Disk.textFault?, if_neg hzero, if_neg hempty, if_neg hsize]

theorem seen_longFile_iff (hd : d.Sound) {e : IoError} (he : e = .noEntry ∨ e = .nameTooLong) :
    d.seen longFile = .error e ↔ ["s", "a", longName].foldlM d.enter [] = .error e := by
  have hsteps : Disk.steps longFile = ["s", "a", longName] := by
    rw [Disk.steps, pieces_longFile]
    simp only [List.filter_cons, isEmpty_longName]
    rfl
  have habsolute : Path.isAbsolute longFile = true :=
    Path.isAbsolute_iff.mpr ⟨_, List.cons_ne_nil _ _, pieces_longFile⟩
  rw [Disk.seen_eq_error_iff hd textFault_longFile he, hsteps, Disk.start, habsolute]
  rfl

/-- A write to the long name fails and leaves the directory `a`, and then nothing can be looked up. -/
theorem write_longFile :
    ∃ e, ((Store.mk "/s").write ("a" ++ "/" ++ longName) two blank).1 = .error e ∧
      (Store.mk "/s").read ("a" ++ "/" ++ longName)
        ((Store.mk "/s").write ("a" ++ "/" ++ longName) two blank).2 =
          .error (.storeUnreadable ("a" ++ "/" ++ longName) IoError.nameTooLong.message) := by
  have hmade := (Update.makePrivate_deepens blank_sound "/s/a" none).2
  have hlong : (Update.makePrivate "/s/a" blank).2.seen longFile = .error .nameTooLong := by
    have hfront : ["s", "a"].foldlM (Update.makePrivate "/s/a" blank).2.enter [] = .ok ["s", "a"] := by
      rfl
    have hdots : Disk.isDots longName = false := by
      rw [Disk.isDots, Bool.or_eq_false_iff, beq_eq_false_iff_ne, beq_eq_false_iff_ne]
      exact ⟨longName_ne (by decide), longName_ne (by decide)⟩
    have hsize : Disk.maxName < longName.utf8ByteSize := by
      rw [utf8ByteSize_longName]
      decide
    have hsplit : ["s", "a", longName] = ["s", "a"] ++ [longName] := rfl
    rw [seen_longFile_iff hmade (.inr rfl), hsplit, List.foldlM_append, hfront, ok_bind,
      List.foldlM_cons, Disk.enter_of_name hdots, if_pos hsize, error_bind]
  have hends := ends_write blank_sound (beginUpdate_of_parent resolve_longFile parent_longFile two)
  generalize houtcome : ((Store.mk "/s").write ("a" ++ "/" ++ longName) two blank).1 = outcome at hends
  cases hends with
  | stored hpath hnames =>
    -- No file has such a name.
    cases resolve_longFile.symm.trans hpath
    obtain ⟨seat, name, hseat, hname, -, hshort, -⟩ := hnames
    have hslash : '/' ∉ longName.toList := not_mem_longName (by decide)
    have hlast : Path.lastName? longFile = some longName :=
      Path.lastName?_append_slash "/s/a" hslash (longName_ne (by decide))
    have hseen : seat.last = Path.lastName? longFile := (Disk.seat_eq_ok hseat).2
    rw [(Disk.Seat.name?_eq_some hname).1, hlast] at hseen
    rw [Option.some.inj hseen, utf8ByteSize_longName] at hshort
    exact absurd hshort (by decide)
  | unseen hfault hpath hparent hseen =>
    cases List.eq_of_mem_replicate hfault
    cases resolve_longFile.symm.trans hpath
    cases parent_longFile.symm.trans hparent
    refine ⟨_, rfl, ?_⟩
    rw [read_eq resolve_longFile, hseen, hlong]
    rfl
  | unmeasured hfault => cases List.eq_of_mem_replicate hfault

/-- A disk with the secret `one` at `k`, and a directory where a write there has its temporary file. -/
def blocked : Disk := ((storing "k").makeDirectories "/s/.k.tmp" 0o700).2

/-- A write to `k` in a store whose root leads through a directory `new` that is not there. -/
def throughNew : Update := ⟨"k", two, "/s/new/../k", "/s/new/..", .prepare⟩

/-- A device that fails when the length of the file is to be read, which is the seventh step of a write. -/
def failingToMeasure : List (Option Disk.Fault) := List.replicate 6 none ++ [some ⟨0, .noDevice⟩]

/-- A disk on which the secret `one` at `k` has a second name, that of the temporary file of a write
    there. -/
def linked : Disk := (storing "k").setEntry ["s", ".k.tmp"] (.file 0)

/-- A device that fails when the secret is to be written, which is the third step of a write; removing
    the temporary file is then the last one. -/
def failingToFill : List (Option Disk.Fault) := [none, none, some ⟨0, .noDevice⟩, none]

/-- **A write that fails can leave another answer:** a name that is too long is looked up in the new
    directory; a secret is found through it; the new secret is in its place when its length cannot be
    read; and a secret that has the temporary file for its second name is lost. -/
theorem failed_writes_change_answers :
    ((Store.mk "/s").read ("a" ++ "/" ++ longName) blank =
        .error (.notConfigured ("a" ++ "/" ++ longName)) ∧
      ∃ e, ((Store.mk "/s").write ("a" ++ "/" ++ longName) two blank).1 = .error e ∧
        (Store.mk "/s").read ("a" ++ "/" ++ longName)
          ((Store.mk "/s").write ("a" ++ "/" ++ longName) two blank).2 =
            .error (.storeUnreadable ("a" ++ "/" ++ longName) IoError.nameTooLong.message)) ∧
    ((Store.mk "/s/new/..").read "k" blocked = .error (.notConfigured "k") ∧
      ∃ e, ((Store.mk "/s/new/..").write "k" two blocked).1 = .error e ∧
        (Store.mk "/s/new/..").read "k" ((Store.mk "/s/new/..").write "k" two blocked).2 = .ok one) ∧
    ((Store.mk "/s").read "k" (storing "k") = .ok one ∧
      ∃ e d', (Store.mk "/s").Writes "k" two (storing "k") (.error e) d' ∧
        (Store.mk "/s").read "k" d' = .ok two) ∧
    ((Store.mk "/s").read "k" linked = .ok one ∧
      ∃ e d', (Store.mk "/s").Writes "k" two linked (.error e) d' ∧
        (Store.mk "/s").read "k" d' = .error (.notConfigured "k")) := by
  refine ⟨⟨?_, write_longFile⟩, ⟨rfl, ?_⟩, ⟨rfl, ?_⟩, rfl, ?_⟩
  · have hnone : blank.seen longFile = .error .noEntry :=
      (seen_longFile_iff blank_sound (.inl rfl)).mpr rfl
    rw [read_eq resolve_longFile, hnone]
    rfl
  · have hwrite : (Store.mk "/s/new/..").write "k" two blocked = throughNew.finish blocked := by rfl
    have hdone : (throughNew.run blocked (List.replicate 8 none)).1.stage =
        .done (.error (throughNew.incomplete IoError.isDirectory.message)) := by rfl
    have hread : (Store.mk "/s/new/..").read "k"
        (throughNew.run blocked (List.replicate 8 none)).2 = .ok one := by rfl
    rw [hwrite, Update.finish_of_done (Nat.le_refl 8) hdone]
    exact ⟨_, rfl, hread⟩
  · have hend : (replacing.run (storing "k") failingToMeasure).1.stage.outcome? =
        some (.error (replacing.incomplete IoError.noDevice.message)) := by rfl
    have hread : (Store.mk "/s").read "k" (replacing.run (storing "k") failingToMeasure).2 = .ok two := by
      rfl
    exact ⟨_, _, .ended rfl hend, hread⟩
  · have hend : (replacing.run linked failingToFill).1.stage.outcome? =
        some (.error (replacing.incomplete IoError.noDevice.message)) := by rfl
    have hread : (Store.mk "/s").read "k" (replacing.run linked failingToFill).2 =
        .error (.notConfigured "k") := by rfl
    exact ⟨_, _, .ended rfl hend, hread⟩

end Store

end Coffer.Keyring
