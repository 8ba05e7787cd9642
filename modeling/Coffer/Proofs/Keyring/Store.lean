import Coffer.Keyring.Store
import Coffer.Proofs.Disk.Directories
import Coffer.Proofs.Keyring.Passphrase
/-
  The store of secrets: what its file holds, and what one step of a write does.

  A secret's file is the secret and a line feed (`Passphrase.line`), and it is read back as the secret
  (`Store.read_of_holds`).  A write is `Intact` when its temporary file holds what the write has put
  there so far; `Update.Moves` is what a step of an intact write does to the disk and to the write
  (`Intact.moves`).
-/
namespace Coffer.Keyring

open Disk (Only Grows)

variable {d d' : Disk} {p q t : Place} {s : Store} {location path temporary : String}

/-! ## The file of a secret -/

/-- What the file of a secret holds. -/
def Passphrase.line (p : Passphrase) : Bytes := p.bytes ++ [10]

theorem Passphrase.length_line (p : Passphrase) : p.line.length = p.size + 1 :=
  List.length_append

/-- The line ending goes, and the secret does not end in half of another one. -/
theorem Store.stripLineEnding_line (p : Passphrase) : stripLineEnding p.line = p.bytes := by
  obtain ⟨-, hne, hbreak⟩ := p.rules
  rcases List.eq_nil_or_concat p.bytes with h | ⟨front, last, h⟩
  · exact absurd h hne
  · have hlast : last ≠ 13 := by
      rintro rfl
      have := hbreak 13 (by rw [h]; simp)
      cases this
    have hreverse : p.line.reverse = 10 :: last :: front.reverse := by
      rw [Passphrase.line, h]
      simp
    rw [stripLineEnding, hreverse]
    split
    · rename_i heq
      cases heq
      exact absurd rfl hlast
    · rename_i heq
      cases heq
      rw [h, List.reverse_cons, List.reverse_reverse, List.concat_eq_append]
    · rename_i hother
      exact absurd rfl (hother _)

theorem Store.secretOf_line (location : String) (p : Passphrase) :
    secretOf location p.line = .ok p := by
  obtain ⟨hlen, hne, -⟩ := p.rules
  have hshort : ¬ maxFile < p.line.length := by
    rw [p.length_line, maxFile, Passphrase.size]
    omega
  have hsome : ¬ p.bytes.isEmpty = true := by
    rw [List.isEmpty_iff]
    exact hne
  rw [secretOf, if_neg hshort]
  simp only [stripLineEnding_line]
  rw [if_neg hsome, Passphrase.ofBytes_bytes]

/-- **A location reads as a secret exactly when its file's bytes spell the secret.** -/
theorem Store.read_eq_ok_iff (hd : d.Sound) {secret : Passphrase} :
    s.read location d = .ok secret ↔ ∃ path q b, s.resolve location = .ok path ∧ d.Names path q ∧
      d.Holds q b ∧ secretOf location b = .ok secret := by
  rw [read, bind_eq_ok_iff]
  constructor
  · rintro ⟨path, hpath, hread⟩
    rcases hfind : d.find path with e | ⟨q, found⟩
    · have hstat : d.stat path = .error e := by
        rw [Disk.stat, hfind]
        rfl
      simp only [hstat] at hread
      split_ifs at hread
    · simp only [Disk.stat, hfind] at hread
      rcases found with mode | i | ⟨mode, number⟩
      · cases hread
      · obtain ⟨hnames, hentry⟩ := hd.find_eq_file_iff.mp hfind
        exact ⟨path, q, _, hpath, hnames, ⟨i, hentry, rfl⟩, hread⟩
      · cases hread
  · rintro ⟨path, q, b, hpath, hnames, ⟨i, hi, rfl⟩, hsecret⟩
    have hfind : d.find path = .ok (q, .file i) := hd.find_eq_file_iff.mpr ⟨hnames, hi⟩
    refine ⟨path, hpath, ?_⟩
    simp only [Disk.stat, hfind]
    exact hsecret

/-- A location whose file holds a secret's line reads back as the secret. -/
theorem Store.read_of_holds (hd : d.Sound) (hpath : s.resolve location = .ok path)
    (hq : d.Names path q) {secret : Passphrase} (hholds : d.Holds q secret.line) :
    s.read location d = .ok secret :=
  (read_eq_ok_iff hd).mpr ⟨path, q, _, hpath, hq, hholds, secretOf_line location secret⟩

/-! ## The stages of a write -/

/-- What a write is that has not begun. -/
theorem Store.beginUpdate_eq_ok {u : Update} {secret : Passphrase}
    (h : s.beginUpdate location secret = .ok u) :
    ∃ path parent, s.resolve location = .ok path ∧ Path.parent? path = some parent ∧
      u = ⟨location, secret, path, parent, .prepare⟩ := by
  obtain ⟨path, hpath, h⟩ := bind_eq_ok_iff.mp h
  rcases hparent : Path.parent? path with _ | parent
  · simp only [hparent, throw_eq_error] at h
    cases h
  · simp only [hparent] at h
    cases h
    exact ⟨path, parent, hpath, hparent, rfl⟩

theorem Store.beginUpdate_of_parent {parent : String} (hpath : s.resolve location = .ok path)
    (hparent : Path.parent? path = some parent) (secret : Passphrase) :
    s.beginUpdate location secret = .ok ⟨location, secret, path, parent, .prepare⟩ := by
  rw [beginUpdate, hpath]
  simp only [ok_bind, hparent]
  rfl

/-- The temporary file is the write's own in these stages. -/
def Stage.holds : Stage → Bool
  | writeSecret _ | writeNewline _ | sync | rename | cleanUp _ => true
  | _ => false

/-- The next step opens the temporary file. -/
def Stage.opens : Stage → Bool
  | openTemporary => true
  | _ => false

/-- The file was put in its place, and nothing was found wrong with it. -/
def Stage.placed : Stage → Bool
  | measure | done (.ok ()) | unmeasured _ => true
  | _ => false

namespace Update

/-- The temporary file holds what the write has put there. -/
def Intact (u : Update) (d : Disk) : Prop :=
  match u.stage with
  | .openTemporary | .cleanUp _ => ∃ temporary, u.temporary? = some temporary
  | .writeSecret f => ∃ temporary t, u.temporary? = some temporary ∧ Grows f temporary t [] d
  | .writeNewline f =>
    ∃ temporary t, u.temporary? = some temporary ∧ Grows f temporary t u.secret.bytes d
  | .sync | .rename => ∃ temporary t, u.temporary? = some temporary ∧ d.Names temporary t ∧
      d.Holds t u.secret.line
  | .prepare | .measure | .done _ | .unmeasured _ => True

theorem Intact.of_deepens {u : Update} (hu : u.Intact d) (h : d.Deepens d') : u.Intact d' := by
  unfold Intact at hu ⊢
  split at hu <;> try exact hu
  · obtain ⟨temporary, t, htemp, hgrows⟩ := hu
    exact ⟨temporary, t, htemp, h.grows hgrows⟩
  · obtain ⟨temporary, t, htemp, hgrows⟩ := hu
    exact ⟨temporary, t, htemp, h.grows hgrows⟩
  all_goals
    obtain ⟨temporary, t, htemp, hnames, hholds⟩ := hu
    exact ⟨temporary, t, htemp, hnames.of_keeps h.keeps, h.holds_iff.mpr hholds⟩

/-- A write that does not hold the temporary file does not care what is in it. -/
theorem Intact.of_not_holds {u : Update} (hu : u.Intact d) (h : u.stage.holds = false) :
    u.Intact d' := by
  unfold Intact at hu ⊢
  split at hu <;> rename_i hstage <;> rw [hstage] at h <;> first | exact hu | cases h

/-- The file at a path is the temporary of no write that names it so. -/
theorem lastName?_temporary?_ne {u : Update} (h : u.temporary? = some temporary) :
    Path.lastName? temporary ≠ Path.lastName? u.path := by
  obtain ⟨name, hname, rfl⟩ := Option.map_eq_some_iff.mp h
  exact Path.lastName?_temporary_ne _ hname

/-- What a step does: a write goes on to a stage, and the disk to another one. -/
structure Moves (u : Update) (d : Disk) (stage : Stage) (d' : Disk) : Prop where
  sound : d'.Sound
  keeps : d.Keeps d'
  intact : ({ u with stage := stage } : Update).Intact d'
  /-- Other files are as they were, but for the one that the write has put in its place. -/
  holds : ∀ p, (∀ temporary, u.temporary? = some temporary → ¬ d'.Names temporary p) →
    (∀ b, d'.Holds p b ↔ d.Holds p b) ∨
      (d'.Names u.path p ∧ d'.Holds p u.secret.line ∧ stage.placed = true)
  /-- The file comes into its place with all its bytes. -/
  placed : stage.placed = true → u.stage.placed = true ∨
    ∃ q, d'.Names u.path q ∧ d'.Holds q u.secret.line
  /-- The file is missed only when it has been replaced. -/
  found : u.stage.placed = true → stage.placed = true ∨
    ∀ q, d.Names u.path q → ¬ d.Holds q u.secret.line
  held : stage.holds = true → u.stage.holds = true ∨ u.stage.opens = true
  /-- A write that has nothing to do with the temporary file makes directories at most. -/
  deepens : u.stage.holds = false → u.stage.opens = false → d.Deepens d'
  /-- A write that has to do with it changes nothing else until the file comes into its place. -/
  beside : u.stage.holds = true ∨ u.stage.opens = true → stage.placed = false →
    d' = d ∨ ∃ temporary t, u.temporary? = some temporary ∧ d.Names temporary t ∧ Only [t] d d'

variable {u : Update} {stage : Stage}

/-- Steps that make directories at most. -/
theorem Moves.of_deepens (h : d.Deepens d') (hsound : d'.Sound)
    (hintact : ({ u with stage := stage } : Update).Intact d')
    (hplaced : stage.placed = true → u.stage.placed = true)
    (hfound : u.stage.placed = true → stage.placed = true ∨
      ∀ q, d.Names u.path q → ¬ d.Holds q u.secret.line)
    (hheld : stage.holds = true → u.stage.holds = true ∨ u.stage.opens = true)
    (hbeside : u.stage.holds = true ∨ u.stage.opens = true → d' = d) : u.Moves d stage d' where
  sound := hsound
  keeps := h.keeps
  intact := hintact
  holds _ _ := .inl fun _ => h.holds_iff
  placed hstage := .inl (hplaced hstage)
  found := hfound
  held := hheld
  deepens _ _ := h
  beside hactive _ := .inl (hbeside hactive)

theorem not_placed_of_active (h : u.stage.holds = true ∨ u.stage.opens = true) :
    u.stage.placed = false := by
  rcases hu : u.stage with _ | _ | _ | _ | _ | _ | _ | _ | _ | _ <;> rw [hu] at h <;>
    first | rfl | (rcases h with h | h <;> cases h)

theorem not_active {P : Prop} (h : u.stage.holds = true ∨ u.stage.opens = true)
    (hholds : u.stage.holds = false) (hopens : u.stage.opens = false) : P := by
  rw [hholds, hopens] at h
  rcases h with h | h <;> cases h

/-- Steps that act on the temporary file. -/
theorem Moves.of_only (hactive : u.stage.holds = true ∨ u.stage.opens = true)
    (htemp : u.temporary? = some temporary) (ht : d'.Names temporary t) (honly : Only [t] d d')
    (hsound : d'.Sound) (hintact : ({ u with stage := stage } : Update).Intact d')
    (hstage : stage.placed = false) : u.Moves d stage d' where
  sound := hsound
  keeps := honly.keeps
  intact := hintact
  holds p hp := by
    have hpt : p ∉ [t] := by
      rw [List.mem_singleton]
      rintro rfl
      exact hp temporary htemp ht
    exact .inl fun _ => ⟨.of_sameAt (honly.same p hpt).symm, .of_sameAt (honly.same p hpt)⟩
  placed h := by
    rw [hstage] at h
    cases h
  found h := by
    rw [not_placed_of_active hactive] at h
    cases h
  held _ := hactive
  deepens := not_active hactive
  beside _ _ := .inr ⟨temporary, t, htemp, honly.names_iff.mp ht, honly⟩

/-- Steps that change nothing on the disk. -/
theorem Moves.of_still (hactive : u.stage.holds = true ∨ u.stage.opens = true) (hd : d.Sound)
    (hintact : ({ u with stage := stage } : Update).Intact d) (hstage : stage.placed = false) :
    u.Moves d stage d := by
  refine .of_deepens (.refl d) hd hintact (fun h => ?_) (fun h => ?_) (fun _ => hactive) fun _ => rfl
  · rw [hstage] at h
    cases h
  · rw [not_placed_of_active hactive] at h
    cases h

/-! ## One step of a write -/

theorem makePrivate_deepens (hd : d.Sound) (parent : String) (fault? : Option Disk.Fault) :
    d.Deepens (makePrivate parent d fault?).2 ∧ (makePrivate parent d fault?).2.Sound := by
  rw [makePrivate]
  split_ifs
  · rw [Disk.attempt_of_still rfl]
    exact ⟨.refl d, hd⟩
  · exact Disk.makeDirectories_deepens hd _ _ _

theorem moves_prepare (hd : d.Sound) (hu : u.stage = .prepare) (fault? : Option Disk.Fault) :
    u.Moves d (u.advance d fault?).1 (u.advance d fault?).2 := by
  have hmake := makePrivate_deepens hd u.parent fault?
  have hquiet : u.stage.placed = false := by rw [hu]; rfl
  have hstep : ∀ stage : Stage, stage.placed = false → stage.holds = false →
      ({ u with stage := stage } : Update).Intact (makePrivate u.parent d fault?).2 →
      u.Moves d stage (makePrivate u.parent d fault?).2 := by
    intro stage hplaced hholds hintact
    refine .of_deepens hmake.1 hmake.2 hintact (fun h => ?_) (fun h => ?_) (fun h => ?_) fun h => ?_
    · rw [hplaced] at h
      cases h
    · rw [hquiet] at h
      cases h
    · rw [hholds] at h
      cases h
    · rw [hu] at h
      rcases h with h | h <;> cases h
  rw [advance, hu]
  rcases hm : makePrivate u.parent d fault? with ⟨e | ⟨⟩, d'⟩ <;> rw [hm] at hstep <;> simp only
  · exact hstep _ rfl rfl trivial
  · rcases htemp : u.temporary? with _ | temporary
    · exact hstep _ rfl rfl trivial
    · exact hstep _ rfl rfl ⟨temporary, htemp⟩

theorem moves_openTemporary (hd : d.Sound) (hu : u.stage = .openTemporary) (hintact : u.Intact d)
    (fault? : Option Disk.Fault) : u.Moves d (u.advance d fault?).1 (u.advance d fault?).2 := by
  have hactive : u.stage.holds = true ∨ u.stage.opens = true := .inr (by rw [hu]; rfl)
  rw [Intact, hu] at hintact
  obtain ⟨temporary, htemp⟩ := hintact
  rw [advance, hu]
  simp only [htemp, Option.getD_some]
  rcases fault? with _ | fault
  · simp only [Disk.attempt]
    rcases hc : d.create temporary 0o600 with ⟨e | f, d'⟩
    · cases Disk.create_of_error hc
      exact .of_still hactive hd ⟨temporary, htemp⟩ rfl
    · obtain ⟨t, hgrows, honly, hsound⟩ := Disk.create_grows hd hc
      exact .of_only hactive htemp hgrows.names honly hsound ⟨temporary, t, htemp, hgrows⟩ rfl
  · exact .of_still hactive hd ⟨temporary, htemp⟩ rfl

/-- Bytes are written behind those that are there, all of them or some. -/
theorem moves_write (hd : d.Sound) (hholds : u.stage.holds = true)
    (htemp : u.temporary? = some temporary) {f : OpenFile} {b : Bytes} (hf : Grows f temporary t b d)
    (c : Bytes) (hstage : stage.placed = false)
    (hintact : Grows (d.write f c).1 temporary t (b ++ c) (d.write f c).2 →
      ({ u with stage := stage } : Update).Intact (d.write f c).2) :
    u.Moves d stage (d.write f c).2 := by
  obtain ⟨hgrows, honly⟩ := hf.write hd c
  exact .of_only (.inl hholds) htemp hgrows.names honly (hd.write f c) (hintact hgrows) hstage

theorem moves_rename (hd : d.Sound) (hu : u.stage = .rename) (hintact : u.Intact d)
    (fault? : Option Disk.Fault) : u.Moves d (u.advance d fault?).1 (u.advance d fault?).2 := by
  have hactive : u.stage.holds = true ∨ u.stage.opens = true := .inl (by rw [hu]; rfl)
  rw [Intact, hu] at hintact
  obtain ⟨temporary, t, htemp, hnames, hholds⟩ := hintact
  rw [advance, hu]
  simp only [htemp, Option.getD_some]
  rcases fault? with _ | fault
  case some => exact .of_still hactive hd ⟨temporary, htemp⟩ rfl
  simp only [Disk.attempt]
  rcases hr : d.rename temporary u.path with ⟨e | ⟨⟩, d'⟩
  · cases Disk.rename_of_error hr
    exact .of_still hactive hd ⟨temporary, htemp⟩ rfl
  · obtain ⟨q, e, hq, -, -, hline, -, honly, hsound⟩ := Disk.rename_holds hd hnames hholds hr
    have hq' := honly.names_iff.mpr hq
    refine ⟨hsound, honly.keeps, trivial, fun p hp => ?_, fun _ => .inr ⟨q, hq', hline⟩, fun h => ?_,
      fun _ => hactive, not_active hactive, fun _ h => by cases h⟩
    · by_cases hpq : p = q
      · rw [hpq]
        exact .inr ⟨hq', hline, rfl⟩
      · have hpt : p ≠ t := by
          rintro rfl
          exact hp temporary htemp (honly.names_iff.mpr hnames)
        have hsame := honly.same p (by simp [hpt, hpq])
        exact .inl fun _ => ⟨.of_sameAt hsame.symm, .of_sameAt hsame⟩
    · rw [hu] at h
      cases h

theorem fileLength_of_holds (hd : d.Sound) (hq : d.Names path q) {b : Bytes} (hb : d.Holds q b) :
    fileLength path d = .ok b.length := by
  obtain ⟨i, hi, rfl⟩ := hb
  have hfind : d.find path = .ok (q, .file i) := hd.find_eq_file_iff.mpr ⟨hq, hi⟩
  have hstat : d.stat path = .ok (.file i) := by
    rw [Disk.stat, hfind]
    rfl
  rw [fileLength, hstat, ok_bind]
  rfl

/-- The length of the file is right unless it is another file, if it can be read. -/
theorem moves_measure (hd : d.Sound) (hu : u.stage = .measure) (fault? : Option Disk.Fault) :
    u.Moves d (u.advance d fault?).1 (u.advance d fault?).2 := by
  have hplaced : u.stage.placed = true := by rw [hu]; rfl
  have hstep : ∀ stage : Stage, stage.outcome? ≠ none →
      (stage.placed = true ∨ ∀ q, d.Names u.path q → ¬ d.Holds q u.secret.line) →
      u.Moves d stage d := by
    intro stage hdone hfound
    rcases stage with _ | _ | _ | _ | _ | _ | _ | _ | outcome | e <;>
      first | exact absurd rfl hdone | skip
    all_goals
      exact .of_deepens (.refl d) hd trivial (fun _ => hplaced) (fun _ => hfound) (fun h => by cases h)
        fun _ => rfl
  have hunread : ∀ e : IoError, u.Moves d (.unmeasured (u.incomplete e.message)) d :=
    fun e => hstep _ (by simp [Stage.outcome?]) (.inl rfl)
  rw [advance, hu]
  rcases fault? with _ | fault
  case some => exact hunread fault.error
  simp only [Disk.attempt]
  rcases hl : fileLength u.path d with e | n
  · exact hunread e
  · by_cases hn : n = u.secret.size + 1
    · simp only [hn, ne_eq, not_true_eq_false, if_false]
      exact hstep _ (by simp [Stage.outcome?]) (.inl rfl)
    · simp only [ne_eq, hn, not_false_eq_true, if_true]
      refine hstep _ (by simp [Stage.outcome?]) (.inr fun q hq hholds => ?_)
      rw [fileLength_of_holds hd hq hholds, Passphrase.length_line] at hl
      cases hl
      exact hn rfl

theorem moves_cleanUp (hd : d.Sound) {e : SecretError} (hu : u.stage = .cleanUp e)
    (hintact : u.Intact d) (fault? : Option Disk.Fault) :
    u.Moves d (u.advance d fault?).1 (u.advance d fault?).2 := by
  have hactive : u.stage.holds = true ∨ u.stage.opens = true := .inl (by rw [hu]; rfl)
  rw [Intact, hu] at hintact
  obtain ⟨temporary, htemp⟩ := hintact
  rw [advance, hu]
  simp only [htemp, Option.getD_some]
  rcases fault? with _ | fault
  case some => exact .of_still hactive hd trivial rfl
  simp only [Disk.attempt]
  by_cases hnames : ∃ t, d.Names temporary t
  · obtain ⟨t, ht⟩ := hnames
    obtain ⟨honly, hsound⟩ := Disk.unlink_only hd ht
    exact .of_only hactive htemp (honly.names_iff.mpr ht) honly hsound trivial rfl
  · rw [Disk.unlink_of_no_name fun p hp => hnames ⟨p, hp⟩]
    exact .of_still hactive hd trivial rfl

/-- **One step of an intact write.** -/
theorem Intact.moves (hd : d.Sound) (hintact : u.Intact d) (fault? : Option Disk.Fault) :
    u.Moves d (u.advance d fault?).1 (u.advance d fault?).2 := by
  have hstill : ∀ stage : Stage, u.stage = stage → u.advance d fault? = (stage, d) →
      ({ u with stage := stage } : Update).Intact d → stage.holds = false →
      u.Moves d (u.advance d fault?).1 (u.advance d fault?).2 := by
    intro stage hu hsame hintact hholds
    rw [hsame]
    refine .of_deepens (.refl d) hd hintact (fun h => ?_) (fun h => ?_) (fun h => ?_) fun _ => rfl
    · rw [hu]
      exact h
    · rw [hu] at h
      exact .inl h
    · rw [hholds] at h
      cases h
  rcases hu : u.stage with _ | _ | f | f | _ | _ | _ | e | outcome | e
  · exact moves_prepare hd hu fault?
  · exact moves_openTemporary hd hu hintact fault?
  · have hholds : u.stage.holds = true := by rw [hu]; rfl
    rw [Intact, hu] at hintact
    obtain ⟨temporary, t, htemp, hgrows⟩ := hintact
    rw [advance, hu]
    rcases fault? with _ | fault
    · exact moves_write hd hholds htemp hgrows _ rfl fun h => ⟨temporary, t, htemp, h⟩
    · exact moves_write hd hholds htemp hgrows _ rfl fun _ => ⟨temporary, htemp⟩
  · have hholds : u.stage.holds = true := by rw [hu]; rfl
    rw [Intact, hu] at hintact
    obtain ⟨temporary, t, htemp, hgrows⟩ := hintact
    rw [advance, hu]
    rcases fault? with _ | fault
    · exact moves_write hd hholds htemp hgrows _ rfl fun h => ⟨temporary, t, htemp, h.names, h.holds⟩
    · exact moves_write hd hholds htemp hgrows _ rfl fun _ => ⟨temporary, htemp⟩
  · have hactive : u.stage.holds = true ∨ u.stage.opens = true := .inl (by rw [hu]; rfl)
    rw [Intact, hu] at hintact
    obtain ⟨temporary, t, htemp, hrest⟩ := hintact
    rw [advance, hu]
    rcases fault? with _ | fault
    · exact .of_still hactive hd ⟨temporary, t, htemp, hrest⟩ rfl
    · exact .of_still hactive hd ⟨temporary, htemp⟩ rfl
  · exact moves_rename hd hu hintact fault?
  · exact moves_measure hd hu fault?
  · exact moves_cleanUp hd hu hintact fault?
  · exact hstill _ hu (by rw [advance, hu]) trivial rfl
  · exact hstill _ hu (by rw [advance, hu]) trivial rfl

/-- **Only a device that fails keeps the length of a file from being read** that is in its place. -/
theorem advance_eq_unmeasured (hd : d.Sound)
    (hplaced : u.stage.placed = true → ∃ q b, d.Names u.path q ∧ d.Holds q b)
    {fault? : Option Disk.Fault} {e : SecretError} (h : (u.advance d fault?).1 = .unmeasured e) :
    (u.advance d fault?).2 = d ∧ (u.stage = .unmeasured e ∨
      u.stage = .measure ∧ ∃ fault, fault? = some fault ∧ e = u.incomplete fault.error.message) := by
  rcases hu : u.stage with _ | _ | f | f | _ | _ | _ | e' | outcome | e' <;>
    simp only [advance, hu] at h ⊢
  · split at h
    · cases h
    · split at h <;> cases h
  · split at h <;> cases h
  · split at h <;> cases h
  · split at h <;> cases h
  · split at h <;> cases h
  · split at h <;> cases h
  · rcases fault? with _ | fault
    · obtain ⟨q, b, hq, hb⟩ := hplaced (by rw [hu]; rfl)
      simp only [Disk.attempt, fileLength_of_holds hd hq hb] at h
      split at h <;> cases h
    · cases h
      exact ⟨rfl, .inr ⟨trivial, fault, rfl, rfl⟩⟩
  · cases h
  · cases h
  · exact ⟨trivial, .inl h⟩

end Update

end Coffer.Keyring
