import Coffer.Proofs.Keyring.Store
/-
  Writes to one location that share a disk.

  `Shared` is a list of writes in progress together with the disk; `Shared.run` lets them take their
  steps in any order, and at each step the device may fail.

  * `Shared.InTurn` — no write opens the temporary file while another one holds it;
  * `Shared.Atomic` — what one step preserves (`Atomic.step`), and so every run in turn
    (`Atomic.run`): the file of the location is as it was, or it holds all of one secret;
  * `Atomic.unmeasured` — a write that fails with its file in place does so at a step at which the device
    fails.

  The temporary file is the same for all writes to a location.  Writes that do not wait for each other
  mix their secrets in it.
-/
namespace Coffer.Keyring

open Disk (blank blank_sound)

variable {d d' : Disk} {p q : Place} {path : String} {temporary? : Option String}

/-- Writes that share a disk. -/
structure Shared where
  updates : List Update
  disk : Disk

namespace Shared

/-- Whose step comes next, and whether the device fails at it. -/
abbrev Turn : Type := Nat × Option Disk.Fault

/-- One step of one write. -/
def step (w : Shared) (turn : Turn) : Shared :=
  match w.updates[turn.1]? with
  | none => w
  | some u =>
    let (u, d) := u.step w.disk turn.2
    ⟨w.updates.set turn.1 u, d⟩

/-- Steps one after the other. -/
def run (w : Shared) (turns : List Turn) : Shared := turns.foldl step w

/-- A write that is to open the temporary file finds that no other write holds it. -/
def free (w : Shared) (n : Nat) : Bool :=
  match w.updates[n]? with
  | none => true
  | some u => !u.stage.opens || w.updates.all fun v => !v.stage.holds

/-- The temporary file is opened only when no other write holds it. -/
def InTurn (w : Shared) : List Turn → Prop
  | [] => True
  | turn :: turns => w.free turn.1 = true ∧ (w.step turn).InTurn turns

variable {w : Shared} {turn : Turn} {turns : List Turn} {u v : Update}

theorem step_of_some (hu : w.updates[turn.1]? = some u) :
    w.step turn = ⟨w.updates.set turn.1 (u.step w.disk turn.2).1, (u.step w.disk turn.2).2⟩ := by
  rw [step, hu]

theorem step_of_none (hu : w.updates[turn.1]? = none) : w.step turn = w := by
  rw [step, hu]

/-- The secrets stay what they are. -/
theorem secrets_step (w : Shared) (turn : Turn) :
    (w.step turn).updates.map (·.secret) = w.updates.map (·.secret) := by
  rcases hu : w.updates[turn.1]? with _ | u
  · rw [step_of_none hu]
  · obtain ⟨hlt, hget⟩ := List.getElem?_eq_some_iff.mp hu
    have hlt' : turn.1 < (w.updates.map (·.secret)).length := by
      rw [List.length_map]
      exact hlt
    have hsecret : (u.step w.disk turn.2).1.secret = (w.updates.map (·.secret))[turn.1] := by
      rw [List.getElem_map, hget]
      rfl
    rw [step_of_some hu, List.map_set, hsecret, List.set_getElem_self]

theorem secrets_run (w : Shared) (turns : List Turn) :
    (w.run turns).updates.map (·.secret) = w.updates.map (·.secret) := by
  induction turns generalizing w with
  | nil => rfl
  | cons turn rest ih => exact (ih (w.step turn)).trans (w.secrets_step turn)

/-- Without writes there are no steps. -/
theorem run_of_nil (hw : w.updates = []) (turns : List Turn) : w.run turns = w := by
  induction turns with
  | nil => rfl
  | cons turn rest ih =>
    have hstep : w.step turn = w := step_of_none (by rw [hw]; rfl)
    show (w.step turn).run rest = w
    rw [hstep]
    exact ih

/-! ## What the writes keep between them -/

/-- The file at the path is one that a write has put there and has not missed since. -/
def Settled (path : String) (w : Shared) : Prop :=
  ∃ v ∈ w.updates, v.stage.placed = true ∧ ∃ q, w.disk.Names path q ∧ w.disk.Holds q v.secret.line

/-- What is true of writes to one path that take turns, from the disk `d` on. -/
structure Atomic (path : String) (temporary? : Option String) (d : Disk) (w : Shared) : Prop where
  sound : w.disk.Sound
  keeps : d.Keeps w.disk
  target : ∀ u ∈ w.updates, u.path = path ∧ u.temporary? = temporary?
  intact : ∀ u ∈ w.updates, u.Intact w.disk
  /-- One write at most holds the temporary file. -/
  alone : ∀ (m n : Nat) (u v : Update), m ≠ n → w.updates[m]? = some u → w.updates[n]? = some v →
    u.stage.holds = true → v.stage.holds = false
  /-- A file is as it was, or it is that of the path and holds all of one secret. -/
  content : ∀ p, (∀ temporary, temporary? = some temporary → ¬ w.disk.Names temporary p) →
    (∀ b, w.disk.Holds p b ↔ d.Holds p b) ∨ ∃ u ∈ w.updates, w.disk.Holds p u.secret.line
  /-- Once a file was put in place, one that was put there is there. -/
  last : ∀ u ∈ w.updates, u.stage.placed = true → w.Settled path

/-! ## One step -/

variable {n m : Nat} {stage : Stage}

/-- The writes after the one with a number has gone on to a stage. -/
def goOn (w : Shared) (n : Nat) (u : Update) (stage : Stage) (d' : Disk) : Shared :=
  ⟨w.updates.set n { u with stage := stage }, d'⟩

/-- A write is the one that has gone on, or it is where it was. -/
theorem mem_goOn_iff (hu : w.updates[n]? = some u) :
    v ∈ (w.goOn n u stage d').updates ↔
      v = { u with stage := stage } ∨ ∃ m, m ≠ n ∧ w.updates[m]? = some v := by
  obtain ⟨hlt, -⟩ := List.getElem?_eq_some_iff.mp hu
  rw [goOn, List.mem_iff_getElem?]
  constructor
  · rintro ⟨m, hm⟩
    by_cases hmn : m = n
    · rw [hmn, List.getElem?_set_self hlt] at hm
      exact .inl (Option.some.inj hm).symm
    · rw [List.getElem?_set_ne (Ne.symm hmn)] at hm
      exact .inr ⟨m, hmn, hm⟩
  · rintro (rfl | ⟨m, hmn, hm⟩)
    · exact ⟨n, List.getElem?_set_self hlt⟩
    · exact ⟨m, by rw [List.getElem?_set_ne (Ne.symm hmn), hm]⟩

/-- The write that goes on is there with its new stage. -/
theorem self_mem_goOn (hu : w.updates[n]? = some u) (stage : Stage) (d' : Disk) :
    { u with stage := stage } ∈ (w.goOn n u stage d').updates :=
  (mem_goOn_iff hu).mpr (.inl rfl)

/-- A write that was there is the one that goes on, or it is there still. -/
theorem mem_goOn (hu : w.updates[n]? = some u) (hv : v ∈ w.updates) :
    v = u ∨ v ∈ (w.goOn n u stage d').updates := by
  obtain ⟨m, hm⟩ := List.mem_iff_getElem?.mp hv
  by_cases hmn : m = n
  · rw [hmn, hu] at hm
    exact .inl (Option.some.inj hm).symm
  · exact .inr ((mem_goOn_iff hu).mpr (.inr ⟨m, hmn, hm⟩))

/-- While a write holds the temporary file or opens it, no other one holds it. -/
theorem Atomic.others (hw : Atomic path temporary? d w) (hu : w.updates[n]? = some u)
    (hfree : w.free n = true) (hactive : u.stage.holds = true ∨ u.stage.opens = true) (hm : m ≠ n)
    (hv : w.updates[m]? = some v) : v.stage.holds = false := by
  rcases hactive with hholds | hopens
  · exact hw.alone n m u v (Ne.symm hm) hu hv hholds
  · rw [free, hu] at hfree
    simp only [hopens, Bool.not_true, Bool.false_or, List.all_eq_true, Bool.not_eq_true'] at hfree
    exact hfree v (List.mem_of_getElem? hv)

theorem Atomic.intact_goOn (hw : Atomic path temporary? d w) (hu : w.updates[n]? = some u)
    (hfree : w.free n = true) (hmoves : u.Moves w.disk stage d')
    (hv : v ∈ (w.goOn n u stage d').updates) : v.Intact d' := by
  rcases (mem_goOn_iff hu).mp hv with rfl | ⟨m, hmn, hm⟩
  · exact hmoves.intact
  · have hintact := hw.intact v (List.mem_of_getElem? hm)
    by_cases hactive : u.stage.holds = true ∨ u.stage.opens = true
    · exact hintact.of_not_holds (hw.others hu hfree hactive hmn hm)
    · rw [not_or, Bool.not_eq_true, Bool.not_eq_true] at hactive
      exact hintact.of_deepens (hmoves.deepens hactive.1 hactive.2)

theorem Atomic.alone_goOn (hw : Atomic path temporary? d w) (hu : w.updates[n]? = some u)
    (hfree : w.free n = true) (hmoves : u.Moves w.disk stage d') (i j : Nat) (v v' : Update)
    (hne : i ≠ j) (hv : (w.goOn n u stage d').updates[i]? = some v)
    (hv' : (w.goOn n u stage d').updates[j]? = some v') (hholds : v.stage.holds = true) :
    v'.stage.holds = false := by
  obtain ⟨hlt, -⟩ := List.getElem?_eq_some_iff.mp hu
  rw [goOn] at hv hv'
  by_cases hi : i = n <;> by_cases hj : j = n
  · omega
  · rw [hi, List.getElem?_set_self hlt] at hv
    rw [List.getElem?_set_ne (Ne.symm hj)] at hv'
    cases hv
    exact hw.others hu hfree (hmoves.held hholds) hj hv'
  · -- The write that goes on cannot hold it: it did not before, and it could not open it.
    rw [hj, List.getElem?_set_self hlt] at hv'
    rw [List.getElem?_set_ne (Ne.symm hi)] at hv
    cases hv'
    rw [← Bool.not_eq_true]
    intro hheld
    have hnot := hw.others hu hfree (hmoves.held hheld) hi hv
    rw [hholds] at hnot
    cases hnot
  · rw [List.getElem?_set_ne (Ne.symm hi)] at hv
    rw [List.getElem?_set_ne (Ne.symm hj)] at hv'
    exact hw.alone i j v v' hne hv hv' hholds

theorem Atomic.content_goOn (hw : Atomic path temporary? d w) (hu : w.updates[n]? = some u)
    (hmoves : u.Moves w.disk stage d')
    (hp : ∀ temporary, temporary? = some temporary → ¬ d'.Names temporary p) :
    (∀ b, d'.Holds p b ↔ d.Holds p b) ∨
      ∃ v ∈ (w.goOn n u stage d').updates, d'.Holds p v.secret.line := by
  obtain ⟨-, htemp⟩ := hw.target u (List.mem_of_getElem? hu)
  have hself := self_mem_goOn hu stage d'
  rcases hmoves.holds p (htemp ▸ hp) with hsame | ⟨-, hline, -⟩
  · rcases hw.content p fun temporary ht h => hp temporary ht (h.of_keeps hmoves.keeps) with
      h | ⟨v, hv, hholds⟩
    · exact .inl fun b => (hsame b).trans (h b)
    · rcases mem_goOn hu hv with rfl | hv
      · exact .inr ⟨_, hself, (hsame _).mpr hholds⟩
      · exact .inr ⟨v, hv, (hsame _).mpr hholds⟩
  · exact .inr ⟨_, hself, hline⟩

/-- The file that was there last is there still, or the write that goes on has replaced it. -/
theorem Settled.goOn (hw : Atomic path temporary? d w) (hu : w.updates[n]? = some u)
    (hmoves : u.Moves w.disk stage d') (h : w.Settled path) : (w.goOn n u stage d').Settled path := by
  obtain ⟨v, hv, hplaced, q, hq, hholds⟩ := h
  obtain ⟨hpath, -⟩ := hw.target u (List.mem_of_getElem? hu)
  have hself := self_mem_goOn hu stage d'
  have hq' : d'.Names path q := hq.of_keeps hmoves.keeps
  have hnot : ∀ temporary, u.temporary? = some temporary → ¬ d'.Names temporary q :=
    fun temporary ht hnames => hnames.ne (hpath ▸ Update.lastName?_temporary?_ne ht) hq' rfl
  rcases hmoves.holds q hnot with hsame | ⟨hnames, hline, hstage⟩
  · rcases mem_goOn hu hv with rfl | hv
    · rcases hmoves.found hplaced with hstage | hmissing
      · exact ⟨_, hself, hstage, q, hq', (hsame _).mpr hholds⟩
      · exact absurd hholds (hmissing q (hpath ▸ hq))
    · exact ⟨v, hv, hplaced, q, hq', (hsame _).mpr hholds⟩
  · exact ⟨_, hself, hstage, q, hq', hline⟩

/-- **One step in turn.** -/
theorem Atomic.step (hw : Atomic path temporary? d w) (turn : Turn) (hfree : w.free turn.1 = true) :
    Atomic path temporary? d (w.step turn) := by
  rcases hu : w.updates[turn.1]? with _ | u
  · rw [step_of_none hu]
    exact hw
  have hmem := List.mem_of_getElem? hu
  have hmoves := (hw.intact u hmem).moves hw.sound turn.2
  rw [step_of_some hu]
  refine ⟨hmoves.sound, hw.keeps.trans hmoves.keeps, fun v hv => ?_,
    fun v hv => hw.intact_goOn hu hfree hmoves hv, hw.alone_goOn hu hfree hmoves,
    fun p hp => hw.content_goOn hu hmoves hp, fun v hv hplaced => ?_⟩
  · rcases (mem_goOn_iff hu).mp hv with rfl | ⟨m, -, hm⟩
    · exact hw.target u hmem
    · exact hw.target v (List.mem_of_getElem? hm)
  · rcases (mem_goOn_iff hu).mp hv with rfl | ⟨m, -, hm⟩
    · rcases hmoves.placed hplaced with hbefore | ⟨q, hq, hline⟩
      · exact Settled.goOn hw hu hmoves (hw.last u hmem hbefore)
      · exact ⟨_, hv, hplaced, q, (hw.target u hmem).1 ▸ hq, hline⟩
    · exact Settled.goOn hw hu hmoves (hw.last v (List.mem_of_getElem? hm) hplaced)

/-- **A run in turn.** -/
theorem Atomic.run (hw : Atomic path temporary? d w) (turns : List Turn) (h : w.InTurn turns) :
    Atomic path temporary? d (w.run turns) := by
  induction turns generalizing w with
  | nil => exact hw
  | cons turn rest ih => exact ih (hw.step turn h.1) h.2

/-! ## Failures behind the renaming -/

/-- A write comes to fail behind its renaming at a step of its own, and the device fails at it. -/
theorem Atomic.unmeasured_step (hw : Atomic path temporary? d w) (turn : Turn) {e : SecretError}
    (hv : (w.step turn).updates[n]? = some v) (he : v.stage = .unmeasured e) :
    (∃ u, w.updates[n]? = some u ∧ u.stage = .unmeasured e) ∨ ∃ fault, turn = (n, some fault) := by
  rcases hu : w.updates[turn.1]? with _ | u
  · rw [step_of_none hu] at hv
    exact .inl ⟨v, hv, he⟩
  · obtain ⟨hlt, -⟩ := List.getElem?_eq_some_iff.mp hu
    rw [step_of_some hu] at hv
    by_cases hn : turn.1 = n
    · obtain ⟨_, fault?⟩ := turn
      subst hn
      rw [List.getElem?_set_self hlt] at hv
      cases hv
      have hfile : u.stage.placed = true → ∃ q b, w.disk.Names u.path q ∧ w.disk.Holds q b := by
        intro hplaced
        have hmem := List.mem_of_getElem? hu
        obtain ⟨v, -, -, q, hq, hholds⟩ := hw.last u hmem hplaced
        exact ⟨q, _, (hw.target u hmem).1 ▸ hq, hholds⟩
      obtain ⟨-, hbefore | ⟨-, fault, rfl, -⟩⟩ := Update.advance_eq_unmeasured hw.sound hfile he
      · exact .inl ⟨u, hu, hbefore⟩
      · exact .inr ⟨fault, rfl⟩
    · rw [List.getElem?_set_ne hn] at hv
      exact .inl ⟨v, hv, he⟩

/-- **A write fails behind its renaming only when the device fails at one of its own steps.** -/
theorem Atomic.unmeasured (hw : Atomic path temporary? d w) (turns : List Turn) (h : w.InTurn turns)
    {e : SecretError} (hv : (w.run turns).updates[n]? = some v) (he : v.stage = .unmeasured e) :
    (∃ u, w.updates[n]? = some u ∧ u.stage = .unmeasured e) ∨ ∃ fault, (n, some fault) ∈ turns := by
  induction turns generalizing w with
  | nil => exact .inl ⟨v, hv, he⟩
  | cons turn rest ih =>
    rcases ih (hw.step turn h.1) h.2 hv with ⟨u, hu, hstage⟩ | ⟨fault, hfault⟩
    · rcases hw.unmeasured_step turn hu hstage with hbefore | ⟨fault, rfl⟩
      · exact .inl hbefore
      · exact .inr ⟨fault, List.mem_cons_self⟩
    · exact .inr ⟨fault, List.mem_cons_of_mem _ hfault⟩

/-! ## Writes that begin -/

/-- Writes to one location that have not begun. -/
theorem Atomic.begin {s : Store} {location parent : String} (hd : w.disk.Sound)
    (hpath : s.resolve location = .ok path) (hparent : Path.parent? path = some parent)
    (hbegin : ∀ u ∈ w.updates, ∃ secret, s.beginUpdate location secret = .ok u) :
    Atomic path ((Path.fileName? path).map fun name => Path.join parent (Path.temporaryName name))
      w.disk w := by
  have hfresh : ∀ u ∈ w.updates, u.path = path ∧ u.parent = parent ∧ u.stage = .prepare := by
    intro u hu
    obtain ⟨secret, hsecret⟩ := hbegin u hu
    obtain ⟨path', parent', hpath', hparent', rfl⟩ := Store.beginUpdate_eq_ok hsecret
    cases hpath.symm.trans hpath'
    cases hparent.symm.trans hparent'
    exact ⟨rfl, rfl, rfl⟩
  refine ⟨hd, .refl _, fun u hu => ?_, fun u hu => ?_, fun m n u v _ hu _ hholds => ?_,
    fun _ _ => .inl fun _ => Iff.rfl, fun u hu hplaced => ?_⟩
  · obtain ⟨hpath, hparent, -⟩ := hfresh u hu
    rw [Update.temporary?, hpath, hparent]
    exact ⟨rfl, rfl⟩
  · rw [Update.Intact, (hfresh u hu).2.2]
    trivial
  · rw [(hfresh u (List.mem_of_getElem? hu)).2.2] at hholds
    cases hholds
  · rw [(hfresh u hu).2.2] at hplaced
    cases hplaced

/-- **Writes that take turns replace the secret as a whole,** on a disk where no file has two names.
    However their steps are interleaved and at whatever step the device fails, the file of the location is
    at every time as it was before them or it holds all of one of the secrets.  When no write is in
    progress any more and one of them has succeeded, then the location reads back as the secret of a write
    that has succeeded, or of one that has put its file in place and failed after it because the device
    did not tell the length. -/
theorem writes_in_turn_replace_the_secret {s : Store} {location : String} (hd : w.disk.Sound)
    (hpath : s.resolve location = .ok path)
    (hbegin : ∀ u ∈ w.updates, ∃ secret, s.beginUpdate location secret = .ok u)
    (hturns : w.InTurn turns) :
    let w' := w.run turns
    (∀ q, w'.disk.Names path q → (∀ b, w'.disk.Holds q b ↔ w.disk.Holds q b) ∨
      ∃ u ∈ w.updates, w'.disk.Holds q u.secret.line) ∧
    ((∀ u ∈ w'.updates, u.stage.outcome? ≠ none) → ∀ u ∈ w'.updates, u.stage = .done (.ok ()) →
      ∃ (n : Nat) (v : Update), w'.updates[n]? = some v ∧ s.read location w'.disk = .ok v.secret ∧
        (v.stage = .done (.ok ()) ∨
          (∃ e, v.stage = .unmeasured e) ∧ ∃ fault, (n, some fault) ∈ turns)) := by
  intro w'
  rcases hw : w.updates with _ | ⟨first, others⟩
  · have hw' : w' = w := run_of_nil hw turns
    rw [hw', hw]
    exact ⟨fun q _ => .inl fun _ => Iff.rfl, fun _ u hu => absurd hu List.not_mem_nil⟩
  · rw [← hw]
    obtain ⟨secret, hsecret⟩ := hbegin first (by rw [hw]; exact List.mem_cons_self)
    obtain ⟨path', parent, hpath', hparent, -⟩ := Store.beginUpdate_eq_ok hsecret
    cases hpath.symm.trans hpath'
    have hfirst := Atomic.begin hd hpath hparent hbegin
    have hatomic : Atomic path _ w.disk w' := hfirst.run turns hturns
    refine ⟨fun q hq => ?_, fun hdone u hu hok => ?_⟩
    · have hnot : ∀ temporary, (Path.fileName? path).map
          (fun name => Path.join parent (Path.temporaryName name)) = some temporary →
          ¬ w'.disk.Names temporary q := by
        intro temporary ht hnames
        obtain ⟨name, hname, rfl⟩ := Option.map_eq_some_iff.mp ht
        exact hnames.ne (Path.lastName?_temporary_ne _ hname) hq rfl
      rcases hatomic.content q hnot with h | ⟨v, hv, hholds⟩
      · exact .inl h
      · have hsecret : v.secret ∈ w.updates.map (·.secret) := by
          rw [← w.secrets_run turns]
          exact List.mem_map_of_mem hv
        obtain ⟨u, hu, heq⟩ := List.mem_map.mp hsecret
        exact .inr ⟨u, hu, heq ▸ hholds⟩
    · obtain ⟨v, hv, hplaced, q, hq, hholds⟩ := hatomic.last u hu (by rw [hok]; rfl)
      obtain ⟨n, hn⟩ := List.mem_iff_getElem?.mp hv
      refine ⟨n, v, hn, Store.read_of_holds hatomic.sound hpath hq hholds, ?_⟩
      have hout := hdone v hv
      rcases hstage : v.stage with _ | _ | _ | _ | _ | _ | _ | _ | (e | ⟨⟩) | e <;>
        rw [hstage] at hplaced hout
      case done.ok => exact .inl rfl
      case unmeasured =>
        rcases hfirst.unmeasured turns hturns hn hstage with ⟨u', hu', hended⟩ | hfault
        · -- No write begins so.
          obtain ⟨_, hbegun⟩ := hbegin u' (List.mem_of_getElem? hu')
          obtain ⟨_, _, -, -, rfl⟩ := Store.beginUpdate_eq_ok hbegun
          cases hended
        · exact .inr ⟨⟨e, rfl⟩, hfault⟩
      all_goals first | exact absurd rfl hout | cases hplaced

/-- Two writes of different secrets to one location. -/
def pair : Shared where
  updates := [⟨"k", ⟨[97, 97, 97, 97], rfl⟩, "/s/k", "/s", .prepare⟩,
    ⟨"k", ⟨[98, 98], rfl⟩, "/s/k", "/s", .prepare⟩]
  disk := blank

/-- One write is done with the temporary file before the other one opens it. -/
def inOrder : List Turn := [0, 1, 0, 0, 0, 0, 0, 1, 0, 1, 1, 1, 1, 1].map (·, none)

theorem writes_in_turn_replace_the_secret_of_two :
    let w := pair.run inOrder
    ∃ v ∈ w.updates, v.stage = .done (.ok ()) ∧ (Store.mk "/s").read "k" w.disk = .ok v.secret := by
  have hbegin : ∀ u ∈ pair.updates, ∃ secret, (Store.mk "/s").beginUpdate "k" secret = .ok u := by
    intro u hu
    rcases List.mem_cons.mp hu with rfl | hu
    · exact ⟨_, rfl⟩
    · cases List.mem_singleton.mp hu
      exact ⟨_, rfl⟩
  have hturns : pair.InTurn inOrder := by
    refine ⟨?_, ?_, ?_, ?_, ?_, ?_, ?_, ?_, ?_, ?_, ?_, ?_, ?_, ?_, trivial⟩ <;> rfl
  have hended : (pair.run inOrder).updates.map (·.stage.remaining) = [0, 0] := rfl
  have hall : ∀ u ∈ (pair.run inOrder).updates, u.stage.outcome? ≠ none := by
    intro u hu hnone
    have hpos := Stage.remaining_pos hnone
    have hmem := List.mem_map_of_mem (f := fun u : Update => u.stage.remaining) hu
    rw [hended] at hmem
    simp only [List.mem_cons, List.not_mem_nil, or_false, or_self] at hmem
    omega
  have hpath : (Store.mk "/s").resolve "k" = .ok "/s/k" := rfl
  have h := writes_in_turn_replace_the_secret blank_sound hpath hbegin hturns
  obtain ⟨n, v, hn, hread, hend⟩ := h.2 hall _ List.mem_cons_self rfl
  refine ⟨v, List.mem_of_getElem? hn, hend.resolve_right ?_, hread⟩
  rintro ⟨-, fault, hfault⟩
  obtain ⟨_, -, hturn⟩ := List.mem_map.mp hfault
  cases hturn

/-- Both writes open the temporary file before either of them writes to it. -/
def mixed : List Turn := [0, 1, 0, 1, 0, 1, 0, 0, 0, 0, 1, 1, 1, 1].map (·, none)

/-- **Writes that do not take turns mix their secrets.**  Both have ended, one of them well, and the
    location holds neither secret's line and reads back as neither secret. -/
theorem mixed_writes_lose_the_secret :
    let w := pair.run mixed
    w.updates.map (·.stage.remaining) = [0, 0] ∧
    (∃ u ∈ w.updates, u.stage = .done (.ok ())) ∧
    w.disk.Names "/s/k" ["s", "k"] ∧
    ∀ u ∈ w.updates, ¬ w.disk.Holds ["s", "k"] u.secret.line ∧
      (Store.mk "/s").read "k" w.disk ≠ .ok u.secret := by
  have hholds : (pair.run mixed).disk.Holds ["s", "k"] [98, 98, 10, 97, 10] := ⟨0, rfl, rfl⟩
  have hread : (Store.mk "/s").read "k" (pair.run mixed).disk = .error .forbiddenByte := rfl
  refine ⟨rfl, ⟨_, List.mem_cons_self, rfl⟩,
    ⟨⟨["s"], some "k", false⟩, "k", rfl, rfl, rfl, by decide, rfl⟩, fun u hu => ⟨fun hline => ?_, ?_⟩⟩
  · have heq := hline.unique hholds
    rcases List.mem_cons.mp hu with rfl | hu
    · cases heq
    · cases List.mem_singleton.mp hu
      cases heq
  · rw [hread]
    exact fun h => nomatch h

end Shared

end Coffer.Keyring
