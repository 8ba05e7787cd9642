import Coffer.Proofs.Disk.Staged
/-
  Staged files side by side.

  A `Desk` is a disk together with every staged file that was created on it; `Desk.act` is one call on
  one of them, and `Desk.run` takes calls on any of them in any order.

  * `Desk.Orderly`  — no two files that are still open have one temporary file between them;
  * `Desk.Accounts` — what one call preserves (`Accounts.act`), and so every orderly run
    (`Accounts.run`): a place is as it was, or it holds all the bytes of a committed file.

  Two open files for one destination do share their temporary file, and then bytes are seen at the
  destination before they are committed.
-/
namespace Coffer

open Disk (Only blank blank_sound)

variable {d d' : Disk} {p t : Place}

/-! ## The desk and its runs -/

namespace Desk

/-- What became of a staged file. -/
inductive Fate
  | standing
  | committed
  | dropped
  deriving DecidableEq

/-- A staged file and what happened to it. -/
structure Job where
  file : StagedFile
  /-- All bytes that were written to the file. -/
  written : Bytes
  fate : Fate
  /-- The disk on which the file was created. -/
  before : Disk

/-- A call on a staged file; the files are numbered in the order of their creation. -/
inductive Act
  | create (destination : String)
  /-- The device takes these bytes. -/
  | write (n : Nat) (b : Bytes)
  | flush (n : Nat)
  /-- The bytes are made durable, or that fails. -/
  | commit (n : Nat) (durable : Except IoError Unit)
  | drop (n : Nat)

end Desk

/-- A disk and all staged files that were created on it. -/
structure Desk where
  disk : Disk
  jobs : List Desk.Job

namespace Desk

/-- A disk on which there are no staged files yet. -/
def start (d : Disk) : Desk := ⟨d, []⟩

/-- A staged file by its number, when it is neither committed nor dropped. -/
def standing? (k : Desk) (n : Nat) : Option Job := k.jobs[n]?.filter (·.fate = .standing)

/-- Do something with a staged file; a file that is committed or dropped is out of reach. -/
def onStanding (k : Desk) (n : Nat) (f : Job → Job × Disk) : Desk :=
  match k.standing? n with
  | none => k
  | some j => ⟨(f j).2, k.jobs.set n (f j).1⟩

/-- One call. -/
def act (k : Desk) : Act → Desk
  | .create destination =>
    match StagedFile.create destination k.disk with
    | (.ok file, d) => ⟨d, k.jobs ++ [⟨file, [], .standing, k.disk⟩]⟩
    | (.error _, d) => { k with disk := d }
  | .write n b => k.onStanding n fun j =>
    let (file, d) := j.file.write b k.disk
    ({ j with file := file, written := j.written ++ b }, d)
  | .flush _ => k
  | .commit n durable => k.onStanding n fun j =>
    match j.file.commit k.disk durable with
    | (.ok (), d) => ({ j with fate := .committed }, d)
    | (.error _, d) => ({ j with fate := .dropped }, d)
  | .drop n => k.onStanding n fun j => ({ j with fate := .dropped }, j.file.discard k.disk)

/-- Calls one after the other. -/
def run (k : Desk) (acts : List Act) : Desk := acts.foldl act k

variable {k : Desk} {n : Nat} {i j : Job}

theorem standing?_eq_some : k.standing? n = some j ↔ k.jobs[n]? = some j ∧ j.fate = .standing := by
  rw [standing?, Option.filter_eq_some_iff, decide_eq_true_iff]

theorem onStanding_of_some (f : Job → Job × Disk) (h : k.standing? n = some j) :
    k.onStanding n f = ⟨(f j).2, k.jobs.set n (f j).1⟩ := by
  rw [onStanding, h]

/-! ## What is asked of a run and what it gives -/

/-- A file for this destination can be created without getting in the way of the files that are
    still open: its temporary file is none of theirs and none of their destinations, and its
    destination is none of their temporary files. -/
structure Clear (k : Desk) (destination : String) : Prop where
  temporary : ∀ temporary t, StagedFile.temporaryPath? destination = some temporary →
    k.disk.Names temporary t → ∀ j ∈ k.jobs, j.fate = .standing →
      ¬ k.disk.Names j.file.temporary t ∧ ¬ k.disk.Names j.file.destination t
  destination : ∀ q, k.disk.Names destination q → ∀ j ∈ k.jobs, j.fate = .standing →
    ¬ k.disk.Names j.file.temporary q

/-- Every file that the calls create is clear of those that are open then. -/
def Orderly (k : Desk) : List Act → Prop
  | [] => True
  | a :: acts => (∀ destination, a = .create destination → k.Clear destination) ∧ (k.act a).Orderly acts

/-- A place is no staged file's temporary place. -/
def Spares (k : Desk) (d : Disk) (p : Place) : Prop := ∀ j ∈ k.jobs, ¬ d.Names j.file.temporary p

/-- A place is as it was on the disk `d`, or it holds all the bytes that were written to a file whose
    destination it is and which was committed. -/
def Shows (k : Desk) (d : Disk) (p : Place) : Prop :=
  d.SameAt k.disk p ∨ ∃ j ∈ k.jobs, j.fate = .committed ∧ d.Names j.file.destination p ∧
    k.disk.Holds p j.written

/-- Something was at the place before the staged file was created, and nothing was at the place of
    its temporary file. -/
def Job.Found (j : Job) (d : Disk) (p : Place) : Prop :=
  (∀ t, d.Names j.file.temporary t → j.before.entryAt? t = none) ∧ j.before.entryAt? p ≠ none

/-- What is true of a desk throughout an orderly run that began with the disk `d`. -/
structure Accounts (d : Disk) (k : Desk) : Prop where
  sound : k.disk.Sound
  keeps : d.Keeps k.disk
  kept : k.disk.Keeps d
  stands : ∀ n j, k.standing? n = some j → ∃ t, j.file.Stands t j.written k.disk
  apart : ∀ m n i j, m ≠ n → k.standing? m = some i → k.standing? n = some j →
    ∀ t, d.Names i.file.temporary t → ¬ d.Names j.file.temporary t ∧ ¬ d.Names j.file.destination t
  shows : ∀ p, k.Spares d p → k.Shows d p

theorem Accounts.start (hd : d.Sound) : Accounts d (start d) where
  sound := hd
  keeps := .refl d
  kept := .refl d
  stands n j h := by cases h
  apart m n i j _ h := by cases h
  shows p _ := .inl (.refl d p)

theorem Accounts.names_iff (hk : Accounts d k) {path : String} :
    k.disk.Names path p ↔ d.Names path p :=
  ⟨.of_keeps hk.kept, .of_keeps hk.keeps⟩

/-! ## One call -/

/-- The places of the other open files' temporaries are none of the places `ts`. -/
def Elsewhere (k : Desk) (d : Disk) (n : Nat) (ts : List Place) : Prop :=
  ∀ m i t, m ≠ n → k.standing? m = some i → d.Names i.file.temporary t → t ∉ ts

theorem standing?_set {m : Nat} (hn : k.standing? n = some i) (j : Job) (d : Disk) :
    (Desk.mk d (k.jobs.set n j)).standing? m =
      if m = n then (some j).filter (·.fate = .standing) else k.standing? m := by
  obtain ⟨hn, -⟩ := standing?_eq_some.mp hn
  obtain ⟨hlt, -⟩ := List.getElem?_eq_some_iff.mp hn
  rw [standing?, standing?, List.getElem?_set]
  by_cases hm : m = n
  · rw [if_pos hm.symm, if_pos hm, if_pos (hm ▸ hlt)]
  · rw [if_neg (Ne.symm hm), if_neg hm]

/-- **A call on an open file keeps the accounts** if it changes the file's own places only: none of
    the other open files is there, and what is there and is no temporary file is committed. -/
theorem Accounts.replace (hk : Accounts d k) {ts : List Place} (hn : k.standing? n = some i)
    (htemporary : j.file.temporary = i.file.temporary)
    (hdestination : j.file.destination = i.file.destination)
    (honly : Only ts k.disk d') (hsound : d'.Sound) (helse : k.Elsewhere d n ts)
    (hstands : j.fate = .standing → ∃ t, j.file.Stands t j.written d')
    (hshows : ∀ p ∈ ts, ¬ d.Names i.file.temporary p →
      j.fate = .committed ∧ d.Names j.file.destination p ∧ d'.Holds p j.written) :
    Accounts d ⟨d', k.jobs.set n j⟩ := by
  obtain ⟨hjob, hfate⟩ := standing?_eq_some.mp hn
  obtain ⟨hlt, hget⟩ := List.getElem?_eq_some_iff.mp hjob
  -- An open file of the new desk has the paths of an open file of the old one, at the same number.
  have hpaths : ∀ m j', (Desk.mk d' (k.jobs.set n j)).standing? m = some j' →
      ∃ i', k.standing? m = some i' ∧ j'.file.temporary = i'.file.temporary ∧
        j'.file.destination = i'.file.destination := by
    intro m j' hm
    rw [standing?_set hn] at hm
    split_ifs at hm with heq
    · obtain ⟨hj, -⟩ := Option.filter_eq_some_iff.mp hm
      cases hj
      exact ⟨i, heq ▸ hn, htemporary, hdestination⟩
    · exact ⟨j', hm, rfl, rfl⟩
  refine ⟨hsound, hk.keeps.trans honly.keeps, honly.kept.trans hk.kept, ?_, ?_, ?_⟩
  · intro m j' hm
    rw [standing?_set hn] at hm
    split_ifs at hm with heq
    · obtain ⟨hj, hopen⟩ := Option.filter_eq_some_iff.mp hm
      cases hj
      exact hstands (of_decide_eq_true hopen)
    · obtain ⟨t, ht⟩ := hk.stands m j' hm
      exact ⟨t, ht.of_only honly (helse m j' t heq hm (hk.names_iff.mp ht.names))⟩
  · intro m m' i' j' hne hi hj t ht
    obtain ⟨i'', hi'', htemp, -⟩ := hpaths m i' hi
    obtain ⟨j'', hj'', htemp', hdest'⟩ := hpaths m' j' hj
    rw [htemp] at ht
    rw [htemp', hdest']
    exact hk.apart m m' i'' j'' hne hi'' hj'' t ht
  · intro p hp
    have hfree : ¬ d.Names i.file.temporary p := by
      rw [← htemporary]
      exact hp j (List.mem_set hlt j)
    by_cases hts : p ∈ ts
    · exact .inr ⟨j, List.mem_set hlt j, hshows p hts hfree⟩
    · have hsame := honly.same p hts
      have hspared : k.Spares d p := by
        intro i' hi'
        obtain ⟨m, hm⟩ := List.mem_iff_getElem?.mp hi'
        by_cases heq : m = n
        · rw [heq, hjob] at hm
          cases hm
          exact hfree
        · exact hp i' (List.mem_iff_getElem?.mpr ⟨m, by rw [List.getElem?_set_ne (Ne.symm heq), hm]⟩)
      rcases hk.shows p hspared with h | ⟨i', hi', hcommitted, hdest, hholds⟩
      · exact .inl (h.trans hsame)
      · obtain ⟨m, hm⟩ := List.mem_iff_getElem?.mp hi'
        have heq : m ≠ n := by
          rintro rfl
          rw [hjob] at hm
          cases hm
          rw [hfate] at hcommitted
          cases hcommitted
        exact .inr ⟨i', List.mem_iff_getElem?.mpr ⟨m, by rw [List.getElem?_set_ne (Ne.symm heq), hm]⟩,
          hcommitted, hdest, hholds.of_sameAt hsame⟩

/-- The other open files are not where a file's own temporary is. -/
theorem Accounts.elsewhere (hk : Accounts d k) (hn : k.standing? n = some j)
    (ht : d.Names j.file.temporary t) : k.Elsewhere d n [t] := by
  intro m i t' hne hi ht' hmem
  rw [List.mem_singleton] at hmem
  rw [hmem] at ht'
  exact (hk.apart m n i j hne hi hn t ht').1 ht

/-- What happens at the place of a file's own temporary is not seen. -/
theorem not_seen {i j : Job} {d' : Disk} (ht : d.Names i.file.temporary t) :
    ∀ p ∈ [t], ¬ d.Names i.file.temporary p →
      j.fate = .committed ∧ d.Names j.file.destination p ∧ d'.Holds p j.written := by
  intro p hp hfree
  rw [List.mem_singleton] at hp
  rw [hp] at hfree
  exact absurd ht hfree

theorem Accounts.write (hk : Accounts d k) (n : Nat) (b : Bytes) : Accounts d (k.act (.write n b)) := by
  rcases hn : k.standing? n with _ | j
  · rw [act, onStanding, hn]
    exact hk
  · obtain ⟨t, ht⟩ := hk.stands n j hn
    obtain ⟨hstands, honly, hsound⟩ := ht.write hk.sound b
    have hnames := hk.names_iff.mp ht.names
    rw [act, onStanding_of_some _ hn]
    exact hk.replace hn rfl rfl honly hsound (hk.elsewhere hn hnames) (fun _ => ⟨t, hstands⟩)
      (not_seen hnames)

theorem Accounts.drop (hk : Accounts d k) (n : Nat) : Accounts d (k.act (.drop n)) := by
  rcases hn : k.standing? n with _ | j
  · rw [act, onStanding, hn]
    exact hk
  · obtain ⟨t, ht⟩ := hk.stands n j hn
    obtain ⟨-, honly, hsound⟩ := ht.discard hk.sound
    have hnames := hk.names_iff.mp ht.names
    rw [act, onStanding_of_some _ hn]
    exact hk.replace hn rfl rfl honly hsound (hk.elsewhere hn hnames) (fun h => by cases h)
      (not_seen hnames)

theorem Accounts.commit (hk : Accounts d k) (n : Nat) (durable : Except IoError Unit) :
    Accounts d (k.act (.commit n durable)) := by
  rcases hn : k.standing? n with _ | j
  · rw [act, onStanding, hn]
    exact hk
  · obtain ⟨t, ht⟩ := hk.stands n j hn
    have hnames := hk.names_iff.mp ht.names
    have hcommits := ht.commit hk.sound durable none
    rw [act, onStanding_of_some _ hn]
    rcases hr : j.file.commit k.disk durable with ⟨e | ⟨⟩, d'⟩ <;> rw [hr] at hcommits
    · cases hcommits with
      | failed hgone honly hsound =>
        exact hk.replace hn rfl rfl honly hsound (hk.elsewhere hn hnames) (fun h => by cases h)
          (not_seen hnames)
    · cases hcommits with
      | @placed q _ hq hne hholds hgone honly hsound =>
        have hq := hk.names_iff.mp hq
        have hpair : ∀ p, p ∈ [t, q] → p = t ∨ p = q := by simp
        refine hk.replace hn rfl rfl honly hsound ?_ (fun h => by cases h) ?_
        · -- The destination is no open file's temporary either.
          intro m i t' hm hi ht' hmem
          obtain ⟨hother, hdest⟩ := hk.apart m n i j hm hi hn t' ht'
          rcases hpair t' hmem with rfl | rfl
          · exact hother hnames
          · exact hdest hq
        · intro p hp hfree
          rcases hpair p hp with rfl | rfl
          · exact absurd hnames hfree
          · exact ⟨rfl, hq, hholds⟩

theorem standing?_concat (k : Desk) (d : Disk) (h : j.fate = .standing) (m : Nat) :
    (Desk.mk d (k.jobs ++ [j])).standing? m =
      if m = k.jobs.length then some j else k.standing? m := by
  rw [standing?, standing?]
  by_cases hm : m = k.jobs.length
  · rw [if_pos hm, hm, List.getElem?_concat_length]
    exact Option.filter_some_pos (decide_eq_true h)
  · rw [if_neg hm]
    rcases Nat.lt_or_gt_of_ne hm with hlt | hgt
    · rw [List.getElem?_append_left hlt]
    · rw [List.getElem?_eq_none (by rw [List.length_append, List.length_singleton]; omega),
        List.getElem?_eq_none (Nat.le_of_lt hgt)]

theorem mem_of_standing? {m : Nat} (h : k.standing? m = some j) : j ∈ k.jobs ∧ j.fate = .standing :=
  have ⟨hjob, hfate⟩ := standing?_eq_some.mp h
  ⟨List.mem_of_getElem? hjob, hfate⟩

/-- **A file that is clear of the open ones joins them.** -/
theorem Accounts.create (hk : Accounts d k) {destination : String} (hclear : k.Clear destination) :
    Accounts d (k.act (.create destination)) := by
  rw [act]
  rcases hc : StagedFile.create destination k.disk with ⟨e | s, d'⟩
  · rw [StagedFile.create_of_error hc]
    exact hk
  · obtain ⟨t, hs, hdest, honly, hsound⟩ := StagedFile.create_stands hk.sound hc
    have hnames := (hk.names_iff.mp (honly.names_iff.mp hs.names))
    have htemp := hclear.temporary s.temporary t (hdest ▸ hs.temporary_eq) (hk.names_iff.mpr hnames)
    have hnew := standing?_concat (j := ⟨s, [], .standing, k.disk⟩) k d' rfl
    -- The files that were open before keep away from the new one's places.
    have hold : ∀ m i, k.standing? m = some i → ¬ d.Names i.file.temporary t ∧
        ¬ d.Names i.file.destination t ∧
        ∀ q, d.Names s.destination q → ¬ d.Names i.file.temporary q := by
      intro m i hi
      obtain ⟨hmem, hfate⟩ := mem_of_standing? hi
      obtain ⟨hne, hne'⟩ := htemp i hmem hfate
      refine ⟨fun h => hne (hk.names_iff.mpr h), fun h => hne' (hk.names_iff.mpr h), fun q hq h => ?_⟩
      rw [hdest] at hq
      exact hclear.destination q (hk.names_iff.mpr hq) i hmem hfate (hk.names_iff.mpr h)
    refine ⟨hsound, hk.keeps.trans honly.keeps, honly.kept.trans hk.kept, ?_, ?_, ?_⟩
    · intro m j hm
      rw [hnew] at hm
      split_ifs at hm with heq
      · cases hm
        exact ⟨t, hs⟩
      · obtain ⟨t', ht'⟩ := hk.stands m j hm
        refine ⟨t', ht'.of_only honly ?_⟩
        rw [List.mem_singleton]
        rintro rfl
        exact (hold m j hm).1 (hk.names_iff.mp ht'.names)
    · intro m m' i j hne hi hj t' ht'
      rw [hnew] at hi hj
      split_ifs at hi hj with heq heq' heq'
      · omega
      · cases hi
        cases ht'.unique hnames
        exact ⟨(hold m' j hj).1, (hold m' j hj).2.1⟩
      · cases hj
        refine ⟨fun h => ?_, fun h => (hold m i hi).2.2 t' h ht'⟩
        cases h.unique hnames
        exact (hold m i hi).1 ht'
      · exact hk.apart m m' i j hne hi hj t' ht'
    · intro p hp
      have hpt : p ∉ [t] := by
        rw [List.mem_singleton]
        rintro rfl
        exact hp _ (List.mem_append_right _ (List.mem_singleton_self _)) hnames
      have hsame := honly.same p hpt
      rcases hk.shows p fun j hj => hp j (List.mem_append_left _ hj) with h | ⟨j, hj, hfate, hq, hh⟩
      · exact .inl (h.trans hsame)
      · exact .inr ⟨j, List.mem_append_left _ hj, hfate, hq, hh.of_sameAt hsame⟩

/-! ## Runs -/

/-- **One call keeps the accounts.** -/
theorem Accounts.act (hk : Accounts d k) (a : Act)
    (h : ∀ destination, a = .create destination → k.Clear destination) : Accounts d (k.act a) := by
  cases a with
  | create destination => exact hk.create (h destination rfl)
  | write n b => exact hk.write n b
  | flush n => exact hk
  | commit n durable => exact hk.commit n durable
  | drop n => exact hk.drop n

/-- **An orderly run keeps the accounts.** -/
theorem Accounts.run (hk : Accounts d k) (acts : List Act) (h : k.Orderly acts) :
    Accounts d (k.run acts) := by
  induction acts generalizing k with
  | nil => exact hk
  | cons a rest ih => exact ih (hk.act a h.1) h.2

/-- A call on an open file other than a commit happens at the place of its temporary. -/
theorem Accounts.only (hk : Accounts d k) (hn : k.standing? n = some j) {a : Act} (b : Bytes)
    (ha : a ∈ [.write n b, .flush n, .drop n]) :
    ∃ t, d.Names j.file.temporary t ∧ Only [t] k.disk (k.act a).disk := by
  obtain ⟨t, ht⟩ := hk.stands n j hn
  refine ⟨t, hk.names_iff.mp ht.names, ?_⟩
  simp only [List.mem_cons, List.not_mem_nil, or_false] at ha
  rcases ha with rfl | rfl | rfl
  · rw [Desk.act, onStanding_of_some _ hn]
    exact (ht.write hk.sound b).2.1
  · exact .refl _ _
  · rw [Desk.act, onStanding_of_some _ hn]
    exact (ht.discard hk.sound).2.1

/-- **Staged files never show what is not committed,** on a disk on which no file has two names.  After
    any orderly run, every place that is no temporary's is as it was, or it holds all the bytes of a
    committed file whose destination it is.  And what is done with a file short of its commit changes
    neither these places nor anything that was there before the file was created, provided that its
    temporary found its place free. -/
theorem destinations_show_committed_files (hd : d.Sound) (acts : List Act)
    (horderly : (start d).Orderly acts) :
    let k := (start d).run acts
    (∀ p, k.Spares d p → k.Shows d p) ∧
    ∀ n j b, k.standing? n = some j → ∀ a ∈ [Act.write n b, .flush n, .drop n], ∀ p,
      k.Spares d p ∨ j.Found d p → k.disk.SameAt (k.act a).disk p := by
  intro k
  have hk : Accounts d k := (Accounts.start hd).run acts horderly
  refine ⟨hk.shows, fun n j b hn a ha p hp => ?_⟩
  obtain ⟨t, ht, honly⟩ := hk.only hn b ha
  apply honly.same p
  rw [List.mem_singleton]
  rintro rfl
  rcases hp with hspared | ⟨hfree, hfound⟩
  · exact hspared j (mem_of_standing? hn).1 ht
  · exact hfound (hfree p ht)

/-- Two files for two destinations, one of which is committed while the other is being written. -/
def twoFiles : List Act :=
  [.create "out", .write 0 [1, 1], .create "in", .write 1 [2], .commit 0 (.ok ()), .write 1 [3]]

theorem destinations_show_committed_files_of_two :
    let k := (start blank).run twoFiles
    k.Shows blank ["out"] ∧ k.disk.SameAt (k.act (.drop 1)).disk ["out"] := by
  have horderly : (start blank).Orderly twoFiles := by
    refine ⟨?_, by rintro _ ⟨⟩, ?_, by rintro _ ⟨⟩, by rintro _ ⟨⟩,
      by rintro _ ⟨⟩, trivial⟩
    · rintro destination ⟨⟩
      exact ⟨fun _ _ _ _ _ hj => (List.not_mem_nil hj).elim, fun _ _ _ hj => (List.not_mem_nil hj).elim⟩
    · rintro destination ⟨⟩
      refine ⟨fun temporary t htemp ht j hj _ => ?_, fun q hq j hj _ => ?_⟩
      · cases (rfl : StagedFile.temporaryPath? "in" = some "./.in.tmp").symm.trans htemp
        cases List.mem_singleton.mp hj
        exact ⟨fun h => ht.ne (by decide) h rfl, fun h => ht.ne (by decide) h rfl⟩
      · cases List.mem_singleton.mp hj
        exact fun h => hq.ne (by decide) h rfl
  have hspares : ((start blank).run twoFiles).Spares blank ["out"] := by
    intro j hj hnames
    have hlast := hnames.getLast?_eq
    have hjobs : ∀ j ∈ ((start blank).run twoFiles).jobs,
        Path.lastName? j.file.temporary ≠ some "out" := by decide
    exact hjobs j hj hlast.symm
  obtain ⟨hshows, hsame⟩ := destinations_show_committed_files blank_sound twoFiles horderly
  exact ⟨hshows _ hspares, hsame 1 _ [] rfl (.drop 1) (by simp) _ (.inl hspares)⟩

end Desk

/-! ## Shared temporaries -/

/-- **Two open files for one destination have one temporary file.**  When the first is committed the
    second goes on writing at the destination. -/
theorem StagedFile.Stands.exposed {s s' : StagedFile} {b : Bytes} {d₁ d₂ : Disk} (hd : d.Sound)
    (hs : s.Stands t b d) (hcreate : StagedFile.create s.destination d = (.ok s', d₁))
    (hcommit : s.commit d₁ = (.ok (), d₂)) (c : Bytes) :
    ∃ q, d.Names s.destination q ∧ (s'.write c d₂).2.Holds q c := by
  obtain ⟨t', hs', hdest, honly, hsound⟩ := StagedFile.create_stands hd hcreate
  have htemp : s.temporary = s'.temporary := by
    have heq := hs'.temporary_eq
    rw [hdest, hs.temporary_eq] at heq
    exact Option.some.inj heq
  rcases hr : d₁.rename s.temporary s.destination with ⟨e | ⟨⟩, d'⟩
  · simp only [StagedFile.commit, Disk.attempt, hr] at hcommit
    cases hcommit
  · simp only [StagedFile.commit, Disk.attempt, hr] at hcommit
    cases hcommit
    rw [htemp] at hr
    obtain ⟨q, e, hq, he, heq, ⟨i, hi, hdata⟩, -, honly₂, hsound₂⟩ :=
      Disk.rename_holds hsound hs'.names hs'.holds hr
    -- What is at the destination now is the second file, open at its first byte.
    cases he.symm.trans hs'.entry_eq
    cases heq.symm.trans hi
    have hgrows : Disk.Grows s'.file s.destination q [] d₂ :=
      ⟨honly₂.names_iff.mpr hq, heq, hdata, hs'.offset_eq⟩
    exact ⟨q, honly.names_iff.mp hq, (hgrows.write hsound₂ c).1.holds⟩

namespace Desk

/-- Two files for one destination; the first is committed while the second is being written. -/
def oneDestination : List Act :=
  [.create "out", .write 0 [1, 1], .create "out", .commit 0 (.ok ()), .write 1 [2]]

/-- A disk with an empty file of the name that a temporary for `out` has. -/
def taken : Disk := (blank.newInode 0o644 []).2.setEntry [".out.tmp"] (.file 0)

/-- **The temporary's name is the destination's alone, and so it can be somebody else's.**  A second
    file for one destination writes into the first one's bytes, behind its commit; and a file that is
    dropped takes away what had the name before. -/
theorem shared_temporary_is_seen :
    (blank.Names "out" ["out"] ∧ ¬ ((start blank).run oneDestination).Shows blank ["out"] ∧
      ((start blank).run oneDestination).disk.Holds ["out"] [2]) ∧
    (taken.entryAt? [".out.tmp"] = some (.file 0) ∧
      ((start taken).run [.create "out", .drop 0]).disk.entryAt? [".out.tmp"] = none) := by
  refine ⟨⟨⟨⟨[], some "out", false⟩, "out", rfl, rfl, rfl, by decide, rfl⟩, ?_, ⟨0, rfl, rfl⟩⟩, rfl, rfl⟩
  rintro (hsame | ⟨j, hj, hfate, -, hholds⟩)
  · exact nomatch hsame.1
  · -- The file that was committed had other bytes, and the other one is still open.
    rcases List.mem_cons.mp hj with rfl | hj
    · cases hholds.unique (⟨0, rfl, rfl⟩ : Disk.Holds _ ["out"] [2])
    · cases List.mem_singleton.mp hj
      exact nomatch hfate

end Desk

end Coffer
