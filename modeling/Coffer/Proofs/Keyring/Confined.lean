import Coffer.Proofs.Keyring.Stored
/-
  Where a store reads and writes.

  A path is below another one when it goes the way of the other and then on, never upwards
  (`Path.Below`); what it spells is then beneath what the other spells (`Path.Below.beneath`).  Joining
  the root with a relative location that has a name in it leads below the root (`Path.below_join`), and a
  temporary file stays there (`Path.Below.temporary`), so that a store is `Confined` to its root.

  A location of dots names the root itself.  It is not refused: no secret is read or written there, but
  the temporary file is made beside the root (`dots_reach_beside_the_root`).
-/
namespace Coffer

/-! ## Names on the way -/

namespace Path

open Disk (steps)

variable {p up base location last name : String}

/-- Steps without the dots, which lead nowhere. -/
def dotless (steps : List String) : List String := steps.filter (· ≠ ".")

/-- The names on the way of a path. -/
def names (p : String) : List String := dotless (steps p)

theorem dotless_append (ps qs : List String) : dotless (ps ++ qs) = dotless ps ++ dotless qs :=
  List.filter_append ps qs

theorem dotless_cons_dot (ps : List String) : dotless ("." :: ps) = dotless ps :=
  List.filter_cons_of_neg (by decide)

theorem dotless_cons (hdot : name ≠ ".") (ps : List String) : dotless (name :: ps) = name :: dotless ps :=
  List.filter_cons_of_pos (decide_eq_true hdot)

theorem dotless_eq_nil_iff {ps : List String} : dotless ps = [] ↔ ∀ x ∈ ps, x = "." := by
  rw [dotless, List.filter_eq_nil_iff]
  exact forall₂_congr fun x _ => by rw [decide_eq_true_eq, ne_eq, not_not]

theorem ne_dot_of_mem_names (h : name ∈ names p) : name ≠ "." := of_decide_eq_true (List.mem_filter.mp h).2

theorem names_join (up : String) (hrelative : isAbsolute p = false) :
    names (join up p) = names up ++ names p := by
  rw [names, (steps_join_of_relative up hrelative).1, dotless_append]
  rfl

/-- A relative path that is not empty has a step, be it a dot. -/
theorem steps_ne_nil (hrelative : isAbsolute p = false) (hne : p ≠ "") : steps p ≠ [] := by
  rcases hp : p.toList with _ | ⟨x, rest⟩
  · exact absurd (String.toList_eq_nil_iff.mp hp) hne
  · have hx : x ≠ '/' := by
      rintro rfl
      rw [isAbsolute, hp] at hrelative
      cases hrelative
    rcases hs : Text.splitOn '/' rest with _ | ⟨piece, later⟩
    · exact absurd hs (Text.splitOn_ne_nil '/' rest)
    · have hpieces : pieces p = String.ofList (x :: piece) :: later.map String.ofList := by
        rw [pieces, hp, Text.splitOn, if_neg hx, hs]
        rfl
      have hkept : (!(String.ofList (x :: piece)).isEmpty) = true := by
        rw [Bool.not_eq_true', String.isEmpty_eq_false_iff, Ne, ← String.toList_eq_nil_iff,
          String.toList_ofList]
        exact List.cons_ne_nil x piece
      rw [steps, hpieces, List.filter_cons_of_pos (p := fun x : String => !x.isEmpty) hkept]
      exact List.cons_ne_nil _ _

/-- A path that goes on with dots ends in one. -/
theorem lastName?_join_dots (up : String) (hrelative : isAbsolute p = false) (hne : p ≠ "")
    (hdots : names p = []) : lastName? (join up p) = some "." := by
  obtain ⟨front, last, hsteps⟩ := (List.eq_nil_or_concat' (steps p)).resolve_left
    (steps_ne_nil hrelative hne)
  have hlast : last = "." := by
    apply dotless_eq_nil_iff.mp hdots
    rw [hsteps]
    exact List.mem_append_right _ List.mem_cons_self
  show (steps (join up p)).getLast? = _
  rw [(steps_join_of_relative up hrelative).1, hsteps, ← List.append_assoc, List.getLast?_concat, hlast]

theorem names_of_name (hslash : '/' ∉ name.toList) (hne : name ≠ "") (hdot : name ≠ ".") :
    names name = [name] := by
  rw [names, (steps_of_name hslash hne).1]
  exact dotless_cons hdot []

theorem not_mem_names (h : leadsUp p = false) : ".." ∉ names p := by
  intro hmem
  have hpiece := (List.mem_filter.mp (List.mem_filter.mp hmem).1).1
  rw [leadsUp, List.any_eq_false] at h
  exact h ".." hpiece rfl

/-- The names of a path are those of its directory and its own. -/
theorem StandsIn.names_eq (h : StandsIn p up last) (hlast : last ≠ ".") : names p = names up ++ [last] := by
  obtain ⟨idle, idle', hidle, hidle', hsteps⟩ := h.steps_eq
  rw [names, hsteps, dotless_append, dotless_append, dotless_eq_nil_iff.mpr hidle, dotless_cons hlast,
    dotless_eq_nil_iff.mpr hidle']
  rfl

/-- A path with a file name ends in that name, dots apart. -/
theorem getLast?_names (h : fileName? p = some name) : (names p).getLast? = some name := by
  obtain ⟨hlast, hne, hdot, -⟩ := fileName?_eq_some h
  obtain ⟨front, hfront⟩ := List.getLast?_eq_some_iff.mp hlast
  obtain ⟨idle, hpieces, hidle⟩ := trimEnd_append (pieces p)
  rw [hfront] at hpieces
  rw [names, steps, hpieces, List.filter_append, List.filter_append, filter_name hne, dotless_append,
    dotless_append, dotless_eq_nil_iff.mpr (eq_dot_of_idle hidle), dotless_cons hdot, List.append_nil]
  exact List.getLast?_concat

/-- The directory of a path with a file name has the names before that one. -/
theorem names_of_parent (hparent : parent? p = some up) (hname : fileName? p = some name) :
    names p = names up ++ [name] ∧ isAbsolute up = isAbsolute p := by
  obtain ⟨hlast, -, hdot, -⟩ := fileName?_eq_some hname
  obtain ⟨last, hstands⟩ := exists_standsIn hparent
  cases hstands.last_eq.symm.trans hlast
  exact ⟨hstands.names_eq hdot, hstands.isAbsolute_eq⟩

/-- A temporary file has the names of the directory and the temporary name. -/
theorem names_temporary (up : String) (hname : fileName? p = some name) :
    names (join up (temporaryName name)) = names up ++ [temporaryName name] ∧
      isAbsolute (join up (temporaryName name)) = isAbsolute up := by
  have hslash := not_mem_temporaryName hname
  have hne := temporaryName_ne_empty name
  have hrelative := (steps_of_name hslash hne).2
  refine ⟨?_, (steps_join_of_relative up hrelative).2⟩
  rw [names_join up hrelative, names_of_name hslash hne fun hdot => ?_]
  have hlength := congrArg String.toList hdot
  rw [toList_temporaryName] at hlength
  exact List.cons_ne_nil _ _ ((List.append_eq_nil_iff.mp (List.cons.inj hlength).2).2)

theorem temporaryName_ne_dots (name : String) : temporaryName name ≠ ".." := by
  intro hdots
  have hlength := congrArg (fun s => s.toList.length) hdots
  simp only [toList_temporaryName, List.length_cons, List.length_append, List.length_nil] at hlength
  have htwo : "..".toList.length = 2 := rfl
  omega

/-! ## Paths below another one -/

/-- A path is below another one by its text: it goes the way of the other, and then on and not
    upwards. -/
structure Below (base p : String) : Prop where
  isAbsolute_eq : isAbsolute p = isAbsolute base
  names_eq : ∃ more, more ≠ [] ∧ ".." ∉ more ∧ names p = names base ++ more

/-- **A relative path with a name in it leads below the path that it is joined to.** -/
theorem below_join (base : String) (hrelative : isAbsolute location = false)
    (hup : leadsUp location = false) (hne : names location ≠ []) : Below base (join base location) :=
  ⟨(steps_join_of_relative base hrelative).2, names location, hne, not_mem_names hup,
    names_join base hrelative⟩

/-- **The temporary file of a path is where the path is.** -/
theorem Below.temporary (h : Below base p) (hparent : parent? p = some up)
    (hname : fileName? p = some name) : Below base (join up (temporaryName name)) := by
  obtain ⟨hdirectory, habsolute⟩ := names_of_parent hparent hname
  obtain ⟨htemporary, habsolute'⟩ := names_temporary up hname
  obtain ⟨more, hne, hup, hmore⟩ := h.names_eq
  obtain ⟨front, last, rfl⟩ := (List.eq_nil_or_concat' more).resolve_left hne
  rw [hdirectory, ← List.append_assoc] at hmore
  refine ⟨habsolute'.trans (habsolute.trans h.isAbsolute_eq), front ++ [temporaryName name],
    List.append_ne_nil_of_right_ne_nil _ (List.cons_ne_nil _ _), ?_, ?_⟩
  · rw [List.mem_append, List.mem_singleton, not_or] at hup ⊢
    exact ⟨hup.1, Ne.symm (temporaryName_ne_dots name)⟩
  · rw [htemporary, List.append_inj_left' hmore rfl, List.append_assoc]

end Path

/-! ## Places beneath another one -/

namespace Disk

variable {d : Disk} {path name : String} {front more : List String}

/-- A place is strictly beneath another one. -/
def Beneath (p q : Place) : Prop := ∃ more, more ≠ [] ∧ q = p ++ more

/-- What a path spells depends on its names. -/
theorem placeOf_eq_foldl_names (d : Disk) (path : String) :
    d.placeOf path = (Path.names path).foldl walk (d.start path) := by
  rw [placeOf, Path.names]
  generalize d.start path = p
  induction steps path generalizing p with
  | nil => rfl
  | cons piece rest ih =>
    by_cases hdot : piece = "."
    · rw [hdot, Path.dotless_cons_dot]
      exact ih p
    · rw [Path.dotless_cons hdot]
      exact ih _

theorem foldl_walk_of_names (h : ∀ x ∈ more, isDots x = false) (p : Place) :
    more.foldl walk p = p ++ more := by
  induction more generalizing p with
  | nil => exact (List.append_nil p).symm
  | cons name rest ih =>
    rw [List.foldl_cons, walk_of_name (h name List.mem_cons_self),
      ih fun x hx => h x (List.mem_cons_of_mem _ hx), List.append_assoc]
    rfl

/-- A path whose last name leads nowhere up spells that name in what the others spell. -/
theorem placeOf_of_concat (h : Path.names path = front ++ [name]) (hname : name ≠ "..") :
    d.placeOf path = front.foldl walk (d.start path) ++ [name] := by
  have hmem : name ∈ Path.names path := by
    rw [h]
    exact List.mem_append_right _ List.mem_cons_self
  have hdots : isDots name = false := by
    rw [isDots, Bool.or_eq_false_iff, beq_eq_false_iff_ne, beq_eq_false_iff_ne]
    exact ⟨Path.ne_dot_of_mem_names hmem, hname⟩
  rw [placeOf_eq_foldl_names, h, List.foldl_append, List.foldl_cons, walk_of_name hdots, List.foldl_nil]

end Disk

/-- **A path that is below another one spells a place beneath the other's.** -/
theorem Path.Below.beneath {base path : String} (h : Path.Below base path) (d : Disk) :
    Disk.Beneath (d.placeOf base) (d.placeOf path) := by
  obtain ⟨more, hne, hup, hnames⟩ := h.names_eq
  have hdots : ∀ x ∈ more, Disk.isDots x = false := by
    intro x hx
    have hmem : x ∈ Path.names path := by
      rw [hnames]
      exact List.mem_append_right _ hx
    rw [Disk.isDots, Bool.or_eq_false_iff, beq_eq_false_iff_ne, beq_eq_false_iff_ne]
    refine ⟨Path.ne_dot_of_mem_names hmem, ?_⟩
    rintro rfl
    exact hup hx
  refine ⟨more, hne, ?_⟩
  rw [Disk.placeOf_eq_foldl_names, Disk.placeOf_eq_foldl_names, hnames, List.foldl_append,
    Disk.foldl_walk_of_names hdots, Disk.start, Disk.start, h.isAbsolute_eq]

/-! ## The store -/

namespace Keyring

open Disk (Beneath blank blank_sound)

variable {d d' : Disk} {s : Store} {location path n : String} {secret : Passphrase} {u : Update}

namespace Store

theorem resolve_eq_ok_iff : s.resolve location = .ok path ↔
    location ≠ "" ∧ Path.leadsUp location = false ∧ path = Path.join s.root location := by
  rw [resolve, ← String.isEmpty_eq_false_iff]
  rcases location.isEmpty with _ | _ <;> rcases Path.leadsUp location with _ | _ <;> simp [eq_comm]

/-- A disk that a write passes through on its way, on a device that may fail at any of its steps. -/
inductive Passes (s : Store) (location : String) (secret : Passphrase) (d : Disk) : Disk → Prop
  | refused {e : SecretError} : s.beginUpdate location secret = .error e → Passes s location secret d d
  | underWay {u : Update} (faults : List (Option Disk.Fault)) : s.beginUpdate location secret = .ok u →
      Passes s location secret d (u.run d faults).2

/-- A write that has ended has passed through the disk that it leaves. -/
theorem Writes.passes {outcome : Except SecretError Unit} (h : s.Writes location secret d outcome d') :
    s.Passes location secret d d' := by
  cases h with
  | refused hbegin => exact .refused hbegin
  | ended hbegin _ => exact .underWay _ hbegin

/-- **A write spares what is at neither of its two places,** at every step. -/
theorem Passes.spared (hd : d.Sound) (h : s.Passes location secret d d') {q : Place}
    (hq : ∀ u, s.beginUpdate location secret = .ok u → u.Misses d q) : d.Spared d' q := by
  cases h with
  | refused _ => exact .refl d q
  | @underWay u faults hbegin =>
    obtain ⟨path, parent, -, -, hu⟩ := beginUpdate_eq_ok hbegin
    have hintact : u.Intact d := by
      rw [hu]
      trivial
    exact Update.spared_run hd hintact (hq u hbegin) faults

/-- What a store does at a location stays below its root. -/
structure Confined (s : Store) (location : String) (d : Disk) : Prop where
  /-- A secret comes from a file below the root. -/
  read : ∀ secret, s.read location d = .ok secret → ∃ path q b, s.resolve location = .ok path ∧
    Path.Below s.root path ∧ d.Names path q ∧ Beneath (d.placeOf s.root) q ∧ d.Holds q b ∧
    secretOf location b = .ok secret
  /-- The paths that a write works with are below the root, that of the temporary file included. -/
  paths : ∀ secret u, s.beginUpdate location secret = .ok u → Path.Below s.root u.path ∧
    ∀ temporary, u.temporary? = some temporary → Path.Below s.root temporary
  /-- A write spares what is elsewhere, at every step and whatever the device does. -/
  write : ∀ secret d' q, s.Passes location secret d d' → ¬ Beneath (d.placeOf s.root) q → d.Spared d' q

/-- The paths of a write to a relative location with a name in it. -/
theorem below_of_beginUpdate (hrelative : Path.isAbsolute location = false)
    (hne : Path.names location ≠ []) (h : s.beginUpdate location secret = .ok u) :
    Path.Below s.root u.path ∧ ∀ temporary, u.temporary? = some temporary →
      Path.Below s.root temporary := by
  obtain ⟨path, parent, hpath, hparent, rfl⟩ := beginUpdate_eq_ok h
  obtain ⟨-, hup, rfl⟩ := resolve_eq_ok_iff.mp hpath
  have hbelow := Path.below_join s.root hrelative hup hne
  refine ⟨hbelow, fun temporary htemp => ?_⟩
  obtain ⟨name, hname, rfl⟩ := Option.map_eq_some_iff.mp htemp
  exact hbelow.temporary hparent hname

/-- **A relative location with a name in it stays below the root.** -/
theorem confined_of_names (hd : d.Sound) (hrelative : Path.isAbsolute location = false)
    (hne : Path.names location ≠ []) : s.Confined location d where
  read secret hread := by
    obtain ⟨path, q, b, hpath, hnames, hholds, hsecret⟩ := (read_eq_ok_iff hd).mp hread
    obtain ⟨-, hup, hjoin⟩ := resolve_eq_ok_iff.mp hpath
    have hbelow : Path.Below s.root path := by
      rw [hjoin]
      exact Path.below_join s.root hrelative hup hne
    have hbeneath := hbelow.beneath d
    rw [hnames.placeOf_eq] at hbeneath
    exact ⟨path, q, b, hpath, hbelow, hnames, hbeneath, hholds, hsecret⟩
  paths _ _ := below_of_beginUpdate hrelative hne
  write secret d' q hpasses hq := by
    refine hpasses.spared hd fun u hbegin => ?_
    obtain ⟨hpath, htemporary⟩ := below_of_beginUpdate hrelative hne hbegin
    have hspares : u.Spares d q := by
      refine ⟨?_, fun temporary htemp => ?_⟩
      · rintro rfl
        exact hq (hpath.beneath d)
      · rintro rfl
        exact hq ((htemporary temporary htemp).beneath d)
    exact hspares.misses

/-- **A location that is empty or leads upwards is refused,** and nothing is touched. -/
theorem refused_of_leadsUp (h : location = "" ∨ Path.leadsUp location = true) :
    (∃ e, s.read location d = .error e) ∧ ∀ secret outcome d', s.Writes location secret d outcome d' →
      (∃ e, outcome = .error e) ∧ d' = d := by
  obtain ⟨e, he⟩ : ∃ e, s.resolve location = .error e := by
    rcases hr : s.resolve location with e | path
    · exact ⟨e, rfl⟩
    · obtain ⟨hne, hup, -⟩ := resolve_eq_ok_iff.mp hr
      rcases h with hempty | hleads
      · exact absurd hempty hne
      · cases hup.symm.trans hleads
  refine ⟨⟨e, by rw [read, he, error_bind]⟩, fun secret outcome d' hwrites => ?_⟩
  have hbegin : s.beginUpdate location secret = .error e := by rw [beginUpdate, he, error_bind]
  cases hwrites with
  | refused hrefused => exact ⟨⟨_, rfl⟩, rfl⟩
  | ended hok _ => cases hbegin.symm.trans hok

/-! ## Locations of dots -/

/-- The place of the temporary file beside the root, if the root has this name. -/
def besideRoot (s : Store) (d : Disk) (n : String) : Place :=
  (d.placeOf s.root).dropLast ++ [Path.temporaryName n]

/-- A location of dots names no place. -/
theorem not_names_of_dots (hrelative : Path.isAbsolute location = false) (hlocation : location ≠ "")
    (hdots : Path.names location = []) (hpath : s.resolve location = .ok path) (d : Disk) (q : Place) :
    ¬ d.Names path q := by
  obtain ⟨-, -, rfl⟩ := resolve_eq_ok_iff.mp hpath
  rintro ⟨seat, name, hseat, hname, -⟩
  obtain ⟨hlast, hisDots⟩ := Disk.Seat.name?_eq_some hname
  have hdot := Path.lastName?_join_dots s.root hrelative hlocation hdots
  cases (hlast.symm.trans ((Disk.seat_eq_ok hseat).2.trans hdot))
  cases hisDots

/-- The temporary file for a location of dots is beside the root. -/
theorem placeOf_temporary_of_dots (hname : Path.fileName? s.root = some n)
    (hrelative : Path.isAbsolute location = false) (hdots : Path.names location = [])
    (hbegin : s.beginUpdate location secret = .ok u) {temporary : String}
    (htemp : u.temporary? = some temporary) (d : Disk) : d.placeOf temporary = s.besideRoot d n := by
  obtain ⟨path, parent, hpath, hparent, rfl⟩ := beginUpdate_eq_ok hbegin
  obtain ⟨-, -, rfl⟩ := resolve_eq_ok_iff.mp hpath
  obtain ⟨last, hlast, rfl⟩ := Option.map_eq_some_iff.mp htemp
  obtain ⟨hpathNames, habsolute⟩ := Path.names_of_parent hparent hlast
  obtain ⟨htempNames, habsolute'⟩ := Path.names_temporary parent hlast
  have hroot : Path.names s.root = Path.names parent ++ [last] := by
    rw [← hpathNames, Path.names_join s.root hrelative, hdots, List.append_nil]
  -- The dots leave the root's own name for that of the file.
  have hn : last = n := by
    have hgetLast := Path.getLast?_names hname
    rw [hroot, List.getLast?_concat] at hgetLast
    exact Option.some.inj hgetLast
  obtain ⟨-, -, -, hup⟩ := Path.fileName?_eq_some hname
  have hstart : d.start (Path.join parent (Path.temporaryName last)) = d.start s.root := by
    rw [Disk.start, Disk.start, habsolute', habsolute, (Path.steps_join_of_relative s.root hrelative).2]
  rw [hn] at hroot htempNames hstart ⊢
  rw [besideRoot, Disk.placeOf_of_concat hroot hup, List.dropLast_concat,
    Disk.placeOf_of_concat htempNames (Path.temporaryName_ne_dots n), hstart]

/-- What a location of dots comes to: nothing is read or written, and the temporary file is made and
    taken away beside the root. -/
theorem reaches_beside_of_dots (hd : d.Sound) (hname : Path.fileName? s.root = some n)
    (hrelative : Path.isAbsolute location = false) (hlocation : location ≠ "")
    (hdots : Path.names location = []) :
    (∀ secret, s.read location d ≠ .ok secret) ∧
    (∀ secret outcome d', s.Writes location secret d outcome d' → ∃ e, outcome = .error e) ∧
    ∀ secret d' q, s.Passes location secret d d' → q ≠ s.besideRoot d n → d.Spared d' q := by
  have hnone : ∀ path, s.resolve location = .ok path → ∀ (d : Disk) (q : Place), ¬ d.Names path q :=
    fun path hpath => not_names_of_dots hrelative hlocation hdots hpath
  refine ⟨fun secret hread => ?_, fun secret outcome d' hwrites => ?_, fun secret d' q hpasses hq => ?_⟩
  · obtain ⟨path, q, b, hpath, hnames, -⟩ := (read_eq_ok_iff hd).mp hread
    exact hnone path hpath d q hnames
  · rcases outcome with e | ⟨⟩
    · exact ⟨e, rfl⟩
    · cases hwrites with
      | ended hbegin hend =>
        cases ends_run hd hbegin hend with
        | stored hpath hnames => exact absurd hnames (hnone _ hpath _ _)
  · refine hpasses.spared hd fun u hbegin => ?_
    have hplace : ∀ temporary, u.temporary? = some temporary → d.placeOf temporary = s.besideRoot d n :=
      fun temporary htemp => placeOf_temporary_of_dots hname hrelative hdots hbegin htemp d
    obtain ⟨path, parent, hpath, -, rfl⟩ := beginUpdate_eq_ok hbegin
    refine ⟨fun d'' _ => hnone path hpath d'' q, fun temporary htemp d'' hkeeps hnames => hq ?_⟩
    rw [← hplace temporary htemp, ← Disk.placeOf_of_keeps hkeeps]
    exact hnames.placeOf_eq.symm

/-- **Relative locations stay below the root,** unless they are made of dots alone.  With a name in it, a
    location is confined: what is read comes from below the root, and a write spares every place that is
    not beneath it, at every step and whatever the device does.  A location that is empty or leads
    upwards is refused, and nothing is touched.  Dots alone name the root itself; nothing is read or
    written there, but a write makes a temporary file beside the root. -/
theorem relative_locations_stay_below_the_root (s : Store) (hd : d.Sound)
    (hname : Path.fileName? s.root = some n) (hrelative : Path.isAbsolute location = false) :
    (Path.names location ≠ [] → s.Confined location d) ∧
    (location = "" ∨ Path.leadsUp location = true → (∃ e, s.read location d = .error e) ∧
      ∀ secret outcome d', s.Writes location secret d outcome d' → (∃ e, outcome = .error e) ∧ d' = d) ∧
    (location ≠ "" → Path.names location = [] → (∀ secret, s.read location d ≠ .ok secret) ∧
      (∀ secret outcome d', s.Writes location secret d outcome d' → ∃ e, outcome = .error e) ∧
      ∀ secret d' q, s.Passes location secret d d' → q ≠ s.besideRoot d n → d.Spared d' q) :=
  ⟨confined_of_names hd hrelative, refused_of_leadsUp,
    reaches_beside_of_dots hd hname hrelative⟩

/-- The location `k` is confined to the root `/s`, `..` is refused, and `.` gives no secret. -/
theorem relative_locations_stay_below_the_root_of_three :
    (Store.mk "/s").read "k" (storing "k") = .ok one ∧
      (∃ path, (Store.mk "/s").resolve "k" = .ok path ∧ Path.Below "/s" path) ∧
      Path.Below "/s" "/s/k" ∧ Path.Below "/s" "/s/.k.tmp" ∧
      (∃ e, (Store.mk "/s").read ".." (storing "k") = .error e) ∧
      ∀ secret, (Store.mk "/s").read "." (storing "k") ≠ .ok secret := by
  have hname : Path.fileName? (Store.mk "/s").root = some "s" := by rfl
  have hread : (Store.mk "/s").read "k" (storing "k") = .ok one := by rfl
  have hbegin : (Store.mk "/s").beginUpdate "k" two = .ok replacing := by rfl
  have hk : Path.isAbsolute "k" = false := by rfl
  have hup : Path.isAbsolute ".." = false := by rfl
  have hdot : Path.isAbsolute "." = false := by rfl
  have hconfined := (relative_locations_stay_below_the_root ⟨"/s"⟩ (storing_sound "k") hname hk).1
    (by decide)
  have hrefused := (relative_locations_stay_below_the_root ⟨"/s"⟩ (storing_sound "k") hname hup).2.1
    (.inr (by rfl))
  have hdots := (relative_locations_stay_below_the_root ⟨"/s"⟩ (storing_sound "k") hname hdot).2.2
    (by decide) (by decide)
  obtain ⟨hpath, htemporary⟩ := hconfined.paths two replacing hbegin
  obtain ⟨path, -, -, hresolve, hbelow, -⟩ := hconfined.read one hread
  exact ⟨hread, ⟨path, hresolve, hbelow⟩, hpath, htemporary _ (by rfl), hrefused.1, hdots.1⟩

/-- A disk with the directory `/s`, and a file beside it that is not the store's. -/
def neighbour : Disk :=
  (Update.run ⟨".s.tmp", one, "/.s.tmp", "/", .prepare⟩ (blank.makeDirectory "/s" 0o700).2
    (List.replicate 8 none)).2

/-- A write to `.` in the store `/s`. -/
def dotted : Update := ⟨".", two, "/s/.", "/", .prepare⟩

/-- **A write to `.` takes a file beside the root away,** and fails. -/
theorem dots_reach_beside_the_root :
    Path.fileName? "/s" = some "s" ∧ Path.isAbsolute "." = false ∧
      neighbour.Holds [".s.tmp"] one.line ∧ ¬ Beneath (neighbour.placeOf "/s") [".s.tmp"] ∧
      (∃ e, ((Store.mk "/s").write "." two neighbour).1 = .error e) ∧
      ((Store.mk "/s").write "." two neighbour).2.entryAt? [".s.tmp"] = none := by
  have hwrite : (Store.mk "/s").write "." two neighbour = dotted.finish neighbour := by rfl
  have hdone : (dotted.run neighbour (List.replicate 8 none)).1.stage =
      .done (.error (dotted.incomplete s!"rename: {IoError.busy.message}")) := by rfl
  have hgone : (dotted.run neighbour (List.replicate 8 none)).2.entryAt? [".s.tmp"] = none := by rfl
  have hplace : neighbour.placeOf "/s" = ["s"] := by rfl
  refine ⟨by rfl, by rfl, ⟨0, by rfl, by rfl⟩, ?_, ?_⟩
  · rintro ⟨more, -, hmore⟩
    rw [hplace] at hmore
    exact absurd (List.cons.inj hmore).1 (by decide)
  · rw [hwrite, Update.finish_of_done (Nat.le_refl 8) hdone]
    exact ⟨⟨_, rfl⟩, hgone⟩

end Store

end Keyring

end Coffer
