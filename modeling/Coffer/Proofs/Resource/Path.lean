import Coffer.Resource.Path
import Coffer.Proofs.Outcome
import Coffer.Proofs.Text.Blank
import Coffer.Proofs.Text.Percent
import Coffer.Proofs.Text.Split
/-
  What it takes to read a resource path.

  * `read_eq_ok_iff` — reading is cutting the text into a scheme, a locator and a query, then
    reading the locator and setting the parameters of the query one after the other.
  * `readParams_induct` — what holds of the path in front of its query and is kept by setting a
    parameter with a name holds of the whole path.
  * `WellFormed` — what every path that is read is like (`wellFormed_of_parse`): its scheme is one,
    in lower case; its parameters have names, all of them different; and it has a host and a path
    that starts with a slash or is empty, or no host and a path that is not empty.
-/
namespace Coffer.Resource.ResourcePath

open Text (splitOnce splitOn)

variable {r q : ResourcePath} {name value : String} {params : List (String × String)}

/-! ## Setting parameters -/

/-- A new name is set at the end. -/
theorem setParam_of_not_mem (h : name ∉ params.map (·.1)) :
    setParam name value params = params ++ [(name, value)] := by
  induction params with
  | nil => rfl
  | cons p rest ih =>
    rw [List.map_cons, List.mem_cons, not_or] at h
    rw [setParam, if_neg (Ne.symm h.1), ih h.2, List.cons_append]

/-- A name that is there is set in its place. -/
theorem names_setParam_of_mem (h : name ∈ params.map (·.1)) :
    (setParam name value params).map (·.1) = params.map (·.1) := by
  induction params with
  | nil => cases h
  | cons p rest ih =>
    rw [setParam]
    split
    · rename_i hp
      rw [List.map_cons, List.map_cons, hp]
    · rename_i hp
      rw [List.map_cons, List.mem_cons] at h
      rw [List.map_cons, List.map_cons, ih (h.resolve_left (Ne.symm hp))]

/-- The names are those that were there and the one that is set. -/
theorem mem_names_setParam {n : String} :
    n ∈ (setParam name value params).map (·.1) ↔ n ∈ params.map (·.1) ∨ n = name := by
  by_cases h : name ∈ params.map (·.1)
  · rw [names_setParam_of_mem h]
    exact ⟨.inl, fun hn => hn.elim id fun heq => heq ▸ h⟩
  · rw [setParam_of_not_mem h, List.map_append, List.mem_append, List.map_singleton,
      List.mem_singleton]

/-- **Names stay distinct.** -/
theorem nodup_setParam (h : (params.map (·.1)).Nodup) :
    ((setParam name value params).map (·.1)).Nodup := by
  by_cases hmem : name ∈ params.map (·.1)
  · rwa [names_setParam_of_mem hmem]
  · rw [setParam_of_not_mem hmem, List.map_append, List.nodup_append]
    refine ⟨h, List.pairwise_singleton _ _, ?_⟩
    intro n hn m hm heq
    obtain rfl : m = name := List.mem_singleton.mp hm
    exact hmem (heq ▸ hn)

/-! ## Schemes -/

/-- What a scheme is made of. -/
theorem isScheme_iff {cs : List Char} :
    isScheme cs = true ↔ 2 ≤ cs.length ∧ (∀ c, cs.head? = some c → Text.isLetter c = true) ∧
      ∀ c ∈ cs.tail, isSchemeChar c = true := by
  match cs with
  | [] => simp [isScheme]
  | [c] => simp [isScheme]
  | first :: second :: rest =>
    simp only [isScheme, Bool.and_eq_true, List.all_eq_true, List.length_cons, List.head?_cons,
      Option.some.injEq, List.tail_cons, forall_eq']
    exact ⟨fun h => ⟨by omega, h⟩, fun h => h.2⟩

theorem isSchemeChar_toLower {c : Char} (h : isSchemeChar c = true) :
    isSchemeChar c.toLower = true := by
  by_cases hup : c.isUpper = true
  · have hletter : Text.isLetter c.toLower = true := by
      rw [Text.isLetter_toLower, Text.isLetter_eq, hup, Bool.true_or]
    rw [isSchemeChar, hletter, Bool.true_or, Bool.true_or, Bool.true_or, Bool.true_or]
  · rwa [Text.toLower_of_not_isUpper hup]

/-- A scheme is one in lower case too. -/
theorem isScheme_lower {cs : List Char} (h : isScheme cs = true) :
    isScheme (cs.map Char.toLower) = true := by
  obtain ⟨hlen, hhead, htail⟩ := isScheme_iff.mp h
  refine isScheme_iff.mpr ⟨by rwa [List.length_map], ?_, ?_⟩
  · intro c hc
    rw [List.head?_map, Option.map_eq_some_iff] at hc
    obtain ⟨first, hfirst, rfl⟩ := hc
    rw [Text.isLetter_toLower]
    exact hhead first hfirst
  · intro c hc
    rw [← List.map_tail] at hc
    obtain ⟨x, hx, rfl⟩ := List.mem_map.mp hc
    exact isSchemeChar_toLower (htail x hx)

/-- Every scheme that is read is a scheme in lower case, that of a text without one too. -/
theorem splitScheme_spec (cs : List Char) :
    isScheme (splitScheme cs).1.toList = true ∧
      Text.lower (splitScheme cs).1 = (splitScheme cs).1 := by
  have hfile : isScheme "file".toList = true ∧ Text.lower "file" = "file" := by decide
  rw [splitScheme]
  split
  · split
    · rename_i scheme rest _ hscheme
      refine ⟨?_, Text.lower_lower _⟩
      rw [Text.lower, String.toList_ofList, String.toList_ofList]
      exact isScheme_lower hscheme
    · exact hfile
  · exact hfile

/-! ## The steps of reading -/

/-- The locator and the query of what follows a scheme. -/
def cutQuery (rest : List Char) : List Char × List Char := (splitOnce '?' rest).getD (rest, [])

/-- The host and the path of a locator. -/
def locate (locator : List Char) : Except Fault (Option String × String) := do
  let host ← match (splitHost locator).1 with
    | some h => some <$> unescape h
    | none => pure none
  let path ← unescape (splitHost locator).2
  return (host, path)

/-- What follows the scheme is cut, located and read. -/
theorem read_of_ne_nil {raw : List Char} (h : raw ≠ []) : read raw = (do
    let place ← locate (cutQuery (splitScheme raw).2).1
    if place.2.isEmpty && place.1.isNone then throw .noPath
    readParams ⟨(splitScheme raw).1, place.1, place.2, []⟩ (cutQuery (splitScheme raw).2).2) := by
  have hraw : raw.isEmpty = false := List.isEmpty_eq_false_iff.mpr h
  rw [read, hraw, if_neg Bool.false_ne_true]
  simp only [← cutQuery.eq_def]
  rcases splitScheme raw with ⟨scheme, rest⟩
  rcases cutQuery rest with ⟨locator, query⟩
  simp only [locate]
  rcases splitHost locator with ⟨_ | host, path⟩
  · rcases unescape path with _ | path <;> rfl
  · dsimp only
    rcases unescape host with _ | host
    · rfl
    · rcases unescape path with _ | path <;> rfl

/-- **A text is read when its locator is, leads somewhere, and its query is read behind it.** -/
theorem read_eq_ok_iff {raw : List Char} :
    read raw = .ok r ↔ raw ≠ [] ∧ ∃ host path,
      locate (cutQuery (splitScheme raw).2).1 = .ok (host, path) ∧
      ¬(path = "" ∧ host = none) ∧
      readParams ⟨(splitScheme raw).1, host, path, []⟩ (cutQuery (splitScheme raw).2).2 = .ok r := by
  by_cases hempty : raw = []
  · subst hempty
    exact ⟨fun h => (by cases h), fun h => absurd rfl h.1⟩
  · rw [read_of_ne_nil hempty, bind_eq_ok_iff]
    constructor
    · rintro ⟨⟨host, path⟩, hplace, h⟩
      refine ⟨hempty, host, path, hplace, ?_⟩
      split at h
      · cases h
      · rename_i hleads
        rw [Bool.and_eq_true, String.isEmpty_iff, Option.isNone_iff_eq_none] at hleads
        exact ⟨hleads, h⟩
    · rintro ⟨-, host, path, hplace, hleads, h⟩
      refine ⟨(host, path), hplace, ?_⟩
      rw [if_neg (by rwa [Bool.and_eq_true, String.isEmpty_iff, Option.isNone_iff_eq_none])]
      exact h

theorem parse_eq_ok_iff {input : String} :
    parse input = .ok r ↔ read (Text.trim input).toList = .ok r := by
  rw [parse]
  rcases h : read (Text.trim input).toList with _ | out
  · exact ⟨fun h => (by cases h), fun h => (by cases h)⟩
  · exact ⟨fun h => (by cases h; rfl), fun h => (by cases h; rfl)⟩

theorem unescape_eq_ok_iff {cs : List Char} {s : String} :
    unescape cs = .ok s ↔ Text.Percent.decode (String.ofList cs) = .ok s := by
  rw [unescape]
  rcases h : Text.Percent.decode (String.ofList cs) with _ | out
  · exact ⟨fun h => (by cases h), fun h => (by cases h)⟩
  · exact ⟨fun h => (by cases h; rfl), fun h => (by cases h; rfl)⟩

theorem locate_eq_ok_none_iff {locator : List Char} {path : String} :
    locate locator = .ok (none, path) ↔
      (splitHost locator).1 = none ∧ unescape (splitHost locator).2 = .ok path := by
  rw [locate]
  rcases splitHost locator with ⟨_ | h, p⟩ <;> dsimp only
  · rcases unescape p with _ | out
    · exact ⟨fun h => (by cases h), fun h => (by cases h.2)⟩
    · exact ⟨fun h => (by cases h; exact ⟨rfl, rfl⟩), fun h => (by cases h.2; rfl)⟩
  · rcases unescape h with _ | host
    · exact ⟨fun h => (by cases h), fun h => (by cases h.1)⟩
    · rcases unescape p with _ | out <;> exact ⟨fun h => (by cases h), fun h => (by cases h.1)⟩

theorem locate_eq_ok_some_iff {locator : List Char} {host path : String} :
    locate locator = .ok (some host, path) ↔
      ∃ h, (splitHost locator).1 = some h ∧ unescape h = .ok host ∧
        unescape (splitHost locator).2 = .ok path := by
  rw [locate]
  rcases splitHost locator with ⟨_ | h, p⟩ <;> dsimp only
  · constructor
    · rcases unescape p with _ | out <;> exact fun h => (by cases h)
    · rintro ⟨h, hh, -⟩
      cases hh
  · constructor
    · rcases hhost : unescape h with _ | out
      · exact fun h => (by cases h)
      · rcases unescape p with _ | out
        · exact fun h => (by cases h)
        · intro heq
          cases heq
          exact ⟨h, rfl, hhost, rfl⟩
    · rintro ⟨x, hx, hhost, hpath⟩
      cases hx
      rw [hhost, hpath]
      rfl

/-! ## Reading a query -/

theorem readParam_spec {piece : List Char} {p : String × String} (h : readParam piece = .ok p) :
    p.1 ≠ "" := by
  rw [readParam, bind_eq_ok_iff] at h
  obtain ⟨name, -, h⟩ := h
  rw [bind_eq_ok_iff] at h
  obtain ⟨value, -, h⟩ := h
  split at h
  · cases h
  · rename_i hname
    cases h
    rwa [String.isEmpty_iff] at hname

/-- **What setting a parameter with a name keeps, reading a query keeps.** -/
theorem readParams_induct {motive : ResourcePath → Prop} {query : List Char} (hfirst : motive q)
    (hset : ∀ q name value, name ≠ "" → motive q → motive (q.withParam name value))
    (h : readParams q query = .ok r) : motive r := by
  rw [readParams] at h
  generalize (splitOn '&' query).filter (!·.isEmpty) = pieces at h
  induction pieces generalizing q with
  | nil =>
    cases h
    exact hfirst
  | cons piece rest ih =>
    rw [List.foldlM_cons, bind_eq_ok_iff] at h
    obtain ⟨next, hnext, h⟩ := h
    rw [bind_eq_ok_iff] at hnext
    obtain ⟨p, hp, hnext⟩ := hnext
    cases hnext
    exact ih (hset q p.1 p.2 (readParam_spec hp) hfirst) h

/-- Parameters are all that a query sets. -/
theorem location_of_readParams {query : List Char} (h : readParams q query = .ok r) :
    r.scheme = q.scheme ∧ r.host = q.host ∧ r.path = q.path := by
  refine readParams_induct
    (motive := fun r => r.scheme = q.scheme ∧ r.host = q.host ∧ r.path = q.path) ?_ ?_ h
  · exact ⟨rfl, rfl, rfl⟩
  · intro _ name value _ hkept
    exact hkept

/-! ## What every path that is read is like -/

/-- What every path that is read is like. -/
structure WellFormed (r : ResourcePath) : Prop where
  scheme : isScheme r.scheme.toList = true
  lower : Text.lower r.scheme = r.scheme
  distinct : (r.params.map (·.1)).Nodup
  named : "" ∉ r.params.map (·.1)
  located : (∃ h, r.host = some h ∧ h ≠ "" ∧ (r.path = "" ∨ ['/'] <+: r.path.toList)) ∨
    (r.host = none ∧ r.path ≠ "")

/-- A host is not empty, and it ends where a slash or nothing follows. -/
theorem splitHost_spec {locator host : List Char} (h : (splitHost locator).1 = some host) :
    host ≠ [] ∧ ((splitHost locator).2 = [] ∨ ∃ rest, (splitHost locator).2 = '/' :: rest) := by
  fun_cases splitHost locator with
  | case1 authority taken =>
    rw [splitHost] at h
    split at h
    · cases h
    · rename_i hne
      cases h
      refine ⟨fun hnil => hne (by rw [hnil]; rfl), ?_⟩
      have hstop := List.head?_dropWhile_not (· != '/') authority
      rcases hd : authority.dropWhile (· != '/') with _ | ⟨c, rest⟩
      · exact .inl rfl
      · rw [hd] at hstop
        have hc : c = '/' := by simpa using hstop
        exact .inr ⟨rest, by rw [hc]⟩
  | case2 _ hno =>
    rw [splitHost] at h
    · cases h
    · exact hno

/-- **The place that a locator leads to.** -/
theorem located_of_locate {locator : List Char} {host : Option String} {path : String}
    (h : locate locator = .ok (host, path)) (hleads : ¬(path = "" ∧ host = none)) :
    (∃ h, host = some h ∧ h ≠ "" ∧ (path = "" ∨ ['/'] <+: path.toList)) ∨
      (host = none ∧ path ≠ "") := by
  rcases host with _ | host
  · exact .inr ⟨rfl, fun hpath => hleads ⟨hpath, rfl⟩⟩
  · obtain ⟨cs, hcs, hhost, hpath⟩ := locate_eq_ok_some_iff.mp h
    obtain ⟨hne, hstop⟩ := splitHost_spec hcs
    refine .inl ⟨host, rfl, ?_, ?_⟩
    · refine Text.Percent.ne_empty_of_decode ?_ (unescape_eq_ok_iff.mp hhost)
      rwa [← String.ofList_nil, Ne, String.ofList_inj]
    · rw [unescape_eq_ok_iff] at hpath
      rcases hstop with hnil | ⟨rest, hslash⟩
      · rw [hnil] at hpath
        cases hpath
        exact .inl rfl
      · rw [hslash] at hpath
        obtain ⟨out, hout⟩ := Text.Percent.slash_of_decode hpath
        rw [hout]
        exact .inr ⟨out, rfl⟩

theorem wellFormed_of_read {raw : List Char} (h : read raw = .ok r) : r.WellFormed := by
  obtain ⟨-, host, path, hplace, hleads, hquery⟩ := read_eq_ok_iff.mp h
  obtain ⟨hscheme, hlower⟩ := splitScheme_spec raw
  refine readParams_induct ?_ ?_ hquery
  · exact ⟨hscheme, hlower, List.nodup_nil, List.not_mem_nil, located_of_locate hplace hleads⟩
  · intro q name value hname hq
    refine ⟨hq.scheme, hq.lower, nodup_setParam hq.distinct, ?_, hq.located⟩
    intro hmem
    rcases mem_names_setParam.mp hmem with hmem | heq
    · exact hq.named hmem
    · exact hname heq.symm

/-- **Every path that is read is well formed.** -/
theorem wellFormed_of_parse {input : String} (h : parse input = .ok r) : r.WellFormed :=
  wellFormed_of_read (parse_eq_ok_iff.mp h)

end Coffer.Resource.ResourcePath
