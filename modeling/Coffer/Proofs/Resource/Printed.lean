import Coffer.Proofs.Resource.Path
import Mathlib.Data.List.Basic
/-
  Which resource paths are read back from their text.

  * A text is cut into the parts that it was written from: no part has a blank (`trim_text`), the
    scheme holds no colon (`splitScheme_text`) and the locator no question mark
    (`cutQuery_locator`).
  * The parameters come back, for their texts hold no `&` and their names no `=`
    (`readParams_query`).
  * The place comes back unless the host holds a slash, or there is no host and the path starts
    with two of them (`locate_locator_iff`): slashes are not escaped.

  So a well formed path is read back from its text exactly when it is `Unambiguous`
  (`parse_text_iff`).  Every path that is read is well formed, so this is all that can be wrong with
  its text (`read_paths_are_read_back_when_unambiguous`).  A path that is built need not be:
  `Spellable` says what it takes (`built_paths_are_read_back_when_spellable`).
-/
namespace Coffer.Resource.ResourcePath

open Text (splitOnce splitOn)
open Text.Percent (encode)

variable {r : ResourcePath}

/-! ## Building -/

/-- What can be set on a path. -/
inductive Setting
  | host (host : String)
  | param (name value : String)

/-- The path with a setting. -/
def set (r : ResourcePath) : Setting → ResourcePath
  | .host host => r.withHost host
  | .param name value => r.withParam name value

/-- The path that is new with a scheme and a path and then set, in this order. -/
def build (scheme path : String) (settings : List Setting) : ResourcePath :=
  settings.foldl set (new scheme path)

/-- A path that is built has its scheme in lower case, and its names are distinct. -/
theorem build_spec (scheme path : String) (settings : List Setting) :
    Text.lower (build scheme path settings).scheme = (build scheme path settings).scheme ∧
      ((build scheme path settings).params.map (·.1)).Nodup := by
  refine List.foldlRecOn (motive := fun r : ResourcePath =>
    Text.lower r.scheme = r.scheme ∧ (r.params.map (·.1)).Nodup) settings set ?_ ?_
  · exact ⟨Text.lower_lower scheme, List.nodup_nil⟩
  · rintro r ⟨hlower, hdistinct⟩ setting -
    cases setting with
    | host host => exact ⟨hlower, hdistinct⟩
    | param name value => exact ⟨hlower, nodup_setParam hdistinct⟩

/-! ## The characters of a text -/

/-- The host and the path as they are written. -/
def locator (r : ResourcePath) : List Char :=
  (match r.host with | some h => '/' :: '/' :: (encode h).toList | none => []) ++
    (encode r.path).toList

/-- The parameters as they are written. -/
def query (r : ResourcePath) : List Char :=
  ['&'].intercalate (r.params.map fun p => (paramText p).toList)

theorem locator_of_host {h : String} (hr : r.host = some h) :
    r.locator = '/' :: '/' :: ((encode h).toList ++ (encode r.path).toList) := by
  rw [locator, hr]
  rfl

theorem locator_of_no_host (hr : r.host = none) : r.locator = (encode r.path).toList := by
  rw [locator, hr]
  rfl

/-- A question mark stands between the place and the parameters when there are any. -/
theorem toList_text (r : ResourcePath) : r.text.toList =
    r.scheme.toList ++ ':' :: (r.locator ++ if r.params = [] then [] else '?' :: r.query) := by
  have hquery : ("&".intercalate (r.params.map paramText)).toList = r.query := by
    rw [String.toList_intercalate, List.map_map]
    rfl
  rw [text, locator]
  rcases r.host with _ | host <;> rcases hp : r.params with _ | ⟨p, rest⟩ <;> rw [hp] at hquery <;>
    simp only [String.toList_append, List.append_assoc, hquery, List.isEmpty_nil,
      List.isEmpty_cons, reduceCtorEq, if_true, if_false]
  all_goals rfl

theorem mem_locator {c : Char} (h : c ∈ r.locator) : c = '/' ∨ ∃ s, c ∈ (encode s).toList := by
  rw [locator, List.mem_append] at h
  rcases h with h | h
  · split at h
    · rename_i host _
      rw [List.mem_cons, List.mem_cons] at h
      rcases h with h | h | h
      · exact .inl h
      · exact .inl h
      · exact .inr ⟨host, h⟩
    · cases h
  · exact .inr ⟨_, h⟩

theorem mem_paramText {c : Char} {p : String × String} (h : c ∈ (paramText p).toList) :
    c = '=' ∨ ∃ s, c ∈ (encode s).toList := by
  rw [paramText, String.toList_append, List.mem_append] at h
  rcases h with h | h
  · exact .inr ⟨_, h⟩
  · split at h
    · cases h
    · rw [String.toList_append, List.mem_append] at h
      rcases h with h | h
      · exact .inl (List.mem_singleton.mp h)
      · exact .inr ⟨_, h⟩

/-! ## The query -/

theorem unescape_encode (s : String) : unescape (encode s).toList = .ok s := by
  rw [unescape_eq_ok_iff, String.ofList_toList]
  exact Text.Percent.decode_encode s

/-- The text of a parameter is cut at its own equals sign; without one the value is empty. -/
theorem cut_paramText (name value : String) :
    (splitOnce '=' (paramText (name, value)).toList).getD ((paramText (name, value)).toList, []) =
      ((encode name).toList, (encode value).toList) := by
  have hequals : '=' ∉ (encode name).toList :=
    Text.Percent.reserved_not_mem_encode (b := 0x3D) name rfl (by decide) rfl
  rw [paramText, String.toList_append]
  dsimp only
  split
  · -- A parameter without a value is written as its name alone.
    rename_i hempty
    rw [String.isEmpty_iff.mp hempty, String.toList_empty, List.append_nil,
      Text.splitOnce_of_not_mem hequals]
    rfl
  · rw [String.toList_append]
    have hput : "=".toList ++ (encode value).toList = '=' :: (encode value).toList := rfl
    rw [hput, Text.splitOnce_append_cons hequals]
    rfl

/-- **A parameter with a name is read back from its text.** -/
theorem readParam_paramText {p : String × String} (h : p.1 ≠ "") :
    readParam (paramText p).toList = .ok p := by
  obtain ⟨name, value⟩ := p
  have hnamed : name.isEmpty = false := String.isEmpty_eq_false_iff.mpr h
  rw [readParam, cut_paramText]
  dsimp only
  rw [unescape_encode, unescape_encode, ok_bind, ok_bind, hnamed]
  rfl

theorem ampersand_not_mem_paramText (p : String × String) : '&' ∉ (paramText p).toList := by
  intro h
  rcases mem_paramText h with h | ⟨s, h⟩
  · cases h
  · exact Text.Percent.reserved_not_mem_encode (b := 0x26) s rfl (by decide) rfl h

theorem paramText_ne_empty {p : String × String} (h : p.1 ≠ "") : (paramText p).toList ≠ [] := by
  intro hnil
  have hread := readParam_paramText h
  rw [hnil] at hread
  cases hread

/-- The pieces of the query are the texts of the parameters. -/
theorem pieces_query (h : "" ∉ r.params.map (·.1)) :
    (splitOn '&' r.query).filter (!·.isEmpty) = r.params.map fun p => (paramText p).toList := by
  rw [query]
  rcases hp : r.params with _ | ⟨p, rest⟩
  · rfl
  · rw [← hp, Text.splitOn_intercalate]
    · rw [List.filter_eq_self]
      intro piece hpiece
      obtain ⟨p, hmem, rfl⟩ := List.mem_map.mp hpiece
      have hname : p.1 ≠ "" := fun hempty => h (List.mem_map.mpr ⟨p, hmem, hempty⟩)
      rw [Bool.not_eq_true', List.isEmpty_eq_false_iff]
      exact paramText_ne_empty hname
    · rw [hp]
      exact List.cons_ne_nil _ _
    · intro piece hpiece
      obtain ⟨p, -, rfl⟩ := List.mem_map.mp hpiece
      exact ampersand_not_mem_paramText p

/-- Reading the texts of new parameters puts them behind those that are there. -/
theorem foldlM_texts {params : List (String × String)} {q : ResourcePath}
    (hdistinct : ((q.params ++ params).map (·.1)).Nodup) (hnamed : "" ∉ params.map (·.1)) :
    (params.map fun p => (paramText p).toList).foldlM
      (fun r piece => do
        let (name, value) ← readParam piece
        return r.withParam name value) q = .ok { q with params := q.params ++ params } := by
  -- By induction on the parameters that are still to come, over the path with those before.
  induction params generalizing q with
  | nil =>
    rw [List.append_nil]
    rfl
  | cons p rest ih =>
    rw [List.map_cons, List.mem_cons, not_or] at hnamed
    have hread := readParam_paramText (Ne.symm hnamed.1)
    have hnew : p.1 ∉ q.params.map (·.1) := by
      intro hmem
      rw [List.map_append, List.nodup_append] at hdistinct
      exact hdistinct.2.2 _ hmem _ List.mem_cons_self rfl
    have hparams : (q.withParam p.1 p.2).params = q.params ++ [p] := setParam_of_not_mem hnew
    have hrest := ih (q := q.withParam p.1 p.2)
      (by rwa [hparams, List.append_assoc, List.singleton_append]) hnamed.2
    rw [hparams, List.append_assoc, List.singleton_append] at hrest
    rw [List.map_cons, List.foldlM_cons, hread]
    exact hrest

/-- **The parameters are read back from the query.** -/
theorem readParams_query (hdistinct : (r.params.map (·.1)).Nodup)
    (hnamed : "" ∉ r.params.map (·.1)) :
    readParams ⟨r.scheme, r.host, r.path, []⟩ r.query = .ok r := by
  rw [readParams, pieces_query hnamed]
  exact foldlM_texts hdistinct hnamed

/-! ## The place -/

/-- A host without a slash ends where the path starts. -/
theorem splitHost_slashes {a b : List Char} (ha : '/' ∉ a) (hb : b = [] ∨ ∃ rest, b = '/' :: rest) :
    splitHost ('/' :: '/' :: (a ++ b)) = (if a.isEmpty then none else some a, b) := by
  have hall : ∀ c ∈ a, (c != '/') = true := by
    intro c hc
    rw [bne_iff_ne]
    rintro rfl
    exact ha hc
  have hstop : b.takeWhile (· != '/') = [] ∧ b.dropWhile (· != '/') = b := by
    rcases hb with rfl | ⟨rest, rfl⟩ <;> exact ⟨rfl, rfl⟩
  rw [splitHost, List.takeWhile_append_of_pos hall, List.dropWhile_append_of_pos hall, hstop.1,
    hstop.2, List.append_nil]

/-- A host with a slash is read up to the slash only. -/
theorem locate_ne_of_slash {h path : String} (hr : r.host = some h) (hslash : '/' ∈ h.toList) :
    locate r.locator ≠ .ok (some h, path) := by
  intro hread
  obtain ⟨cs, hcs, hhost, -⟩ := locate_eq_ok_some_iff.mp hread
  obtain ⟨a, b, hsplit, ha⟩ := List.eq_append_cons_of_mem hslash
  -- The host is cut at its first slash, and what is in front of that is not the host.
  have hencoded := Text.Percent.toList_encode_of_slash hsplit
  have hfront : '/' ∉ (encode (String.ofList a)).toList := by
    intro hmem
    have hmem := Text.Percent.slash_mem_of_mem_encode hmem
    rw [String.toList_ofList] at hmem
    exact ha hmem
  rw [locator_of_host hr, hencoded, List.append_assoc, List.cons_append,
    splitHost_slashes hfront (.inr ⟨_, rfl⟩)] at hcs
  dsimp only at hcs
  split at hcs
  · cases hcs
  · cases hcs
    rw [unescape_encode] at hhost
    have hsame : String.ofList a = h := Except.ok.inj hhost
    rw [← hsame, String.toList_ofList] at hslash
    exact ha hslash

/-- **A host without a slash is read back with the path that follows.** -/
theorem locate_of_host {h : String} (hr : r.host = some h) (hne : h ≠ "") (hslash : '/' ∉ h.toList)
    (hpath : r.path = "" ∨ ['/'] <+: r.path.toList) : locate r.locator = .ok (some h, r.path) := by
  have hfront : '/' ∉ (encode h).toList := fun hmem =>
    hslash (Text.Percent.slash_mem_of_mem_encode hmem)
  have hback : (encode r.path).toList = [] ∨ ∃ rest, (encode r.path).toList = '/' :: rest := by
    rcases hpath with hempty | ⟨rest, hrest⟩
    · rw [hempty]
      exact .inl rfl
    · exact .inr ⟨_, Text.Percent.toList_encode_of_slash (a := []) hrest.symm⟩
  have hkept : (encode h).toList.isEmpty = false := by
    rw [List.isEmpty_eq_false_iff]
    intro hnil
    have hread := unescape_encode h
    rw [hnil] at hread
    exact hne (Except.ok.inj hread).symm
  refine locate_eq_ok_some_iff.mpr ⟨(encode h).toList, ?_, unescape_encode h, ?_⟩
  · rw [locator_of_host hr, splitHost_slashes hfront hback, hkept]
    rfl
  · rw [locator_of_host hr, splitHost_slashes hfront hback]
    exact unescape_encode r.path

/-- Two slashes in front of a path without a host are read as the start of one. -/
theorem locate_ne_of_slashes (hr : r.host = none) (hpath : ['/', '/'] <+: r.path.toList) :
    locate r.locator ≠ .ok (none, r.path) := by
  intro hread
  obtain ⟨hnone, hrest⟩ := locate_eq_ok_none_iff.mp hread
  obtain ⟨rest, hpath⟩ := hpath
  have hencoded : (encode r.path).toList = '/' :: '/' :: (encode (String.ofList rest)).toList :=
    Text.Percent.toList_encode_of_slash (a := ['/']) hpath.symm
  rw [locator_of_no_host hr, hencoded, splitHost] at hnone hrest
  dsimp only at hnone hrest
  split at hnone
  · rename_i hempty
    -- No host is read either, but the two slashes are gone.
    have hall := List.takeWhile_append_dropWhile (p := (· != '/'))
      (l := (encode (String.ofList rest)).toList)
    rw [List.isEmpty_iff.mp hempty, List.nil_append] at hall
    rw [hall, unescape_encode] at hrest
    have hsame : String.ofList rest = r.path := Except.ok.inj hrest
    rw [← hsame, String.toList_ofList] at hpath
    have hlength := congrArg List.length hpath
    simp only [List.length_append, List.length_cons, List.length_nil] at hlength
    omega
  · cases hnone

/-- **A path without a host is read back unless two slashes are in front.** -/
theorem locate_of_no_host (hr : r.host = none) (hpath : ¬['/', '/'] <+: r.path.toList) :
    locate r.locator = .ok (none, r.path) := by
  rw [locator_of_no_host hr, locate_eq_ok_none_iff]
  have hwhole : splitHost (encode r.path).toList = (none, (encode r.path).toList) := by
    rw [splitHost]
    intro authority h
    obtain ⟨later, hlater, hcs⟩ := Text.Percent.exists_of_toList_encode h
    obtain ⟨rest, hrest, -⟩ := Text.Percent.exists_of_toList_encode hcs.symm
    rw [String.toList_ofList] at hrest
    exact hpath ⟨rest, by rw [hlater, hrest]; rfl⟩
  rw [hwhole]
  exact ⟨rfl, unescape_encode r.path⟩

/-- No slash of the path is taken for another when it is written. -/
structure Unambiguous (r : ResourcePath) : Prop where
  host : ∀ h, r.host = some h → '/' ∉ h.toList
  path : r.host = none → ¬['/', '/'] <+: r.path.toList

/-- **The place of a well formed path is read back exactly when it is unambiguous.** -/
theorem locate_locator_iff (hr : r.WellFormed) :
    locate r.locator = .ok (r.host, r.path) ↔ r.Unambiguous := by
  rcases hr.located with ⟨host, hhost, hne, hpath⟩ | ⟨hhost, -⟩
  · rw [hhost]
    constructor
    · intro h
      refine ⟨?_, ?_⟩
      · intro other hother hslash
        rw [hhost] at hother
        cases hother
        exact locate_ne_of_slash hhost hslash h
      · intro hnone
        rw [hhost] at hnone
        cases hnone
    · intro hslash
      exact locate_of_host hhost hne (hslash.host host hhost) hpath
  · rw [hhost]
    constructor
    · intro h
      refine ⟨?_, fun _ hslash => locate_ne_of_slashes hhost hslash h⟩
      intro other hother
      rw [hhost] at hother
      cases hother
    · intro hslash
      exact locate_of_no_host hhost (hslash.path hhost)

/-! ## The whole text -/

/-- A character of a scheme is no blank and no colon. -/
theorem isSchemeChar_spec {c : Char} (h : isSchemeChar c = true) :
    Text.isBlank c = false ∧ c ≠ ':' := by
  have hrange : 43 ≤ c.toNat ∧ c.toNat ≤ 122 ∧ c.toNat ≠ 58 := by
    simp only [isSchemeChar, Text.isLetter_eq, Text.isDigit, Bool.or_eq_true, beq_iff_eq,
      Text.isUpper_iff, Text.isLower_iff, Text.isDigit_iff] at h
    rcases h with ((((h | h) | h) | rfl) | rfl) | rfl
    · omega
    · omega
    · omega
    · decide
    · decide
    · decide
  constructor
  · simp only [Text.isBlank, Bool.or_eq_false_iff, Bool.and_eq_false_iff, decide_eq_false_iff_not,
      beq_eq_false_iff_ne]
    omega
  · rintro rfl
    exact hrange.2.2 rfl

/-- Every character of a scheme may stand behind the first. -/
theorem isSchemeChar_of_mem {cs : List Char} (h : isScheme cs = true) :
    ∀ c ∈ cs, isSchemeChar c = true := by
  obtain ⟨-, hhead, htail⟩ := isScheme_iff.mp h
  intro c hc
  cases cs with
  | nil => cases hc
  | cons first rest =>
    rcases List.mem_cons.mp hc with rfl | hc
    · rw [isSchemeChar, hhead c rfl]
      rfl
    · exact htail c hc

/-- The parts of a text have no blanks, nor do the signs between them. -/
theorem trim_text (h : isScheme r.scheme.toList = true) : Text.trim r.text = r.text := by
  apply Text.trim_of_forall
  intro c hc
  rw [toList_text, List.mem_append, List.mem_cons, List.mem_append] at hc
  rcases hc with hc | rfl | hc | hc
  · exact (isSchemeChar_spec (isSchemeChar_of_mem h c hc)).1
  · rfl
  · rcases mem_locator hc with rfl | ⟨s, hc⟩
    · rfl
    · exact Text.Percent.isBlank_of_mem_encode hc
  · split at hc
    · cases hc
    · rcases List.mem_cons.mp hc with rfl | hc
      · rfl
      · rcases Text.mem_intercalate hc with rfl | ⟨piece, hpiece, hc⟩
        · rfl
        · obtain ⟨p, -, rfl⟩ := List.mem_map.mp hpiece
          rcases mem_paramText hc with rfl | ⟨s, hc⟩
          · rfl
          · exact Text.Percent.isBlank_of_mem_encode hc

/-- A scheme in lower case is cut off as it is. -/
theorem splitScheme_text (hscheme : isScheme r.scheme.toList = true)
    (hlower : Text.lower r.scheme = r.scheme) : splitScheme r.text.toList =
      (r.scheme, r.locator ++ if r.params = [] then [] else '?' :: r.query) := by
  have hcolon : ':' ∉ r.scheme.toList := fun hmem =>
    (isSchemeChar_spec (isSchemeChar_of_mem hscheme _ hmem)).2 rfl
  rw [splitScheme, toList_text, Text.splitOnce_append_cons hcolon]
  dsimp only
  rw [if_pos hscheme, String.ofList_toList, hlower]

/-- The locator ends at the question mark. -/
theorem cutQuery_locator (r : ResourcePath) :
    cutQuery (r.locator ++ if r.params = [] then [] else '?' :: r.query) = (r.locator, r.query) := by
  have hmark : '?' ∉ r.locator := by
    intro hmem
    rcases mem_locator hmem with h | ⟨s, h⟩
    · cases h
    · exact Text.Percent.reserved_not_mem_encode (b := 0x3F) s rfl (by decide) rfl h
  rw [cutQuery]
  split
  · rename_i hparams
    rw [List.append_nil, Text.splitOnce_of_not_mem hmark, query, hparams]
    rfl
  · rw [Text.splitOnce_append_cons hmark]
    rfl

/-- **A well formed path is read back from its text exactly when it is unambiguous.** -/
theorem parse_text_iff (hr : r.WellFormed) : parse r.text = .ok r ↔ r.Unambiguous := by
  have hcut : splitScheme r.text.toList = (r.scheme, _) := splitScheme_text hr.scheme hr.lower
  rw [← locate_locator_iff hr, parse_eq_ok_iff, trim_text hr.scheme, read_eq_ok_iff, hcut,
    cutQuery_locator]
  constructor
  · rintro ⟨-, host, path, hplace, -, hquery⟩
    obtain ⟨-, hhost, hpath⟩ := location_of_readParams hquery
    rw [hhost, hpath]
    exact hplace
  · intro hplace
    refine ⟨?_, r.host, r.path, hplace, ?_, readParams_query hr.distinct hr.named⟩
    · rw [toList_text]
      simp
    · rintro ⟨hpath, hhost⟩
      rcases hr.located with ⟨h, hsome, -⟩ | ⟨-, hne⟩
      · rw [hhost] at hsome
        cases hsome
      · exact hne hpath

/-! ## Paths that were read and paths that were built -/

/-- **A path that was read is read back from its text exactly when it is unambiguous.** -/
theorem read_paths_are_read_back_when_unambiguous {input : String} (h : parse input = .ok r) :
    parse r.text = .ok r ↔ (∀ host, r.host = some host → '/' ∉ host.toList) ∧
      (r.host = none → ¬['/', '/'] <+: r.path.toList) := by
  rw [parse_text_iff (wellFormed_of_parse h)]
  constructor
  · intro hr
    exact ⟨hr.host, hr.path⟩
  · rintro ⟨hhost, hpath⟩
    exact ⟨hhost, hpath⟩

/-- A slash that was escaped in a path, an empty piece of a query and a name that is set twice do no
    harm. -/
theorem read_paths_are_read_back_when_unambiguous_of_query :
    parse " HTTPS://h%C3%B4te/a%2Fb?&pwfile=a&pwfile=%26" =
        .ok ⟨"https", some "hôte", "/a/b", [("pwfile", "&")]⟩ ∧
      parse (text ⟨"https", some "hôte", "/a/b", [("pwfile", "&")]⟩) =
        .ok ⟨"https", some "hôte", "/a/b", [("pwfile", "&")]⟩ := by
  have hread : parse " HTTPS://h%C3%B4te/a%2Fb?&pwfile=a&pwfile=%26" =
      .ok ⟨"https", some "hôte", "/a/b", [("pwfile", "&")]⟩ := by rfl
  refine ⟨hread, (read_paths_are_read_back_when_unambiguous hread).mpr ⟨?_, ?_⟩⟩
  · rintro _ ⟨⟩
    decide
  · intro hnone
    cases hnone

/-- **A slash in a host is lost:** it is read as an escape and written as a slash. -/
theorem slash_in_a_host_is_lost :
    parse "vfile://a%2Fb/x" = .ok ⟨"vfile", some "a/b", "/x", []⟩ ∧
      text ⟨"vfile", some "a/b", "/x", []⟩ = "vfile://a/b/x" ∧
      parse "vfile://a/b/x" = .ok ⟨"vfile", some "a", "/b/x", []⟩ ∧
      ¬∀ input r, parse input = .ok r → parse r.text = .ok r := by
  have hread : parse "vfile://a%2Fb/x" = .ok ⟨"vfile", some "a/b", "/x", []⟩ := by rfl
  have htext : text ⟨"vfile", some "a/b", "/x", []⟩ = "vfile://a/b/x" := by rfl
  have hback : parse "vfile://a/b/x" = .ok ⟨"vfile", some "a", "/b/x", []⟩ := by rfl
  refine ⟨hread, htext, hback, ?_⟩
  intro hall
  have hsame := hall _ _ hread
  rw [htext, hback] at hsame
  have hpath : "/b/x" = "/x" := congrArg ResourcePath.path (Except.ok.inj hsame)
  exact absurd hpath (by decide)

/-- Whether a path can be spelled: what its scheme, its names, its host and its path are like. -/
structure Spellable (r : ResourcePath) : Prop where
  scheme_length : 2 ≤ r.scheme.length
  scheme_first : ∀ c, r.scheme.toList.head? = some c → c.isAlpha = true
  scheme_rest : ∀ c ∈ r.scheme.toList.tail,
    c.isAlpha = true ∨ c.isDigit = true ∨ c = '+' ∨ c = '-' ∨ c = '.'
  named : ∀ p ∈ r.params, p.1 ≠ ""
  located :
    (∃ host, r.host = some host ∧ host ≠ "" ∧ '/' ∉ host.toList ∧
      (r.path = "" ∨ ['/'] <+: r.path.toList)) ∨
    (r.host = none ∧ r.path ≠ "" ∧ ¬['/', '/'] <+: r.path.toList)

theorem isScheme_iff_spellable : isScheme r.scheme.toList = true ↔ 2 ≤ r.scheme.length ∧
    (∀ c, r.scheme.toList.head? = some c → c.isAlpha = true) ∧ ∀ c ∈ r.scheme.toList.tail,
      c.isAlpha = true ∨ c.isDigit = true ∨ c = '+' ∨ c = '-' ∨ c = '.' := by
  simp only [isScheme_iff, String.length_toList, isSchemeChar, Text.isLetter, Text.isDigit,
    Bool.or_eq_true, beq_iff_eq, or_assoc]

theorem named_iff {params : List (String × String)} :
    "" ∉ params.map (·.1) ↔ ∀ p ∈ params, p.1 ≠ "" := by
  simp only [List.mem_map, not_exists, not_and, ne_eq]

/-- A path is spellable when it is well formed and unambiguous. -/
theorem WellFormed.spellable (hr : r.WellFormed) (hslash : r.Unambiguous) : r.Spellable := by
  obtain ⟨hlength, hfirst, hrest⟩ := isScheme_iff_spellable.mp hr.scheme
  refine ⟨hlength, hfirst, hrest, named_iff.mp hr.named, ?_⟩
  rcases hr.located with ⟨host, hhost, hne, hpath⟩ | ⟨hhost, hne⟩
  · exact .inl ⟨host, hhost, hne, hslash.host host hhost, hpath⟩
  · exact .inr ⟨hhost, hne, hslash.path hhost⟩

/-- A spellable path in lower case with distinct names is well formed and unambiguous. -/
theorem Spellable.wellFormed (hr : r.Spellable) (hlower : Text.lower r.scheme = r.scheme)
    (hdistinct : (r.params.map (·.1)).Nodup) : r.WellFormed ∧ r.Unambiguous := by
  have hscheme := isScheme_iff_spellable.mpr ⟨hr.scheme_length, hr.scheme_first, hr.scheme_rest⟩
  have hnamed := named_iff.mpr hr.named
  rcases hr.located with ⟨host, hhost, hne, hslash, hpath⟩ | ⟨hhost, hne, hslash⟩
  · refine ⟨⟨hscheme, hlower, hdistinct, hnamed, .inl ⟨host, hhost, hne, hpath⟩⟩, ?_, ?_⟩
    · intro h hsome
      rw [hhost] at hsome
      cases hsome
      exact hslash
    · intro hnone
      rw [hhost] at hnone
      cases hnone
  · refine ⟨⟨hscheme, hlower, hdistinct, hnamed, .inr ⟨hhost, hne⟩⟩, ?_, fun _ => hslash⟩
    intro h hsome
    rw [hhost] at hsome
    cases hsome

/-- **A path that was built is read back from its text exactly when it is spellable.** -/
theorem built_paths_are_read_back_when_spellable (scheme path : String)
    (settings : List Setting) :
    parse (build scheme path settings).text = .ok (build scheme path settings) ↔
      (build scheme path settings).Spellable := by
  obtain ⟨hlower, hdistinct⟩ := build_spec scheme path settings
  constructor
  · intro h
    have hr := wellFormed_of_parse h
    exact hr.spellable ((parse_text_iff hr).mp h)
  · intro h
    obtain ⟨hr, hslash⟩ := h.wellFormed hlower hdistinct
    exact (parse_text_iff hr).mpr hslash

example : (build "VFile" "/with space" [.param "enc" "", .host "h", .param "pwfile" "a&b"]).text =
    "vfile://h/with%20space?enc&pwfile=a%26b" := by rfl

end Coffer.Resource.ResourcePath
