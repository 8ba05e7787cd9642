import Coffer.Proofs.Resource.Path
import Coffer.Proofs.Text.Escape
/-
  Every part of a resource path is unescaped.

  `parts` are the escaped parts of a text: its host, its path, and the name and the value of each
  parameter.  A text is read only if all of them can be unescaped (`unescaped_of_read`), so the grammar
  of escapes decides for each of them (`escapes_are_read_by_their_grammar`).
-/
namespace Coffer.Resource.ResourcePath

open Text (splitOnce splitOn)
open Text.Percent (Spells decode digitPair? signedPair?)

variable {q r : ResourcePath} {raw part : List Char}

/-! ## The parts of a text -/

/-- The name and the value of a parameter, still escaped. -/
def paramParts (piece : List Char) : List (List Char) :=
  [((splitOnce '=' piece).getD (piece, [])).1, ((splitOnce '=' piece).getD (piece, [])).2]

/-- The parts of a text that are unescaped: host, path, and names and values of the parameters. -/
def parts (raw : List Char) : List (List Char) :=
  let (locator, query) := cutQuery (splitScheme raw).2
  (splitHost locator).1.toList ++ (splitHost locator).2 ::
    ((splitOn '&' query).filter (!·.isEmpty)).flatMap paramParts

/-- The host and the path of a locator that is read are unescaped. -/
theorem unescaped_of_locate {locator : List Char} {place : Option String × String}
    (h : locate locator = .ok place)
    (hpart : part ∈ (splitHost locator).1.toList ∨ part = (splitHost locator).2) :
    ∃ t, unescape part = .ok t := by
  rcases place with ⟨_ | host, path⟩
  · obtain ⟨hnone, hpath⟩ := locate_eq_ok_none_iff.mp h
    rw [hnone] at hpart
    rcases hpart with hpart | rfl
    · cases hpart
    · exact ⟨path, hpath⟩
  · obtain ⟨escaped, hsome, hhost, hpath⟩ := locate_eq_ok_some_iff.mp h
    rw [hsome] at hpart
    rcases hpart with hpart | rfl
    · rw [Option.toList_some, List.mem_singleton] at hpart
      exact ⟨host, hpart ▸ hhost⟩
    · exact ⟨path, hpath⟩

/-- The name and the value of a parameter that is read are unescaped. -/
theorem unescaped_of_readParam {piece : List Char} {p : String × String}
    (h : readParam piece = .ok p) (hpart : part ∈ paramParts piece) : ∃ t, unescape part = .ok t := by
  rw [readParam, bind_eq_ok_iff] at h
  obtain ⟨name, hname, h⟩ := h
  obtain ⟨value, hvalue, -⟩ := bind_eq_ok_iff.mp h
  rw [paramParts, List.mem_cons, List.mem_singleton] at hpart
  rcases hpart with rfl | rfl
  · exact ⟨name, hname⟩
  · exact ⟨value, hvalue⟩

/-- Every parameter of a query that is read is read. -/
theorem readParam_of_readParams {query piece : List Char} (h : readParams q query = .ok r)
    (hpiece : piece ∈ (splitOn '&' query).filter (!·.isEmpty)) : ∃ p, readParam piece = .ok p := by
  rw [readParams] at h
  generalize (splitOn '&' query).filter (!·.isEmpty) = pieces at h hpiece
  induction pieces generalizing q with
  | nil => cases hpiece
  | cons first rest ih =>
    rw [List.foldlM_cons] at h
    obtain ⟨next, hnext, h⟩ := bind_eq_ok_iff.mp h
    obtain ⟨p, hp, -⟩ := bind_eq_ok_iff.mp hnext
    rcases List.mem_cons.mp hpiece with rfl | hpiece
    · exact ⟨p, hp⟩
    · exact ih h hpiece

/-- **A text is read only if all its parts are unescaped.** -/
theorem unescaped_of_read (h : read raw = .ok r) (hpart : part ∈ parts raw) :
    ∃ t, unescape part = .ok t := by
  obtain ⟨-, host, path, hplace, -, hquery⟩ := read_eq_ok_iff.mp h
  rw [parts, List.mem_append, List.mem_cons, List.mem_flatMap] at hpart
  rcases hpart with hpart | hpart | ⟨piece, hpiece, hpart⟩
  · exact unescaped_of_locate hplace (.inl hpart)
  · exact unescaped_of_locate hplace (.inr hpart)
  · obtain ⟨p, hp⟩ := readParam_of_readParams hquery hpiece
    exact unescaped_of_readParam hp hpart

theorem spells_of_unescape {t : String} (h : unescape part = .ok t) :
    Spells signedPair? part (utf8 t) := by
  have hspells := Text.Percent.decode_eq_ok_iff_spells.mp (unescape_eq_ok_iff.mp h)
  rwa [String.toList_ofList] at hspells

/-- A text with a part that spells nothing is refused. -/
theorem parse_of_malformed {input : String} (hpart : part ∈ parts (Text.trim input).toList)
    (hmalformed : ∀ t, ¬ Spells signedPair? part (utf8 t)) :
    ∃ fault : Fault, parse input = .error (.invalidPath (Text.trim input) fault.message) := by
  rcases hread : read (Text.trim input).toList with fault | r
  · refine ⟨fault, ?_⟩
    rw [parse, hread]
  · obtain ⟨t, ht⟩ := unescaped_of_read hread hpart
    exact absurd (spells_of_unescape ht) (hmalformed t)

/-! ## The grammar of the parts -/

/-- **Escapes are read by their grammar:** from left to right, a percent sign and two digits behind it
    are a byte, or a percent sign, a plus sign and one digit, and all bytes together must be those of a
    text.  Anything else is a fault, so a resource path with such a part is refused.  Where no percent
    sign is followed by a plus sign the grammar is that of two digits. -/
theorem escapes_are_read_by_their_grammar (s input : String) :
    (∀ t, decode s = .ok t ↔ Spells signedPair? s.toList (utf8 t)) ∧
    ((∀ t, ¬ Spells signedPair? s.toList (utf8 t)) → ∃ fault, decode s = .error fault) ∧
    (¬ ['%', '+'] <:+: s.toList → ∀ t, decode s = .ok t ↔ Spells digitPair? s.toList (utf8 t)) ∧
    ∀ part ∈ parts (Text.trim input).toList,
      ((∀ t, ¬ Spells signedPair? part (utf8 t)) ∨
        (¬ ['%', '+'] <:+: part ∧ ∀ t, ¬ Spells digitPair? part (utf8 t))) →
      ∃ fault : Fault, parse input = .error (.invalidPath (Text.trim input) fault.message) := by
  refine ⟨fun t => Text.Percent.decode_eq_ok_iff_spells, ?_, ?_, ?_⟩
  · intro hnone
    rcases hdecode : decode s with fault | t
    · exact ⟨fault, rfl⟩
    · exact absurd (Text.Percent.decode_eq_ok_iff_spells.mp hdecode) (hnone t)
  · intro hplus t
    rw [Text.Percent.spells_digitPair?_iff hplus]
    exact Text.Percent.decode_eq_ok_iff_spells
  · intro part hpart hmalformed
    refine parse_of_malformed hpart fun t hspells => ?_
    rcases hmalformed with hnone | ⟨hplus, hnone⟩
    · exact hnone t hspells
    · exact hnone t ((Text.Percent.spells_digitPair?_iff hplus).mpr hspells)

/-- Two escapes that are one character, and an escape that breaks off in the value of a parameter. -/
theorem escapes_are_read_by_their_grammar_on_two :
    decode "%c3%A9" = .ok "é" ∧
      ∃ fault : Fault, parse "vfile:/x?a=%4" = .error (.invalidPath "vfile:/x?a=%4" fault.message) := by
  have hspells : Spells digitPair? "%c3%A9".toList (utf8 "é") :=
    .escape (x := 0xC3) (by rfl) (.escape (x := 0xA9) (by rfl) .nil)
  have hplus : ¬ ['%', '+'] <:+: "%c3%A9".toList := by decide +kernel
  have hbroken : ∀ t, ¬ Spells digitPair? ['%', '4'] (utf8 t) := by
    intro t h
    generalize utf8 t = b at h
    cases h with
    | char hc _ => exact hc rfl
  have htrim : Text.trim "vfile:/x?a=%4" = "vfile:/x?a=%4" := by rfl
  have hparts : parts (Text.trim "vfile:/x?a=%4").toList = [['/', 'x'], ['a'], ['%', '4']] := by rfl
  have hpart : ['%', '4'] ∈ parts (Text.trim "vfile:/x?a=%4").toList := by
    rw [hparts]
    exact List.mem_of_getLast? rfl
  obtain ⟨-, -, hdigits, hrefused⟩ := escapes_are_read_by_their_grammar "%c3%A9" "vfile:/x?a=%4"
  have hvalue := hrefused ['%', '4'] hpart (.inr ⟨by decide, hbroken⟩)
  rw [htrim] at hvalue
  exact ⟨(hdigits hplus _).mpr hspells, hvalue⟩

/-- **A plus sign is read as a digit:** the grammar of two digits has no text for `%+f`, and yet it is
    read, by itself and in a path. -/
theorem signed_escape_is_read :
    decode "%+f" = .ok "\x0f" ∧ (∀ t, ¬ Spells digitPair? "%+f".toList (utf8 t)) ∧
      parse "vfile:/x%+f" = .ok ⟨"vfile", none, "/x\x0f", []⟩ ∧
      ¬ ∀ s t, decode s = .ok t ↔ Spells digitPair? s.toList (utf8 t) := by
  have hread : decode "%+f" = .ok "\x0f" := by rfl
  have hnone : ∀ t, ¬ Spells digitPair? "%+f".toList (utf8 t) := by
    intro t h
    have hlist : "%+f".toList = ['%', '+', 'f'] := by rfl
    rw [hlist] at h
    generalize utf8 t = b at h
    cases h with
    | char hc _ => exact hc rfl
    | escape hpair _ =>
      rw [Text.Percent.digitPair?_plus] at hpair
      cases hpair
  exact ⟨hread, hnone, by rfl, fun hall => hnone _ ((hall _ _).mp hread)⟩

end Coffer.Resource.ResourcePath
