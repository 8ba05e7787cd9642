import Coffer.Toml.Value
import Coffer.Text.Double
import Coffer.Text.Quoted
/-
  Decoding values into what they are for.

  A `Decoder` turns a value into something of a sort, or says what is wrong with it.  A value that
  is not written anywhere itself is blamed on the passage around it, so a decoder is given that
  passage too.

  A record is a table whose entries are read in the order of the document; names that mean nothing
  are passed over, and what is left out keeps its default.  It may also be written as an array of
  its settings in their order.  A date stands for a record that leaves everything out.
-/
namespace Coffer.Toml

/-- How a value is called when it stands in a place for something else. -/
def Value.found : Value → String
  | .text _ s => s!"string {Coffer.Text.quote s}"
  | .integer _ n => s!"integer `{n}`"
  | .float _ x => s!"floating point `{Coffer.Text.double x}`"
  | .boolean _ b => s!"boolean `{b}`"
  | .array _ _ | .tables _ _ => "sequence"
  | .table _ _ | .date _ => "map"

/-- A reading of a value, given the passage to blame if the value has none of its own. -/
abbrev Decoder (α : Type) := Span → Value → Except Finding α

/-- A setting in a record: its name, and what its value does to the record. -/
structure Setting (ρ : Type) where
  name : String
  assign : Span → Value → ρ → Except Finding ρ

namespace Decoder

/-- The refusal of a value. -/
def mismatch {α : Type} (around : Span) (v : Value) (m : Mismatch) : Except Finding α :=
  .error ⟨v.span?.getD around, .mismatch m⟩

/-- The refusal of a value in a place for something else. -/
def wrongSort {α : Type} (expected : String) (around : Span) (v : Value) : Except Finding α :=
  mismatch around v (.sort v.found expected)

/-! ## Simple values -/

/-- A text, in a place for what `expected` says. -/
def text (expected : String) : Decoder String
  | _, .text _ s => .ok s
  | around, v => wrongSort expected around v

/-- A truth value. -/
def boolean : Decoder Bool
  | _, .boolean _ b => .ok b
  | around, v => wrongSort "a boolean" around v

/-- A number of at most so many bits that is not negative. -/
def natural (bits : Nat) : Decoder Nat
  | around, .integer s n =>
    if 0 ≤ n ∧ n < Nat.pow 2 bits then .ok n.toNat
    else mismatch around (.integer s n) (.bounds s!"integer `{n}`" s!"u{bits}")
  | around, v => wrongSort s!"u{bits}" around v

/-! ## Choices -/

/-- The choice that a name makes. -/
def choose {α : Type} (choices : List (String × α)) (span : Span) (name : String) :
    Except Finding α :=
  match choices.lookup name with
  | some a => .ok a
  | none => .error ⟨span, .mismatch (.unknownName name (choices.map (·.1)))⟩

/-- Something that holds nothing. -/
def hollow : Decoder Unit
  | _, .array _ [] | _, .table _ [] | _, .tables _ [] => .ok ()
  | around, v =>
    mismatch around v (match v with
      | .tables _ _ => .notEmptyArray
      | .array _ _ | .table _ _ => .notEmptyTable
      | v => .notTable v.kind)

/-- One of several choices: its name, or a table with something hollow of that name. -/
def choice {α : Type} (choices : List (String × α)) : Decoder α
  | around, v =>
    let span := v.span?.getD around
    match v with
    | .text _ s => choose choices span s
    | .table _ [] => mismatch around v .noEntry
    | .table _ [(key, inner)] => do
      let a ← choose choices key.span key.name
      hollow span inner
      return a
    | .table _ _ => mismatch around v .manyEntries
    | _ => mismatch around v .notNameOrTable

/-! ## Records -/

/-- A record with the values of a table's entries. -/
def assignNamed {ρ : Type} (settings : List (Setting ρ)) : List (Key × Value) → ρ → Except Finding ρ
  | [], r => .ok r
  | (key, v) :: rest, r =>
    match settings.find? (·.name = key.name) with
    | none => assignNamed settings rest r
    | some setting => do assignNamed settings rest (← setting.assign key.span v r)

/-- A record with the values of an array. -/
def assignPlaced {ρ : Type} (around : Span) : List (Setting ρ) → List Value → ρ → Except Finding ρ
  | setting :: settings, v :: rest, r => do
    assignPlaced around settings rest (← setting.assign around v r)
  | _, _, r => .ok r

/-- A record, in a place for what `expected` says. -/
def record {ρ : Type} (expected : String) (settings : List (Setting ρ)) (default : ρ) : Decoder ρ
  | around, v =>
    match v with
    | .table _ entries => assignNamed settings entries default
    | .array _ items | .tables _ items =>
      assignPlaced (v.span?.getD around) settings items default
    | .date _ => .ok default
    | _ => wrongSort expected around v

end Decoder

/-- The setting of a name, whose value is decoded and then put into the record. -/
def Setting.of {ρ α : Type} (name : String) (decode : Decoder α) (put : α → ρ → ρ) : Setting ρ where
  name := name
  assign around v r := (decode around v).map (put · r)

end Coffer.Toml
