import Coffer.Toml.Finding
/-
  Values of TOML documents.

  A `Value` is what a document says at a passage of it.  A table that was only passed through on the
  way to something inside has no passage of its own.
-/
namespace Coffer.Toml

/-- A name in a table, and where it is written. -/
structure Key where
  name : String
  span : Span
  deriving DecidableEq, Repr

/-- A value of a document. -/
inductive Value
  | text (span : Span) (s : String)
  | integer (span : Span) (n : Int)
  | float (span : Span) (x : Float)
  | boolean (span : Span) (b : Bool)
  /-- A date, a time of day or both. -/
  | date (span : Span)
  | array (span : Span) (items : List Value)
  /-- The names are distinct. -/
  | table (span : Option Span) (entries : List (Key × Value))
  /-- The tables of headers in double brackets. -/
  | tables (span : Option Span) (items : List Value)

namespace Value

/-- Where a value is written. -/
def span? : Value → Option Span
  | text s _ | integer s _ | float s _ | boolean s _ | date s | array s _ => some s
  | table s _ | tables s _ => s

/-- The sort of a value. -/
def kind : Value → String
  | text _ _ => "string"
  | integer _ _ => "integer"
  | float _ _ => "float"
  | boolean _ _ => "boolean"
  | date _ => "datetime"
  | array _ _ => "array"
  | table _ _ => "inline table"
  | tables _ _ => "array of tables"

end Value

end Coffer.Toml
