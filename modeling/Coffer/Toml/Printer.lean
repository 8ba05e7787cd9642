import Coffer.Toml.Value
import Coffer.Text.Quoted
/-
  Printing TOML documents.

  A text is written in the first of these ways that needs no escapes: between double quotes, between
  single quotes, between three double quotes, between three single quotes.  If none does, it is
  written between double quotes with escapes, three of them when it has more than one line.  A text
  of several lines begins on a line of its own.
-/
namespace Coffer.Toml

/-! ## Texts -/

/-- The longest run of `c` in `cs`; `run` of them have just gone before. -/
def longestRun (c : Char) (run : Nat) : List Char → Nat
  | [] => run
  | x :: rest => if x = c then longestRun c (run + 1) rest else max run (longestRun c 0 rest)

/-- Whether a text has a control character other than a tab or a line feed. -/
def hasControl (cs : List Char) : Bool :=
  cs.any fun c => (c.toNat < 0x20 && c != '\t' && c != '\n') || c.toNat == 0x7F

/-- A character between double quotes. -/
def escape (c : Char) : String :=
  match c with
  | '\x08' => "\\b"
  | '\t' => "\\t"
  | '\n' => "\\n"
  | '\x0c' => "\\f"
  | '\r' => "\\r"
  | '"' => "\\\""
  | '\\' => "\\\\"
  | c =>
    if c.toNat < 0x20 || c.toNat == 0x7F then
      "\\u00" ++ Coffer.Text.hexByteUpper (UInt8.ofNat c.toNat)
    else c.toString

/-- Characters between three double quotes; `quotes` of them have just gone before, and a third one
    is escaped. -/
def escapeLong (quotes : Nat) : List Char → String
  | [] => ""
  | '"' :: rest =>
    if quotes = 2 then "\\\"" ++ escapeLong 0 rest else "\"" ++ escapeLong (quotes + 1) rest
  | '\n' :: rest => "\n" ++ escapeLong 0 rest
  | c :: rest => escape c ++ escapeLong 0 rest

/-- A text as it is written. -/
def printText (s : String) : String :=
  let cs := s.toList
  let control := hasControl cs
  let backslash := cs.contains '\\'
  let lines := cs.contains '\n'
  let double := longestRun '"' 0 cs
  let single := longestRun '\'' 0 cs
  let start := if lines then "\n" else ""
  let basic := "\"" ++ String.join (cs.map escape) ++ "\""
  let longBasic := "\"\"\"" ++ start ++ escapeLong 0 cs ++ "\"\"\""
  if !control && !backslash && double = 0 && !lines then basic
  else if !control && single = 0 && !lines then "'" ++ s ++ "'"
  else if !control && !backslash && double ≤ 2 then longBasic
  else if !control && single ≤ 2 then "'''" ++ start ++ s ++ "'''"
  else if lines then longBasic
  else basic

/-! ## Names -/

/-- Whether `c` may stand in a name without quotes. -/
def isBare (c : Char) : Bool := c.isAlphanum || c == '_' || c == '-'

/-- A name as it is written: without quotes if it can be, else between the quotes that need no
    escapes, the double ones first. -/
def printName (s : String) : String :=
  let cs := s.toList
  let control := hasControl cs || cs.contains '\n'
  if !cs.isEmpty && cs.all isBare then s
  else if !control && (cs.contains '\\' || cs.contains '"') && !cs.contains '\'' then
    "'" ++ s ++ "'"
  else "\"" ++ String.join (cs.map escape) ++ "\""

/-! ## Entries -/

/-- An entry of a table. -/
def printEntry (name value : String) : String := name ++ " = " ++ value ++ "\n"

/-- A truth value. -/
def printBool (b : Bool) : String := if b then "true" else "false"

/-- A table under its header. -/
def printTable (name : String) (entries : List (String × String)) : String :=
  "[" ++ name ++ "]\n" ++ String.join (entries.map fun (n, v) => printEntry n v)

end Coffer.Toml
