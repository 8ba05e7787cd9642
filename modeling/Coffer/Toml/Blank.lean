import Coffer.Toml.Reader
/-
  What stands between the parts of a TOML document: white space, line ends and comments.
-/
namespace Coffer.Toml

open Reader

/-- Whether `c` is a space or a tab. -/
def isWhite (c : Char) : Bool := c == ' ' || c == '\t'

/-- Whether `c` may stand in a document other than as a line end. -/
def isAllowed (c : Char) : Bool := c == '\t' || (0x20 ≤ c.toNat && c.toNat ≠ 0x7F)

/-- Spaces and tabs, if there are any. -/
def white : Reader Unit := (fun _ => ()) <$> run isWhite

/-- A line feed, which may have a carriage return in front. -/
def lineEnd : Reader Unit :=
  orElse (char '\n') do
    char '\r'
    char '\n'

/-- A comment, up to the end of its line. -/
def comment : Reader Unit := do
  char '#'
  let _ ← run isAllowed

/-- A line end, or the end of the document. -/
def lineOrDocumentEnd : Reader Unit := orElse lineEnd atEnd

/-- The rest of a line behind what it says. -/
def lineRest : Reader Unit := do
  white
  let _ ← optional comment
  lineOrDocumentEnd

/-- White space and what ends a line behind it; whether there was such a thing. -/
def blankLine : Reader Bool := do
  white
  match ← next? with
  | some '#' =>
    comment
    lineEnd
    return true
  | some '\n' | some '\r' =>
    lineEnd
    return true
  | _ => return false

/-- At most as many blank lines as `bound` is long, and the white space behind them. -/
def blanksWithin (bound : List Char) : Reader Unit := fun p =>
  match bound with
  | [] => .read () p
  | _ :: bound =>
    match blankLine p with
    | .read true q => blanksWithin bound q
    | .read false q => .read () q
    | .declined c => .declined c
    | .refused c => .refused c

/-- White space, comments and line ends, if there are any. -/
def blanks : Reader Unit := fun p => blanksWithin p.rest p

end Coffer.Toml
