import Coffer.Text.Split
/-
  File paths as texts.

  A path is a text cut into pieces by slashes.  Empty pieces and the piece `.` name nothing, except
  that an empty first piece is the root and a first `.` stands for the current directory.  The
  functions here look at the text only, never at a disk.
-/
namespace Coffer.Path

/-- The pieces of a path between its slashes. -/
def pieces (p : String) : List String := (Text.splitOn '/' p.toList).map String.ofList

/-- The text of pieces. -/
def ofPieces (ps : List String) : String := "/".intercalate ps

/-- Whether a path starts at the root. -/
def isAbsolute (p : String) : Bool := p.toList.head? == some '/'

/-- Whether a piece behind the first one names nothing. -/
def isIdle (piece : String) : Bool := piece.isEmpty || piece == "."

/-- The pieces without those at the end that name nothing. -/
def trimEnd : List String → List String
  | [] => []
  | first :: rest => first :: (rest.reverse.dropWhile isIdle).reverse

/-- Whether some piece of a path leads upwards. -/
def leadsUp (p : String) : Bool := (pieces p).any (· == "..")

/-- The last name of a path, if it ends in one. -/
def fileName? (p : String) : Option String :=
  match (trimEnd (pieces p)).getLast? with
  | none => none
  | some last => if last.isEmpty || last == "." || last == ".." then none else some last

/-- The path without its last piece; the root and the empty path have no parent. -/
def parent? (p : String) : Option String :=
  match trimEnd (pieces p) with
  | [] => none
  | [first] => if first.isEmpty then none else some ""
  | ps =>
    let rest := trimEnd ps.dropLast
    if rest = [""] then some "/" else some (ofPieces rest)

/-- The path `p` seen from `base`. -/
def join (base p : String) : String :=
  if isAbsolute p || base.isEmpty then p
  else if base.toList.getLast? == some '/' then base ++ p
  else base ++ "/" ++ p

/-- The name of the temporary file for a file of this name. -/
def temporaryName (name : String) : String := "." ++ name ++ ".tmp"

/-- A path with a leading `~/` taken from the home directory. -/
def expandTilde (home : Option String) (p : String) : String :=
  match p.toList with
  | '~' :: '/' :: rest => join (home.getD "/tmp") (String.ofList rest)
  | _ => p

end Coffer.Path
