import Coffer.Text.Split
/-
  What is wrong with a document, and where.

  A `Finding` is a passage of a document with the `Reason` why the document is refused there.
  `Finding.report` shows it to people: the line and the column, the line itself with the passage
  marked, and the reason.

  A document is refused either because it is not written as the grammar demands — the reader then
  says which construct it was in and what could have followed — or because a value is not of the
  sort that its place is for, which is a `Mismatch`.
-/
namespace Coffer.Toml

/-- A passage of a document, in bytes from its start. -/
structure Span where
  start : Nat
  stop : Nat
  deriving DecidableEq, Repr

/-! ## Reasons -/

/-- Why something that was read cannot stand. -/
inductive Cause
  /-- A name is given twice in a table; the names that lead to the table, if they are known. -/
  | duplicate (name : String) (table : Option (List String))
  /-- A dotted name leads through a value that is no table. -/
  | throughValue (path : List String) (kind : String)
  | outOfRange
  | tooDeep
  | tooLarge
  | tooSmall
  deriving DecidableEq, Repr

/-- The text of a path of names. -/
def dotted (path : List String) : String := ".".intercalate path

/-- The text of a cause. -/
def Cause.message : Cause → String
  | duplicate name none => s!"duplicate key `{name}`"
  | duplicate name (some []) => s!"duplicate key `{name}` in document root"
  | duplicate name (some path) => s!"duplicate key `{name}` in table `{dotted path}`"
  | throughValue path kind =>
    s!"dotted key `{dotted path}` attempted to extend non-table type ({kind})"
  | outOfRange => "value is out of range"
  | tooDeep => "recursion limit exceeded"
  | tooLarge => "number too large to fit in target type"
  | tooSmall => "number too small to fit in target type"

/-- How a value differs from what its place is for. -/
inductive Mismatch
  /-- A value of another sort. -/
  | sort (found expected : String)
  /-- A value of the right sort that is out of bounds. -/
  | bounds (found expected : String)
  | unknownName (name : String) (known : List String)
  /-- A table with one entry was needed. -/
  | noEntry
  | manyEntries
  | notNameOrTable
  /-- Something that holds nothing was needed. -/
  | notEmptyArray
  | notEmptyTable
  | notTable (found : String)
  deriving DecidableEq, Repr

/-- The text of a mismatch. -/
def Mismatch.message : Mismatch → String
  | sort found expected => s!"invalid type: {found}, expected {expected}"
  | bounds found expected => s!"invalid value: {found}, expected {expected}"
  | unknownName name known =>
    s!"unknown variant `{name}`, expected one of " ++
      ", ".intercalate (known.map fun k => s!"`{k}`")
  | noEntry => "wanted exactly 1 element, found 0 elements"
  | manyEntries => "wanted exactly 1 element, more than 1 element"
  | notNameOrTable => "wanted string or table"
  | notEmptyArray => "expected empty array"
  | notEmptyTable => "expected empty table"
  | notTable found => s!"expected table, found {found}"

/-- Why a document is refused. -/
inductive Reason
  /-- The construct that is not well formed, what could have followed, and what is wrong with what
      did. -/
  | grammar (construct : Option String) (wanted : List String) (cause : Option Cause)
  | mismatch (m : Mismatch)
  deriving DecidableEq, Repr

/-- The text of a reason: a line for each thing that is known about it. -/
def Reason.message : Reason → String
  | grammar construct wanted cause =>
    let lines := [construct.map fun c => s!"invalid {c}",
      if wanted.isEmpty then none else some ("expected " ++ ", ".intercalate wanted),
      cause.map Cause.message]
    "\n".intercalate (lines.filterMap id)
  | mismatch m => m.message

/-! ## Findings -/

/-- A passage of a document and the reason why the document is refused there. -/
structure Finding where
  span : Span
  reason : Reason
  deriving DecidableEq, Repr

/-- The line and the column of byte `target`, both from 0, given those of the first of `cs` together
    with its distance in bytes from the start of its line and of the document.  Columns count
    characters, but bytes where a character of several bytes stands.  The end of a document is one
    column behind its last character. -/
def position (target line column width offset : Nat) : List Char → Nat × Nat
  | [] => (line, target)
  | c :: rest =>
    let size := c.utf8Size
    if target ≤ offset then (line, if size = 1 then column else width)
    else
      match rest with
      | [] => (line, column + 1)
      | _ =>
        if c = '\n' then position target (line + 1) 0 0 (offset + size) rest
        else position target line (column + 1) (width + size) (offset + size) rest

namespace Finding

/-- The finding as people read it, given the document.  At least one character is marked, and no
    more of them than the line has bytes. -/
def report (source : String) (f : Finding) : String :=
  let cs := source.toList
  let (line, column) := position f.span.start 0 0 0 0 cs
  let content := String.ofList ((Text.splitOn '\n' cs).getD line [])
  let number := toString (line + 1)
  let margin := String.ofList (List.replicate (number.length + 1) ' ') ++ "|"
  let marked := min (f.span.stop - f.span.start) content.utf8ByteSize
  let mark := List.replicate (column + 1) ' ' ++ List.replicate (max 1 marked) '^'
  "\n".intercalate
    [s!"TOML parse error at line {number}, column {column + 1}", margin,
     s!"{number} | {content}", margin ++ String.ofList mark, f.reason.message, ""]

end Finding

end Coffer.Toml
