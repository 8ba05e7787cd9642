import Coffer.Toml.Date
import Coffer.Toml.Tables
/-
  Reading TOML documents.

  `read` gives the entries of a document, or what is wrong with it.  Arrays and inline tables may be
  nested to a depth of `maxDepth`, and a key has at most as many parts.
-/
namespace Coffer.Toml

open Reader

/-- How deep values may be nested, and how many parts a key may have. -/
def maxDepth : Nat := 79

/-! ## Keys -/

/-- A part of a key, with its quotes if it has some. -/
def name : Reader String := String.ofList <$> do
  match ← next? with
  | some '"' => basicText
  | some '\'' => literalText
  | _ => runOfSome isBare

/-- A part of a key, with the white space around it. -/
def keyPart : Reader Key := do
  white
  let (name, span) ← spanned name
  white
  return ⟨name, span⟩

/-- A key: parts with dots between them. -/
def key : Reader (List Key) :=
  checked (fun parts => if maxDepth < parts.length then .error .tooDeep else .ok parts)
    (within "key" (separated keyPart (char '.')))

/-- A key, an equals sign and a value, and what has to follow. -/
def entry (value : Reader Value) (following : Reader Unit) : Reader (List Key × Value) := do
  let parts ← key
  let v ← must do
    wanting "`=`" (wanting "`.`" (char '='))
    white
    let v ← value
    following
    return v
  return (parts, v)

/-- The rest of a line that may have a comment. -/
def endOfLine : Reader Unit := wanting "`#`" (wanting "newline" (must lineRest))

/-! ## Values -/

/-- What stands between the brackets of an array. -/
def arrayItems (value : Reader Value) : Reader (List Value) := do
  let items ← optional (separated (do
    blanks
    let v ← value
    blanks
    return v) (char ','))
  if items.isSome then
    let _ ← optional (char ',')
  blanks
  return items.getD []

/-- An array. -/
def array (value : Reader Value) : Reader (List Value) := do
  char '['
  let items ← must (arrayItems value)
  must (wanting "`]`" (within "array" (char ']')))
  return items

/-- What stands between the braces of an inline table. -/
def inlinePairs (value : Reader Value) : Reader (List (List Key × Value)) := do
  let pairs ← optional (separated (entry value white) (char ','))
  white
  return pairs.getD []

/-- An inline table. -/
def inlineTable (value : Reader Value) : Reader (List (Key × Value)) := do
  char '{'
  let entries ← must (checked inlineEntries (inlinePairs value))
  must (wanting "`\x7d`" (within "inline table" (char '}')))
  return entries

/-- A reader at a place where nothing can be meant but a text, unless it reads. -/
def orText {α : Type} (r : Reader α) : Reader α :=
  wanting "`'`" (wanting "`\"`" (within "string" r))

/-- A value that holds no others, by its first character. -/
def simple (first : Char) : Reader (Span → Value) :=
  let asInteger : Reader (Span → Value) := (fun n span => .integer span n) <$> integer
  let asFloat (r : Reader Float) : Reader (Span → Value) := (fun x span => .float span x) <$> r
  match first with
  | '"' | '\'' => (fun s span => .text span s) <$> text
  | '_' => wanting "leading digit" asInteger
  | '.' => wanting "leading digit" (asFloat float)
  | 't' => orText ((fun _ span => .boolean span true) <$> must (word ['t', 'r', 'u', 'e']))
  | 'f' => orText ((fun _ span => .boolean span false) <$> must (word ['f', 'a', 'l', 's', 'e']))
  | 'i' => orText (asFloat infinity)
  | 'n' => orText (asFloat noNumber)
  | c =>
    if c == '+' || c == '-' || isDecimal c then
      orElse ((fun _ span => .date span) <$> date) (orElse (asFloat float) asInteger)
    else orText decline

/-- A value in which others are nested to at most this depth. -/
def value (depth : Nat) : Reader Value := do
  let (make, span) ← spanned do
    match ← next?, depth with
    | none, _ => decline
    | some '[', 0 | some '{', 0 => refuse .tooDeep
    | some '[', depth + 1 => (fun items span => .array span items) <$> array (value depth)
    | some '{', depth + 1 =>
      (fun entries span => .table (some span) entries) <$> inlineTable (value depth)
    | some c, _ => simple c
  return make span

/-! ## Documents -/

/-- A header between brackets, and its passage. -/
def headerLine (opening closing : List Char) : Reader (List Key × Span) := do
  let line ← spanned do
    word opening
    let path ← must key
    wanting s!"`{String.ofList closing}`" (wanting "`.`" (must (word closing)))
    return path
  endOfLine
  return line

/-- A header. -/
def header (d : Draft) : Reader Draft := within "table header" fun p =>
  match p.rest with
  | '[' :: '[' :: _ =>
    checked (fun (path, span) => d.elementHeader path span)
      (headerLine ['[', '['] [']', ']']) p
  | '[' :: _ :: _ => checked (fun (path, span) => d.header path span) (headerLine ['['] [']']) p
  | _ => decline p

/-- A comment, a line end, a header or a key with its value, and the white space behind. -/
def line (d : Draft) : Reader Draft := do
  let d ← match ← next? with
    | none => decline
    | some '#' => must ((fun _ => d) <$> (comment *> lineOrDocumentEnd))
    | some '\n' | some '\r' => (fun _ => d) <$> lineEnd
    | some '[' => must (header d)
    | some _ =>
      must (checked (fun (key, v) => d.setKey key v) (entry (value maxDepth) endOfLine))
  white
  return d

/-- A whole document.  A byte order mark in front is passed over. -/
def document : Reader Draft := do
  let _ ← optional (word ['\ufeff'])
  white
  let d ← repeated line .empty
  atEnd
  return d

/-- The entries of the document that a text is. -/
def read (s : String) : Except Finding (List (Key × Value)) :=
  match document ⟨0, s.toList⟩ with
  | .read d p =>
    match d.close with
    | .ok items => .ok (Items.entriesOf items)
    | .error cause => .error ⟨p.span, .grammar none [] (some cause)⟩
  | .declined c | .refused c => .error c.finding

end Coffer.Toml
