import Coffer.Toml.Blank
/-
  Texts in TOML documents.

  There are four ways to write a text: between single or between double quotes, and each also with
  three quotes on either side, which allows line ends.  Backslashes escape only between double
  quotes.
-/
namespace Coffer.Toml

open Reader

/-! ## Escapes -/

/-- The value of a hexadecimal digit. -/
def hexDigit? (c : Char) : Option Nat :=
  if '0' ≤ c ∧ c ≤ '9' then some (c.toNat - 48)
  else if 'a' ≤ c ∧ c ≤ 'f' then some (c.toNat - 87)
  else if 'A' ≤ c ∧ c ≤ 'F' then some (c.toNat - 55)
  else none

/-- Whether `c` is a hexadecimal digit. -/
def isHexDigit (c : Char) : Bool := (hexDigit? c).isSome

/-- The number that digits write in a base. -/
def numeral (base : Nat) (digits : List Char) : Nat :=
  digits.foldl (fun n c => n * base + (hexDigit? c).getD 0) 0

/-- Exactly so many digits of a sort, out of those that follow one another. -/
def digitsOf (isDigit : Char → Bool) (count : Nat) : Reader (List Char) := fun p =>
  let ds := (p.rest.take count).takeWhile isDigit
  if ds.length = count then .read ds ⟨p.offset + count, p.rest.drop count⟩
  else .declined (.here p)

/-- A character by its number, in so many hexadecimal digits. -/
def numbered (count : Nat) : Reader Char :=
  checked (fun ds =>
    let n := numeral 16 ds
    if h : n.isValidChar then .ok (Char.ofNatAux n h) else .error .outOfRange)
    (digitsOf isHexDigit count)

/-- The letters that may follow a backslash, as they are told to people. -/
def escapeLetters : List String := ["`b`", "`f`", "`n`", "`r`", "`t`", "`u`", "`U`", "`\\`", "`\"`"]

/-- Refuse a character behind a backslash.  The place told is behind it if it is one byte. -/
def badEscape (letter : Char) : Reader Char := fun p =>
  let place : Cursor :=
    if letter.utf8Size = 1 then p else ⟨p.offset - letter.utf8Size, letter :: p.rest⟩
  .refused ⟨place.span, some "escape sequence", escapeLetters, none⟩

/-- A backslash and what follows it, as the character they stand for. -/
def escaped : Reader Char := do
  char '\\'
  match ← satisfying fun _ => true with
  | 'b' => return '\x08'
  | 't' => return '\t'
  | 'n' => return '\n'
  | 'f' => return '\x0c'
  | 'r' => return '\r'
  | '"' => return '"'
  | '\\' => return '\\'
  | 'u' => within "unicode 4-digit hex code" (must (numbered 4))
  | 'U' => within "unicode 8-digit hex code" (must (numbered 8))
  | letter => badEscape letter

/-! ## Texts on one line -/

/-- Whether `c` stands for itself between double quotes. -/
def isBasic (c : Char) : Bool := isAllowed c && c != '"' && c != '\\'

/-- Whether `c` stands for itself between single quotes. -/
def isLiteral (c : Char) : Bool := isAllowed c && c != '\''

/-- One character, as a list. -/
def single (r : Reader Char) : Reader (List Char) := ([·]) <$> r

/-- A text between double quotes. -/
def basicText : Reader (List Char) := do
  char '"'
  let pieces ← many (orElse (runOfSome isBasic) (single escaped))
  within "basic string" (must (char '"'))
  return pieces.flatten

/-- A text between single quotes. -/
def literalText : Reader (List Char) := within "literal string" do
  char '\''
  let cs ← run isLiteral
  must (char '\'')
  return cs

/-! ## Texts on several lines -/

/-- Three quotes. -/
def threeQuotes (quote : Char) : Reader Unit := word [quote, quote, quote]

/-- One or two quotes in front of something. -/
def quotesBefore (quote : Char) (following : Reader Unit) : Reader (List Char) :=
  orElse
    (do word [quote, quote]; ahead following; return [quote, quote])
    (do word [quote]; ahead following; return [quote])

/-- Some other character than a quote. -/
def noQuote (quote : Char) : Reader Unit := (fun _ => ()) <$> satisfying (· != quote)

/-- A line end in a text. -/
def innerLineEnd : Reader (List Char) := (fun _ => ['\n']) <$> lineEnd

/-- A backslash at the end of a line, with all blanks up to the next visible character. -/
def continuation : Reader Unit := do
  char '\\'
  white
  lineEnd
  repeated (fun () => orElse lineEnd ((fun _ => ()) <$> runOfSome isWhite)) ()

/-- What stands between quotes of which there are three on either side. -/
def longBasicPiece : Reader (List Char) :=
  orElse (runOfSome isBasic)
    (orElse ((fun _ => []) <$> continuation) (orElse (single escaped) innerLineEnd))

/-- Refuse where a reader declines, with no more than the place. -/
def needed (r : Reader (List Char)) : Reader (List Char) := fun p =>
  match r p with
  | .declined _ => .refused (.here p)
  | other => other

/-- A text between three double quotes on either side. -/
def longBasicText : Reader (List Char) := within "multiline basic string" do
  threeQuotes '"'
  let _ ← optional lineEnd
  let pieces ← many (orElse longBasicPiece do
    let quotes ← quotesBefore '"' (noQuote '"')
    return quotes ++ (← needed longBasicPiece))
  let quotes ← optional (quotesBefore '"' (threeQuotes '"'))
  must (threeQuotes '"')
  return pieces.flatten ++ quotes.getD []

/-- What stands between single quotes of which there are three on either side. -/
def longLiteralPiece : Reader (List Char) := orElse (runOfSome isLiteral) innerLineEnd

/-- A text between three single quotes on either side. -/
def longLiteralText : Reader (List Char) := within "multiline literal string" do
  threeQuotes '\''
  let _ ← optional lineEnd
  let pieces ← many (orElse longLiteralPiece do
    let quotes ← quotesBefore '\'' (noQuote '\'')
    return quotes ++ (← longLiteralPiece))
  let quotes ← optional (quotesBefore '\'' (threeQuotes '\''))
  must (threeQuotes '\'')
  return pieces.flatten ++ quotes.getD []

/-- A text, however it is written. -/
def text : Reader String :=
  String.ofList <$>
    orElse longBasicText (orElse basicText (orElse longLiteralText literalText))

end Coffer.Toml
