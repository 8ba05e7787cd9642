import Coffer.Toml.Text
/-
  Numbers in TOML documents.

  Integers are 64-bit.  A float is the double that is nearest to what is written; one that would be
  positive infinity is refused, unless it is written as `inf`.

  The readers here are told what could have been meant: once a number has come so far that it cannot
  be anything else, they refuse what does not belong to it.
-/
namespace Coffer.Toml

open Reader

/-! ## Digits -/

/-- Whether `c` is a decimal digit. -/
def isDecimal (c : Char) : Bool := c.isDigit

/-- More digits, which may have single underscores in front. -/
def moreDigits (isDigit : Char → Bool) : Reader (List Char) :=
  many (orElse (satisfying isDigit) do
    char '_'
    wanting "digit" (must (satisfying isDigit)))

/-- Digits with single underscores between them. -/
def digits (isDigit : Char → Bool) : Reader (List Char) := do
  let d ← satisfying isDigit
  return d :: (← moreDigits isDigit)

/-- A sign, as whether it is a minus. -/
def sign : Reader Bool := do
  let s ← optional (satisfying fun c => c == '+' || c == '-')
  return s == some '-'

/-- A sign, if there is one, and decimal digits that begin with a zero only if they are no more. -/
def wholePart : Reader (Bool × List Char) := within "integer" do
  let negative ← sign
  let ds ← orElse
    (do
      let d ← satisfying fun c => isDecimal c && c != '0'
      return d :: (← moreDigits isDecimal))
    (single (satisfying isDecimal))
  return (negative, ds)

/-! ## Integers -/

/-- The number that digits write in a base.  Digits that take it beyond 64 bits are left out. -/
def shortNumeral (base : Nat) (digits : List Char) : Nat :=
  numeral base ((digits.dropWhile (· == '0')).take 65)

/-- A number, if it fits into 64 bits. -/
def fitting (n : Int) : Except Cause Int :=
  if n < -0x8000000000000000 then .error .tooSmall
  else if 0x7FFFFFFFFFFFFFFF < n then .error .tooLarge
  else .ok n

/-- The digits of a base behind the letters that tell it. -/
def basedDigits (letters : List Char) (isDigit : Char → Bool) (name : String) :
    Reader (List Char) :=
  within name do
    word letters
    must (digits isDigit)

/-- A number in a base of its own. -/
def based (base : Nat) (letters : List Char) (isDigit : Char → Bool) (name : String) : Reader Int :=
  must (checked (fun ds => fitting (shortNumeral base ds)) (basedDigits letters isDigit name))

/-- A decimal number. -/
def decimal : Reader Int := fun p =>
  match wholePart p with
  | .read (negative, ds) q =>
    let n : Int := shortNumeral 10 ds
    match fitting (if negative then -n else n) with
    | .ok n => .read n q
    | .error cause => (refuse cause) p
  | .declined c => .declined c
  | .refused c => .refused c

/-- An integer. -/
def integer : Reader Int := fun p =>
  match p.rest with
  | '0' :: 'x' :: _ => based 16 ['0', 'x'] isHexDigit "hexadecimal integer" p
  | '0' :: 'o' :: _ => based 8 ['0', 'o'] (fun c => '0' ≤ c && c ≤ '7') "octal integer" p
  | '0' :: 'b' :: _ => based 2 ['0', 'b'] (fun c => c == '0' || c == '1') "binary integer" p
  | _ => decimal p

/-! ## Floats -/

/-- The double nearest to `digits · 10 ^ exponent`.  Numbers that are too large or too small by far
    are not computed. -/
def nearest (digits : List Char) (exponent : Int) : Float :=
  let ds := digits.dropWhile (· == '0')
  let size : Int := ds.length + exponent
  if ds.isEmpty ∨ size < -400 then 0.0
  else if 400 < size then 1.0 / 0.0
  else if exponent < 0 then Float.ofScientific (numeral 10 ds) true exponent.natAbs
  else Float.ofScientific (numeral 10 ds) false exponent.natAbs

/-- The fraction of a float: its digits. -/
def fraction : Reader (List Char) := do
  char '.'
  wanting "digit" (must (digits isDecimal))

/-- The exponent of a float. -/
def exponent : Reader Int := do
  let _ ← satisfying fun c => c == 'e' || c == 'E'
  let negative ← sign
  let n : Int := numeral 10 (← must (digits isDecimal))
  return if negative then -n else n

/-- The fraction and the exponent of a float, of which there is at least one. -/
def scale : Reader (List Char × Int) :=
  orElse ((([], ·)) <$> exponent) do
    let f ← fraction
    return (f, (← optional exponent).getD 0)

/-- A float in digits. -/
def digitalFloat : Reader Float := fun p =>
  match (do return (← wholePart, ← scale) : Reader _) p with
  | .read ((negative, whole), fraction, exponent) q =>
    let x := nearest (whole ++ fraction) (exponent - fraction.length)
    if negative then .read (-x) q
    else if x.isInf then .refused (.here p)
    else .read x q
  | .declined c => .declined c
  | .refused c => .refused c

/-- Infinity. -/
def infinity : Reader Float := (fun _ => 1.0 / 0.0) <$> word ['i', 'n', 'f']

/-- What is no number. -/
def noNumber : Reader Float := (fun _ => 0.0 / 0.0) <$> word ['n', 'a', 'n']

/-- A float. -/
def float : Reader Float := within "floating-point number" (orElse digitalFloat do
  let negative ← sign
  let x ← orElse infinity noNumber
  return if negative then -x else x)

end Coffer.Toml
