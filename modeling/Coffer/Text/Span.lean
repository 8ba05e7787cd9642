import Coffer.Text.Quoted
/-
  Spans of time in diagnostic renderings.

  A span is written in the largest of the units second and millisecond that it reaches, with as many
  decimals as it takes and no more.
-/
namespace Coffer.Text

/-- The three decimals of thousandths, without the zeros at the end. -/
def decimals (thousandths : Nat) : List Char :=
  let digit (n : Nat) := Char.ofNat (48 + n % 10)
  let backwards := [digit thousandths, digit (thousandths / 10), digit (thousandths / 100)]
  (backwards.dropWhile (· == '0')).reverse

/-- A span of so many milliseconds. -/
def span (milliseconds : Nat) : String :=
  if milliseconds = 0 then "0ns"
  else if milliseconds < 1000 then s!"{milliseconds}ms"
  else
    let fraction := decimals (milliseconds % 1000)
    s!"{milliseconds / 1000}" ++
      (if fraction.isEmpty then "" else "." ++ String.ofList fraction) ++ "s"

end Coffer.Text
