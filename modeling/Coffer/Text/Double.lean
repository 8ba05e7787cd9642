/-
  Doubles as texts.

  A double is written with the fewest decimal digits that no other double is nearer to, and without
  an exponent.  Of two such numbers with equally many digits the nearer one is taken, and of two
  that are equally near the larger one.
-/
namespace Coffer.Text

/-- A finite double that is not negative: `m · 2 ^ q`. -/
structure Binary where
  m : Nat
  q : Int
  /-- The double below is only half as far away as the one above. -/
  narrowBelow : Bool

/-- The double with these bits, but for its sign. -/
def Binary.ofBits (bits : UInt64) : Binary :=
  let e := ((bits >>> 52) &&& 0x7FF).toNat
  let f := (bits &&& 0xFFFFFFFFFFFFF).toNat
  if e = 0 then ⟨f, -1074, false⟩
  else ⟨0x10000000000000 + f, (e : Int) - 1075, f = 0 && 1 < e⟩

/-- A number `digits · 10 ^ exponent`. -/
structure Decimal where
  digits : Nat
  exponent : Int

/-- How `a · 10 ^ i` compares with `n · 2 ^ j`. -/
def compareScaled (a : Nat) (i : Int) (n : Nat) (j : Int) : Ordering :=
  compare (a * Nat.pow 10 i.toNat * Nat.pow 2 (-j).toNat)
    (n * Nat.pow 2 j.toNat * Nat.pow 10 (-i).toNat)

namespace Binary

/-- Whether no other double is nearer to `d`, where an even `m` wins at the middle. -/
def readsBack (x : Binary) (d : Decimal) : Bool :=
  let low := if x.narrowBelow then 4 * x.m - 1 else 4 * x.m - 2
  let fromLow := compareScaled d.digits d.exponent low (x.q - 2)
  let fromHigh := compareScaled d.digits d.exponent (4 * x.m + 2) (x.q - 2)
  let even := x.m % 2 = 0
  (fromLow == .gt || (even && fromLow == .eq)) && (fromHigh == .lt || (even && fromHigh == .eq))

/-- The number of decimal digits of `n`. -/
def digitCount (n : Nat) : Nat := (Nat.toDigits 10 n).length

/-- The least power of ten, as an exponent, that is above `x`, which is not zero. -/
def magnitude (x : Binary) : Int :=
  let above := x.m * Nat.pow 2 x.q.toNat
  let below := Nat.pow 2 (-x.q).toNat
  if below ≤ above then digitCount (above / below) else 1 - digitCount ((below - 1) / above)

/-- The multiple of `10 ^ exponent` that stands for `x`, if one of the two next to it does. -/
def onGrid? (x : Binary) (exponent : Int) : Option Decimal :=
  let above := x.m * Nat.pow 2 x.q.toNat * Nat.pow 10 (-exponent).toNat
  let below := Nat.pow 2 (-x.q).toNat * Nat.pow 10 exponent.toNat
  let low := above / below
  let lower : Decimal := ⟨low, exponent⟩
  let upper : Decimal := ⟨low + 1, exponent⟩
  match x.readsBack lower, x.readsBack upper with
  | true, true => some (if 2 * (above % below) < below then lower else upper)
  | true, false => some lower
  | false, true => some upper
  | false, false => none

/-- The shortest decimal that stands for `x`, which is not zero. -/
def shortest (x : Binary) : Decimal :=
  let size := x.magnitude
  ((List.range 17).findSome? fun n => x.onGrid? (size - ((n : Nat) + 1))).getD ⟨0, 0⟩

end Binary

/-- A decimal without an exponent, and with a point in every case. -/
def Decimal.text (d : Decimal) : String :=
  let ds := Nat.toDigits 10 d.digits
  if 0 ≤ d.exponent then
    String.ofList (ds ++ List.replicate d.exponent.toNat '0') ++ ".0"
  else
    let places := (-d.exponent).toNat
    let padded := List.replicate (places + 1 - ds.length) '0' ++ ds
    let whole := padded.length - places
    String.ofList (padded.take whole) ++ "." ++ String.ofList (padded.drop whole)

/-- A double as a text. -/
def double (x : Float) : String :=
  if x.isNaN then "NaN"
  else
    let sign := if x.toBits >>> 63 = 0 then "" else "-"
    let b := Binary.ofBits x.toBits
    if x.isInf then sign ++ "inf"
    else if b.m = 0 then sign ++ "0.0"
    else sign ++ b.shortest.text

end Coffer.Text
