import Coffer.Toml.Number
/-
  Dates and times of day in TOML documents.

  They are recognised and checked, and nothing is kept of them.  A date may have a time behind it,
  and that one a distance from universal time.
-/
namespace Coffer.Toml

open Reader

/-- Two digits, as a number from `low` to `high`. -/
def twoDigits (low high : Nat) : Reader Nat :=
  checked (fun ds =>
    let n := numeral 10 ds
    if low ≤ n ∧ n ≤ high then .ok n else .error .outOfRange) (digitsOf isDecimal 2)

/-- The number of days of a month. -/
def daysIn (year month : Nat) : Nat :=
  if month = 2 then
    if year % 4 = 0 ∧ (year % 100 ≠ 0 ∨ year % 400 = 0) then 29 else 28
  else if month = 4 ∨ month = 6 ∨ month = 9 ∨ month = 11 then 30
  else 31

/-- A day of a month. -/
def dayOf (year month : Nat) : Reader Nat :=
  checked (fun d => if d ≤ daysIn year month then .ok d else .error .outOfRange) (twoDigits 1 31)

/-- A date. -/
def day : Reader Unit := do
  let year := numeral 10 (← digitsOf isDecimal 4)
  char '-'
  let month ← must (twoDigits 1 12)
  must (char '-')
  let _ ← must (dayOf year month)

/-- A fraction of a second. -/
def secondFraction : Reader Unit := do
  char '.'
  let _ ← runOfSome isDecimal

/-- A time of day. -/
def timeOfDay : Reader Unit := do
  let _ ← twoDigits 0 23
  char ':'
  let _ ← must (twoDigits 0 59)
  must (char ':')
  let _ ← must (twoDigits 0 60)
  let _ ← optional secondFraction

/-- The distance from universal time. -/
def zone : Reader Unit := within "time offset" (orElse
  (do let _ ← satisfying fun c => c == 'Z' || c == 'z')
  (do
    let _ ← satisfying fun c => c == '+' || c == '-'
    let _ ← must (twoDigits 0 23)
    must (char ':')
    let _ ← must (twoDigits 0 59)))

/-- A date with a time, a date or a time. -/
def date : Reader Unit :=
  orElse
    (within "date-time" do
      day
      let _ ← optional do
        let _ ← satisfying fun c => c == 'T' || c == 't' || c == ' '
        timeOfDay
        optional zone)
    (within "time" timeOfDay)

end Coffer.Toml
