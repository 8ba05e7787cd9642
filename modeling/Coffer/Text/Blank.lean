/-
  Blanks around a text, and letter case.

  A blank is a character with Unicode's White_Space property; `trim` removes the blanks at both
  ends and nothing else.  Letter case is folded for the letters `A` to `Z` only, so that no other
  script can spell a keyword.
-/
namespace Coffer.Text

/-- Whether `c` has Unicode's White_Space property. -/
def isBlank (c : Char) : Bool :=
  let n := c.toNat
  (9 ≤ n && n ≤ 13) || n == 0x20 || n == 0x85 || n == 0xA0 || n == 0x1680 ||
    (0x2000 ≤ n && n ≤ 0x200A) || n == 0x2028 || n == 0x2029 || n == 0x202F || n == 0x205F ||
    n == 0x3000

/-- A list of characters without its blanks at the end. -/
def dropTrailingBlanks (cs : List Char) : List Char := (cs.reverse.dropWhile isBlank).reverse

/-- `s` without the blanks at its two ends. -/
def trim (s : String) : String :=
  String.ofList (dropTrailingBlanks (s.toList.dropWhile isBlank))

/-- `s` with the letters `A` to `Z` in lower case. -/
def lower (s : String) : String := String.ofList (s.toList.map Char.toLower)

/-- Whether `c` is a letter `a` to `z` or `A` to `Z`. -/
def isLetter (c : Char) : Bool := c.isAlpha

/-- Whether `c` is one of the digits `0` to `9`. -/
def isDigit (c : Char) : Bool := c.isDigit

end Coffer.Text
