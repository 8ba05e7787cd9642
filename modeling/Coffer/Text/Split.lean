/-
  Cutting texts at a character.

  `splitOnce` cuts at the first occurrence, `splitOn` at every one.
-/
namespace Coffer.Text

/-- The text before the first `c` and the text after it, when `c` occurs. -/
def splitOnce (c : Char) : List Char → Option (List Char × List Char)
  | [] => none
  | x :: rest =>
    if x = c then some ([], rest)
    else (splitOnce c rest).map fun (before, after) => (x :: before, after)

/-- The pieces of `cs` between occurrences of `c`; there is always at least one. -/
def splitOn (c : Char) : List Char → List (List Char)
  | [] => [[]]
  | x :: rest =>
    if x = c then [] :: splitOn c rest
    else match splitOn c rest with
      | [] => [[x]]
      | piece :: pieces => (x :: piece) :: pieces

end Coffer.Text
