import Coffer.Text.Unprinted
/-
  Texts in diagnostic renderings.

  `quote` writes a text between double quotes so that every character of it can be told apart on
  a terminal: the quote, the backslash and the usual control characters have short escapes, and any
  other character that does not print on its own is written `\u{..}` with its number in base 16.
-/
namespace Coffer.Text

/-- The digits of `n` in base 16, in lower case and without leading zeros. -/
def hexNumber (n : Nat) : String := String.ofList (Nat.toDigits 16 n)

/-- The two digits of a byte in base 16. -/
def hexByte (b : UInt8) : String :=
  if b < 16 then "0" ++ hexNumber b.toNat else hexNumber b.toNat

/-- The two digits of a byte in base 16, in upper case. -/
def hexByteUpper (b : UInt8) : String := String.ofList ((hexByte b).toList.map Char.toUpper)

/-- One character as it stands between double quotes. -/
def escape (c : Char) : String :=
  if c = '"' then "\\\""
  else if c = '\\' then "\\\\"
  else if c = '\n' then "\\n"
  else if c = '\r' then "\\r"
  else if c = '\t' then "\\t"
  else if c = '\x00' then "\\0"
  else if isPrinted c then c.toString
  else "\\u\x7b" ++ hexNumber c.toNat ++ "\x7d"

/-- A text between double quotes, with every character told apart. -/
def quote (s : String) : String :=
  "\"" ++ String.join (s.toList.map escape) ++ "\""

/-- A record in a diagnostic rendering: its name and its fields in order. -/
def record (name : String) (fields : List (String × String)) : String :=
  name ++ " \x7b " ++ ", ".intercalate (fields.map fun (f, v) => f ++ ": " ++ v) ++ " \x7d"

end Coffer.Text
