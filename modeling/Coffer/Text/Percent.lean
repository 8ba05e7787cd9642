import Coffer.Bytes
/-
  Percent escapes.

  `encode` writes a text in ASCII: the characters that separate the parts of a resource path,
  blanks, controls and everything beyond ASCII become escapes of one byte each.  `decode` reads
  escapes back byte by byte.  It takes hexadecimal digits of either case, and also a plus sign in
  the place of the first digit, which counts for nothing.
-/
namespace Coffer.Text.Percent

/-- What can be wrong with escapes. -/
inductive Fault
  /-- No two digits follow a percent sign, which stands at this byte. -/
  | badEscape (offset : Nat)
  | notUtf8
  deriving DecidableEq, Repr

/-- The text of a fault. -/
def Fault.message : Fault → String
  | badEscape offset => s!"bad percent escape at offset {offset}"
  | notUtf8 => "percent escapes do not decode to UTF-8"

/-! ## Digits -/

/-- The value of a hexadecimal digit. -/
def digit? (b : UInt8) : Option UInt8 :=
  if 0x30 ≤ b && b ≤ 0x39 then some (b - 0x30)
  else if 0x41 ≤ b && b ≤ 0x46 then some (b - 0x37)
  else if 0x61 ≤ b && b ≤ 0x66 then some (b - 0x57)
  else none

/-- The byte that two characters after a percent sign denote. -/
def pair? (high low : UInt8) : Option UInt8 :=
  if high = 0x2B then digit? low
  else do return (← digit? high) * 16 + (← digit? low)

/-- The digit of a value below 16, in upper case. -/
def digitByte (n : UInt8) : UInt8 := if n < 10 then 0x30 + n else 0x37 + n

/-! ## Decoding -/

/-- The bytes that `b` spells; `offset` bytes have gone before. -/
def decodeBytes (offset : Nat) : Bytes → Except Fault Bytes
  | [] => .ok []
  | 0x25 :: high :: low :: rest =>
    match pair? high low with
    | none => .error (.badEscape offset)
    | some b => (decodeBytes (offset + 3) rest).map (b :: ·)
  | b :: rest =>
    if b = 0x25 then .error (.badEscape offset)
    else (decodeBytes (offset + 1) rest).map (b :: ·)

/-- The text that `s` spells. -/
def decode (s : String) : Except Fault String := do
  match ofUtf8? (← decodeBytes 0 (utf8 s)) with
  | some t => return t
  | none => throw .notUtf8

/-! ## Encoding -/

/-- Whether a byte is written as an escape. -/
def isReserved (b : UInt8) : Bool :=
  b = 0x25 || b = 0x3F || b = 0x26 || b = 0x3D || b = 0x23 || b ≤ 0x20 || 0x7F ≤ b

/-- A byte as it is written. -/
def encodeByte (b : UInt8) : Bytes :=
  if isReserved b then [0x25, digitByte (b / 16), digitByte (b % 16)] else [b]

/-- The bytes `s` is written with. -/
def encodeBytes (b : Bytes) : Bytes := b.flatMap encodeByte

/-- The characters of ASCII bytes. -/
def asciiText (b : Bytes) : String := String.ofList (b.map fun x => Char.ofNat x.toNat)

/-- `s` in ASCII. -/
def encode (s : String) : String := asciiText (encodeBytes (utf8 s))

end Coffer.Text.Percent
