import Coffer.Cipher.Aes.State
/-
  AES round keys and the cipher itself (FIPS 197).

  A user key of 16, 24 or 32 bytes is expanded into `RoundKeys`: one for the start, one for each
  middle round and one for the last, which mixes no columns.  `RoundKeys.decrypt` takes the same
  keys in the opposite order and undoes each step of `RoundKeys.encrypt`.
-/
namespace Coffer.Cipher.Aes

/-! ## Rounds -/

/-- The keys of all rounds. -/
structure RoundKeys where
  first : State
  middle : List State
  last : State
  deriving DecidableEq, Repr

namespace RoundKeys

/-- A middle round. -/
def round (s k : State) : State := s.subBytes.shiftRows.mixColumns.addKey k

/-- A middle round undone. -/
def invRound (s k : State) : State := (s.addKey k).invMixColumns.invShiftRows.invSubBytes

/-- One block encrypted. -/
def encrypt (keys : RoundKeys) (s : State) : State :=
  ((keys.middle.foldl round (s.addKey keys.first)).subBytes.shiftRows).addKey keys.last

/-- One block decrypted. -/
def decrypt (keys : RoundKeys) (s : State) : State :=
  (keys.middle.reverse.foldl invRound
    (s.addKey keys.last).invShiftRows.invSubBytes).addKey keys.first

/-- The number of rounds. -/
def rounds (keys : RoundKeys) : Nat := keys.middle.length + 1

end RoundKeys

/-! ## Expanding a user key -/

/-- The columns spelled by a byte string; a shorter tail is left out. -/
def columns : Bytes → List Column
  | a :: b :: c :: d :: rest => ⟨a, b, c, d⟩ :: columns rest
  | _ => []

/-- The states spelled by a list of columns; a shorter tail is left out. -/
def states : List Column → List State
  | w :: x :: y :: z :: rest => ⟨w, x, y, z⟩ :: states rest
  | _ => []

/-- The constant of the `n`-th use: a power of two in the field. -/
def roundConstant (n : Nat) : UInt8 := (List.replicate (n - 1) ()).foldl (fun c _ => double c) 1

/-- What is added to the word `n` places back to give word `i`, from word `i - 1`. -/
def nextTerm (n i : Nat) (previous : Column) : Column :=
  if i % n = 0 then (previous.rotate.map subByte).xor ⟨roundConstant (i / n), 0, 0, 0⟩
  else if 6 < n ∧ i % n = 4 then previous.map subByte
  else previous

/-- `count` more words of a schedule, from word `i` on; `window` holds the `n` words before. -/
def moreWords (n : Nat) : (count i : Nat) → (window : List Column) → List Column
  | 0, _, _ => []
  | count + 1, i, window =>
    let word := (window.headD default).xor (nextTerm n i (window.getLastD default))
    word :: moreWords n count (i + 1) (window.tail ++ [word])

/-- The rounds of a key length, for the three lengths there are. -/
def roundsOfLength? : Nat → Option Nat
  | 16 => some 10
  | 24 => some 12
  | 32 => some 14
  | _ => none

/-- The round keys of a user key of 16, 24 or 32 bytes. -/
def expandKey? (key : Bytes) : Option RoundKeys := do
  let rounds ← roundsOfLength? key.length
  let words := columns key
  let n := words.length
  let all := states (words ++ moreWords n (4 * (rounds + 1) - n) n words)
  return ⟨all.headD default, all.tail.dropLast, all.getLastD default⟩

end Coffer.Cipher.Aes
