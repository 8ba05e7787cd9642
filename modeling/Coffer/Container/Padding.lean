import Coffer.Bytes
import Coffer.Resource.Error
/-
  Padding to whole blocks.

  `pad` adds between 1 and a whole block of bytes, each holding the number of bytes added (modulo
  256, as a byte does).  `unpaddedSize` reads that number back from a last block and refuses a block
  that no padding can end in.
-/
namespace Coffer.Container

open Resource (ResolveError)

/-- The number of bytes that `pad` adds to `size` bytes. -/
def padCount (blockSize size : Nat) : Nat := blockSize - size % blockSize

/-- `b` with padding up to a whole number of blocks. -/
def pad (blockSize : Nat) (b : Bytes) : Bytes :=
  b ++ List.replicate (padCount blockSize b.length) (UInt8.ofNat (padCount blockSize b.length))

/-- The number of data bytes in a padded last block. -/
def unpaddedSize (block : Bytes) : Except ResolveError Nat :=
  match block.getLast? with
  | none => .error (.format .padding)
  | some last =>
    let n := last.toNat
    if n = 0 ∨ block.length < n then .error (.format .padding)
    else if (block.drop (block.length - n)).all (· == last) then .ok (block.length - n)
    else .error (.format .padding)

end Coffer.Container
