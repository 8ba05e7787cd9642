import Coffer.Digest.Blake2b
import Coffer.Kdf.Cost
/-
  Argon2id, version 1.3 (RFC 9106), without a secret and without associated data.

  Memory is a matrix of 1024-byte blocks, one row for each lane, in four slices.  Each pass fills
  it slice by slice; a new block is `mixBlocks` of the block before it and of an earlier block.
  In the first two slices of the first pass the earlier block is chosen from a counter, afterwards
  from the memory itself.  The tag is a digest of the last block of every lane, added up.
-/
namespace Coffer.Kdf.Argon2

open Digest

/-! ## Blocks -/

/-- A kibibyte as 128 words. -/
abbrev Block := Array UInt64

/-- A block of zeros. -/
def zeroBlock : Block := Array.replicate 128 0

/-- The bytewise exclusive or of two blocks. -/
def xorBlocks (x y : Block) : Block := x.zipWith (· ^^^ ·) y

/-- `x + y` plus twice the product of their lower halves. -/
def addProduct (x y : UInt64) : UInt64 := x + y + 2 * ((x &&& 0xFFFFFFFF) * (y &&& 0xFFFFFFFF))

/-- Mix four words of a block. -/
def mixWords (v : Block) (i j k l : Nat) : Block :=
  let a := addProduct (v.getD i 0) (v.getD j 0)
  let d := Blake2b.rotateRight (v.getD l 0 ^^^ a) 32
  let c := addProduct (v.getD k 0) d
  let b := Blake2b.rotateRight (v.getD j 0 ^^^ c) 24
  let a := addProduct a b
  let d := Blake2b.rotateRight (d ^^^ a) 16
  let c := addProduct c d
  let b := Blake2b.rotateRight (b ^^^ c) 63
  (((v.setIfInBounds i a).setIfInBounds j b).setIfInBounds k c).setIfInBounds l d

/-- Mix the sixteen words of a block that stand at the places `at_ 0` to `at_ 15`. -/
def permute (at_ : Nat → Nat) (v : Block) : Block :=
  Blake2b.places.foldl (fun v (i, j, k, l) => mixWords v (at_ i) (at_ j) (at_ k) (at_ l)) v

/-- The new block made of two: their sum, mixed by rows and then by columns, plus their sum. -/
def mixBlocks (x y : Block) : Block :=
  let r := xorBlocks x y
  let rows := (List.range 8).foldl (fun v i => permute (fun k => 16 * i + k) v) r
  let columns :=
    (List.range 8).foldl (fun v i => permute (fun k => 16 * (k / 2) + 2 * i + k % 2) v) rows
  xorBlocks columns r

/-! ## Digests of any length -/

/-- Digests of digests: the first half of each but the last, whose `size` bytes are all taken. -/
def chainDigests : (more : Nat) → (size : Nat) → Bytes → Bytes
  | 0, size, v => Blake2b.hash size v
  | more + 1, size, v =>
    let next := Blake2b.hash 64 v
    next.take 32 ++ chainDigests more size next

/-- A digest of `size` bytes, of any length. -/
def longHash (size : Nat) (input : Bytes) : Bytes :=
  let seeded := leBytes 4 size ++ input
  if size ≤ 64 then Blake2b.hash size seeded
  else
    let first := Blake2b.hash 64 seeded
    let count := (size + 31) / 32 - 2
    first.take 32 ++ chainDigests (count - 1) (size - 32 * count) first

/-! ## Filling the memory -/

/-- The dimensions of one derivation. -/
structure Shape where
  lanes : Nat
  /-- Blocks in one slice of one lane. -/
  segment : Nat
  passes : Nat

namespace Shape

/-- Blocks in one lane. -/
def lane (s : Shape) : Nat := 4 * s.segment

/-- Blocks in all. -/
def total (s : Shape) : Nat := s.lanes * s.lane

/-- The dimensions for a cost without fault: memory is rounded down to whole slices. -/
def ofCost (c : Cost) : Shape :=
  ⟨c.lanes.toNat, c.memory.toNat / (4 * c.lanes.toNat), c.passes.toNat⟩

end Shape

/-- A place in the filling order. -/
structure Position where
  pass : Nat
  slice : Nat
  lane : Nat
  /-- The place within the slice. -/
  offset : Nat

/-- Whether the earlier block is chosen from a counter here. -/
def Position.isCounted (p : Position) : Bool := p.pass = 0 && p.slice < 2

/-- The 128 choices number `n` for a slice, when they come from a counter. -/
def choices (s : Shape) (p : Position) (n : Nat) : Block :=
  let seed : Block :=
    (#[p.pass, p.lane, p.slice, s.total, s.passes, 2, n + 1].map UInt64.ofNat) ++
      Array.replicate 121 0
  mixBlocks zeroBlock (mixBlocks zeroBlock seed)

/-- The earlier block that a choice names: its lane and its place in the lane. -/
def reference (s : Shape) (p : Position) (choice : UInt64) : Nat × Nat :=
  let lane := if p.pass = 0 ∧ p.slice = 0 then p.lane else (choice >>> 32).toNat % s.lanes
  let finished := if p.pass = 0 then p.slice * s.segment else s.lane - s.segment
  let window :=
    if lane = p.lane then finished + p.offset - 1
    else if p.offset = 0 then finished - 1
    else finished
  let x := choice.toNat % 4294967296
  let back := window * (x * x / 4294967296) / 4294967296
  let start := if p.pass = 0 then 0 else (p.slice + 1) * s.segment
  (lane, (start + (window - 1 - back)) % s.lane)

/-- Fill one block of the memory. -/
def fillBlock (s : Shape) (counted : Array Block) (memory : Array Block) (p : Position) :
    Array Block :=
  let index := p.slice * s.segment + p.offset
  let place := p.lane * s.lane + index
  let previous := memory.getD (p.lane * s.lane + (index + s.lane - 1) % s.lane) zeroBlock
  let choice :=
    if p.isCounted then (counted.getD (p.offset / 128) zeroBlock).getD (p.offset % 128) 0
    else previous.getD 0 0
  let (lane, at_) := reference s p choice
  let mixed := mixBlocks previous (memory.getD (lane * s.lane + at_) zeroBlock)
  memory.setIfInBounds place <|
    if p.pass = 0 then mixed else xorBlocks mixed (memory.getD place zeroBlock)

/-- Fill one slice of one lane.  The first two blocks of a lane are given. -/
def fillSegment (s : Shape) (pass slice : Nat) (memory : Array Block) (lane : Nat) : Array Block :=
  let first := if pass = 0 ∧ slice = 0 then 2 else 0
  let here : Position := ⟨pass, slice, lane, 0⟩
  let counted : Array Block :=
    if here.isCounted then
      ((List.range ((s.segment + 127) / 128)).map (choices s here)).toArray
    else #[]
  ((List.range s.segment).drop first).foldl
    (fun memory offset => fillBlock s counted memory { here with offset := offset }) memory

/-- Fill the whole memory once. -/
def fillPass (s : Shape) (memory : Array Block) (pass : Nat) : Array Block :=
  (List.range 4).foldl
    (fun memory slice => (List.range s.lanes).foldl (fillSegment s pass slice) memory) memory

/-! ## The tag -/

/-- A byte string behind its length. -/
def counted (b : Bytes) : Bytes := leBytes 4 b.length ++ b

/-- The digest of all inputs, from which the first blocks are made. -/
def seed (c : Cost) (size : Nat) (password salt : Bytes) : Bytes :=
  Blake2b.hash 64 <|
    [c.lanes.toNat, size, c.memory.toNat, c.passes.toNat, 0x13, 2].flatMap (leBytes 4) ++
      counted password ++ counted salt ++ counted [] ++ counted []

/-- The first two blocks of a lane, and room for the others. -/
def startLane (s : Shape) (start : Bytes) (lane : Nat) : Array Block :=
  let first (i : Nat) := words64 (longHash 1024 (start ++ leBytes 4 i ++ leBytes 4 lane))
  #[first 0, first 1] ++ Array.replicate (s.lane - 2) zeroBlock

/-- The tag of `size` bytes of a password, for a cost without fault. -/
def tag (c : Cost) (size : Nat) (password salt : Bytes) : Bytes :=
  let s := Shape.ofCost c
  let start := seed c size password salt
  let memory := (List.range s.lanes).foldl (fun m lane => m ++ startLane s start lane) #[]
  let memory := (List.range s.passes).foldl (fillPass s) memory
  let last := (List.range s.lanes).foldl
    (fun sum lane => xorBlocks sum (memory.getD (lane * s.lane + s.lane - 1) zeroBlock)) zeroBlock
  longHash size (bytes64 last)

end Coffer.Kdf.Argon2
