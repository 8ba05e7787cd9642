import Coffer.Digest.Words
/-
  The BLAKE2b digest (RFC 7693), without a key.

  The input is cut into pieces of 128 bytes; `compress` takes a state of eight words over each
  piece, and the last piece is marked.  The digest is the front of the final state.
-/
namespace Coffer.Digest.Blake2b

/-- The initial state words. -/
def initial : Array UInt64 :=
  #[0x6a09e667f3bcc908, 0xbb67ae8584caa73b, 0x3c6ef372fe94f82b, 0xa54ff53a5f1d36f1,
    0x510e527fade682d1, 0x9b05688c2b3e6c1f, 0x1f83d9abfb41bd6b, 0x5be0cd19137e2179]

/-- The order in which each round takes the message words. -/
def orders : List (List Nat) :=
  [[0, 1, 2, 3, 4, 5, 6, 7, 8, 9, 10, 11, 12, 13, 14, 15],
   [14, 10, 4, 8, 9, 15, 13, 6, 1, 12, 0, 2, 11, 7, 5, 3],
   [11, 8, 12, 0, 5, 2, 15, 13, 10, 14, 3, 6, 7, 1, 9, 4],
   [7, 9, 3, 1, 13, 12, 11, 14, 2, 6, 5, 10, 4, 0, 15, 8],
   [9, 0, 5, 7, 2, 4, 10, 15, 14, 1, 11, 12, 6, 8, 3, 13],
   [2, 12, 6, 10, 0, 11, 8, 3, 4, 13, 7, 5, 15, 14, 1, 9],
   [12, 5, 1, 15, 14, 13, 4, 10, 0, 7, 6, 3, 9, 2, 8, 11],
   [13, 11, 7, 14, 12, 1, 3, 9, 5, 0, 15, 4, 8, 6, 2, 10],
   [6, 15, 14, 9, 11, 3, 0, 8, 12, 2, 13, 7, 1, 4, 10, 5],
   [10, 2, 8, 4, 7, 6, 1, 5, 15, 11, 9, 14, 3, 12, 13, 0],
   [0, 1, 2, 3, 4, 5, 6, 7, 8, 9, 10, 11, 12, 13, 14, 15],
   [14, 10, 4, 8, 9, 15, 13, 6, 1, 12, 0, 2, 11, 7, 5, 3]]

/-- The four state places that each of a round's eight steps mixes. -/
def places : List (Nat × Nat × Nat × Nat) :=
  [(0, 4, 8, 12), (1, 5, 9, 13), (2, 6, 10, 14), (3, 7, 11, 15),
   (0, 5, 10, 15), (1, 6, 11, 12), (2, 7, 8, 13), (3, 4, 9, 14)]

/-- `w` turned right by `n` bits, for `n` between 1 and 63. -/
def rotateRight (w n : UInt64) : UInt64 := (w >>> n) ||| (w <<< (64 - n))

/-- Mix two message words into four places of the state. -/
def mix (v : Array UInt64) (place : Nat × Nat × Nat × Nat) (m n : UInt64) : Array UInt64 :=
  let (i, j, k, l) := place
  let a := v.getD i 0 + v.getD j 0 + m
  let d := rotateRight (v.getD l 0 ^^^ a) 32
  let c := v.getD k 0 + d
  let b := rotateRight (v.getD j 0 ^^^ c) 24
  let a := a + b + n
  let d := rotateRight (d ^^^ a) 16
  let c := c + d
  let b := rotateRight (b ^^^ c) 63
  (((v.setIfInBounds i a).setIfInBounds j b).setIfInBounds k c).setIfInBounds l d

/-- One round over the message words in a given order. -/
def round (message : Array UInt64) (v : Array UInt64) (order : List Nat) : Array UInt64 :=
  (places.zip (blockPairs order)).foldl
    (fun v (place, m, n) => mix v place (message.getD m 0) (message.getD n 0)) v
where
  /-- Neighbours taken two by two. -/
  blockPairs : List Nat → List (Nat × Nat)
    | m :: n :: rest => (m, n) :: blockPairs rest
    | _ => []

/-- The state after one more piece; `count` is the number of input bytes up to its end. -/
def compress (h : Array UInt64) (piece : Bytes) (count : Nat) (isLast : Bool) : Array UInt64 :=
  let low := (h ++ initial).modify 12 (· ^^^ UInt64.ofNat count)
  let v := if isLast then low.modify 14 (~~~ ·) else low
  let v := orders.foldl (round (words64 (zeroFilled 128 piece))) v
  h.mapIdx fun i w => w ^^^ v.getD i 0 ^^^ v.getD (i + 8) 0

/-- The state after the remaining pieces, `count` bytes having gone before. -/
def absorb (h : Array UInt64) (count : Nat) : List Bytes → Array UInt64
  | [] => h
  | [piece] => compress h piece (count + piece.length) true
  | piece :: rest => absorb (compress h piece (count + 128) false) (count + 128) rest

/-- The digest of `size` bytes, for `size` between 1 and 64. -/
def hash (size : Nat) (input : Bytes) : Bytes :=
  let start := initial.modify 0 (· ^^^ UInt64.ofNat (0x01010000 + size))
  (bytes64 (absorb start 0 (pieces 128 input))).take size

end Coffer.Digest.Blake2b
