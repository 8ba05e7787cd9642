import Coffer.Digest.Words
/-
  BLAKE3 key derivation, for key material of at most one chunk (1024 bytes).

  A derivation hashes twice: the context text gives a key, and that key hashes the key material.
  Here the context is one of this library's constants and the material is a cipher key, so neither
  reaches a second chunk and no tree of chunks is needed.
-/
namespace Coffer.Digest.Blake3

/-- The initial chaining value. -/
def initial : Array UInt32 :=
  #[0x6A09E667, 0xBB67AE85, 0x3C6EF372, 0xA54FF53A, 0x510E527F, 0x9B05688C, 0x1F83D9AB, 0x5BE0CD19]

/-- The order in which a round takes the message words of the round before. -/
def permutation : List Nat := [2, 6, 3, 10, 7, 0, 4, 13, 1, 11, 12, 5, 9, 14, 15, 8]

/-- The four state places that each of a round's eight steps mixes. -/
def places : List (Nat × Nat × Nat × Nat) :=
  [(0, 4, 8, 12), (1, 5, 9, 13), (2, 6, 10, 14), (3, 7, 11, 15),
   (0, 5, 10, 15), (1, 6, 11, 12), (2, 7, 8, 13), (3, 4, 9, 14)]

/-- What a compression is for; the marks of one compression are added. -/
structure Marks where
  chunkStart : UInt32 := 0
  chunkEnd : UInt32 := 0
  root : UInt32 := 0
  purpose : UInt32

/-- The purpose of hashing a context text. -/
def contextPurpose : UInt32 := 32

/-- The purpose of hashing key material. -/
def materialPurpose : UInt32 := 64

/-- The marks as one word. -/
def Marks.word (m : Marks) : UInt32 := m.chunkStart + m.chunkEnd + m.root + m.purpose

/-- `w` turned right by `n` bits, for `n` between 1 and 31. -/
def rotateRight (w n : UInt32) : UInt32 := (w >>> n) ||| (w <<< (32 - n))

/-- Mix two message words into four places of the state. -/
def mix (v : Array UInt32) (place : Nat × Nat × Nat × Nat) (m n : UInt32) : Array UInt32 :=
  let (i, j, k, l) := place
  let a := v.getD i 0 + v.getD j 0 + m
  let d := rotateRight (v.getD l 0 ^^^ a) 16
  let c := v.getD k 0 + d
  let b := rotateRight (v.getD j 0 ^^^ c) 12
  let a := a + b + n
  let d := rotateRight (d ^^^ a) 8
  let c := c + d
  let b := rotateRight (b ^^^ c) 7
  (((v.setIfInBounds i a).setIfInBounds j b).setIfInBounds k c).setIfInBounds l d

/-- One round over sixteen message words. -/
def round (v message : Array UInt32) : Array UInt32 :=
  places.zipIdx.foldl
    (fun v (place, i) => mix v place (message.getD (2 * i) 0) (message.getD (2 * i + 1) 0)) v

/-- The given number of rounds, the message words permuted in between. -/
def rounds : Nat → (v message : Array UInt32) → Array UInt32
  | 0, v, _ => v
  | n + 1, v, message =>
    rounds n (round v message) (permutation.map fun i => message.getD i 0).toArray

/-- The chaining value after a block of at most 64 bytes of the first chunk. -/
def compress (chaining : Array UInt32) (block : Bytes) (marks : Marks) : Array UInt32 :=
  let v := chaining ++ (initial.take 4) ++ #[0, 0, UInt32.ofNat block.length, marks.word]
  let v := rounds 7 v (words32 (zeroFilled 64 block))
  chaining.mapIdx fun i _ => v.getD i 0 ^^^ v.getD (i + 8) 0

/-- The chaining value after the remaining blocks of a chunk that is the root. -/
def absorb (purpose : UInt32) (start : UInt32) (chaining : Array UInt32) :
    List Bytes → Array UInt32
  | [] => chaining
  | [block] =>
    compress chaining block
      { chunkStart := start, chunkEnd := 2, root := 8, purpose := purpose }
  | block :: rest =>
    absorb purpose 0 (compress chaining block { chunkStart := start, purpose := purpose }) rest

/-- A digest of one chunk under a key, as eight words. -/
def hashChunk (purpose : UInt32) (key : Array UInt32) (input : Bytes) : Array UInt32 :=
  absorb purpose 1 key (pieces 64 input)

/-- The 32 bytes derived from `material` in the named context. -/
def deriveKey (context : String) (material : Bytes) : Bytes :=
  bytes32 (hashChunk materialPurpose (hashChunk contextPurpose initial (utf8 context)) material)

end Coffer.Digest.Blake3
