import Coffer.Kdf.Key
import Coffer.Resource.Error
import Coffer.Stream.Sink
import Coffer.Stream.Source
/-
  The container header.

      offset  size  field
           0     8  magic "VFCRYPT" and a zero byte
           8     1  format version (1)
           9     1  algorithm tag
          10     4  memory cost in KiB   (big-endian)
          14     4  passes               (big-endian)
          18     4  lanes                (big-endian)
          22    16  salt
          38    16  initial chaining value
          54    16  key check value
          70        the body

  `Header.encode` and `Header.decode` are inverse to each other on headers whose cost keeps the
  ceilings.  The ceilings are checked before anything is spent, for a header is read before its key
  check value can be compared.
-/
namespace Coffer.Container

open Kdf (Cost)
open Resource (ResolveError)

/-! ## Sizes and ceilings -/

/-- The bytes every container starts with. -/
def magic : Bytes := [0x56, 0x46, 0x43, 0x52, 0x59, 0x50, 0x54, 0]

/-- The only version of the format. -/
def formatVersion : UInt8 := 1

/-- Bytes in a header. -/
def headerSize : Nat := 70

/-- Bytes in a chaining value; only ciphers with blocks of this size can be used. -/
def ivSize : Nat := 16

/-- The largest memory cost, in KiB. -/
def maxMemory : UInt32 := 1048576

/-- The largest number of passes. -/
def maxPasses : UInt32 := 16

/-- The largest number of lanes. -/
def maxLanes : UInt32 := 64

/-- Refuse a cost above the ceilings. -/
def checkCost (c : Cost) : Except ResolveError Unit :=
  if maxMemory < c.memory then .error (.format (.memoryCost c.memory.toNat maxMemory.toNat))
  else if maxPasses < c.passes then .error (.format (.timeCost c.passes.toNat maxPasses.toNat))
  else if maxLanes < c.lanes then .error (.format (.parallelism c.lanes.toNat maxLanes.toNat))
  else .ok ()

/-! ## Headers -/

/-- Sixteen bytes. -/
abbrev Sixteen := { b : Bytes // b.length = 16 }

/-- The first sixteen bytes of `b`, with zeros where there are fewer. -/
def sixteenOf (b : Bytes) : Sixteen :=
  ⟨b.take 16 ++ List.replicate (16 - (b.take 16).length) 0, by
    have := List.length_take_le 16 b
    simp only [List.length_append, List.length_replicate]
    omega⟩

/-- What a container says of itself. -/
structure Header where
  algorithm : Algorithm
  cost : Cost
  salt : Sixteen
  iv : Sixteen
  keyCheck : Sixteen
  deriving DecidableEq

namespace Header

/-- The bytes of a header. -/
def encode (h : Header) : Bytes :=
  magic ++ [formatVersion, UInt8.ofNat h.algorithm.index] ++
    be32 h.cost.memory.toNat ++ be32 h.cost.passes.toNat ++ be32 h.cost.lanes.toNat ++
    h.salt.val ++ h.iv.val ++ h.keyCheck.val

@[simp] theorem length_encode (h : Header) : h.encode.length = headerSize := by
  simp [encode, magic, be32, headerSize, h.salt.property, h.iv.property, h.keyCheck.property]

/-- `count` bytes of `raw` from `at_` on. -/
def slice (at_ count : Nat) (raw : Bytes) : Bytes := (raw.drop at_).take count

/-- The 32-bit word at an offset. -/
def wordAt (at_ : Nat) (raw : Bytes) : UInt32 := UInt32.ofNat (bigEndian (slice at_ 4 raw))

/-- The sixteen bytes at an offset. -/
def sixteenAt (at_ : Nat) (raw : Bytes) (h : at_ + 16 ≤ raw.length) : Sixteen :=
  ⟨slice at_ 16 raw, by simp [slice]; omega⟩

/-- The header spelled by 70 bytes. -/
def decode (raw : Bytes) (h : raw.length = headerSize) : Except ResolveError Header := do
  if raw.take 8 ≠ magic then throw (.format .badMagic)
  let version := raw.getD 8 0
  if version ≠ formatVersion then throw (.format (.version version))
  let tag := raw.getD 9 0
  let some algorithm := Algorithm.ofIndex? tag.toNat | throw (.format (.tag tag))
  let cost : Cost := ⟨wordAt 10 raw, wordAt 14 raw, wordAt 18 raw⟩
  checkCost cost
  return {
    algorithm := algorithm
    cost := cost
    salt := sixteenAt 22 raw (by rw [h]; decide)
    iv := sixteenAt 38 raw (by rw [h]; decide)
    keyCheck := sixteenAt 54 raw (by rw [h]; decide) }

/-- Decode the next 70 bytes of a source, and leave the rest of it. -/
def readFrom (s : Source) : Except ResolveError Header × Source :=
  match s.readExact headerSize with
  | (.error e, s') =>
    (.error (if e.kind = .unexpectedEof then .format .truncatedHeader else .io e), s')
  | (.ok raw, s') =>
    if h : raw.length = headerSize then (decode raw h, s')
    else (.error (.format .truncatedHeader), s')

/-- Write a header to a raw stream. -/
def writeTo {W : Type} [Output W] (h : Header) (w : W) : Except IoError Unit × W :=
  Output.writeAll w h.encode

end Header

end Coffer.Container
