import Coffer.Container.Header
import Coffer.Proofs.Kdf.Key
import Coffer.Proofs.Stream.Source
/-
  The header is read back as it was written.

  `decode_encode` takes the fields of an encoded header apart again, each behind the bytes of the
  fields before it (`slice_append`); `readFrom_of_delivered` finds a header at the front of whatever
  a raw source delivers, and `readFrom_eq_ok_iff` says what it takes to read one at all.
-/
namespace Coffer.Container

open Kdf (Cost)
open Resource (ResolveError)

/-- Sixteen bytes are what is made of them. -/
theorem sixteenOf_of_length {b : Bytes} (h : b.length = 16) : (sixteenOf b).val = b := by
  show b.take 16 ++ List.replicate (16 - (b.take 16).length) 0 = b
  rw [List.take_of_length_le (by omega), h]
  exact List.append_nil b

namespace Header

/-- A field stands behind the fields before it. -/
theorem slice_append {a b : Bytes} {at_ count : Nat} (ha : a.length = at_) (hb : b.length = count)
    (c : Bytes) : slice at_ count (a ++ (b ++ c)) = b := by
  rw [slice, ← ha, List.drop_left, ← hb, List.take_left]

theorem wordAt_append {a : Bytes} {at_ : Nat} (ha : a.length = at_) (w : UInt32) (c : Bytes) :
    wordAt at_ (a ++ (be32 w.toNat ++ c)) = w := by
  rw [wordAt, slice_append ha (show (be32 w.toNat).length = 4 from rfl), bigEndian_be32 w.toNat_lt]
  exact UInt32.ofNat_toNat

/-- The bytes in front of the cost. -/
def opening (h : Header) : Bytes := magic ++ [formatVersion, UInt8.ofNat h.algorithm.index]

/-- The bytes of the cost. -/
def costBytes (h : Header) : Bytes :=
  be32 h.cost.memory.toNat ++ be32 h.cost.passes.toNat ++ be32 h.cost.lanes.toNat

theorem cost_encode (h : Header) :
    (⟨wordAt 10 h.encode, wordAt 14 h.encode, wordAt 18 h.encode⟩ : Cost) = h.cost := by
  have hmemory : h.encode = h.opening ++ (be32 h.cost.memory.toNat ++ (be32 h.cost.passes.toNat ++
      be32 h.cost.lanes.toNat ++ h.salt.val ++ h.iv.val ++ h.keyCheck.val)) := by
    simp only [encode, opening, List.append_assoc]
  have hpasses : h.encode = h.opening ++ be32 h.cost.memory.toNat ++ (be32 h.cost.passes.toNat ++
      (be32 h.cost.lanes.toNat ++ h.salt.val ++ h.iv.val ++ h.keyCheck.val)) := by
    simp only [encode, opening, List.append_assoc]
  have hlanes : h.encode = h.opening ++ be32 h.cost.memory.toNat ++ be32 h.cost.passes.toNat ++
      (be32 h.cost.lanes.toNat ++ (h.salt.val ++ h.iv.val ++ h.keyCheck.val)) := by
    simp only [encode, opening, List.append_assoc]
  have h10 : wordAt 10 h.encode = h.cost.memory := by
    rw [hmemory]
    refine wordAt_append ?_ _ _
    rfl
  have h14 : wordAt 14 h.encode = h.cost.passes := by
    rw [hpasses]
    refine wordAt_append ?_ _ _
    rfl
  have h18 : wordAt 18 h.encode = h.cost.lanes := by
    rw [hlanes]
    refine wordAt_append ?_ _ _
    rfl
  rw [h10, h14, h18]

theorem salt_encode (h : Header) (hlen : 22 + 16 ≤ h.encode.length) :
    sixteenAt 22 h.encode hlen = h.salt := by
  have hcut : h.encode = (h.opening ++ h.costBytes) ++ (h.salt.val ++ (h.iv.val ++ h.keyCheck.val)) := by
    simp only [encode, opening, costBytes, List.append_assoc]
  refine Subtype.ext ?_
  show slice 22 16 h.encode = h.salt.val
  rw [hcut]
  refine slice_append ?_ h.salt.property _
  rfl

theorem iv_encode (h : Header) (hlen : 38 + 16 ≤ h.encode.length) :
    sixteenAt 38 h.encode hlen = h.iv := by
  have hcut : h.encode = (h.opening ++ h.costBytes ++ h.salt.val) ++ (h.iv.val ++ h.keyCheck.val) := by
    simp only [encode, opening, costBytes, List.append_assoc]
  have hfront : (h.opening ++ h.costBytes ++ h.salt.val).length = 38 := by
    rw [List.length_append, h.salt.property]
    rfl
  refine Subtype.ext ?_
  show slice 38 16 h.encode = h.iv.val
  rw [hcut]
  exact slice_append hfront h.iv.property _

theorem keyCheck_encode (h : Header) (hlen : 54 + 16 ≤ h.encode.length) :
    sixteenAt 54 h.encode hlen = h.keyCheck := by
  have hcut : h.encode =
      (h.opening ++ h.costBytes ++ h.salt.val ++ h.iv.val) ++ (h.keyCheck.val ++ []) := by
    simp only [encode, opening, costBytes, List.append_assoc, List.append_nil]
  have hfront : (h.opening ++ h.costBytes ++ h.salt.val ++ h.iv.val).length = 54 := by
    rw [List.length_append, List.length_append, h.salt.property, h.iv.property]
    rfl
  refine Subtype.ext ?_
  show slice 54 16 h.encode = h.keyCheck.val
  rw [hcut]
  exact slice_append hfront h.keyCheck.property _

/-- **An encoded header is decoded to itself,** once its cost has been looked at. -/
theorem decode_encode_eq (h : Header) (hlen : h.encode.length = headerSize) :
    decode h.encode hlen = (checkCost h.cost).map fun _ => h := by
  have hmagic : h.encode.take 8 = magic := rfl
  have hversion : h.encode.getD 8 0 = formatVersion := rfl
  have htag : Algorithm.ofIndex? (h.encode.getD 9 0).toNat = some h.algorithm := by
    show Algorithm.ofIndex? (UInt8.ofNat h.algorithm.index).toNat = some h.algorithm
    rcases h.algorithm with _ | _ | _ <;> rfl
  simp only [decode, hmagic, hversion, htag, cost_encode, salt_encode, iv_encode, keyCheck_encode]
  cases checkCost h.cost <;> rfl

theorem decode_encode {h : Header} (hcost : checkCost h.cost = .ok ())
    (hlen : h.encode.length = headerSize) : decode h.encode hlen = .ok h := by
  rw [decode_encode_eq, hcost]
  rfl

/-- **A header is found at the front of what a raw source delivers,** and the rest is left. -/
theorem readFrom_of_delivered {h : Header} (hcost : checkCost h.cost = .ok ()) {s : Source}
    {body : Bytes} (hs : s.ending = .finished) (hfaults : s.faults = [])
    (hdelivered : s.delivered = h.encode ++ body) :
    ∃ later, readFrom s = (.ok h, later) ∧ later.delivered = body ∧ later.faults = [] ∧
      later.ending = .finished := by
  have hlen := length_encode h
  obtain ⟨later, hread, hd, hf, he⟩ := Source.readExact_of_le hs hfaults
    (show headerSize ≤ s.delivered.length by rw [hdelivered, List.length_append, hlen]; omega)
  rw [hdelivered, ← hlen, List.take_left] at hread
  rw [hdelivered, ← hlen, List.drop_left] at hd
  refine ⟨later, ?_, hd, hf, he⟩
  rw [hlen] at hread
  simp only [readFrom, hread, hlen, decode_encode hcost, dif_pos]

/-- **A header is read where the next 70 bytes are one.** -/
theorem readFrom_eq_ok_iff {h : Header} {s later : Source} :
    readFrom s = (.ok h, later) ↔ ∃ (raw : Bytes) (hlen : raw.length = headerSize),
      s.readExact headerSize = (.ok raw, later) ∧ decode raw hlen = .ok h := by
  rw [readFrom]
  rcases hread : s.readExact headerSize with ⟨e | raw, left⟩
  · constructor
    · intro hfrom
      cases hfrom
    · rintro ⟨_, _, ⟨⟩, -⟩
  · have hlen := (Source.readExact_eq_ok hread).1
    simp only [dif_pos hlen]
    constructor
    · intro hfrom
      obtain ⟨hdecode, rfl⟩ := Prod.mk.inj hfrom
      exact ⟨raw, hlen, rfl, hdecode⟩
    · rintro ⟨_, _, ⟨⟩, hdecode⟩
      rw [hdecode]

end Header

end Coffer.Container
