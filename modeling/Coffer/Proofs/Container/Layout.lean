import Coffer.Proofs.Bytes
import Coffer.Proofs.Container.Header
import Coffer.Proofs.Outcome
import Mathlib.Tactic.SplitIfs
/-
  Seventy bytes are a header in one way at most.

  `Header.decode_eq_ok_iff` says field by field what it takes for 70 bytes to be decoded, and
  `Header.decode_eq_error` that nothing but the bytes is at fault otherwise.  Every byte stands in
  one of the fields (`eq_of_fields`), so a decoded header is encoded to the bytes it came from
  (`Header.encode_of_decode`).  `Header.WellFormed` are the rules that the bytes themselves keep,
  and `Header.readFrom_of_le` and `Header.readFrom_of_lt` say what a raw stream makes of it.
-/
namespace Coffer.Container

open Kdf (Cost)
open Resource (FormatFault ResolveError)

/-! ## The ceilings -/

/-- A cost is accepted up to the ceilings. -/
theorem checkCost_eq_ok_iff {c : Cost} : checkCost c = .ok () ↔
    c.memory.toNat ≤ 1048576 ∧ c.passes.toNat ≤ 16 ∧ c.lanes.toNat ≤ 64 := by
  have hmemory : maxMemory < c.memory ↔ 1048576 < c.memory.toNat := UInt32.lt_iff_toNat_lt
  have hpasses : maxPasses < c.passes ↔ 16 < c.passes.toNat := UInt32.lt_iff_toNat_lt
  have hlanes : maxLanes < c.lanes ↔ 64 < c.lanes.toNat := UInt32.lt_iff_toNat_lt
  simp only [checkCost, hmemory, hpasses, hlanes]
  split_ifs
  all_goals
    simp only [false_iff, true_iff]
    omega

/-- A cost above a ceiling is a fault of the container. -/
theorem checkCost_eq_error {c : Cost} {e : ResolveError} (h : checkCost c = .error e) :
    ∃ fault, e = .format fault := by
  unfold checkCost at h
  split_ifs at h <;> cases h <;> exact ⟨_, rfl⟩

/-! ## The fields of seventy bytes -/

namespace Header

variable {raw : Bytes} {h : Header}

theorem slice_append_drop (at_ count : Nat) (raw : Bytes) :
    slice at_ count raw ++ raw.drop (at_ + count) = raw.drop at_ := by
  rw [slice, ← List.drop_drop, List.take_append_drop]

theorem length_slice {at_ count : Nat} (h : at_ + count ≤ raw.length) :
    (slice at_ count raw).length = count := by
  rw [slice, List.length_take, List.length_drop]
  omega

theorem toNat_wordAt {at_ : Nat} (h : at_ + 4 ≤ raw.length) :
    (wordAt at_ raw).toNat = bigEndian (slice at_ 4 raw) := by
  have hlt := bigEndian_lt_pow (slice at_ 4 raw)
  rw [length_slice h] at hlt
  exact UInt32.toNat_ofNat_of_lt' hlt

/-- The word at an offset has the four bytes there. -/
theorem be32_wordAt {at_ : Nat} (h : at_ + 4 ≤ raw.length) :
    be32 (wordAt at_ raw).toNat = slice at_ 4 raw := by
  rw [toNat_wordAt h, be32_bigEndian (length_slice h)]

/-- **Seventy bytes are their fields, one behind the other.** -/
theorem eq_of_fields (hlen : raw.length = headerSize) :
    raw.take 8 ++ [raw.getD 8 0, raw.getD 9 0] ++ slice 10 4 raw ++ slice 14 4 raw ++
      slice 18 4 raw ++ slice 22 16 raw ++ slice 38 16 raw ++ slice 54 16 raw = raw := by
  have hsize : raw.length = 70 := hlen
  have hend : raw.drop 70 = [] := List.drop_eq_nil_of_le (by omega)
  have htwo : raw.drop 8 = raw.getD 8 0 :: raw.getD 9 0 :: raw.drop 10 := by
    rw [List.drop_eq_getElem_cons (by omega : 8 < raw.length),
      List.drop_eq_getElem_cons (by omega : 9 < raw.length)]
    simp [hsize]
  have hlast := slice_append_drop 54 16 raw
  rw [hend, List.append_nil] at hlast
  simp only [List.append_assoc]
  rw [hlast, slice_append_drop 38 16, slice_append_drop 22 16, slice_append_drop 18 4,
    slice_append_drop 14 4, slice_append_drop 10 4, List.cons_append, List.cons_append,
    List.nil_append, ← htwo, List.take_append_drop]

/-! ## Decoding -/

theorem decode_of_magic_ne (hlen : raw.length = headerSize) (hmagic : raw.take 8 ≠ magic) :
    decode raw hlen = .error (.format .badMagic) := by
  simp only [decode, hmagic, ne_eq, not_false_eq_true, if_true, throw_eq_error, error_bind]

theorem decode_of_version_ne (hlen : raw.length = headerSize) (hmagic : raw.take 8 = magic)
    (hversion : raw.getD 8 0 ≠ formatVersion) :
    decode raw hlen = .error (.format (.version (raw.getD 8 0))) := by
  simp only [decode, hmagic, hversion, ne_eq, not_true_eq_false, not_false_eq_true, if_true, if_false,
    throw_eq_error, error_bind]

theorem decode_of_tag_none (hlen : raw.length = headerSize) (hmagic : raw.take 8 = magic)
    (hversion : raw.getD 8 0 = formatVersion)
    (htag : Algorithm.ofIndex? (raw.getD 9 0).toNat = none) :
    decode raw hlen = .error (.format (.tag (raw.getD 9 0))) := by
  simp only [decode, hmagic, hversion, htag, ne_eq, not_true_eq_false, if_false, throw_eq_error]

theorem decode_of_tag_some (hlen : raw.length = headerSize) (hmagic : raw.take 8 = magic)
    (hversion : raw.getD 8 0 = formatVersion) {algorithm : Algorithm}
    (htag : Algorithm.ofIndex? (raw.getD 9 0).toNat = some algorithm) :
    decode raw hlen = (checkCost ⟨wordAt 10 raw, wordAt 14 raw, wordAt 18 raw⟩).map fun _ =>
      ⟨algorithm, ⟨wordAt 10 raw, wordAt 14 raw, wordAt 18 raw⟩,
        sixteenAt 22 raw (by rw [hlen]; decide), sixteenAt 38 raw (by rw [hlen]; decide),
        sixteenAt 54 raw (by rw [hlen]; decide)⟩ := by
  simp only [decode, hmagic, hversion, htag, ne_eq, not_true_eq_false, if_false]
  cases checkCost ⟨wordAt 10 raw, wordAt 14 raw, wordAt 18 raw⟩ <;> rfl

/-- **What it takes for 70 bytes to be a header,** field by field. -/
theorem decode_eq_ok_iff {hlen : raw.length = headerSize} : decode raw hlen = .ok h ↔
    (raw.take 8 = magic ∧ raw.getD 8 0 = formatVersion) ∧
    Algorithm.ofIndex? (raw.getD 9 0).toNat = some h.algorithm ∧
    (⟨wordAt 10 raw, wordAt 14 raw, wordAt 18 raw⟩ : Cost) = h.cost ∧ checkCost h.cost = .ok () ∧
    slice 22 16 raw = h.salt.val ∧ slice 38 16 raw = h.iv.val ∧ slice 54 16 raw = h.keyCheck.val := by
  by_cases hmagic : raw.take 8 = magic
  case neg =>
    rw [decode_of_magic_ne hlen hmagic]
    simp only [reduceCtorEq, hmagic, false_and]
  by_cases hversion : raw.getD 8 0 = formatVersion
  case neg =>
    rw [decode_of_version_ne hlen hmagic hversion]
    simp only [reduceCtorEq, hversion, and_false, false_and]
  rcases htag : Algorithm.ofIndex? (raw.getD 9 0).toNat with _ | algorithm
  · rw [decode_of_tag_none hlen hmagic hversion htag]
    simp only [reduceCtorEq, false_and, and_false]
  · rw [decode_of_tag_some hlen hmagic hversion htag]
    rcases h with ⟨found, cost, salt, iv, keyCheck⟩
    constructor
    · intro hdecode
      rcases hcost : checkCost ⟨wordAt 10 raw, wordAt 14 raw, wordAt 18 raw⟩ with e | ⟨⟩
      · rw [hcost] at hdecode
        cases hdecode
      · rw [hcost] at hdecode
        cases hdecode
        exact ⟨⟨hmagic, hversion⟩, rfl, rfl, hcost, rfl, rfl, rfl⟩
    · rintro ⟨-, ⟨⟩, ⟨⟩, hcost, hsalt, hiv, hcheck⟩
      have hcost : checkCost ⟨wordAt 10 raw, wordAt 14 raw, wordAt 18 raw⟩ = .ok () := hcost
      rw [hcost]
      have hsalt : sixteenAt 22 raw (by rw [hlen]; decide) = salt := Subtype.ext hsalt
      have hiv : sixteenAt 38 raw (by rw [hlen]; decide) = iv := Subtype.ext hiv
      have hcheck : sixteenAt 54 raw (by rw [hlen]; decide) = keyCheck := Subtype.ext hcheck
      rw [hsalt, hiv, hcheck]
      rfl

/-- Bytes that are no header are at fault themselves. -/
theorem decode_eq_error {hlen : raw.length = headerSize} {e : ResolveError}
    (h : decode raw hlen = .error e) : ∃ fault, e = .format fault := by
  by_cases hmagic : raw.take 8 = magic
  case neg =>
    rw [decode_of_magic_ne hlen hmagic] at h
    cases h
    exact ⟨_, rfl⟩
  by_cases hversion : raw.getD 8 0 = formatVersion
  case neg =>
    rw [decode_of_version_ne hlen hmagic hversion] at h
    cases h
    exact ⟨_, rfl⟩
  rcases htag : Algorithm.ofIndex? (raw.getD 9 0).toNat with _ | algorithm
  · rw [decode_of_tag_none hlen hmagic hversion htag] at h
    cases h
    exact ⟨_, rfl⟩
  · rw [decode_of_tag_some hlen hmagic hversion htag] at h
    rcases hcost : checkCost ⟨wordAt 10 raw, wordAt 14 raw, wordAt 18 raw⟩ with e' | ⟨⟩
    · rw [hcost] at h
      cases h
      exact checkCost_eq_error hcost
    · rw [hcost] at h
      cases h

/-- **A decoded header is encoded to the bytes that it came from.** -/
theorem encode_of_decode {hlen : raw.length = headerSize} (h' : decode raw hlen = .ok h) :
    h.encode = raw := by
  obtain ⟨⟨hmagic, hversion⟩, htag, hcost, -, hsalt, hiv, hcheck⟩ := decode_eq_ok_iff.mp h'
  have hsize : raw.length = 70 := hlen
  have htag : UInt8.ofNat h.algorithm.index = raw.getD 9 0 := by
    rw [Algorithm.index_of_ofIndex? htag]
    exact UInt8.ofNat_toNat
  have h10 : be32 (wordAt 10 raw).toNat = slice 10 4 raw := be32_wordAt (by omega)
  have h14 : be32 (wordAt 14 raw).toNat = slice 14 4 raw := be32_wordAt (by omega)
  have h18 : be32 (wordAt 18 raw).toNat = slice 18 4 raw := be32_wordAt (by omega)
  rw [encode, ← hcost, ← hmagic, ← hversion, htag, ← hsalt, ← hiv, ← hcheck]
  simp only [h10, h14, h18]
  exact eq_of_fields hlen

/-- The rules that 70 bytes keep when they are a header. -/
structure WellFormed (raw : Bytes) : Prop where
  magic : raw.take 8 = [0x56, 0x46, 0x43, 0x52, 0x59, 0x50, 0x54, 0]
  version : raw.getD 8 0 = 1
  tag : (raw.getD 9 0).toNat < 3
  memory : bigEndian (slice 10 4 raw) ≤ 1048576
  passes : bigEndian (slice 14 4 raw) ≤ 16
  lanes : bigEndian (slice 18 4 raw) ≤ 64

/-- **Seventy bytes are decoded exactly when they keep the rules.** -/
theorem decode_isOk_iff (hlen : raw.length = headerSize) :
    (∃ h, decode raw hlen = .ok h) ↔ WellFormed raw := by
  have hsize : raw.length = 70 := hlen
  have hcost : checkCost ⟨wordAt 10 raw, wordAt 14 raw, wordAt 18 raw⟩ = .ok () ↔
      bigEndian (slice 10 4 raw) ≤ 1048576 ∧ bigEndian (slice 14 4 raw) ≤ 16 ∧
        bigEndian (slice 18 4 raw) ≤ 64 := by
    rw [checkCost_eq_ok_iff, toNat_wordAt (by omega), toNat_wordAt (by omega), toNat_wordAt (by omega)]
  constructor
  · rintro ⟨h, hdecode⟩
    obtain ⟨⟨hmagic, hversion⟩, htag, heq, haccepted, -⟩ := decode_eq_ok_iff.mp hdecode
    rw [← heq] at haccepted
    obtain ⟨hmemory, hpasses, hlanes⟩ := hcost.mp haccepted
    have hlt : (raw.getD 9 0).toNat < 3 := by
      rw [← Algorithm.index_of_ofIndex? htag]
      exact h.algorithm.index_lt
    exact ⟨hmagic, hversion, hlt, hmemory, hpasses, hlanes⟩
  · rintro ⟨hmagic, hversion, htag, hmemory, hpasses, hlanes⟩
    obtain ⟨algorithm, htag⟩ := Algorithm.exists_of_lt htag
    have haccepted := hcost.mpr ⟨hmemory, hpasses, hlanes⟩
    exact ⟨_, (decode_of_tag_some hlen hmagic hversion htag).trans (by rw [haccepted]; rfl)⟩

/-! ## Reading -/

variable {s : Source}

/-- **The next 70 bytes are decoded, and nothing behind them is taken.** -/
theorem readFrom_of_le (hs : s.ending = .finished) (hfaults : s.faults = [])
    (hle : headerSize ≤ s.delivered.length) :
    ∃ (hlen : (s.delivered.take headerSize).length = headerSize) (later : Source),
      readFrom s = (decode (s.delivered.take headerSize) hlen, later) ∧
      later.delivered = s.delivered.drop headerSize ∧
      s.rest = s.delivered.take headerSize ++ later.rest := by
  have hlen : (s.delivered.take headerSize).length = headerSize := by
    rw [List.length_take, Nat.min_eq_left hle]
  obtain ⟨later, hread, hdelivered, -⟩ := Source.readExact_of_le hs hfaults hle
  refine ⟨hlen, later, ?_, hdelivered, (Source.readExact_eq_ok hread).2⟩
  simp only [readFrom, hread, dif_pos hlen]

/-- **A stream that ends within the header is at fault.** -/
theorem readFrom_of_lt (hs : s.ending = .finished) (hfaults : s.faults = [])
    (hlt : s.delivered.length < headerSize) :
    (readFrom s).1 = .error (.format .truncatedHeader) := by
  obtain ⟨later, hread⟩ := Source.readExact_of_lt hs hfaults hlt
  simp only [readFrom, hread]
  rfl

/-- **A header and its 70 bytes stand for each other.**  Bytes are decoded exactly when they keep the
    rules, and a decoded header is encoded to the bytes it came from.  A header is decoded from its own
    bytes unless its cost is above the ceilings, and then the bytes are at fault.  It is read in the same
    way from a raw stream that is delivered in any pieces and interrupted anywhere: the first 70 bytes
    are decoded and the stream stands behind them, or it ended before and is at fault. -/
theorem seventy_bytes_stand_for_a_header :
    (∀ (raw : Bytes) (hlen : raw.length = 70), (∃ h, decode raw hlen = .ok h) ↔ WellFormed raw) ∧
    (∀ (raw : Bytes) (hlen : raw.length = 70) (h : Header), decode raw hlen = .ok h →
      h.encode = raw) ∧
    (∀ h : Header, (checkCost h.cost = .ok () → decode h.encode h.length_encode = .ok h) ∧
      (checkCost h.cost ≠ .ok () →
        ∃ fault, decode h.encode h.length_encode = .error (.format fault))) ∧
    ∀ s : Source, s.ending = .finished → s.faults = [] →
      (70 ≤ s.delivered.length → ∃ (hlen : (s.delivered.take 70).length = 70) (later : Source),
        readFrom s = (decode (s.delivered.take 70) hlen, later) ∧
        later.delivered = s.delivered.drop 70 ∧ s.rest = s.delivered.take 70 ++ later.rest) ∧
      (s.delivered.length < 70 → ∃ fault, (readFrom s).1 = .error (.format fault)) := by
  refine ⟨fun raw hlen => decode_isOk_iff hlen, fun raw hlen h => encode_of_decode, fun h => ⟨?_, ?_⟩,
    fun s hs hfaults => ⟨readFrom_of_le hs hfaults, fun hlt => ⟨_, readFrom_of_lt hs hfaults hlt⟩⟩⟩
  · intro hcost
    exact decode_encode hcost h.length_encode
  · intro hcost
    rcases hcheck : checkCost h.cost with e | ⟨⟩
    · obtain ⟨fault, rfl⟩ := checkCost_eq_error hcheck
      refine ⟨fault, ?_⟩
      rw [decode_encode_eq, hcheck]
      rfl
    · exact absurd hcheck hcost

/-- A header of a container on AES at the lowest cost. -/
def sample : Header :=
  ⟨.aes, ⟨8, 1, 1⟩, ⟨List.replicate 16 3, rfl⟩, ⟨List.replicate 16 4, rfl⟩, ⟨List.replicate 16 5, rfl⟩⟩

/-- A header in two pieces, with an interruption between them and two bytes behind it. -/
def sampleSource : Source :=
  ⟨[.bytes (sample.encode.take 40), .failure ⟨.interrupted, ""⟩, .bytes (sample.encode.drop 40 ++ [7, 7])],
    some 33, .finished⟩

theorem seventy_bytes_stand_for_a_header_in_pieces :
    ∃ later, readFrom sampleSource = (.ok sample, later) ∧ later.delivered = [7, 7] := by
  obtain ⟨-, -, hencode, hread⟩ := seventy_bytes_stand_for_a_header
  have hdelivered : sampleSource.delivered = sample.encode ++ [7, 7] := rfl
  obtain ⟨hlen, later, hfrom, hlater, -⟩ := (hread sampleSource rfl rfl).1 (by decide)
  have hfront : sampleSource.delivered.take 70 = sample.encode := rfl
  refine ⟨later, ?_, hlater⟩
  rw [hfrom]
  simp only [hfront]
  rw [(hencode sample).1 rfl]

end Header

end Coffer.Container
