import Coffer.Keyring.Response
import Coffer.Proofs.Bytes
import Coffer.Proofs.Keyring.Wire
/-
  Requests are decoded by their grammar.

  * `Request.Frame` — the grammar: the bytes of one request;
  * `Request.Begun` — how much of a request there can be, one constructor for each answer of the decoder.

  A request is told exactly when the bytes begin with a frame of it (`decode_eq_frame_iff`), what was
  told stays (`steady_decode`), and no request is waited for for ever (`length_of_decode_incomplete`).
-/
namespace Coffer.Keyring

open Decoded (Steady)

variable {b extra rest : Bytes} {r : Request}

/-- A text has as many bytes as its size says. -/
@[simp] theorem length_utf8 (s : String) : (utf8 s).length = s.utf8ByteSize := rfl

namespace Request

/-! ## The grammar -/

/-- The frame of a request: the letter of its op, the length of the location in two bytes, the
    location in UTF-8, and for an update the length of the secret in four bytes and the secret. -/
inductive Frame : Bytes → Request → Prop
  | read {size : Bytes} {location : String} : Counts 2 size (utf8 location) →
      Frame (0x52 :: (size ++ utf8 location)) (.read location)
  | update {size size' secret : Bytes} {location : String} {p : Passphrase} :
      Counts 2 size (utf8 location) → Counts 4 size' secret → secret.length ≤ 4096 → secret ≠ [] →
      (∀ x ∈ secret, x ≠ 10 ∧ x ≠ 13) → p.bytes = secret →
      Frame (0x55 :: (size ++ utf8 location ++ (size' ++ secret))) (.update location p)
  | ping {size : Bytes} {location : String} : Counts 2 size (utf8 location) →
      Frame (0x50 :: (size ++ utf8 location)) .ping

/-! ## How far the bytes of a request go -/

/-- What is there of a request: not even the length of its location, no op, not all of its location,
    or the location and bytes behind it. -/
inductive Begun : Bytes → Prop
  | short {b : Bytes} : b.length < 3 → Begun b
  | unknown {letter : UInt8} {size b : Bytes} : size.length = 2 → Op.ofByte? letter = none →
      Begun (letter :: (size ++ b))
  | cut {op : Op} {size b : Bytes} : size.length = 2 → b.length < bigEndian size →
      Begun (op.byte :: (size ++ b))
  | located {op : Op} {size location b : Bytes} : Counts 2 size location →
      Begun (op.byte :: (size ++ (location ++ b)))

/-- A letter that is an op is that op's. -/
theorem byte_of_ofByte? {letter : UInt8} {op : Op} (h : Op.ofByte? letter = some op) :
    letter = op.byte := by
  have hfound := List.find?_some h
  exact (beq_iff_eq.mp hfound).symm

theorem begun (b : Bytes) : Begun b := by
  match b with
  | [] | [_] | [_, _] => exact .short (by simp)
  | letter :: high :: low :: b =>
    have hwidth : [high, low].length = 2 := rfl
    rcases hop : Op.ofByte? letter with _ | op
    · exact .unknown hwidth hop
    · rw [byte_of_ofByte? hop]
      by_cases hcut : b.length < bigEndian [high, low]
      · exact .cut hwidth hcut
      · have hlength : (b.take (bigEndian [high, low])).length = bigEndian [high, low] := by
          rw [List.length_take]
          omega
        have hall := @Begun.located op _ _ (b.drop (bigEndian [high, low])) ⟨hwidth, hlength.symm⟩
        rwa [List.take_append_drop] at hall

theorem decode_of_short (h : b.length < 3) : decode b = .incomplete := by
  match b with
  | [] | [_] | [_, _] => rfl
  | _ :: _ :: _ :: _ => simp at h; omega

/-- What happens once the length of the location is there. -/
theorem decode_append {letter : UInt8} {size : Bytes} (hsize : size.length = 2) (b : Bytes) :
    decode (letter :: (size ++ b)) =
      match Op.ofByte? letter with
      | none => .failed (unknownOp letter) (letter :: (size ++ b))
      | some op =>
        if b.length < bigEndian size then .incomplete
        else if op = .update then
          withSecret (letter :: (size ++ b)) (b.take (bigEndian size)) (b.drop (bigEndian size))
        else plain op (b.take (bigEndian size)) (b.drop (bigEndian size)) := by
  match size with
  | [high, low] => rfl

theorem decode_of_unknown {letter : UInt8} {size : Bytes} (hsize : size.length = 2)
    (h : Op.ofByte? letter = none) (b : Bytes) :
    decode (letter :: (size ++ b)) = .failed (unknownOp letter) (letter :: (size ++ b)) := by
  rw [decode_append hsize, h]

theorem decode_of_cut {op : Op} {size : Bytes} (hsize : size.length = 2)
    (h : b.length < bigEndian size) : decode (op.byte :: (size ++ b)) = .incomplete := by
  rw [decode_append hsize, Op.ofByte?_byte]
  exact if_pos h

/-- What happens once the location is there. -/
theorem decode_of_located (op : Op) {size location : Bytes} (hsize : Counts 2 size location) (b : Bytes) :
    decode (op.byte :: (size ++ (location ++ b))) =
      if op = .update then withSecret (op.byte :: (size ++ (location ++ b))) location b
      else plain op location b := by
  obtain ⟨hwidth, hcount⟩ := hsize
  rw [decode_append hwidth, Op.ofByte?_byte, hcount]
  simp only [List.length_append, Nat.not_lt.mpr (Nat.le_add_right _ _), if_false, List.take_left,
    List.drop_left]

/-! ## The location and the secret -/

/-- A location is a text when its bytes spell one. -/
theorem locationOf_eq_ok_iff {location : String} : locationOf b = .ok location ↔ b = utf8 location := by
  rw [locationOf, ← ofUtf8?_eq_some_iff]
  cases ofUtf8? b with
  | none =>
    constructor <;> intro h <;> cases h
  | some s =>
    constructor <;> intro h <;> cases h <;> rfl

theorem plain_eq_frame_iff {op : Op} {location : Bytes} : plain op location b = .frame r rest ↔
    rest = b ∧ ∃ s, location = utf8 s ∧ r = if op = .ping then .ping else .read s := by
  constructor
  · intro h
    rw [plain] at h
    split at h
    · cases h
    · rename_i s hlocation
      cases h
      exact ⟨rfl, s, locationOf_eq_ok_iff.mp hlocation, rfl⟩
  · rintro ⟨rfl, s, hs, rfl⟩
    rw [plain, locationOf_eq_ok_iff.mpr hs]

theorem withSecret_eq_frame_iff {whole location : Bytes} : withSecret whole location b = .frame r rest ↔
    ∃ s p, location = utf8 s ∧ takeSecret whole b = .frame p rest ∧ r = .update s p := by
  constructor
  · intro h
    rw [withSecret] at h
    split at h <;> cases h
    rename_i p s hlocation hsecret
    exact ⟨s, p, locationOf_eq_ok_iff.mp hlocation, hsecret, rfl⟩
  · rintro ⟨s, p, hs, hsecret, rfl⟩
    rw [withSecret, hsecret, locationOf_eq_ok_iff.mpr hs]

theorem withSecret_eq_incomplete_iff {whole location : Bytes} :
    withSecret whole location b = .incomplete ↔ takeSecret whole b = .incomplete := by
  rw [withSecret]
  split <;> simp_all

theorem plain_before (op : Op) (location extra : Bytes) :
    plain op location (b ++ extra) = (plain op location b).before extra := by
  rw [plain, plain]
  cases locationOf location <;> rfl

theorem withSecret_before {whole location : Bytes} (extra : Bytes)
    (h : withSecret whole location b ≠ .incomplete) :
    withSecret (whole ++ extra) location (b ++ extra) = (withSecret whole location b).before extra := by
  rw [Ne, withSecret_eq_incomplete_iff] at h
  rw [withSecret, takeSecret_before extra h, withSecret]
  rcases hsecret : takeSecret whole b with _ | ⟨p, rest⟩ | ⟨e, rest⟩
  · exact absurd hsecret h
  · cases locationOf location <;> rfl
  · cases e <;> cases locationOf location <;> rfl

/-! ## The decoder and the grammar -/

/-- **A request is told exactly when the bytes begin with a frame of it.** -/
theorem decode_eq_frame_iff : decode b = .frame r rest ↔ ∃ f, Frame f r ∧ b = f ++ rest := by
  constructor
  · intro h
    cases begun b with
    | short hshort =>
      rw [decode_of_short hshort] at h
      cases h
    | unknown hsize hop =>
      rw [decode_of_unknown hsize hop] at h
      cases h
    | cut hsize hcut =>
      rw [decode_of_cut hsize hcut] at h
      cases h
    | @located op size location b hsize =>
      rw [decode_of_located _ hsize] at h
      cases op with
      | update =>
        obtain ⟨s, p, rfl, hsecret, rfl⟩ := withSecret_eq_frame_iff.mp h
        obtain ⟨size', hsize', rfl⟩ := takeSecret_eq_frame_iff.mp hsecret
        obtain ⟨hfits, hne, hline⟩ := p.rules
        refine ⟨_, .update hsize hsize' hfits hne
          (fun x hx => isLineBreak_eq_false_iff.mp (hline x hx)) rfl, ?_⟩
        simp only [Op.byte, List.cons_append, List.append_assoc]
      | read =>
        obtain ⟨rfl, s, rfl, rfl⟩ := plain_eq_frame_iff.mp h
        exact ⟨_, .read hsize, by simp only [Op.byte, List.cons_append, List.append_assoc]⟩
      | ping =>
        obtain ⟨rfl, s, rfl, rfl⟩ := plain_eq_frame_iff.mp h
        exact ⟨_, .ping hsize, by simp only [Op.byte, List.cons_append, List.append_assoc]⟩
  · rintro ⟨f, hf, rfl⟩
    cases hf with
    | read hsize =>
      rw [List.cons_append, List.append_assoc]
      exact (decode_of_located .read hsize rest).trans (plain_eq_frame_iff.mpr ⟨rfl, _, rfl, rfl⟩)
    | ping hsize =>
      rw [List.cons_append, List.append_assoc]
      exact (decode_of_located .ping hsize rest).trans (plain_eq_frame_iff.mpr ⟨rfl, _, rfl, rfl⟩)
    | update hsize hsize' _ _ _ hp =>
      subst hp
      rw [List.cons_append, List.append_assoc, List.append_assoc]
      refine (decode_of_located .update hsize _).trans (withSecret_eq_frame_iff.mpr
        ⟨_, _, rfl, takeSecret_eq_frame_iff.mpr ⟨_, hsize', rfl⟩, rfl⟩)

/-- **More bytes do not change what was said about a request.** -/
theorem steady_decode : Steady decode := by
  intro b extra h
  cases begun b with
  | short hshort => exact absurd (decode_of_short hshort) h
  | unknown hsize hop =>
    rw [decode_of_unknown hsize hop, List.cons_append, List.append_assoc, decode_of_unknown hsize hop]
    simp only [Decoded.before, List.cons_append, List.append_assoc]
  | cut hsize hcut => exact absurd (decode_of_cut hsize hcut) h
  | @located op size location b hsize =>
    rw [decode_of_located _ hsize] at h
    rw [List.cons_append, List.append_assoc, List.append_assoc, decode_of_located _ hsize,
      decode_of_located _ hsize]
    by_cases hop : op = .update
    · rw [if_pos hop] at h
      rw [if_pos hop, if_pos hop, ← withSecret_before extra h]
      simp only [List.cons_append, List.append_assoc]
    · rw [if_neg hop, if_neg hop, plain_before]

/-- The longest frame of a request. -/
def maxRequest : Nat := 3 + maxLocation + (4 + maxPassphrase)

/-- **A request is not waited for longer than the longest one takes.** -/
theorem length_of_decode_incomplete (h : decode b = .incomplete) : b.length < maxRequest := by
  rw [maxRequest, maxLocation]
  cases begun b with
  | short hshort => omega
  | unknown hsize hop =>
    rw [decode_of_unknown hsize hop] at h
    cases h
  | cut hsize hcut =>
    have hlt := bigEndian_lt hsize
    rw [List.length_cons, List.length_append]
    omega
  | @located op size location b hsize =>
    rw [decode_of_located _ hsize] at h
    have hlt := bigEndian_lt hsize.1
    have hlocation := hsize.2
    by_cases hop : op = .update
    · rw [if_pos hop, withSecret_eq_incomplete_iff] at h
      have hsecret := length_of_takeSecret_incomplete h
      rw [List.length_cons, List.length_append, List.length_append, hsize.1]
      omega
    · rw [if_neg hop, plain] at h
      cases hl : locationOf location <;> rw [hl] at h <;> cases h

end Request

end Coffer.Keyring
