import Coffer.Keyring.Wire
import Coffer.Proofs.Keyring.Passphrase
/-
  What decoders have in common.

  A decoder is `Steady` when more bytes never change what it has said: once it has told a frame or a
  failure, it tells the same whatever arrives behind, and only leaves more bytes.  Then a frame that is
  cut anywhere is incomplete until its last byte is there (`Steady.incomplete_of_cut`), and a stream may
  be decoded piece by piece.

  `takeSecret` reads a length and a secret of that length, and nothing else
  (`takeSecret_eq_frame_iff`); it never waits for more than `4 + maxPassphrase` bytes.
-/
namespace Coffer.Keyring

variable {α : Type} {whole b extra rest : Bytes}

/-! ## Answers that last -/

namespace Decoded

/-- The same answer when `extra` stands behind the bytes. -/
def before (extra : Bytes) : Decoded α → Decoded α
  | incomplete => incomplete
  | frame value rest => frame value (rest ++ extra)
  | failed fault rest => failed fault (rest ++ extra)

/-- A decoder whose frames and failures stay what they are when more bytes arrive. -/
def Steady (decode : Bytes → Decoded α) : Prop :=
  ∀ b extra, decode b ≠ .incomplete → decode (b ++ extra) = (decode b).before extra

variable {decode : Bytes → Decoded α} {value : α}

/-- **A frame is incomplete until its last byte is there.** -/
theorem Steady.incomplete_of_cut (hsteady : Steady decode) (hframe : decode (b ++ extra) = .frame value [])
    (hextra : extra ≠ []) : decode b = .incomplete := by
  rcases hb : decode b with _ | ⟨v, rest⟩ | ⟨e, rest⟩
  · rfl
  · have hsame := hsteady b extra (by rw [hb]; exact fun h => nomatch h)
    rw [hframe, hb] at hsame
    cases List.append_eq_nil_iff.mp (Decoded.frame.inj hsame).2.symm with
    | intro _ hnil => exact absurd hnil hextra
  · have hsame := hsteady b extra (by rw [hb]; exact fun h => nomatch h)
    rw [hframe, hb] at hsame
    cases hsame

end Decoded

/-! ## Numbers in front of bytes -/

/-- `size` tells the length of `b` in `width` bytes. -/
def Counts (width : Nat) (size b : Bytes) : Prop := size.length = width ∧ bigEndian size = b.length

theorem counts_be16 (h : b.length < 65536) : Counts 2 (be16 b.length) b := ⟨rfl, bigEndian_be16 h⟩

theorem counts_be32 (h : b.length < 4294967296) : Counts 4 (be32 b.length) b := ⟨rfl, bigEndian_be32 h⟩

/-! ## Secrets -/

/-- What happens once the length of the secret is there. -/
theorem takeSecret_append {size : Bytes} (hsize : size.length = 4) (whole b : Bytes) :
    takeSecret whole (size ++ b) =
      if maxPassphrase < bigEndian size then .failed .tooLarge whole
      else if b.length < bigEndian size then .incomplete
      else match Passphrase.ofBytes (b.take (bigEndian size)) with
        | .ok secret => .frame secret (b.drop (bigEndian size))
        | .error e => .failed e (b.drop (bigEndian size)) := by
  have hlength : (size ++ b).length = 4 + b.length := by rw [List.length_append, hsize]
  have htake : (size ++ b).take 4 = size := List.take_left' hsize
  have hdrop : (size ++ b).drop 4 = b := List.drop_left' hsize
  have hrest : ∀ n, (size ++ b).drop (4 + n) = b.drop n := by
    intro n
    rw [← List.drop_drop, hdrop]
  have hlong : ¬ (size ++ b).length < 4 := by omega
  have hshort : (size ++ b).length < 4 + bigEndian size ↔ b.length < bigEndian size := by omega
  unfold takeSecret
  rcases hsecret : Passphrase.ofBytes (b.take (bigEndian size)) with e | secret <;>
    simp only [hlong, if_false, htake, hdrop, hrest, hshort, hsecret]

/-- Four bytes at least are the length and the bytes behind it. -/
theorem exists_size (h : ¬ b.length < 4) : ∃ size rest, size.length = 4 ∧ b = size ++ rest :=
  ⟨b.take 4, b.drop 4, by rw [List.length_take]; omega, (List.take_append_drop 4 b).symm⟩

/-- **A secret is read exactly where it stands behind its length.** -/
theorem takeSecret_eq_frame_iff {p : Passphrase} :
    takeSecret whole b = .frame p rest ↔ ∃ size, Counts 4 size p.bytes ∧ b = size ++ p.bytes ++ rest := by
  constructor
  · intro h
    by_cases hlong : b.length < 4
    · rw [takeSecret, if_pos hlong] at h
      cases h
    · obtain ⟨size, b, hsize, rfl⟩ := exists_size hlong
      rw [takeSecret_append hsize] at h
      split_ifs at h with _ hshort
      have hlength : (b.take (bigEndian size)).length = bigEndian size := by
        rw [List.length_take]
        omega
      split at h
      · rename_i secret hsecret
        cases h
        rw [Passphrase.ofBytes_eq_ok_iff] at hsecret
        refine ⟨size, ⟨hsize, ?_⟩, ?_⟩
        · rw [hsecret, hlength]
        · rw [hsecret, List.append_assoc, List.take_append_drop]
      · cases h
  · rintro ⟨size, ⟨hsize, hcount⟩, rfl⟩
    obtain ⟨hfits, -, -⟩ := p.rules
    rw [List.append_assoc, takeSecret_append hsize, hcount, if_neg (by omega),
      if_neg (by rw [List.length_append]; omega), List.take_left, List.drop_left,
      Passphrase.ofBytes_bytes]

/-- A secret that is not all there yet is not waited for longer than the longest one takes. -/
theorem length_of_takeSecret_incomplete (h : takeSecret whole b = .incomplete) :
    b.length < 4 + maxPassphrase := by
  by_cases hlong : b.length < 4
  · omega
  · obtain ⟨size, b, hsize, rfl⟩ := exists_size hlong
    rw [takeSecret_append hsize] at h
    split_ifs at h with hfits hshort
    · rw [List.length_append, hsize]
      omega
    · split at h <;> cases h

/-- **More bytes do not change what was said about a secret.** -/
theorem takeSecret_before (extra : Bytes) (h : takeSecret whole b ≠ .incomplete) :
    takeSecret (whole ++ extra) (b ++ extra) = (takeSecret whole b).before extra := by
  by_cases hlong : b.length < 4
  · rw [takeSecret, if_pos hlong] at h
    exact absurd rfl h
  · obtain ⟨size, b, hsize, rfl⟩ := exists_size hlong
    rw [takeSecret_append hsize] at h
    rw [List.append_assoc, takeSecret_append hsize, takeSecret_append hsize]
    by_cases hfits : maxPassphrase < bigEndian size
    · rw [if_pos hfits, if_pos hfits]
      rfl
    · rw [if_neg hfits] at h ⊢
      by_cases hshort : b.length < bigEndian size
      · rw [if_pos hshort] at h
        exact absurd rfl h
      · have hall : ¬ (b ++ extra).length < bigEndian size := by
          rw [List.length_append]
          omega
        have hle : bigEndian size ≤ b.length := Nat.le_of_not_lt hshort
        rw [if_neg hall, if_neg hfits, if_neg hshort, List.take_append_of_le_length hle,
          List.drop_append_of_le_length hle]
        cases Passphrase.ofBytes (b.take (bigEndian size)) <;> rfl

end Coffer.Keyring
