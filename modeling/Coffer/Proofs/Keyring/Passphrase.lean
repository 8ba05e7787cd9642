import Mathlib.Tactic.SplitIfs
import Coffer.Keyring.Passphrase
/-
  The rules of passphrases, each by itself.
-/
namespace Coffer.Keyring

variable {b : Bytes}

theorem isLineBreak_eq_false_iff {x : UInt8} : isLineBreak x = false ↔ x ≠ 10 ∧ x ≠ 13 := by
  rw [isLineBreak, Bool.or_eq_false_iff, beq_eq_false_iff_ne, beq_eq_false_iff_ne]

theorem any_isLineBreak_iff : b.any isLineBreak = true ↔ 10 ∈ b ∨ 13 ∈ b := by
  simp only [isLineBreak, List.any_eq_true, Bool.or_eq_true, beq_iff_eq, and_or_left, exists_or,
    exists_eq_right]

/-- **Bytes are a passphrase when they are neither too many nor none, and break no line.** -/
theorem passphraseFault?_eq_none_iff : passphraseFault? b = none ↔
    b.length ≤ maxPassphrase ∧ b ≠ [] ∧ ∀ x ∈ b, isLineBreak x = false := by
  constructor
  · intro hfaultless
    unfold passphraseFault? at hfaultless
    split_ifs at hfaultless with hlong hempty hbreak
    refine ⟨Nat.le_of_not_lt hlong, fun h => hempty (by rw [h]; rfl), fun x hx => ?_⟩
    rw [← Bool.not_eq_true]
    exact fun h => hbreak (List.any_eq_true.mpr ⟨x, hx, h⟩)
  · rintro ⟨hfits, hne, hline⟩
    have hany : b.any isLineBreak = false := by
      rw [List.any_eq_false]
      exact fun x hx => by rw [hline x hx]; exact Bool.false_ne_true
    rw [passphraseFault?, if_neg (Nat.not_lt.mpr hfits), if_neg (by rwa [List.isEmpty_iff]), hany]
    rfl

namespace Passphrase

/-- What the rules of passphrases come to. -/
theorem rules (p : Passphrase) :
    p.bytes.length ≤ maxPassphrase ∧ p.bytes ≠ [] ∧ ∀ b ∈ p.bytes, isLineBreak b = false :=
  passphraseFault?_eq_none_iff.mp p.faultless

/-- Bytes that are a passphrase are that one's. -/
theorem ofBytes_eq_ok_iff {p : Passphrase} : ofBytes b = .ok p ↔ p.bytes = b := by
  constructor
  · intro h
    unfold ofBytes at h
    split at h
    · cases h
    · cases h
      rfl
  · rintro rfl
    exact ofBytes_bytes p

theorem ofBytes_eq_error_iff {e : SecretError} : ofBytes b = .error e ↔ passphraseFault? b = some e := by
  unfold ofBytes
  split <;> rename_i h <;> simp only [h, reduceCtorEq, Except.error.injEq, Option.some.injEq]

end Passphrase

end Coffer.Keyring
