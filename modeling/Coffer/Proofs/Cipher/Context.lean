import Coffer.Proofs.Cipher.Chaining
/-
  What binding, keying and forking make of a context.

  Each of the operations has one lemma that says when it succeeds and what the context is then:
  `bind_eq_ok_iff`, `setKey_eq_ok_iff`, `setIv_of_length`, `setIvs_of_length` and `fork_eq_ok_iff`.
  Contexts on one backend are keyed alike (`setKey_of_cipher_eq`), so the two sides of a container
  compute the same block operations under `BlockCipher.InvertsUnder`.
-/
namespace Coffer.Cipher

theorem zeroBlock_of_le {size : Nat} (h : size ≤ allocationLimit) :
    zeroBlock size = .ok (List.replicate size 0) := by
  rw [zeroBlock, if_neg (by omega)]

namespace Context

/-- A fresh context on a backend. -/
def fresh (cipher : BlockCipher) (name : String) : Context :=
  ⟨cipher, name, none, none, List.replicate cipher.blockSize 0, List.replicate cipher.blockSize 0,
    List.replicate cipher.blockSize 0⟩

/-- **Binding succeeds exactly on a supported backend whose block is not empty and can be
    allocated.** -/
theorem bind_eq_ok_iff {cipher : BlockCipher} {name : String} {ctx : Context} :
    Context.bind cipher name = .ok ctx ↔
      ensureSupported cipher = .ok () ∧ 0 < cipher.blockSize ∧
        cipher.blockSize ≤ allocationLimit ∧ ctx = fresh cipher name := by
  rcases hs : ensureSupported cipher with e | ⟨⟩
  · constructor
    · intro h
      simp only [Context.bind, hs] at h
      cases h
    · rintro ⟨h, -⟩
      cases h
  · by_cases h0 : cipher.blockSize = 0
    · constructor
      · intro h
        simp only [Context.bind, hs, h0] at h
        cases h
      · rintro ⟨-, h, -⟩
        omega
    · by_cases hle : cipher.blockSize ≤ allocationLimit
      · have hb : Context.bind cipher name = .ok (fresh cipher name) := by
          simp only [Context.bind, hs, h0, zeroBlock_of_le hle]
          rfl
        rw [hb]
        constructor
        · intro h
          cases h
          exact ⟨rfl, by omega, hle, rfl⟩
        · rintro ⟨-, -, -, rfl⟩
          rfl
      · constructor
        · intro h
          simp only [Context.bind, hs, h0, zeroBlock, if_pos (Nat.lt_of_not_le hle)] at h
          cases h
        · rintro ⟨-, -, h, -⟩
          exact absurd h hle

/-- **Keying succeeds exactly when the key has a bit count that fits and the backend takes it in both
    directions;** chaining values stay as they are. -/
theorem setKey_eq_ok_iff {ctx keyed : Context} {key : Bytes} :
    ctx.setKey key = .ok keyed ↔
      key ≠ [] ∧ key.length * 8 ≤ 0xFFFFFFFF ∧ ∃ ek dk,
        ctx.cipher.setKey .encrypt (.empty .encrypt ctx.cipher.keySize) key (key.length * 8) =
          (.ok (), ek) ∧
        ctx.cipher.setKey .decrypt (.empty .decrypt ctx.cipher.keySize) key (key.length * 8) =
          (.ok (), dk) ∧
        keyed = { ctx with encryptKey := some ek, decryptKey := some dk } := by
  by_cases hne : key = []
  · subst hne
    constructor
    · intro h
      cases h
    · rintro ⟨h, -⟩
      exact absurd rfl h
  · have hempty : key.isEmpty = false := by simpa using hne
    by_cases hlong : 0xFFFFFFFF < key.length * 8
    · constructor
      · intro h
        simp only [setKey, hempty, if_pos hlong] at h
        cases h
      · rintro ⟨-, h, -⟩
        omega
    · simp only [setKey, hempty, if_neg hlong]
      rcases he : ctx.cipher.setKey .encrypt (.empty .encrypt ctx.cipher.keySize) key
          (key.length * 8) with ⟨e | ⟨⟩, ek⟩
      · constructor
        · intro h
          cases h
        · rintro ⟨-, -, _, _, h, -⟩
          cases h
      · rcases hd : ctx.cipher.setKey .decrypt (.empty .decrypt ctx.cipher.keySize) key
            (key.length * 8) with ⟨e | ⟨⟩, dk⟩
        · constructor
          · intro h
            cases h
          · rintro ⟨-, -, _, _, -, h, -⟩
            cases h
        · constructor
          · intro h
            cases h
            exact ⟨hne, by omega, ek, dk, rfl, rfl, rfl⟩
          · rintro ⟨-, -, _, _, h, h', rfl⟩
            cases h
            cases h'
            rfl

/-- Contexts on one backend are keyed alike. -/
theorem setKey_of_cipher_eq {ctx other keyed : Context} {key : Bytes}
    (hc : other.cipher = ctx.cipher) (h : ctx.setKey key = .ok keyed) :
    other.setKey key =
      .ok { other with encryptKey := keyed.encryptKey, decryptKey := keyed.decryptKey } := by
  obtain ⟨hne, hbits, ek, dk, he, hd, rfl⟩ := setKey_eq_ok_iff.mp h
  rw [← hc] at he hd
  exact setKey_eq_ok_iff.mpr ⟨hne, hbits, ek, dk, he, hd, rfl⟩

/-- Keying leaves the backend as it is. -/
theorem setKey_cipher {ctx keyed : Context} {key : Bytes} (h : ctx.setKey key = .ok keyed) :
    keyed.cipher = ctx.cipher := by
  obtain ⟨-, -, ek, dk, -, -, rfl⟩ := setKey_eq_ok_iff.mp h
  rfl

theorem setIv_of_length {ctx : Context} {iv : Bytes} (h : iv.length = ctx.blockSize)
    (d : Direction) : ctx.setIv d iv = .ok (ctx.withIv d iv) := by
  rw [setIv, if_neg (by omega)]

theorem setIvs_of_length {ctx : Context} {iv : Bytes} (h : iv.length = ctx.blockSize) :
    ctx.setIvs iv = .ok { ctx with encryptIv := iv, decryptIv := iv } := by
  have he := setIv_of_length h .encrypt
  have h' : iv.length = (ctx.withIv .encrypt iv).blockSize := h
  simp only [setIvs, he]
  exact setIv_of_length h' .decrypt

theorem setIvs_of_length_ne {ctx : Context} {iv : Bytes} (h : iv.length ≠ ctx.blockSize) :
    ctx.setIvs iv = .error (.invalidArgument (.ivLength ctx.blockSize iv.length)) := by
  rw [setIvs, setIv, if_pos h]
  rfl

theorem fork_of_le {ctx : Context} (h : ctx.blockSize ≤ allocationLimit) :
    ctx.fork = .ok { ctx with
      encryptIv := List.replicate ctx.blockSize 0
      decryptIv := List.replicate ctx.blockSize 0
      scratch := List.replicate ctx.blockSize 0 } := by
  simp only [fork, zeroBlock_of_le h]
  rfl

theorem fork_eq_ok_iff {ctx child : Context} :
    ctx.fork = .ok child ↔ ctx.blockSize ≤ allocationLimit ∧ child = { ctx with
      encryptIv := List.replicate ctx.blockSize 0
      decryptIv := List.replicate ctx.blockSize 0
      scratch := List.replicate ctx.blockSize 0 } := by
  by_cases hle : ctx.blockSize ≤ allocationLimit
  · rw [fork_of_le hle]
    constructor
    · intro h
      cases h
      exact ⟨hle, rfl⟩
    · rintro ⟨-, rfl⟩
      rfl
  · constructor
    · intro h
      simp only [fork, zeroBlock, if_pos (Nat.lt_of_not_le hle)] at h
      cases h
    · rintro ⟨h, -⟩
      exact absurd h hle

end Context

/-- A backend can be bound and keyed with `key`, and its block operations are then inverse to each
    other. -/
def BlockCipher.InvertsUnder (c : BlockCipher) (key : Bytes) : Prop :=
  ∃ bound keyed E D, Context.bind c c.name = .ok bound ∧ bound.setKey key = .ok keyed ∧
    keyed.Inverts E D

end Coffer.Cipher
