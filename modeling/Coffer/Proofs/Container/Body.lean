import Coffer.Proofs.Cipher.Chaining
import Coffer.Proofs.Container.Padding
/-
  A body read in one go.

  The specification of a reader knows neither portions nor buffers: `Opens D size iv body data` says
  that the plaintext of the whole body is `data` with padding, and `front` is the plaintext of all
  whole blocks but the last one, which is what can be told of a body that does not open.  `Tells`
  joins the two.

  Before the end of a body is known, only what is `settled` may be decrypted; the last whole block and
  what follows it are `unsettled`.  `settled_append_got` says how the two grow with more bytes, and
  `opens_iff` that the last block decides whether the body opens.
-/
namespace Coffer.Container

open Cipher (unchain unchain_append)

/-! ## Bodies that open -/

/-- The plaintext of the whole blocks of a body. -/
def plaintext (D : Bytes → Bytes) (size : Nat) (iv body : Bytes) : Bytes :=
  (unchain D iv (blocks size body)).flatten

/-- The plaintext of the whole blocks of a body but the last one. -/
def front (D : Bytes → Bytes) (size : Nat) (iv body : Bytes) : Bytes :=
  (unchain D iv (blocks size body).dropLast).flatten

/-- A body of whole blocks, at least one, whose plaintext is `data` with padding. -/
def Opens (D : Bytes → Bytes) (size : Nat) (iv body data : Bytes) : Prop :=
  body ≠ [] ∧ body.length % size = 0 ∧ Padded size data (plaintext D size iv body)

/-! ## What can be decrypted before the end is known -/

/-- The bytes in front of the last whole block. -/
def settled (size : Nat) (body : Bytes) : Bytes := body.take ((body.length / size - 1) * size)

/-- The last whole block and what follows it. -/
def unsettled (size : Nat) (body : Bytes) : Bytes := body.drop ((body.length / size - 1) * size)

section Settled

variable {D : Bytes → Bytes} {size : Nat} {iv a b body : Bytes}

theorem settled_append_unsettled (size : Nat) (body : Bytes) :
    settled size body ++ unsettled size body = body :=
  List.take_append_drop _ _

theorem length_settled (size : Nat) (body : Bytes) :
    (settled size body).length = (body.length / size - 1) * size := by
  have hle : body.length / size * size ≤ body.length := Nat.div_mul_le_self _ _
  have hsub : (body.length / size - 1) * size = body.length / size * size - size := Nat.sub_one_mul _ _
  rw [settled, List.length_take]
  omega

theorem length_settled_mod (size : Nat) (body : Bytes) : (settled size body).length % size = 0 := by
  rw [length_settled, Nat.mul_mod_left]

theorem length_unsettled_mod (size : Nat) (body : Bytes) :
    (unsettled size body).length % size = body.length % size := by
  have hlen := congrArg List.length (settled_append_unsettled size body)
  rw [List.length_append] at hlen
  rw [← hlen, Nat.add_mod, length_settled_mod, Nat.zero_add, Nat.mod_mod]

/-- Something is held back, a whole block at least, or nothing is settled. -/
theorem le_length_unsettled_or (size : Nat) (body : Bytes) :
    size ≤ (unsettled size body).length ∨ settled size body = [] := by
  rcases Nat.lt_or_ge (body.length / size) 2 with hq | hq
  · right
    rw [settled, show body.length / size - 1 = 0 from by omega, Nat.zero_mul, List.take_zero]
  · left
    have hle : body.length / size * size ≤ body.length := Nat.div_mul_le_self _ _
    have hge : 2 * size ≤ body.length / size * size := Nat.mul_le_mul_right _ hq
    have hsub : (body.length / size - 1) * size = body.length / size * size - size :=
      Nat.sub_one_mul _ _
    rw [unsettled, List.length_drop]
    omega

/-- Less than two blocks are held back. -/
theorem length_unsettled_lt (hsize : 0 < size) (body : Bytes) :
    (unsettled size body).length < 2 * size := by
  have hlt := Nat.mod_lt body.length hsize
  have hdiv := Nat.div_add_mod body.length size
  have hsub : (body.length / size - 1) * size = body.length / size * size - size :=
    Nat.sub_one_mul _ _
  rw [Nat.mul_comm] at hdiv
  rw [unsettled, List.length_drop]
  omega

theorem unsettled_eq_nil_iff (hsize : 0 < size) : unsettled size body = [] ↔ body = [] := by
  constructor
  · intro h
    rcases le_length_unsettled_or size body with hle | hs
    · rw [h, List.length_nil] at hle
      omega
    · have hboth := settled_append_unsettled size body
      rw [hs, h] at hboth
      exact hboth.symm
  · rintro rfl
    exact List.drop_nil

/-- **What is settled stays settled:** more bytes only matter together with those held back. -/
theorem settled_append (hsize : 0 < size) (ha : a.length % size = 0) (hb : size ≤ b.length ∨ a = []) :
    settled size (a ++ b) = a ++ settled size b ∧ unsettled size (a ++ b) = unsettled size b := by
  rcases hb with hb | rfl
  · have hq : 1 ≤ b.length / size := (Nat.one_le_div_iff hsize).mpr hb
    obtain ⟨m, hm⟩ := Nat.dvd_of_mod_eq_zero ha
    rw [Nat.mul_comm] at hm
    have hcount : ((a ++ b).length / size - 1) * size = a.length + (b.length / size - 1) * size := by
      rw [List.length_append, Nat.add_comm, hm, Nat.add_mul_div_right _ _ hsize,
        show b.length / size + m - 1 = m + (b.length / size - 1) from by omega, Nat.add_mul]
    constructor
    · rw [settled, hcount, List.take_length_add_append]
      rfl
    · rw [unsettled, hcount, List.drop_length_add_append]
      rfl
  · exact ⟨rfl, rfl⟩

/-- What is held back and more bytes decide together what is settled next. -/
theorem settled_append_got (hsize : 0 < size) (body got : Bytes) :
    settled size (body ++ got) = settled size body ++ settled size (unsettled size body ++ got) ∧
      unsettled size (body ++ got) = unsettled size (unsettled size body ++ got) := by
  have hor : size ≤ (unsettled size body ++ got).length ∨ settled size body = [] := by
    rcases le_length_unsettled_or size body with h | h
    · left
      rw [List.length_append]
      omega
    · exact Or.inr h
  have happ := settled_append hsize (length_settled_mod size body) hor
  rwa [← List.append_assoc, settled_append_unsettled] at happ

theorem plaintext_append (hsize : 0 < size) (ha : a.length % size = 0) (iv b : Bytes) :
    plaintext D size iv (a ++ b) =
      plaintext D size iv a ++ plaintext D size ((blocks size a).getLastD iv) b := by
  rw [plaintext, blocks_append hsize ha, unchain_append, List.flatten_append]
  rfl

/-- **The front of a body is the plaintext of what is settled.** -/
theorem front_eq (hsize : 0 < size) (iv body : Bytes) :
    front D size iv body = plaintext D size iv (settled size body) := by
  suffices h : (blocks size body).dropLast = blocks size (settled size body) by
    rw [front, h]
    rfl
  have hlen := length_settled size body
  have hcut := blocks_append hsize (length_settled_mod size body) (unsettled size body)
  rw [settled_append_unsettled] at hcut
  have hcount := congrArg List.length hcut
  rw [List.length_append, length_blocks, length_blocks, hlen, Nat.mul_div_cancel _ hsize] at hcount
  rw [List.dropLast_eq_take, length_blocks, hcut]
  exact List.take_left' (by rw [length_blocks, hlen, Nat.mul_div_cancel _ hsize])

/-- More bytes only add to the front. -/
theorem prefix_front_append (hsize : 0 < size) (iv body got : Bytes) :
    front D size iv body <+: front D size iv (body ++ got) := by
  rw [front_eq hsize, front_eq hsize, (settled_append_got hsize body got).1,
    plaintext_append hsize (length_settled_mod size body)]
  exact List.prefix_append _ _

/-- The plaintext of a body of whole blocks is its front and one block more, held back so far. -/
theorem plaintext_eq_front_append (hsize : 0 < size) (iv body : Bytes) :
    plaintext D size iv body = front D size iv body ++
      plaintext D size ((blocks size (settled size body)).getLastD iv) (unsettled size body) := by
  rw [front_eq hsize, ← plaintext_append hsize (length_settled_mod size body),
    settled_append_unsettled]

end Settled

/-! ## How a body ends -/

/-- Whether a body opens. -/
inductive Verdict
  | sound
  | spoilt
  deriving DecidableEq

/-- What a read may answer once a body is at its end. -/
def Verdict.Allows : Verdict → Except IoError Bytes → Prop
  | sound, answer => answer = .ok []
  | spoilt, answer => ∃ e : IoError, answer = .error e ∧ e.kind = .invalidData

/-- All that can be told of a body: its data if it opens, and its front otherwise. -/
inductive Tells (D : Bytes → Bytes) (size : Nat) (iv body : Bytes) : Bytes → Verdict → Prop
  | sound {data : Bytes} : Opens D size iv body data → Tells D size iv body data .sound
  | spoilt : (∀ data, ¬ Opens D size iv body data) →
      Tells D size iv body (front D size iv body) .spoilt

section Tells

variable {D : Bytes → Bytes} {size : Nat} {iv body data total : Bytes} {verdict : Verdict}

theorem Tells.unique {total' : Bytes} {verdict' : Verdict} (h : Tells D size iv body total verdict)
    (h' : Tells D size iv body total' verdict') : total = total' ∧ verdict = verdict' := by
  cases h with
  | sound ho =>
    cases h' with
    | sound ho' => exact ⟨ho.2.2.unique ho'.2.2, rfl⟩
    | spoilt hno => exact absurd ho (hno _)
  | spoilt hno =>
    cases h' with
    | sound ho' => exact absurd ho' (hno _)
    | spoilt _ => exact ⟨rfl, rfl⟩

/-- Blocks that are decrypted keep their number of bytes. -/
theorem length_plaintext (hD : ∀ b : Bytes, b.length = size → (D b).length = size) (iv body : Bytes) :
    (plaintext D size iv body).length = body.length / size * size := by
  rw [plaintext, length_flatten_of_length_eq
    (Cipher.length_of_mem_unchain hD iv fun _ hx => length_of_mem_blocks hx),
    Cipher.length_unchain, length_blocks]

/-- Where a body has whole blocks, one of them is held back at the end. -/
theorem length_unsettled_eq (hsize : 0 < size) (hne : body ≠ []) (hmod : body.length % size = 0) :
    (unsettled size body).length = size := by
  have hlt := length_unsettled_lt hsize body
  have hpos : 0 < (unsettled size body).length :=
    List.length_pos_iff.mpr fun h => hne ((unsettled_eq_nil_iff hsize).mp h)
  obtain ⟨m, hm⟩ := Nat.dvd_of_mod_eq_zero ((length_unsettled_mod size body).trans hmod)
  have h1 : m < 2 := Nat.lt_of_mul_lt_mul_left (by rwa [hm, Nat.mul_comm 2] at hlt : size * m < size * 2)
  have h0 : m ≠ 0 := by
    rintro rfl
    omega
  rw [hm, show m = 1 from by omega, Nat.mul_one]

/-- **Whether a body opens is told by its last block.** -/
theorem opens_iff (hsize : 0 < size) (hD : ∀ b : Bytes, b.length = size → (D b).length = size)
    (hne : body ≠ []) (hmod : body.length % size = 0) :
    Opens D size iv body data ↔ ∃ k,
      unpaddedSize (plaintext D size ((blocks size (settled size body)).getLastD iv)
        (unsettled size body)) = .ok k ∧
      data = front D size iv body ++ (plaintext D size ((blocks size (settled size body)).getLastD iv)
        (unsettled size body)).take k := by
  have hlast : (plaintext D size ((blocks size (settled size body)).getLastD iv)
      (unsettled size body)).length = size := by
    rw [length_plaintext hD, length_unsettled_eq hsize hne hmod, Nat.div_self hsize, Nat.one_mul]
  rw [← padded_append_iff hlast, ← plaintext_eq_front_append hsize]
  exact ⟨fun h => h.2.2, fun h => ⟨hne, hmod, h⟩⟩

/-- **Whatever is told of a body starts with its front.** -/
theorem Tells.prefix_total (hsize : 0 < size)
    (hD : ∀ b : Bytes, b.length = size → (D b).length = size)
    (h : Tells D size iv body total verdict) : front D size iv body <+: total := by
  cases h with
  | sound ho =>
    obtain ⟨k, -, hdata⟩ := (opens_iff hsize hD ho.1 ho.2.1).mp ho
    rw [hdata]
    exact List.prefix_append _ _
  | spoilt _ => exact List.prefix_refl _

end Tells

section Sealed

variable {ctx : Cipher.Context} {E D : Bytes → Bytes}

theorem length_of_mem_chain_pad (hE : ctx.Encrypts E) (iv data : Bytes) :
    ∀ x ∈ Cipher.chain E iv (blocks ctx.blockSize (pad ctx.blockSize data)),
      x.length = ctx.blockSize :=
  Cipher.length_of_mem_chain (fun _ hb => hE.length_eq hb) iv fun _ hx => length_of_mem_blocks hx

/-- A sealed text is one block more than the whole blocks of its data. -/
theorem length_chain_pad (hsize : 0 < ctx.blockSize) (hE : ctx.Encrypts E) (iv data : Bytes) :
    (Cipher.chain E iv (blocks ctx.blockSize (pad ctx.blockSize data))).flatten.length =
      (data.length / ctx.blockSize + 1) * ctx.blockSize := by
  rw [length_flatten_of_length_eq (length_of_mem_chain_pad hE iv data), Cipher.length_chain,
    length_blocks, length_pad hsize, Nat.mul_div_cancel _ hsize]

/-- **A sealed text opens,** behind the same chaining value, wherever its padding fits a byte. -/
theorem opens_chain_pad (hsize : 0 < ctx.blockSize) (h : ctx.Inverts E D) (iv : Bytes) {data : Bytes}
    (hcount : padCount ctx.blockSize data.length < 256) :
    Opens D ctx.blockSize iv
      (Cipher.chain E iv (blocks ctx.blockSize (pad ctx.blockSize data))).flatten data := by
  have hlen := length_chain_pad hsize h.encrypts iv data
  refine ⟨?_, ?_, ?_⟩
  · refine List.length_pos_iff.mp ?_
    rw [hlen]
    exact Nat.mul_pos (Nat.succ_pos _) hsize
  · rw [hlen, Nat.mul_mod_left]
  · rw [plaintext, blocks_flatten hsize (length_of_mem_chain_pad h.encrypts iv data),
      Cipher.unchain_chain h.inverse fun _ hx => length_of_mem_blocks hx,
      flatten_blocks_of_mod_eq_zero (length_pad_mod hsize data)]
    exact padded_pad hsize hcount

end Sealed

end Coffer.Container
