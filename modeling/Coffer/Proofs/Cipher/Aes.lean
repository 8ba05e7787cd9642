import Coffer.Cipher.Aes
import Coffer.Proofs.Cipher.Context
/-
  AES decryption undoes AES encryption.

  Each step of a round has its inverse: the substitution by its tables (`invSubByte_subByte`), the
  mixing of columns because `double` is linear (`double_xor`, `Column.invMix_mix`), the round key
  because exclusive or cancels.  `RoundKeys.decrypt_encrypt` puts the rounds together, by induction
  over the middle ones.

  A user key of 16, 24 or 32 bytes always expands, and its round keys always fit the schedule
  (`expandKey?_isSome`); so a context on an AES backend can be keyed with every such key and its block
  operations are inverse to each other (`keyed_inverts`).
-/
namespace Coffer.Cipher.Aes

/-! ## The substitution -/

theorem getD_toList (t : Array UInt8) (i : Nat) : t.getD i 0 = t.toList.getD i 0 := by
  rw [Array.getD_eq_getD_getElem?, List.getD_eq_getElem?_getD, Array.getElem?_toList]

/-- The entries of the one table are looked up in the other. -/
theorem map_invSubTable :
    subTable.toList.map (fun b => invSubTable.toList.getD b.toNat 0) =
      (List.range 256).map UInt8.ofNat := by
  decide +kernel

theorem invSubByte_subByte (b : UInt8) : invSubByte (subByte b) = b := by
  have hrow := congrArg (fun t => t[b.toNat]?) map_invSubTable
  simp only [List.getElem?_map, List.getElem?_range b.toNat_lt, Option.map_some,
    UInt8.ofNat_toNat] at hrow
  obtain ⟨x, hx, hinv⟩ := Option.map_eq_some_iff.mp hrow
  have hsub : subByte b = x := by
    rw [subByte, getD_toList, List.getD_eq_getElem?_getD, hx]
    rfl
  rw [hsub, invSubByte, getD_toList]
  exact hinv

/-! ## The field -/

theorem xor_left_comm (a b c : UInt8) : a ^^^ (b ^^^ c) = b ^^^ (a ^^^ c) := by
  rw [← UInt8.xor_assoc, UInt8.xor_comm a b, UInt8.xor_assoc]

theorem xor_xor_cancel_left (a b : UInt8) : a ^^^ (a ^^^ b) = b := by
  rw [← UInt8.xor_assoc, UInt8.xor_self, UInt8.zero_xor]

theorem lt_0x80_iff (b : UInt8) : b < 0x80 ↔ b.toBitVec.msb = false := by
  rw [UInt8.lt_iff_toNat_lt, BitVec.msb_eq_decide]
  have := b.toBitVec.isLt
  simp

/-- **Doubling is linear**: the top bit of a sum is the sum of the top bits. -/
theorem double_xor (a b : UInt8) : double (a ^^^ b) = double a ^^^ double b := by
  have hshift : (a ^^^ b) <<< 1 = (a <<< 1) ^^^ (b <<< 1) := by
    apply UInt8.toBitVec_inj.1
    simp [BitVec.shiftLeft_xor_distrib]
  have hmsb : (a ^^^ b).toBitVec.msb = (a.toBitVec.msb ^^ b.toBitVec.msb) := by
    rw [UInt8.toBitVec_xor, BitVec.msb_xor]
  unfold double
  rw [hshift]
  simp only [lt_0x80_iff, hmsb]
  cases a.toBitVec.msb <;> cases b.toBitVec.msb <;>
    simp [UInt8.xor_assoc, UInt8.xor_comm, xor_left_comm]

/-! ## Columns -/

namespace Column

@[simp] theorem xor_xor (x k : Column) : (x.xor k).xor k = x := by
  simp only [xor, xor_xor_cancel_right]

@[simp] theorem map_invSubByte_map_subByte (x : Column) : (x.map subByte).map invSubByte = x := by
  simp only [map, invSubByte_subByte]

/-! `invMixRow` combines its four bytes in three stages.  On the rows of a mixed column each stage
meets the double it adds, and the two cancel. -/

theorem mixRow_sum (a b c d : UInt8) :
    mixRow a b c d ^^^ mixRow b c d a ^^^ mixRow c d a b ^^^ mixRow d a b c =
      a ^^^ b ^^^ c ^^^ d := by
  simp only [mixRow, UInt8.xor_assoc, UInt8.xor_comm, xor_left_comm, xor_xor_cancel_left,
    UInt8.xor_self, UInt8.xor_zero]

theorem mixRow_opposite (a b c d : UInt8) :
    mixRow a b c d ^^^ mixRow c d a b = double (a ^^^ b ^^^ c ^^^ d) ^^^ (a ^^^ c) := by
  simp only [mixRow, double_xor, UInt8.xor_assoc, UInt8.xor_comm, xor_left_comm, xor_xor_cancel_left]

theorem mixRow_next (a b c d : UInt8) :
    mixRow a b c d ^^^ mixRow b c d a = double (a ^^^ c) ^^^ (a ^^^ b) := by
  simp only [mixRow, double_xor, UInt8.xor_assoc, UInt8.xor_comm, xor_left_comm, xor_xor_cancel_left]

theorem mixRow_rest (a b c d : UInt8) :
    mixRow b c d a ^^^ mixRow c d a b ^^^ mixRow d a b c = double (a ^^^ b) ^^^ a := by
  simp only [mixRow, double_xor, UInt8.xor_assoc, UInt8.xor_comm, xor_left_comm, xor_xor_cancel_left,
    UInt8.xor_self, UInt8.zero_xor]

theorem invMixRow_mixRow (a b c d : UInt8) :
    invMixRow (mixRow a b c d) (mixRow b c d a) (mixRow c d a b) (mixRow d a b c) = a := by
  rw [invMixRow, mixRow_sum, mixRow_opposite, xor_xor_cancel_left, mixRow_next,
    xor_xor_cancel_left, mixRow_rest, xor_xor_cancel_left]

@[simp] theorem invMix_mix (x : Column) : x.mix.invMix = x := by
  simp only [mix, invMix, invMixRow_mixRow]

end Column

/-! ## Rounds -/

namespace State

@[simp] theorem addKey_addKey (s k : State) : (s.addKey k).addKey k = s := by
  simp only [addKey, Column.xor_xor]

@[simp] theorem invSubBytes_subBytes (s : State) : s.subBytes.invSubBytes = s := by
  simp only [subBytes, invSubBytes, Column.map_invSubByte_map_subByte]

@[simp] theorem invMixColumns_mixColumns (s : State) : s.mixColumns.invMixColumns = s := by
  simp only [mixColumns, invMixColumns, Column.invMix_mix]

/-- Sixteen bytes spell a state. -/
theorem ofBytes?_of_length {b : Bytes} (h : b.length = 16) : ∃ s, ofBytes? b = some s := by
  match b, h with
  | [_, _, _, _, _, _, _, _, _, _, _, _, _, _, _, _], _ => exact ⟨_, rfl⟩

end State

namespace RoundKeys

theorem invRound_round (s k : State) : invRound (round s k) k = s := by
  rw [invRound, round, State.addKey_addKey, State.invMixColumns_mixColumns,
    State.invShiftRows_shiftRows, State.invSubBytes_subBytes]

/-- The middle rounds undone, the last one first. -/
theorem foldl_invRound_foldl_round (ks : List State) (s : State) :
    ks.reverse.foldl invRound (ks.foldl round s) = s := by
  induction ks generalizing s with
  | nil => rfl
  | cons k ks ih =>
    rw [List.foldl_cons, List.reverse_cons, List.foldl_append, ih, List.foldl_cons, List.foldl_nil,
      invRound_round]

/-- **Decryption undoes encryption under the same round keys.** -/
theorem decrypt_encrypt (keys : RoundKeys) (s : State) : keys.decrypt (keys.encrypt s) = s := by
  rw [decrypt, encrypt, State.addKey_addKey, State.invShiftRows_shiftRows,
    State.invSubBytes_subBytes, foldl_invRound_foldl_round, State.addKey_addKey]

/-- The same on blocks of bytes. -/
theorem transform_decrypt_transform_encrypt (keys : RoundKeys) {b : Bytes} (h : b.length = 16) :
    (keys.toExpanded .decrypt).transform ((keys.toExpanded .encrypt).transform b) = b := by
  obtain ⟨s, hs⟩ := State.ofBytes?_of_length h
  simp only [toExpanded, hs, State.ofBytes?_toBytes, decrypt_encrypt]
  exact State.toBytes_of_ofBytes? hs

end RoundKeys

/-! ## Expanding a user key -/

@[simp] theorem length_columns (b : Bytes) : (columns b).length = b.length / 4 := by
  fun_induction columns b with
  | case1 a b c d rest ih => simp only [List.length_cons, ih]; omega
  | case2 b h =>
    match b, h with
    | [], _ | [_], _ | [_, _], _ | [_, _, _], _ => simp
    | _ :: _ :: _ :: _ :: _, h => exact absurd rfl (h _ _ _ _ _)

@[simp] theorem length_states (ws : List Column) : (states ws).length = ws.length / 4 := by
  fun_induction states ws with
  | case1 w x y z rest ih => simp only [List.length_cons, ih]; omega
  | case2 ws h =>
    match ws, h with
    | [], _ | [_], _ | [_, _], _ | [_, _, _], _ => simp
    | _ :: _ :: _ :: _ :: _, h => exact absurd rfl (h _ _ _ _ _)

@[simp] theorem length_moreWords (n count i : Nat) (window : List Column) :
    (moreWords n count i window).length = count := by
  induction count generalizing i window with
  | zero => rfl
  | succ count ih => rw [moreWords, List.length_cons, ih]

/-- **A user key of an allowed length expands to one round key for the start and one for each round.** -/
theorem expandKey?_of_roundsOfLength? {key : Bytes} {rounds : Nat}
    (h : roundsOfLength? key.length = some rounds) :
    ∃ keys, expandKey? key = some keys ∧ keys.rounds = rounds := by
  obtain ⟨hpos, hle⟩ : 1 ≤ rounds ∧ key.length / 4 ≤ 4 * (rounds + 1) := by
    unfold roundsOfLength? at h
    split at h <;> cases h <;> omega
  refine ⟨_, by simp only [expandKey?, h]; rfl, ?_⟩
  simp only [RoundKeys.rounds, List.length_dropLast, List.length_tail, length_states,
    List.length_append, length_columns, length_moreWords]
  omega

/-- The lengths a user key may have. -/
def IsKeyLength (n : Nat) : Prop := n = 16 ∨ n = 24 ∨ n = 32

/-- **A user key of an allowed length expands, and its round keys fit the largest schedule.** -/
theorem expandKey?_isSome {key : Bytes} (h : IsKeyLength key.length) :
    ∃ keys, expandKey? key = some keys ∧ (keys.rounds + 1) * blockSize ≤ maxSchedule := by
  obtain ⟨rounds, hr, hhi⟩ : ∃ rounds, roundsOfLength? key.length = some rounds ∧ rounds ≤ 14 := by
    rcases h with h | h | h <;> rw [h]
    · exact ⟨10, rfl, by omega⟩
    · exact ⟨12, rfl, by omega⟩
    · exact ⟨14, rfl, by omega⟩
  obtain ⟨keys, hkeys, hrounds⟩ := expandKey?_of_roundsOfLength? hr
  refine ⟨keys, hkeys, ?_⟩
  rw [hrounds, blockSize, maxSchedule, blockSize]
  omega

/-! ## Keyed contexts -/

theorem install_of_le {s : KeySchedule} {key : ExpandedKey} (h : key.size ≤ s.capacity) :
    s.install key = .ok { s with key? := some key } := by
  rw [KeySchedule.install, if_neg (Nat.not_lt.mpr h)]

theorem checkUserKey_of_bits {key : Bytes} {bits : Nat} (hkey : key ≠ [])
    (hbits : bits = 8 * key.length) : checkUserKey key bits = .ok () := by
  have hempty : key.isEmpty = false := by simpa using hkey
  rw [checkUserKey, hempty, if_neg Bool.false_ne_true, if_neg (by omega)]

theorem expand_of_expandKey? {key : Bytes} {keys : RoundKeys} (h : expandKey? key = some keys)
    (d : Direction) : expand d key = .ok (keys.toExpanded d) := by
  rw [expand, h]

theorem keySchedule_of_expandKey? {key : Bytes} {keys : RoundKeys} (h : expandKey? key = some keys)
    (hne : key ≠ []) (hfit : (keys.rounds + 1) * blockSize ≤ maxSchedule) (d : Direction) :
    keySchedule d (.empty d maxSchedule) key (key.length * 8) =
      .ok ⟨d, maxSchedule, some (keys.toExpanded d)⟩ := by
  have hchecked := checkUserKey_of_bits hne (Nat.mul_comm key.length 8)
  have hinstalled : (KeySchedule.empty d maxSchedule).install (keys.toExpanded d) =
      .ok ⟨d, maxSchedule, some (keys.toExpanded d)⟩ :=
    install_of_le hfit
  simp only [keySchedule, hchecked, expand_of_expandKey? h, KeySchedule.empty, ne_eq,
    not_true_eq_false, if_false]
  exact hinstalled

/-- One block through a schedule that holds round keys. -/
theorem transformBlock_toExpanded (keys : RoundKeys) (d : Direction) {b out : Bytes}
    (hb : b.length = blockSize) (hout : out.length = blockSize) :
    transformBlock blockSize d b out ⟨d, maxSchedule, some (keys.toExpanded d)⟩ =
      (.ok (), (keys.toExpanded d).transform b) := by
  rw [transformBlock, if_neg (by omega), if_neg (by simp)]
  rfl

/-- **A context on an AES backend can be keyed with every key of an allowed length, and its block
    operations are then inverse to each other.** -/
theorem keyed_inverts {ctx : Context} {algorithm : Algorithm} {name : String}
    (hc : ctx.cipher = backend algorithm name) {key : Bytes} (h : IsKeyLength key.length) :
    ∃ keyed E D, ctx.setKey key = .ok keyed ∧ keyed.Inverts E D := by
  obtain ⟨keys, hkeys, hfit⟩ := expandKey?_isSome h
  have hne : key ≠ [] := by
    intro h0
    rw [h0] at h
    rcases h with h | h | h <;> cases h
  have hbits : key.length * 8 ≤ 0xFFFFFFFF := by rcases h with h | h | h <;> omega
  have hset (d : Direction) : ctx.cipher.setKey d (.empty d ctx.cipher.keySize) key
      (key.length * 8) = (.ok (), ⟨d, maxSchedule, some (keys.toExpanded d)⟩) := by
    rw [hc]
    simp only [backend, keySchedule_of_expandKey? hkeys hne hfit]
  refine ⟨_, (keys.toExpanded .encrypt).transform, (keys.toExpanded .decrypt).transform,
    Context.setKey_eq_ok_iff.mpr ⟨hne, hbits, _, _, hset .encrypt, hset .decrypt, rfl⟩, ?_, ?_, ?_⟩
  · refine ⟨_, rfl, ?_⟩
    intro b out hb hout
    simp only [Context.blockSize, hc] at hb hout ⊢
    exact transformBlock_toExpanded keys .encrypt hb hout
  · refine ⟨_, rfl, ?_⟩
    intro b hb
    simp only [Context.blockSize, hc] at hb ⊢
    exact transformBlock_toExpanded keys .decrypt hb hb
  · intro b hb
    simp only [Context.blockSize, hc] at hb
    exact keys.transform_decrypt_transform_encrypt hb

end Coffer.Cipher.Aes
