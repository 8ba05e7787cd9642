import Coffer.Proofs.Cipher.Separation
import Mathlib.Data.FinEnum
import Mathlib.Data.Set.Finite.List
/-
  How far a change of a ciphertext reaches.

      P[i] = D(C[i]) xor C[i-1]        C[-1] = IV

  A plaintext block is made of two ciphertext blocks, its own and the one in front of it
  (`unchain_eq_zipWith`), so a change of block `k` is seen in the plaintext blocks `k` and `k + 1` and
  in no other.  In block `k` it goes through `D`, which keeps different blocks apart; in block
  `k + 1` it is xored in as it is.

  A backend may refuse a block.  `decrypting_calls` says which calls succeed, however the bytes are
  cut into calls and whatever is encrypted between them, and that `unchain` is then what they give
  out; `propagates_unchain` is the statement about the recurrence alone.
-/
namespace Coffer

/-- What was xored onto the same bytes differs as before. -/
theorem xorOnto_xorOnto_xorOnto {a b c : Bytes} (hb : b.length = a.length)
    (hc : c.length = a.length) : xorOnto (xorOnto a b) (xorOnto a c) = xorOnto b c := by
  induction a generalizing b c with
  | nil =>
    rw [List.eq_nil_of_length_eq_zero hb, List.eq_nil_of_length_eq_zero hc]
    rfl
  | cons x a ih =>
    match b, c, hb, hc with
    | y :: b, z :: c, hb, hc =>
      have hxor : x ^^^ y ^^^ (x ^^^ z) = y ^^^ z := by
        rw [UInt8.xor_comm x y, UInt8.xor_assoc, ← UInt8.xor_assoc x x z, UInt8.xor_self,
          UInt8.zero_xor]
      rw [xorOnto, xorOnto, xorOnto, xorOnto, hxor, ih (Nat.succ.inj hb) (Nat.succ.inj hc)]

namespace Cipher

/-! ## The recurrence -/

/-- **A plaintext block is made of its own ciphertext block and the one in front of it.** -/
theorem unchain_eq_zipWith (D : Bytes → Bytes) (iv : Bytes) (cs : List Bytes) :
    unchain D iv cs = List.zipWith (fun c before => xorOnto (D c) before) cs (iv :: cs) := by
  induction cs generalizing iv with
  | nil => rfl
  | cons c cs ih => rw [unchain, ih, List.zipWith_cons_cons]

theorem getElem?_unchain_zero (D : Bytes → Bytes) (iv : Bytes) (cs : List Bytes) :
    (unchain D iv cs)[0]? = cs[0]?.map fun c => xorOnto (D c) iv := by
  rw [unchain_eq_zipWith]
  cases cs <;> rfl

theorem getElem?_unchain_succ {D : Bytes → Bytes} {iv c before : Bytes} {cs : List Bytes} {i : Nat}
    (hc : cs[i + 1]? = some c) (hbefore : cs[i]? = some before) :
    (unchain D iv cs)[i + 1]? = some (xorOnto (D c) before) := by
  rw [unchain_eq_zipWith, List.getElem?_zipWith, List.getElem?_cons_succ, hc, hbefore]

/-- Ciphertexts of as many blocks that differ in block `k` and in no other. -/
structure DifferOnlyAt (k : Nat) (cs ds : List Bytes) : Prop where
  length_eq : ds.length = cs.length
  elsewhere : ∀ i, i ≠ k → ds[i]? = cs[i]?
  there : ds[k]? ≠ cs[k]?

/-- What the change of block `k` between the ciphertexts `cs` and `ds` makes of the plaintexts `ps` and
    `qs`. -/
structure Propagates (k : Nat) (cs ds ps qs : List Bytes) : Prop where
  length_eq : ps.length = cs.length ∧ qs.length = ds.length
  elsewhere : ∀ i, i ≠ k → i ≠ k + 1 → qs[i]? = ps[i]?
  there : qs[k]? ≠ ps[k]?
  /-- The block behind it differs by what the ciphertext blocks differ by. -/
  behind : ∀ p q, ps[k + 1]? = some p → qs[k + 1]? = some q →
    ∃ c d, cs[k]? = some c ∧ ds[k]? = some d ∧ xorOnto p q = xorOnto c d

variable {D : Bytes → Bytes} {iv : Bytes} {k : Nat} {cs ds : List Bytes}

/-- Both ciphertexts have the block in which they differ. -/
theorem DifferOnlyAt.exists_blocks (h : DifferOnlyAt k cs ds) :
    ∃ c d, cs[k]? = some c ∧ ds[k]? = some d ∧ c ≠ d := by
  have hlt : k < cs.length := by
    refine Nat.lt_of_not_le fun hle => h.there ?_
    rw [List.getElem?_eq_none hle, List.getElem?_eq_none (by rw [h.length_eq]; exact hle)]
  have hc := List.getElem?_eq_getElem hlt
  have hd := List.getElem?_eq_getElem (show k < ds.length by rw [h.length_eq]; exact hlt)
  refine ⟨_, _, hc, hd, fun heq => h.there ?_⟩
  rw [hc, hd, heq]

/-- **A change of one ciphertext block reaches its own plaintext block and the one behind it,** when
    `D` keeps the two versions apart. -/
theorem propagates_unchain (h : DifferOnlyAt k cs ds)
    (hD : ∀ c d, cs[k]? = some c → ds[k]? = some d → c ≠ d → D c ≠ D d) {size : Nat}
    (hlen : ∀ c ∈ cs, c.length = size ∧ (D c).length = size) (hlen' : ∀ d ∈ ds, d.length = size) :
    Propagates k cs ds (unchain D iv cs) (unchain D iv ds) := by
  obtain ⟨c, d, hc, hd, hne⟩ := h.exists_blocks
  refine ⟨⟨length_unchain D iv cs, length_unchain D iv ds⟩, ?_, ?_, ?_⟩
  · -- Neither the block nor the one in front of it was changed.
    intro i hi hi'
    rw [unchain_eq_zipWith, unchain_eq_zipWith, List.getElem?_zipWith, List.getElem?_zipWith,
      h.elsewhere i hi]
    cases i with
    | zero => rfl
    | succ j => rw [List.getElem?_cons_succ, List.getElem?_cons_succ, h.elsewhere j (by omega)]
  · -- What is in front is the same in both, so the xor with it keeps the two images apart.
    have himages : D c ≠ D d := hD c d hc hd hne
    intro heq
    cases k with
    | zero =>
      rw [getElem?_unchain_zero, getElem?_unchain_zero, hc, hd] at heq
      have hxor := congrArg (fun x => xorOnto x iv) (Option.some.inj heq)
      simp only [xorOnto_xorOnto] at hxor
      exact himages hxor.symm
    | succ j =>
      have hlt : j < cs.length := Nat.lt_of_succ_lt (List.getElem?_eq_some_iff.mp hc).1
      have hbefore := List.getElem?_eq_getElem hlt
      have hbefore' := (h.elsewhere j (by omega)).trans hbefore
      rw [getElem?_unchain_succ hc hbefore, getElem?_unchain_succ hd hbefore'] at heq
      have hxor := congrArg (fun x => xorOnto x cs[j]) (Option.some.inj heq)
      simp only [xorOnto_xorOnto] at hxor
      exact himages hxor.symm
  · intro p q hp hq
    have hlt : k + 1 < cs.length := by
      have hlt := (List.getElem?_eq_some_iff.mp hp).1
      rwa [length_unchain] at hlt
    have hx := List.getElem?_eq_getElem hlt
    have hx' := (h.elsewhere (k + 1) (by omega)).trans hx
    rw [getElem?_unchain_succ hx hc] at hp
    rw [getElem?_unchain_succ hx' hd] at hq
    cases hp
    cases hq
    refine ⟨c, d, hc, hd, ?_⟩
    have hDx := (hlen _ (List.getElem_mem hlt)).2
    exact xorOnto_xorOnto_xorOnto (by rw [hDx, (hlen c (List.mem_of_getElem? hc)).1])
      (by rw [hDx, hlen' d (List.mem_of_getElem? hd)])

/-! ## Backends that may refuse a block -/

namespace BlockCipher

/-- Under `key` the backend decrypts the block `b` in place to `p`. -/
def Opens (c : BlockCipher) (key : KeySchedule) (b p : Bytes) : Prop :=
  c.block .decrypt b b key = (.ok (), p)

/-- What a block holds when the backend has decrypted it in place. -/
def opened (c : BlockCipher) (key : KeySchedule) (b : Bytes) : Bytes :=
  (c.block .decrypt b b key).2

variable {c : BlockCipher} {key : KeySchedule}

theorem Opens.opened_eq {b p : Bytes} (h : c.Opens key b p) : c.opened key b = p := by
  rw [opened, h]

@[simp] theorem length_opened (c : BlockCipher) (key : KeySchedule) (b : Bytes) :
    (c.opened key b).length = b.length :=
  c.length_block .decrypt b b key

/-- Where every block is taken, the recurrence is `unchain`. -/
theorem links_of_opens {iv : Bytes} {cs : List Bytes} (h : ∀ x ∈ cs, ∃ p, c.Opens key x p) :
    c.links key .decrypt iv cs = ⟨unchain (c.opened key) iv cs, cs.getLastD iv, none⟩ := by
  refine links_unchain fun x hx => ?_
  obtain ⟨p, hp⟩ := h x hx
  rw [hp.opened_eq]
  exact hp

/-- A refused block stops the recurrence, whatever is in front of it. -/
theorem opens_of_links {iv : Bytes} {cs : List Bytes}
    (h : (c.links key .decrypt iv cs).failure? = none) : ∀ x ∈ cs, ∃ p, c.Opens key x p := by
  induction cs generalizing iv with
  | nil => intro x hx; cases hx
  | cons y cs ih =>
    rcases hb : c.block .decrypt y y key with ⟨e | ⟨⟩, p⟩
    · have hlink : c.link key .decrypt iv y = .error e := by simp only [link, hb]
      rw [links_cons_of_error hlink] at h
      cases h
    · have hlink : c.link key .decrypt iv y = .ok (xorOnto p iv, y) := by simp only [link, hb]
      rw [links_cons_of_ok hlink] at h
      intro x hx
      rcases List.mem_cons.mp hx with rfl | hx
      · exact ⟨p, hb⟩
      · exact ih h x hx

end BlockCipher

/-! ## Calls -/

namespace Context

/-- Every one of some calls that decrypts succeeds. -/
def Decrypted (ctx : Context) (calls : List Call) : Prop :=
  ∀ r ∈ ctx.observed .decrypt (calls.map .call), r.1 = .ok ()

/-- Under `key` the backend decrypts no two blocks to the same one. -/
def OpensApart (ctx : Context) (key : KeySchedule) : Prop :=
  ∀ b b' p : Bytes, b.length = ctx.blockSize → b'.length = ctx.blockSize →
    ctx.cipher.Opens key b p → ctx.cipher.Opens key b' p → b = b'

variable {ctx : Context} {key : KeySchedule}

theorem decrypted_cons_of_eq {c : Call} (hd : c.direction = .decrypt) (calls : List Call) :
    ctx.Decrypted (c :: calls) ↔
      (c.run ctx).outcome = .ok () ∧ (c.run ctx).context.Decrypted calls := by
  have hne : ¬ (Operation.call c).direction? = some Direction.decrypt.flip := by
    simp [Operation.direction?, hd, Direction.flip]
  rw [Decrypted, List.map_cons, observed, if_neg hne, List.forall_mem_cons]
  rfl

theorem decrypted_cons_of_ne {c : Call} (hd : c.direction = .encrypt) (calls : List Call) :
    ctx.Decrypted (c :: calls) ↔ (c.run ctx).context.Decrypted calls := by
  have heq : (Operation.call c).direction? = some Direction.decrypt.flip := congrArg some hd
  rw [Decrypted, List.map_cons, observed, if_pos heq]
  rfl

/-- A call that decrypts blocks which are all taken. -/
theorem run_of_opens {c : Call} (hkey : ctx.decryptKey = some key) (hd : c.direction = .decrypt)
    (hc : c.Whole ctx.blockSize)
    (h : ∀ b ∈ blocks ctx.blockSize c.data, ∃ p, ctx.cipher.Opens key b p) :
    ∃ scratch, c.run ctx =
      ⟨.ok (), (unchain (ctx.cipher.opened key) ctx.decryptIv (blocks ctx.blockSize c.data)).flatten,
        ctx.moved .decrypt ((blocks ctx.blockSize c.data).getLastD ctx.decryptIv) scratch⟩ := by
  obtain ⟨scratch, tail, hp, ht⟩ := inPlace_eq (d := .decrypt) hkey hc.1
  rw [BlockCipher.links_of_opens h] at hp ht
  rw [ht rfl, List.append_nil] at hp
  exact ⟨scratch, by rw [Call.run_eq_inPlace hc, hd, hp]; rfl⟩

/-- A call that decrypts succeeds on blocks which are all taken only. -/
theorem opens_of_run {c : Call} (hkey : ctx.decryptKey = some key) (hd : c.direction = .decrypt)
    (hc : c.Whole ctx.blockSize) (h : (c.run ctx).outcome = .ok ()) :
    ∀ b ∈ blocks ctx.blockSize c.data, ∃ p, ctx.cipher.Opens key b p := by
  obtain ⟨scratch, tail, hp, -⟩ := inPlace_eq (d := .decrypt) hkey hc.1
  rw [Call.run_eq_inPlace hc, hd, hp] at h
  exact BlockCipher.opens_of_links (Chained.outcome_eq_ok_iff.mp h)

/-- **Which calls decrypt, and what they give out.**  The calls that decrypt have whole blocks; those
    that encrypt are any calls, and are not seen. -/
theorem decrypting_calls (hkey : ctx.decryptKey = some key) (hbs : 0 < ctx.blockSize)
    {calls : List Call} (hw : ∀ c ∈ calls, c.direction = .decrypt → c.Whole ctx.blockSize) :
    (ctx.Decrypted calls ↔
      ∀ b ∈ blocks ctx.blockSize (Call.inputs .decrypt calls), ∃ p, ctx.cipher.Opens key b p) ∧
    (ctx.Decrypted calls → ctx.outputs .decrypt calls =
      (unchain (ctx.cipher.opened key) ctx.decryptIv
        (blocks ctx.blockSize (Call.inputs .decrypt calls))).flatten) := by
  induction calls generalizing ctx with
  | nil =>
    have hnone : blocks ctx.blockSize (Call.inputs .decrypt []) = [] := blocks_nil _
    rw [hnone]
    exact ⟨⟨fun _ b hb => absurd hb List.not_mem_nil, fun _ r hr => absurd hr List.not_mem_nil⟩,
      fun _ => rfl⟩
  | cons c calls ih =>
    have hw' := fun c' hc' => hw c' (List.mem_cons_of_mem c hc')
    cases hd : c.direction with
    | encrypt =>
      -- The context behind the call has the same backend, key and chaining value to decrypt with.
      have hagree : ctx.Agrees .decrypt (c.run ctx).context :=
        Operation.run_hidden (o := .call c) ctx (congrArg some hd)
      have hsize := hagree.blockSize_eq
      have hiv : (c.run ctx).context.decryptIv = ctx.decryptIv := hagree.iv_eq
      rw [← hsize] at hbs hw'
      have ih := ih (hagree.key_eq.trans hkey) hbs hw'
      rw [hsize, hagree.cipher_eq, hiv] at ih
      rw [decrypted_cons_of_ne hd, Call.inputs_cons_of_ne (by rw [hd]; decide), outputs,
        if_neg (by rw [hd]; decide), List.nil_append]
      exact ih
    | decrypt =>
      have hc := hw c List.mem_cons_self hd
      rw [decrypted_cons_of_eq hd, Call.inputs_cons_of_eq hd, blocks_append hbs hc.1, outputs,
        if_pos hd]
      by_cases hopens : ∀ b ∈ blocks ctx.blockSize c.data, ∃ p, ctx.cipher.Opens key b p
      · obtain ⟨scratch, hrun⟩ := run_of_opens hkey hd hc hopens
        -- The calls behind it go on from its last block.
        have hkey' : (c.run ctx).context.decryptKey = some key := by rw [hrun]; exact hkey
        obtain ⟨hiff, hout⟩ := ih hkey' (by rw [hrun]; exact hbs) (by rw [hrun]; exact hw')
        rw [hrun] at hiff hout ⊢
        refine ⟨⟨fun h => ?_, fun h => ⟨rfl, ?_⟩⟩, fun h => ?_⟩
        · exact List.forall_mem_append.mpr ⟨hopens, hiff.mp h.2⟩
        · exact hiff.mpr (List.forall_mem_append.mp h).2
        · rw [hout h.2, unchain_append, List.flatten_append]
          rfl
      · -- The call fails at a block that is refused.
        have hfails : (c.run ctx).outcome ≠ .ok () := fun h => hopens (opens_of_run hkey hd hc h)
        exact ⟨⟨fun h => absurd h.1 hfails, fun h => absurd (List.forall_mem_append.mp h).1 hopens⟩,
          fun h => absurd h.1 hfails⟩

/-- A block operation that undoes another keeps blocks apart, since there are finitely many. -/
theorem Inverts.opensApart {E D : Bytes → Bytes} (h : ctx.Inverts E D)
    (hkey : ctx.decryptKey = some key) : ctx.OpensApart key := by
  obtain ⟨key', hkey', hD⟩ := h.decrypts
  obtain rfl : key' = key := Option.some.inj (hkey'.symm.trans hkey)
  have hfin : {b : Bytes | b.length = ctx.blockSize}.Finite := List.finite_length_eq UInt8 _
  have hmaps : Set.MapsTo E {b | b.length = ctx.blockSize} {b | b.length = ctx.blockSize} :=
    fun b hb => h.encrypts.length_eq hb
  have hinj : Set.InjOn E {b | b.length = ctx.blockSize} := by
    intro b hb b' hb' heq
    rw [← h.inverse b hb, heq, h.inverse b' hb']
  have honto := ((hfin.injOn_iff_bijOn_of_mapsTo hmaps).mp hinj).surjOn
  intro b b' p hb hb' hopen hopen'
  obtain ⟨x, hx, rfl⟩ := honto hb
  obtain ⟨y, hy, rfl⟩ := honto hb'
  have hp : D (E x) = p := congrArg Prod.snd ((hD _ hb).symm.trans hopen)
  have hp' : D (E y) = p := congrArg Prod.snd ((hD _ hb').symm.trans hopen')
  rw [h.inverse x hx] at hp
  rw [h.inverse y hy] at hp'
  rw [hp, hp']

/-- **A change of one ciphertext block reaches two plaintext blocks.**  Two contexts on one backend with
    one decryption key and one chaining value decrypt ciphertexts that differ in block `k` only, each
    in calls of its own.  The calls of each succeed exactly when the backend takes every block; and if
    they do, the plaintexts differ in block `k`, and in block `k + 1` by the xor of the two versions
    of ciphertext block `k`, and in no other. -/
theorem change_reaches_two_blocks {ctx other : Context} {key : KeySchedule}
    (hkey : ctx.decryptKey = some key) (hapart : ctx.OpensApart key)
    (hsame : ctx.Agrees .decrypt other) {calls back : List Call}
    (hw : ∀ c ∈ calls, c.direction = .decrypt → c.Whole ctx.blockSize)
    (hw' : ∀ c ∈ back, c.direction = .decrypt → c.Whole ctx.blockSize) {k : Nat}
    (hdiff : DifferOnlyAt k (blocks ctx.blockSize (Call.inputs .decrypt calls))
      (blocks ctx.blockSize (Call.inputs .decrypt back))) :
    (ctx.Decrypted calls ↔
      ∀ b ∈ blocks ctx.blockSize (Call.inputs .decrypt calls), ∃ p, ctx.cipher.Opens key b p) ∧
    (other.Decrypted back ↔
      ∀ b ∈ blocks ctx.blockSize (Call.inputs .decrypt back), ∃ p, ctx.cipher.Opens key b p) ∧
    (ctx.Decrypted calls → other.Decrypted back →
      Propagates k (blocks ctx.blockSize (Call.inputs .decrypt calls))
        (blocks ctx.blockSize (Call.inputs .decrypt back))
        (blocks ctx.blockSize (ctx.outputs .decrypt calls))
        (blocks ctx.blockSize (other.outputs .decrypt back))) := by
  have hbs : 0 < ctx.blockSize := by
    refine Nat.pos_of_ne_zero fun h0 => hdiff.there ?_
    simp only [h0, blocks, Nat.div_zero, blocksUpTo]
  have hsize := hsame.blockSize_eq
  have hiv : other.decryptIv = ctx.decryptIv := hsame.iv_eq
  obtain ⟨hiff, hout⟩ := decrypting_calls hkey hbs hw
  have hkey' : other.decryptKey = some key := hsame.key_eq.trans hkey
  have hother := decrypting_calls hkey' (by rw [hsize]; exact hbs) (by rw [hsize]; exact hw')
  rw [hsize, hsame.cipher_eq, hiv] at hother
  obtain ⟨hiff', hout'⟩ := hother
  refine ⟨hiff, hiff', fun h h' => ?_⟩
  have hlen (b : Bytes) : ∀ x ∈ blocks ctx.blockSize b, x.length = ctx.blockSize :=
    fun x hx => length_of_mem_blocks hx
  have hcut (b : Bytes) : blocks ctx.blockSize
      (unchain (ctx.cipher.opened key) ctx.decryptIv (blocks ctx.blockSize b)).flatten =
        unchain (ctx.cipher.opened key) ctx.decryptIv (blocks ctx.blockSize b) :=
    blocks_flatten hbs (length_of_mem_unchain (fun x hx => by rw [BlockCipher.length_opened, hx])
      _ (hlen b))
  rw [hout h, hout' h', hcut, hcut]
  refine propagates_unchain hdiff ?_ ?_ (hlen _)
  · -- Both versions are taken, and the backend keeps them apart.
    intro c d hc hd hne heq
    have hc := List.mem_of_getElem? hc
    have hd := List.mem_of_getElem? hd
    obtain ⟨p, hp⟩ := hiff.mp h c hc
    obtain ⟨q, hq⟩ := hiff'.mp h' d hd
    rw [hp.opened_eq, hq.opened_eq] at heq
    subst heq
    exact hne (hapart c d p (hlen _ c hc) (hlen _ d hd) hp hq)
  · intro c hc
    rw [BlockCipher.length_opened]
    exact ⟨hlen _ c hc, hlen _ c hc⟩

/-- On AES: three blocks in one call, and in two calls with the second block changed. -/
theorem change_reaches_two_blocks_on_aes :
    ∃ bound keyed key, Context.bind Aes.portable "log" = .ok bound ∧
      bound.setKey (List.replicate 16 7) = .ok keyed ∧ keyed.decryptKey = some key ∧
      keyed.OpensApart key ∧
      Propagates 1
        [List.replicate 16 1, List.replicate 16 2, List.replicate 16 3]
        [List.replicate 16 1, List.replicate 16 0, List.replicate 16 3]
        (blocks 16 (keyed.outputs .decrypt [⟨.decrypt,
          List.replicate 16 1 ++ List.replicate 16 2 ++ List.replicate 16 3, none⟩]))
        (blocks 16 (keyed.outputs .decrypt
          [⟨.decrypt, List.replicate 16 1 ++ List.replicate 16 0, some (List.replicate 32 0)⟩,
            ⟨.decrypt, List.replicate 16 3, none⟩])) := by
  obtain ⟨keyed, E, D, hset, hinv⟩ := Aes.keyed_inverts
    (show (fresh Aes.portable "log").cipher = _ from rfl)
    (show Aes.IsKeyLength (List.replicate 16 7).length from Or.inl rfl)
  obtain ⟨-, -, ek, dk, -, -, rfl⟩ := setKey_eq_ok_iff.mp hset
  have hdk : some dk = some dk := rfl
  have hapart := hinv.opensApart hdk
  refine ⟨_, _, dk, rfl, hset, rfl, hapart, ?_⟩
  have hin : blocks 16 (Call.inputs .decrypt [⟨.decrypt,
      List.replicate 16 1 ++ List.replicate 16 2 ++ List.replicate 16 3, none⟩]) =
        [List.replicate 16 1, List.replicate 16 2, List.replicate 16 3] := by decide
  have hin' : blocks 16 (Call.inputs .decrypt
      [⟨.decrypt, List.replicate 16 1 ++ List.replicate 16 0, some (List.replicate 32 0)⟩,
        ⟨.decrypt, List.replicate 16 3, none⟩]) =
        [List.replicate 16 1, List.replicate 16 0, List.replicate 16 3] := by decide
  have hdiff : DifferOnlyAt 1 [List.replicate 16 (1 : UInt8), List.replicate 16 2, List.replicate 16 3]
      [List.replicate 16 1, List.replicate 16 0, List.replicate 16 3] := by
    refine ⟨rfl, ?_, by decide⟩
    intro i hi
    match i, hi with
    | 0, _ => rfl
    | 2, _ => rfl
    | i + 3, _ => rfl
  rw [← hin, ← hin'] at hdiff ⊢
  -- Every whole block is taken, so that the calls of both succeed.
  have hopens (b : Bytes) (hb : b.length = 16) : ∃ p, Aes.portable.Opens dk b p := by
    obtain ⟨key, hkey, hD⟩ := hinv.decrypts
    cases hkey
    exact ⟨D b, hD b hb⟩
  have hw : ∀ c ∈ [(⟨.decrypt,
      List.replicate 16 1 ++ List.replicate 16 2 ++ List.replicate 16 3, none⟩ : Call)],
      c.direction = .decrypt → c.Whole 16 := by
    intro c hc _
    rw [List.mem_singleton.mp hc]
    exact ⟨by decide, fun out hout => by cases hout⟩
  have hw' : ∀ c ∈ [(⟨.decrypt, List.replicate 16 1 ++ List.replicate 16 0,
      some (List.replicate 32 0)⟩ : Call), ⟨.decrypt, List.replicate 16 3, none⟩],
      c.direction = .decrypt → c.Whole 16 := by
    intro c hc _
    simp only [List.mem_cons, List.not_mem_nil, or_false] at hc
    rcases hc with rfl | rfl
    · exact ⟨by decide, fun out hout => by cases hout; rfl⟩
    · exact ⟨by decide, fun out hout => by cases hout⟩
  obtain ⟨hiff, hiff', hpropagates⟩ :=
    change_reaches_two_blocks rfl hapart (Agrees.refl .decrypt _) hw hw' hdiff
  exact hpropagates (hiff.mpr fun b hb => hopens b (length_of_mem_blocks hb))
    (hiff'.mpr fun b hb => hopens b (length_of_mem_blocks hb))

end Context

end Cipher

end Coffer
