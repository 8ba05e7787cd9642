import Coffer.Proofs.Cipher.Aes
/-
  Chaining across calls.

  A `Call` hands whole blocks to a context, in one direction, in place or with an output buffer of its
  own.  `Context.trace` is what a list of calls leaves, call by call, and `Context.after` the context
  behind them.  The calls of the two directions may come in any order: `calls_spec` says that in
  each direction they compute one recurrence over all the bytes of that direction, as if there had
  been a single call, and that the other direction does not show.
-/
namespace Coffer.Cipher

/-- A call on a context. -/
structure Call where
  direction : Direction
  data : Bytes
  /-- What the output buffer holds at first; `none` for a call in place. -/
  output? : Option Bytes

namespace Call

/-- The call has whole blocks, and an output buffer of its own has their length. -/
def Whole (size : Nat) (c : Call) : Prop :=
  c.data.length % size = 0 ∧ ∀ out ∈ c.output?, out.length = c.data.length

/-- What the call leaves. -/
def run (c : Call) (ctx : Context) : Processed :=
  match c.output? with
  | none => ctx.inPlace c.direction c.data
  | some out => ctx.into c.direction c.data out

/-- The bytes that some calls hand in for one direction. -/
def inputs (d : Direction) (calls : List Call) : Bytes :=
  calls.flatMap fun c => if c.direction = d then c.data else []

theorem inputs_cons_of_eq {d : Direction} {c : Call} (h : c.direction = d) (calls : List Call) :
    inputs d (c :: calls) = c.data ++ inputs d calls := by
  rw [inputs, List.flatMap_cons, if_pos h]
  rfl

theorem inputs_cons_of_ne {d : Direction} {c : Call} (h : c.direction ≠ d) (calls : List Call) :
    inputs d (c :: calls) = inputs d calls := by
  rw [inputs, List.flatMap_cons, if_neg h]
  rfl

/-- The bytes that whole calls hand in are whole blocks. -/
theorem length_inputs_mod {size : Nat} (d : Direction) {calls : List Call}
    (hw : ∀ c ∈ calls, c.Whole size) : (inputs d calls).length % size = 0 := by
  induction calls with
  | nil => exact Nat.zero_mod size
  | cons c calls ih =>
    have ih := ih fun c' hc' => hw c' (List.mem_cons_of_mem c hc')
    by_cases hd : c.direction = d
    · have hc := (hw c List.mem_cons_self).1
      rw [inputs_cons_of_eq hd, List.length_append, Nat.add_mod, hc, ih, Nat.zero_mod]
    · rw [inputs_cons_of_ne hd]
      exact ih

/-- With a buffer of its own a whole call does what it does in place. -/
theorem run_eq_inPlace {size : Nat} {c : Call} (h : c.Whole size) (ctx : Context) :
    c.run ctx = ctx.inPlace c.direction c.data := by
  rcases ho : c.output? with _ | out
  · simp only [run, ho]
  · have hlen : out.length = c.data.length := h.2 out (by rw [ho]; rfl)
    simp only [run, ho, Context.into, hlen, ne_eq, not_true_eq_false, if_false]

end Call

namespace Context

/-- What each of some calls leaves. -/
def trace : Context → List Call → List Processed
  | _, [] => []
  | ctx, c :: rest => c.run ctx :: trace (c.run ctx).context rest

/-- The context behind some calls. -/
def after (ctx : Context) (calls : List Call) : Context :=
  calls.foldl (fun ctx c => (c.run ctx).context) ctx

/-- The bytes that some calls give out in one direction. -/
def outputs (d : Direction) : Context → List Call → Bytes
  | _, [] => []
  | ctx, c :: rest =>
    (if c.direction = d then (c.run ctx).buffer else []) ++ outputs d (c.run ctx).context rest

/-- The keys under which no whole block is refused, in either direction. -/
def Accepts (ctx : Context) (key : Direction → KeySchedule) : Prop :=
  ∀ d, ctx.key? d = some (key d) ∧ ∀ iv bs, (∀ b ∈ bs, b.length = ctx.blockSize) →
    (ctx.cipher.links (key d) d iv bs).failure? = none

variable {ctx : Context} {key : Direction → KeySchedule}

theorem Accepts.moved (h : ctx.Accepts key) (d : Direction) (iv scratch : Bytes) :
    (ctx.moved d iv scratch).Accepts key := by
  intro d'
  rw [moved_key?, moved_cipher, moved_blockSize]
  exact h d'

/-- The recurrence over everything that some bytes hold in whole blocks. -/
def chained (ctx : Context) (key : Direction → KeySchedule) (d : Direction) (b : Bytes) : Chained :=
  ctx.cipher.links (key d) d (ctx.iv d) (blocks ctx.blockSize b)

/-- The recurrence may stop behind whole blocks and go on in a context moved there. -/
theorem Accepts.chained_append (h : ctx.Accepts key) (hbs : 0 < ctx.blockSize) (d : Direction)
    {a : Bytes} (ha : a.length % ctx.blockSize = 0) (b scratch : Bytes) :
    ctx.chained key d (a ++ b) =
      ⟨(ctx.chained key d a).blocks ++
          ((ctx.moved d (ctx.chained key d a).iv scratch).chained key d b).blocks,
        ((ctx.moved d (ctx.chained key d a).iv scratch).chained key d b).iv,
        ((ctx.moved d (ctx.chained key d a).iv scratch).chained key d b).failure?⟩ := by
  have hnone := (h d).2 (ctx.iv d) (blocks ctx.blockSize a) fun x hx => length_of_mem_blocks hx
  simp only [chained, moved_cipher, moved_blockSize, moved_iv]
  rw [blocks_append hbs ha, BlockCipher.links_append hnone]

/-- Moving one direction does not show in the other. -/
theorem chained_moved_of_ne {d d' : Direction} (hd : d ≠ d') (iv scratch b : Bytes) :
    (ctx.moved d iv scratch).chained key d' b = ctx.chained key d' b := by
  rw [eq_flip_of_ne hd]
  simp only [chained, moved_cipher, moved_blockSize, moved_iv_flip]

/-- One call computes the recurrence on its data and moves one chaining value. -/
theorem Accepts.run_call (h : ctx.Accepts key) {c : Call} (hc : c.Whole ctx.blockSize) :
    ∃ scratch, c.run ctx =
      ⟨.ok (), (ctx.chained key c.direction c.data).blocks.flatten,
        ctx.moved c.direction (ctx.chained key c.direction c.data).iv scratch⟩ := by
  obtain ⟨hkey, hall⟩ := h c.direction
  obtain ⟨scratch, tail, hp, ht⟩ := inPlace_eq hkey hc.1
  have hnone := hall (ctx.iv c.direction) (blocks ctx.blockSize c.data) fun b hb =>
    length_of_mem_blocks hb
  refine ⟨scratch, ?_⟩
  rw [Call.run_eq_inPlace hc, hp, ht hnone, List.append_nil, Chained.outcome, hnone]
  rfl

/-- **Any calls compute one recurrence in each direction,** however the bytes are cut into calls and
    however the calls of the two directions alternate. -/
theorem calls_spec (hbs : 0 < ctx.blockSize) (h : ctx.Accepts key) {calls : List Call}
    (hw : ∀ c ∈ calls, c.Whole ctx.blockSize) :
    (∀ p ∈ ctx.trace calls, p.outcome = .ok ()) ∧
    (∀ d, ctx.outputs d calls = (ctx.chained key d (Call.inputs d calls)).blocks.flatten ∧
      (ctx.after calls).iv d = (ctx.chained key d (Call.inputs d calls)).iv) ∧
    (ctx.after calls).cipher = ctx.cipher ∧ ∀ d, (ctx.after calls).key? d = ctx.key? d := by
  induction calls generalizing ctx with
  | nil =>
    have hempty (d : Direction) : ctx.chained key d (Call.inputs d []) = ⟨[], ctx.iv d, none⟩ := by
      rw [chained, Call.inputs, List.flatMap_nil, blocks_nil]
      rfl
    refine ⟨?_, ?_, rfl, fun _ => rfl⟩
    · intro p hp
      exact absurd hp List.not_mem_nil
    · intro d
      rw [hempty]
      exact ⟨rfl, rfl⟩
  | cons c calls ih =>
    have hc := hw c List.mem_cons_self
    obtain ⟨scratch, hrun⟩ := h.run_call hc
    obtain ⟨htrace, hspec, hcipher, hkeys⟩ := ih (by rw [moved_blockSize]; exact hbs)
      (h.moved c.direction (ctx.chained key c.direction c.data).iv scratch)
      (fun c' hc' => by rw [moved_blockSize]; exact hw c' (List.mem_cons_of_mem c hc'))
    rw [moved_cipher] at hcipher
    simp only [moved_key?] at hkeys
    rw [trace, after, List.foldl_cons, hrun]
    refine ⟨?_, ?_, hcipher, hkeys⟩
    · intro p hp
      rcases List.mem_cons.mp hp with rfl | hp
      · rfl
      · exact htrace p hp
    · intro d
      obtain ⟨hout, hiv⟩ := hspec d
      rw [outputs, hrun]
      -- The bytes of the call's own direction go in front; the other direction does not see it.
      by_cases hd : c.direction = d
      · subst hd
        rw [if_pos rfl, Call.inputs_cons_of_eq rfl,
          h.chained_append hbs c.direction hc.1 _ scratch, List.flatten_append]
        exact ⟨congrArg _ hout, hiv⟩
      · rw [chained_moved_of_ne hd] at hout hiv
        rw [if_neg hd, Call.inputs_cons_of_ne hd, List.nil_append]
        exact ⟨hout, hiv⟩

/-! ## Calls under inverse block operations -/

/-- What calls on a context come to behind the chaining value `iv`: they all succeed, each direction
    computes the recurrence, and its chaining value is the last ciphertext block it has seen. -/
structure ChainsBehind (ctx : Context) (E D : Bytes → Bytes) (iv : Bytes) (calls : List Call) :
    Prop where
  succeeds : ∀ p ∈ ctx.trace calls, p.outcome = .ok ()
  encrypted : ctx.outputs .encrypt calls =
    (chain E iv (blocks ctx.blockSize (Call.inputs .encrypt calls))).flatten
  decrypted : ctx.outputs .decrypt calls =
    (unchain D iv (blocks ctx.blockSize (Call.inputs .decrypt calls))).flatten
  encryptIv : (ctx.after calls).encryptIv =
    (blocks ctx.blockSize (ctx.outputs .encrypt calls)).getLastD iv
  decryptIv : (ctx.after calls).decryptIv =
    (blocks ctx.blockSize (Call.inputs .decrypt calls)).getLastD iv

variable {E D : Bytes → Bytes} {iv : Bytes}

/-- Under inverse block operations no whole block is refused. -/
theorem Inverts.accepts (h : ctx.Inverts E D) : ∃ key, ctx.Accepts key := by
  obtain ⟨ek, hek, hE⟩ := h.encrypts
  obtain ⟨dk, hdk, hD⟩ := h.decrypts
  refine ⟨fun d => d.casesOn (motive := fun _ => KeySchedule) ek dk, ?_⟩
  intro d
  cases d with
  | encrypt => exact ⟨hek, fun iv bs hbs => by rw [links_encrypt hE hbs]⟩
  | decrypt => exact ⟨hdk, fun iv bs hbs => by rw [links_decrypt hD hbs]⟩

theorem Inverts.chainsBehind (hbs : 0 < ctx.blockSize) (h : ctx.Inverts E D)
    (hiv : ∀ d, ctx.iv d = iv) {calls : List Call} (hw : ∀ c ∈ calls, c.Whole ctx.blockSize) :
    ctx.ChainsBehind E D iv calls := by
  obtain ⟨key, hkey⟩ := h.accepts
  obtain ⟨htrace, hspec, -, -⟩ := calls_spec hbs hkey hw
  have hwhole (b : Bytes) : ∀ x ∈ blocks ctx.blockSize b, x.length = ctx.blockSize :=
    fun x hx => length_of_mem_blocks hx
  obtain ⟨houtE, hivE⟩ := hspec .encrypt
  obtain ⟨houtD, hivD⟩ := hspec .decrypt
  -- The keys under which nothing is refused are those of the two block operations.
  obtain ⟨ek, hek, hE⟩ := h.encrypts
  obtain ⟨dk, hdk, hD⟩ := h.decrypts
  have hkE : key .encrypt = ek := Option.some.inj ((hkey .encrypt).1.symm.trans hek)
  have hkD : key .decrypt = dk := Option.some.inj ((hkey .decrypt).1.symm.trans hdk)
  rw [chained, hkE, links_encrypt hE (hwhole _), hiv] at houtE hivE
  rw [chained, hkD, links_decrypt hD (hwhole _), hiv] at houtD hivD
  refine ⟨htrace, houtE, houtD, ?_, hivD⟩
  rw [houtE, h.encrypts.blocks_flatten_chain hbs]
  exact hivE

/-- Decrypting what whole calls encrypted, behind the same chaining value, gives back what they were
    given. -/
theorem ChainsBehind.decrypt_encrypt {other : Context} (hbs : 0 < ctx.blockSize)
    (h : ctx.Inverts E D) (hsize : other.blockSize = ctx.blockSize) {calls back : List Call}
    (hw : ∀ c ∈ calls, c.Whole ctx.blockSize) (hcalls : ctx.ChainsBehind E D iv calls)
    (hback : other.ChainsBehind E D iv back)
    (hsame : Call.inputs .decrypt back = ctx.outputs .encrypt calls) :
    other.outputs .decrypt back = Call.inputs .encrypt calls := by
  rw [hback.decrypted, hsame, hcalls.encrypted, hsize, h.encrypts.blocks_flatten_chain hbs,
    unchain_chain h.inverse fun _ hx => length_of_mem_blocks hx,
    flatten_blocks_of_mod_eq_zero (Call.length_inputs_mod .encrypt hw)]

/-- A fork with another chaining value has the same inverse block operations. -/
theorem Inverts.fork_setIvs (h : ctx.Inverts E D) (hle : ctx.blockSize ≤ allocationLimit)
    (hlen : iv.length = ctx.blockSize) :
    ∃ fork forked, ctx.fork = .ok fork ∧ fork.setIvs iv = .ok forked ∧ forked.Inverts E D ∧
      forked.blockSize = ctx.blockSize ∧ ∀ d, forked.iv d = iv := by
  refine ⟨_, _, fork_of_le hle, setIvs_of_length hlen, ?_, rfl, ?_⟩
  · refine h.of_eq rfl ?_
    intro d
    cases d <;> rfl
  · intro d
    cases d <;> rfl

/-- What any calls on a context come to, and what decrypting gives back there or on a fork. -/
theorem Inverts.calls_and_back (hbs : 0 < ctx.blockSize) (hle : ctx.blockSize ≤ allocationLimit)
    (h : ctx.Inverts E D) (hiv : ∀ d, ctx.iv d = iv) (hlen : iv.length = ctx.blockSize)
    {calls : List Call} (hw : ∀ c ∈ calls, c.Whole ctx.blockSize) :
    ctx.ChainsBehind E D iv calls ∧
    (Call.inputs .decrypt calls = ctx.outputs .encrypt calls →
      ctx.outputs .decrypt calls = Call.inputs .encrypt calls) ∧
    ∃ fork forked, (ctx.after calls).fork = .ok fork ∧ fork.setIvs iv = .ok forked ∧
      ∀ back : List Call, (∀ c ∈ back, c.Whole ctx.blockSize) →
        forked.ChainsBehind E D iv back ∧
        (Call.inputs .decrypt back = ctx.outputs .encrypt calls →
          forked.outputs .decrypt back = Call.inputs .encrypt calls) := by
  have hcalls : ctx.ChainsBehind E D iv calls := h.chainsBehind hbs hiv hw
  refine ⟨hcalls, hcalls.decrypt_encrypt hbs h rfl hw hcalls, ?_⟩
  obtain ⟨key, hkey⟩ := h.accepts
  obtain ⟨-, -, hcipher, hkeys⟩ := calls_spec hbs hkey hw
  have hsize : (ctx.after calls).blockSize = ctx.blockSize :=
    congrArg BlockCipher.blockSize hcipher
  -- The context behind the calls has the backend and the keys it started with, and so has its fork.
  have hlen' : iv.length = (ctx.after calls).blockSize := by rw [hsize]; exact hlen
  obtain ⟨fork, forked, hfork, hset, hinv, hsize', hiv'⟩ :=
    (h.of_eq hcipher hkeys).fork_setIvs (by rw [hsize]; exact hle) hlen'
  rw [hsize] at hsize'
  refine ⟨fork, forked, hfork, hset, ?_⟩
  intro back hback
  have hforked : forked.ChainsBehind E D iv back :=
    hinv.chainsBehind (by rw [hsize']; exact hbs) hiv' (by rw [hsize']; exact hback)
  exact ⟨hforked, hcalls.decrypt_encrypt hbs h hsize' hw hforked⟩

/-- **Chaining survives any split into calls.**  On a context keyed for inverse block operations, the
    calls of each direction compute the recurrence behind the initial chaining value, and after
    every call the chaining value is the last ciphertext block of its direction.  Decrypting the
    ciphertext, split in any other way, gives the plaintext back: among the calls of the same
    context, or on a fork with the same chaining value.  The AES backends are such with every key
    of an allowed length. -/
theorem chaining_survives_any_split :
    (∀ {cipher : BlockCipher} {name : String} {key iv : Bytes} {bound keyed : Context}
        {E D : Bytes → Bytes},
      Context.bind cipher name = .ok bound → bound.setKey key = .ok keyed → keyed.Inverts E D →
      iv.length = cipher.blockSize →
      ∃ ctx, keyed.setIvs iv = .ok ctx ∧
        ∀ calls : List Call, (∀ c ∈ calls, c.Whole cipher.blockSize) →
          ctx.ChainsBehind E D iv calls ∧
          (Call.inputs .decrypt calls = ctx.outputs .encrypt calls →
            ctx.outputs .decrypt calls = Call.inputs .encrypt calls) ∧
          ∃ fork forked, (ctx.after calls).fork = .ok fork ∧ fork.setIvs iv = .ok forked ∧
            ∀ back : List Call, (∀ c ∈ back, c.Whole cipher.blockSize) →
              forked.ChainsBehind E D iv back ∧
              (Call.inputs .decrypt back = ctx.outputs .encrypt calls →
                forked.outputs .decrypt back = Call.inputs .encrypt calls)) ∧
    ∀ cipher ∈ [Aes.portable, Aes.accelerated], ∀ (name : String) (key : Bytes),
      Aes.IsKeyLength key.length →
        ∃ bound keyed E D, Context.bind cipher name = .ok bound ∧ bound.setKey key = .ok keyed ∧
          keyed.Inverts E D := by
  constructor
  · intro cipher name key iv bound keyed E D hbind hkey hinv hlen
    obtain ⟨-, hbs, hle, rfl⟩ := bind_eq_ok_iff.mp hbind
    obtain ⟨-, -, ek, dk, -, -, rfl⟩ := setKey_eq_ok_iff.mp hkey
    refine ⟨_, setIvs_of_length hlen, ?_⟩
    intro calls hw
    have hctx : Inverts ⟨cipher, name, some ek, some dk, iv, iv,
        List.replicate cipher.blockSize 0⟩ E D := by
      refine hinv.of_eq rfl ?_
      intro d
      cases d <;> rfl
    exact hctx.calls_and_back (by exact hbs) (by exact hle) (fun d => by cases d <;> rfl) hlen hw
  · intro cipher hc name key hlen
    have hbind : Context.bind cipher name = .ok (fresh cipher name) := by
      rcases List.mem_cons.mp hc with rfl | hc
      · rfl
      · rw [List.mem_singleton.mp hc]
        rfl
    have hbackend : ∃ algorithm label, cipher = Aes.backend algorithm label := by
      rcases List.mem_cons.mp hc with rfl | hc
      · exact ⟨_, _, rfl⟩
      · rw [List.mem_singleton.mp hc]
        exact ⟨_, _, rfl⟩
    obtain ⟨algorithm, label, rfl⟩ := hbackend
    obtain ⟨keyed, E, D, hkey, hinv⟩ :=
      Aes.keyed_inverts (show (fresh _ name).cipher = Aes.backend algorithm label from rfl) hlen
    exact ⟨_, keyed, E, D, hbind, hkey, hinv⟩

/-- On AES, with two calls to encrypt and one to decrypt in between. -/
theorem chaining_survives_any_split_on_aes :
    ∃ bound keyed E D ctx, Context.bind Aes.portable "log" = .ok bound ∧
      bound.setKey (List.replicate 32 7) = .ok keyed ∧ keyed.Inverts E D ∧
      keyed.setIvs (List.replicate 16 9) = .ok ctx ∧
      ctx.ChainsBehind E D (List.replicate 16 9)
        [⟨.encrypt, List.replicate 32 1, none⟩, ⟨.decrypt, List.replicate 16 2, none⟩,
          ⟨.encrypt, List.replicate 16 3, some (List.replicate 16 0)⟩] := by
  obtain ⟨bound, keyed, E, D, hbind, hkey, hinv⟩ :=
    chaining_survives_any_split.2 Aes.portable List.mem_cons_self "log" (List.replicate 32 7)
      (Or.inr (Or.inr rfl))
  have hlen : (List.replicate 16 9 : Bytes).length = Aes.portable.blockSize := rfl
  obtain ⟨ctx, hset, hcalls⟩ := chaining_survives_any_split.1 hbind hkey hinv hlen
  refine ⟨bound, keyed, E, D, ctx, hbind, hkey, hinv, hset, (hcalls _ ?_).1⟩
  intro c hc
  simp only [List.mem_cons, List.not_mem_nil, or_false] at hc
  rcases hc with rfl | rfl | rfl
  · exact ⟨rfl, fun out hout => by cases hout⟩
  · exact ⟨rfl, fun out hout => by cases hout⟩
  · exact ⟨rfl, fun out hout => by cases hout; rfl⟩

end Context

end Coffer.Cipher
