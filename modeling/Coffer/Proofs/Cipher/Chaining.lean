import Coffer.Cipher.Context
import Coffer.Proofs.Bytes
/-
  Block chaining as a recurrence.

      C[i] = E(P[i] xor C[i-1])        P[i] = D(C[i]) xor C[i-1]        C[-1] = IV

  `chain` and `unchain` are these two lines, over total block functions `E` and `D`; `unchain_chain`
  is the law that ties them.  A backend may refuse a block, so what a context computes is stated
  through `BlockCipher.links`, the same recurrence over the backend's own block operations, which
  stops at the first failure.  Three facts carry everything else:

  * `Context.inPlace_eq` — a call computes `links` on the blocks of its buffer, moves the chaining
    value of its direction to where `links` ends, and touches nothing else but the work block;
  * `links_append`       — `links` may stop between two blocks and go on from the chaining value;
  * `links_encrypt`, `links_decrypt` — where no block is refused, `links` is `chain` or `unchain`.
-/
namespace Coffer.Cipher

/-! ## The recurrence -/

/-- The ciphertext blocks of plaintext blocks behind the chaining value `iv`. -/
def chain (E : Bytes → Bytes) : (iv : Bytes) → List Bytes → List Bytes
  | _, [] => []
  | iv, p :: ps => E (xorOnto p iv) :: chain E (E (xorOnto p iv)) ps

/-- The plaintext blocks of ciphertext blocks behind the chaining value `iv`. -/
def unchain (D : Bytes → Bytes) : (iv : Bytes) → List Bytes → List Bytes
  | _, [] => []
  | iv, c :: cs => xorOnto (D c) iv :: unchain D c cs

theorem unchain_append (D : Bytes → Bytes) (iv : Bytes) (cs ds : List Bytes) :
    unchain D iv (cs ++ ds) = unchain D iv cs ++ unchain D (cs.getLastD iv) ds := by
  induction cs generalizing iv with
  | nil => rfl
  | cons c cs ih =>
    rw [List.cons_append, unchain, unchain, ih, List.getLastD_cons]
    rfl

@[simp] theorem length_chain (E : Bytes → Bytes) (iv : Bytes) (ps : List Bytes) :
    (chain E iv ps).length = ps.length := by
  induction ps generalizing iv with
  | nil => rfl
  | cons p ps ih => rw [chain, List.length_cons, ih, List.length_cons]

@[simp] theorem length_unchain (D : Bytes → Bytes) (iv : Bytes) (cs : List Bytes) :
    (unchain D iv cs).length = cs.length := by
  induction cs generalizing iv with
  | nil => rfl
  | cons c cs ih => rw [unchain, List.length_cons, ih, List.length_cons]

theorem length_of_mem_chain {E : Bytes → Bytes} {size : Nat}
    (hE : ∀ b : Bytes, b.length = size → (E b).length = size) (iv : Bytes) {ps : List Bytes}
    (hps : ∀ p ∈ ps, p.length = size) : ∀ c ∈ chain E iv ps, c.length = size := by
  induction ps generalizing iv with
  | nil => intro c hc; cases hc
  | cons p ps ih =>
    intro c hc
    rw [chain] at hc
    rcases List.mem_cons.mp hc with rfl | hc
    · exact hE _ (by rw [length_xorOnto]; exact hps p List.mem_cons_self)
    · exact ih _ (fun q hq => hps q (List.mem_cons_of_mem p hq)) c hc

theorem length_of_mem_unchain {D : Bytes → Bytes} {size : Nat}
    (hD : ∀ b : Bytes, b.length = size → (D b).length = size) (iv : Bytes) {cs : List Bytes}
    (hcs : ∀ c ∈ cs, c.length = size) : ∀ p ∈ unchain D iv cs, p.length = size := by
  induction cs generalizing iv with
  | nil => intro p hp; cases hp
  | cons c cs ih =>
    intro p hp
    rw [unchain] at hp
    rcases List.mem_cons.mp hp with rfl | hp
    · rw [length_xorOnto]; exact hD c (hcs c List.mem_cons_self)
    · exact ih _ (fun q hq => hcs q (List.mem_cons_of_mem c hq)) p hp

/-- **Unchaining undoes chaining** behind the same chaining value, when `D` undoes `E`. -/
theorem unchain_chain {E D : Bytes → Bytes} {size : Nat}
    (hDE : ∀ b : Bytes, b.length = size → D (E b) = b) {iv : Bytes} {ps : List Bytes}
    (hps : ∀ p ∈ ps, p.length = size) : unchain D iv (chain E iv ps) = ps := by
  induction ps generalizing iv with
  | nil => rfl
  | cons p ps ih =>
    have hp : (xorOnto p iv).length = size := by rw [length_xorOnto]; exact hps p List.mem_cons_self
    rw [chain, unchain, hDE _ hp, xorOnto_xorOnto, ih fun q hq => hps q (List.mem_cons_of_mem p hq)]

/-! ## The recurrence over a backend that may refuse a block -/

theorem eq_flip_of_ne {d d' : Direction} (h : d ≠ d') : d' = d.flip := by
  cases d <;> cases d' <;> first | rfl | exact absurd rfl h

/-- What chaining some blocks comes to. -/
structure Chained where
  /-- The blocks processed, up to the first that was refused. -/
  blocks : List Bytes
  /-- The chaining value behind them. -/
  iv : Bytes
  failure? : Option CipherError

/-- Whether every block was processed, or the failure that stopped it. -/
def Chained.outcome (r : Chained) : Except CipherError Unit :=
  match r.failure? with
  | none => .ok ()
  | some e => .error e

theorem Chained.outcome_eq_ok_iff {r : Chained} : r.outcome = .ok () ↔ r.failure? = none := by
  rw [outcome]
  cases r.failure? with
  | none => simp only
  | some e => simp only [reduceCtorEq]

theorem Chained.outcome_eq_error_iff {r : Chained} {e : CipherError} :
    r.outcome = .error e ↔ r.failure? = some e := by
  rw [outcome]
  cases r.failure? with
  | none => simp only [reduceCtorEq]
  | some e' => simp only [Except.error.injEq, Option.some.injEq]

namespace BlockCipher

/-- One block behind the chaining value `iv`: the processed block and the next chaining value.  The
    output buffer holds the block itself at first. -/
def link (c : BlockCipher) (key : KeySchedule) (d : Direction) (iv block : Bytes) :
    Except CipherError (Bytes × Bytes) :=
  match d with
  | .encrypt =>
    match c.block .encrypt (xorOnto block iv) block key with
    | (.error e, _) => .error e
    | (.ok (), out) => .ok (out, out)
  | .decrypt =>
    match c.block .decrypt block block key with
    | (.error e, _) => .error e
    | (.ok (), out) => .ok (xorOnto out iv, block)

/-- Blocks one after the other, up to the first that is refused. -/
def links (c : BlockCipher) (key : KeySchedule) (d : Direction) : (iv : Bytes) → List Bytes → Chained
  | iv, [] => ⟨[], iv, none⟩
  | iv, block :: rest =>
    match c.link key d iv block with
    | .error e => ⟨[], iv, some e⟩
    | .ok (out, next) =>
      let r := links c key d next rest
      ⟨out :: r.blocks, r.iv, r.failure?⟩

variable {c : BlockCipher} {key : KeySchedule} {d : Direction}

theorem length_of_link {iv block out next : Bytes}
    (h : c.link key d iv block = .ok (out, next)) : out.length = block.length := by
  cases d with
  | encrypt =>
    have hlen := c.length_block .encrypt (xorOnto block iv) block key
    rcases hb : c.block .encrypt (xorOnto block iv) block key with ⟨e | ⟨⟩, o⟩
    · simp only [link, hb] at h
      cases h
    · simp only [link, hb] at h
      cases h
      rwa [hb] at hlen
  | decrypt =>
    have hlen := c.length_block .decrypt block block key
    rcases hb : c.block .decrypt block block key with ⟨e | ⟨⟩, o⟩
    · simp only [link, hb] at h
      cases h
    · simp only [link, hb] at h
      cases h
      rw [length_xorOnto]
      rwa [hb] at hlen

theorem links_cons_of_error {iv block : Bytes} {e : CipherError}
    (h : c.link key d iv block = .error e) (rest : List Bytes) :
    c.links key d iv (block :: rest) = ⟨[], iv, some e⟩ := by
  simp only [links, h]

theorem links_cons_of_ok {iv block out next : Bytes} (h : c.link key d iv block = .ok (out, next))
    (rest : List Bytes) :
    c.links key d iv (block :: rest) =
      ⟨out :: (c.links key d next rest).blocks, (c.links key d next rest).iv,
        (c.links key d next rest).failure?⟩ := by
  simp only [links, h]

theorem length_of_mem_links {size : Nat} {iv : Bytes} {bs : List Bytes}
    (h : ∀ b ∈ bs, b.length = size) : ∀ x ∈ (c.links key d iv bs).blocks, x.length = size := by
  induction bs generalizing iv with
  | nil => intro x hx; cases hx
  | cons b bs ih =>
    intro x hx
    rcases hl : c.link key d iv b with e | ⟨out, next⟩
    · rw [links_cons_of_error hl] at hx
      cases hx
    · rw [links_cons_of_ok hl] at hx
      rcases List.mem_cons.mp hx with rfl | hx
      · rw [length_of_link hl]; exact h b List.mem_cons_self
      · exact ih (fun y hy => h y (List.mem_cons_of_mem b hy)) x hx

/-- Where nothing is refused, every block is processed. -/
theorem length_links {iv : Bytes} {bs : List Bytes} (h : (c.links key d iv bs).failure? = none) :
    (c.links key d iv bs).blocks.length = bs.length := by
  induction bs generalizing iv with
  | nil => rfl
  | cons b bs ih =>
    rcases hl : c.link key d iv b with e | ⟨out, next⟩
    · rw [links_cons_of_error hl] at h
      cases h
    · rw [links_cons_of_ok hl] at h ⊢
      rw [List.length_cons, List.length_cons, ih h]

/-- **The recurrence may stop between two blocks and go on from the chaining value.** -/
theorem links_append {iv : Bytes} {xs : List Bytes} (h : (c.links key d iv xs).failure? = none)
    (ys : List Bytes) :
    c.links key d iv (xs ++ ys) =
      ⟨(c.links key d iv xs).blocks ++ (c.links key d (c.links key d iv xs).iv ys).blocks,
        (c.links key d (c.links key d iv xs).iv ys).iv,
        (c.links key d (c.links key d iv xs).iv ys).failure?⟩ := by
  induction xs generalizing iv with
  | nil => rfl
  | cons x xs ih =>
    rw [List.cons_append]
    rcases hl : c.link key d iv x with e | ⟨out, next⟩
    · rw [links_cons_of_error hl] at h
      cases h
    · rw [links_cons_of_ok hl] at h
      rw [links_cons_of_ok hl, links_cons_of_ok hl, ih h]
      rfl

/-- Nothing comes after a refused block. -/
theorem links_append_of_failure {iv : Bytes} {xs : List Bytes} {e : CipherError}
    (h : (c.links key d iv xs).failure? = some e) (ys : List Bytes) :
    c.links key d iv (xs ++ ys) = c.links key d iv xs := by
  induction xs generalizing iv with
  | nil => cases h
  | cons x xs ih =>
    rw [List.cons_append]
    rcases hl : c.link key d iv x with e | ⟨out, next⟩
    · rw [links_cons_of_error hl, links_cons_of_error hl]
    · rw [links_cons_of_ok hl] at h
      rw [links_cons_of_ok hl, links_cons_of_ok hl, ih h]

/-- More blocks only add to what comes out. -/
theorem prefix_links_append (iv : Bytes) (xs ys : List Bytes) :
    (c.links key d iv xs).blocks <+: (c.links key d iv (xs ++ ys)).blocks := by
  cases h : (c.links key d iv xs).failure? with
  | none => rw [links_append h]; exact List.prefix_append _ _
  | some e => exact ⟨[], by rw [List.append_nil, links_append_of_failure h]⟩

/-- Where the backend takes each block to its image under `D`, the recurrence is `unchain`. -/
theorem links_unchain {D : Bytes → Bytes} {iv : Bytes} {cs : List Bytes}
    (h : ∀ x ∈ cs, c.block .decrypt x x key = (.ok (), D x)) :
    c.links key .decrypt iv cs = ⟨unchain D iv cs, cs.getLastD iv, none⟩ := by
  induction cs generalizing iv with
  | nil => rfl
  | cons x cs ih =>
    have hlink : c.link key .decrypt iv x = .ok (xorOnto (D x) iv, x) := by
      simp only [link, h x List.mem_cons_self]
    rw [links_cons_of_ok hlink, ih fun y hy => h y (List.mem_cons_of_mem x hy), unchain,
      List.getLastD_cons]

end BlockCipher

/-! ## Contexts whose block operations are known -/

namespace Context

/-- Under its encryption key a context computes `E`: on whole blocks the backend succeeds, whatever
    the output buffer held. -/
def Encrypts (ctx : Context) (E : Bytes → Bytes) : Prop :=
  ∃ key, ctx.encryptKey = some key ∧ ∀ b out : Bytes, b.length = ctx.blockSize →
    out.length = ctx.blockSize → ctx.cipher.block .encrypt b out key = (.ok (), E b)

/-- Under its decryption key a context computes `D`: in place, and on whole blocks, the backend
    succeeds. -/
def Decrypts (ctx : Context) (D : Bytes → Bytes) : Prop :=
  ∃ key, ctx.decryptKey = some key ∧ ∀ b : Bytes, b.length = ctx.blockSize →
    ctx.cipher.block .decrypt b b key = (.ok (), D b)

/-- Under its keys a context computes `E` and `D`, and `D` undoes `E`. -/
structure Inverts (ctx : Context) (E D : Bytes → Bytes) : Prop where
  encrypts : ctx.Encrypts E
  decrypts : ctx.Decrypts D
  inverse : ∀ b : Bytes, b.length = ctx.blockSize → D (E b) = b

variable {ctx : Context}

theorem Encrypts.length_eq {E : Bytes → Bytes} (h : ctx.Encrypts E) {b : Bytes}
    (hb : b.length = ctx.blockSize) : (E b).length = ctx.blockSize := by
  obtain ⟨key, -, hE⟩ := h
  have hlen := ctx.cipher.length_block .encrypt b b key
  rwa [hE b b hb hb, hb] at hlen

theorem Decrypts.length_eq {D : Bytes → Bytes} (h : ctx.Decrypts D) {b : Bytes}
    (hb : b.length = ctx.blockSize) : (D b).length = ctx.blockSize := by
  obtain ⟨key, -, hD⟩ := h
  have hlen := ctx.cipher.length_block .decrypt b b key
  rwa [hD b hb, hb] at hlen

/-- A ciphertext is cut into the blocks it was made of. -/
theorem Encrypts.blocks_flatten_chain {E : Bytes → Bytes} (h : ctx.Encrypts E)
    (hbs : 0 < ctx.blockSize) (iv b : Bytes) :
    blocks ctx.blockSize (chain E iv (blocks ctx.blockSize b)).flatten =
      chain E iv (blocks ctx.blockSize b) :=
  blocks_flatten hbs
    (length_of_mem_chain (fun _ hx => h.length_eq hx) iv fun _ hx => length_of_mem_blocks hx)

/-- Only the backend and the keys matter. -/
theorem Inverts.of_eq {E D : Bytes → Bytes} {other : Context} (h : ctx.Inverts E D)
    (hcipher : other.cipher = ctx.cipher) (hkey : ∀ d, other.key? d = ctx.key? d) :
    other.Inverts E D := by
  have hsize : other.blockSize = ctx.blockSize := congrArg BlockCipher.blockSize hcipher
  obtain ⟨ek, hek, hE⟩ := h.encrypts
  obtain ⟨dk, hdk, hD⟩ := h.decrypts
  refine ⟨⟨ek, (hkey .encrypt).trans hek, ?_⟩, ⟨dk, (hkey .decrypt).trans hdk, ?_⟩, ?_⟩
  · rw [hsize, hcipher]; exact hE
  · rw [hsize, hcipher]; exact hD
  · rw [hsize]; exact h.inverse

/-- Where the backend computes `E`, the recurrence over it is `chain`. -/
theorem links_encrypt {E : Bytes → Bytes} {key : KeySchedule}
    (hE : ∀ b out : Bytes, b.length = ctx.blockSize → out.length = ctx.blockSize →
      ctx.cipher.block .encrypt b out key = (.ok (), E b))
    {iv : Bytes} {ps : List Bytes} (hps : ∀ p ∈ ps, p.length = ctx.blockSize) :
    ctx.cipher.links key .encrypt iv ps = ⟨chain E iv ps, (chain E iv ps).getLastD iv, none⟩ := by
  induction ps generalizing iv with
  | nil => rfl
  | cons p ps ih =>
    have hp : p.length = ctx.blockSize := hps p List.mem_cons_self
    have hlink : ctx.cipher.link key .encrypt iv p = .ok (E (xorOnto p iv), E (xorOnto p iv)) := by
      simp only [BlockCipher.link, hE (xorOnto p iv) p (by rw [length_xorOnto, hp]) hp]
    rw [BlockCipher.links_cons_of_ok hlink, ih fun q hq => hps q (List.mem_cons_of_mem p hq), chain,
      List.getLastD_cons]

/-- Where the backend computes `D`, the recurrence over it is `unchain`. -/
theorem links_decrypt {D : Bytes → Bytes} {key : KeySchedule}
    (hD : ∀ b : Bytes, b.length = ctx.blockSize →
      ctx.cipher.block .decrypt b b key = (.ok (), D b))
    {iv : Bytes} {cs : List Bytes} (hcs : ∀ c ∈ cs, c.length = ctx.blockSize) :
    ctx.cipher.links key .decrypt iv cs = ⟨unchain D iv cs, cs.getLastD iv, none⟩ :=
  BlockCipher.links_unchain fun c hc => hD c (hcs c hc)

/-! ## Calls on a context -/

/-- The context with the chaining value of one direction and the work block moved on. -/
def moved (ctx : Context) (d : Direction) (iv scratch : Bytes) : Context :=
  { ctx.withIv d iv with scratch := scratch }

section Moved

variable (ctx) (d d' : Direction) (iv iv' scratch scratch' : Bytes)

@[simp] theorem moved_cipher : (ctx.moved d iv scratch).cipher = ctx.cipher := by cases d <;> rfl

@[simp] theorem moved_blockSize : (ctx.moved d iv scratch).blockSize = ctx.blockSize := by
  cases d <;> rfl

@[simp] theorem moved_key? : (ctx.moved d iv scratch).key? d' = ctx.key? d' := by
  cases d <;> cases d' <;> rfl

@[simp] theorem moved_iv : (ctx.moved d iv scratch).iv d = iv := by cases d <;> rfl

@[simp] theorem moved_iv_flip : (ctx.moved d iv scratch).iv d.flip = ctx.iv d.flip := by
  cases d <;> rfl

@[simp] theorem moved_moved :
    (ctx.moved d iv scratch).moved d iv' scratch' = ctx.moved d iv' scratch' := by
  cases d <;> rfl

end Moved

theorem step_of_link_eq_error {d : Direction} {key : KeySchedule} {block : Bytes} {e : CipherError}
    (h : ctx.cipher.link key d (ctx.iv d) block = .error e) :
    ∃ scratch out, ctx.step d key block = ⟨.error e, out, ctx.moved d (ctx.iv d) scratch⟩ := by
  cases d with
  | encrypt =>
    rcases hb : ctx.cipher.block .encrypt (xorOnto block ctx.encryptIv) block key with ⟨e' | ⟨⟩, o⟩
    · simp only [BlockCipher.link, iv, hb] at h
      cases h
      exact ⟨_, o, by simp only [step, hb]; rfl⟩
    · simp only [BlockCipher.link, iv, hb] at h
      cases h
  | decrypt =>
    rcases hb : ctx.cipher.block .decrypt block block key with ⟨e' | ⟨⟩, o⟩
    · simp only [BlockCipher.link, hb] at h
      cases h
      exact ⟨_, o, by simp only [step, hb]; rfl⟩
    · simp only [BlockCipher.link, iv, hb] at h
      cases h

theorem step_of_link_eq_ok {d : Direction} {key : KeySchedule} {block out next : Bytes}
    (h : ctx.cipher.link key d (ctx.iv d) block = .ok (out, next)) :
    ∃ scratch, ctx.step d key block = ⟨.ok (), out, ctx.moved d next scratch⟩ := by
  cases d with
  | encrypt =>
    rcases hb : ctx.cipher.block .encrypt (xorOnto block ctx.encryptIv) block key with ⟨e' | ⟨⟩, o⟩
    · simp only [BlockCipher.link, iv, hb] at h
      cases h
    · simp only [BlockCipher.link, iv, hb] at h
      cases h
      exact ⟨_, by simp only [step, hb]; rfl⟩
  | decrypt =>
    rcases hb : ctx.cipher.block .decrypt block block key with ⟨e' | ⟨⟩, o⟩
    · simp only [BlockCipher.link, hb] at h
      cases h
    · simp only [BlockCipher.link, iv, hb] at h
      cases h
      exact ⟨_, by simp only [step, hb]; rfl⟩

/-- One block does not exchange the backend. -/
theorem step_cipher (d : Direction) (key : KeySchedule) (ctx : Context) (block : Bytes) :
    (ctx.step d key block).context.cipher = ctx.cipher := by
  rcases hl : ctx.cipher.link key d (ctx.iv d) block with e | ⟨out, next⟩
  · obtain ⟨scratch, out, hs⟩ := step_of_link_eq_error hl
    rw [hs, moved_cipher]
  · obtain ⟨scratch, hs⟩ := step_of_link_eq_ok hl
    rw [hs, moved_cipher]

/-- Blocks in place compute the recurrence.  On a failure the refused block and those after it fill
    the rest of the buffer. -/
theorem run_eq (d : Direction) (key : KeySchedule) (ctx : Context) (done bs : List Bytes) :
    ∃ scratch tail,
      ctx.run d key done bs =
        ⟨(ctx.cipher.links key d (ctx.iv d) bs).outcome,
          (done.reverse ++ (ctx.cipher.links key d (ctx.iv d) bs).blocks ++ tail).flatten,
          ctx.moved d (ctx.cipher.links key d (ctx.iv d) bs).iv scratch⟩ ∧
      ((ctx.cipher.links key d (ctx.iv d) bs).failure? = none → tail = []) := by
  induction bs generalizing ctx done with
  | nil =>
    refine ⟨ctx.scratch, [], ?_, fun _ => rfl⟩
    cases d <;> simp [run, BlockCipher.links, Chained.outcome, moved, withIv, iv]
  | cons b bs ih =>
    rcases hl : ctx.cipher.link key d (ctx.iv d) b with e | ⟨out, next⟩
    · -- The refused block stands where its output would, and the rest was not touched.
      obtain ⟨scratch, out, hs⟩ := step_of_link_eq_error hl
      rw [BlockCipher.links_cons_of_error hl]
      refine ⟨scratch, out :: bs, ?_, fun h => by cases h⟩
      simp [run, hs, Chained.outcome]
    · obtain ⟨scratch, hs⟩ := step_of_link_eq_ok hl
      obtain ⟨scratch', tail, hr, ht⟩ := ih (ctx.moved d next scratch) (out :: done)
      rw [moved_cipher, moved_iv, moved_moved] at hr
      rw [moved_cipher, moved_iv] at ht
      rw [BlockCipher.links_cons_of_ok hl]
      refine ⟨scratch', tail, ?_, ht⟩
      simp only [run, hs, hr, List.reverse_cons, List.append_assoc,
        List.cons_append]
      rfl

/-- **A call in place computes the recurrence on the blocks of its buffer,** moves the chaining
    value of its direction to where the recurrence ends, and touches nothing else but the work
    block. -/
theorem inPlace_eq {d : Direction} {key : KeySchedule} (hkey : ctx.key? d = some key) {b : Bytes}
    (hb : b.length % ctx.blockSize = 0) :
    ∃ scratch tail,
      ctx.inPlace d b =
        ⟨(ctx.cipher.links key d (ctx.iv d) (blocks ctx.blockSize b)).outcome,
          ((ctx.cipher.links key d (ctx.iv d) (blocks ctx.blockSize b)).blocks ++ tail).flatten,
          ctx.moved d (ctx.cipher.links key d (ctx.iv d) (blocks ctx.blockSize b)).iv scratch⟩ ∧
      ((ctx.cipher.links key d (ctx.iv d) (blocks ctx.blockSize b)).failure? = none →
        tail = []) := by
  obtain ⟨scratch, tail, hr, ht⟩ := run_eq d key ctx [] (blocks ctx.blockSize b)
  refine ⟨scratch, tail, ?_, ht⟩
  simp only [inPlace, hkey, hb, ne_eq, not_true_eq_false, if_false, hr, List.reverse_nil,
    List.nil_append]

/-- Moving a chaining value leaves the block operation as it is. -/
theorem Decrypts.moved {D : Bytes → Bytes} (h : ctx.Decrypts D) (d : Direction) (iv scratch : Bytes) :
    (ctx.moved d iv scratch).Decrypts D := by
  obtain ⟨key, hkey, hD⟩ := h
  refine ⟨key, (ctx.moved_key? d .decrypt iv scratch).trans hkey, ?_⟩
  rw [moved_blockSize, moved_cipher]
  exact hD

/-- **A call that decrypts in place, where no block is refused.** -/
theorem Decrypts.inPlace_eq {D : Bytes → Bytes} (h : ctx.Decrypts D) {b : Bytes}
    (hb : b.length % ctx.blockSize = 0) :
    ∃ scratch, ctx.inPlace .decrypt b =
      ⟨.ok (), (unchain D ctx.decryptIv (blocks ctx.blockSize b)).flatten,
        ctx.moved .decrypt ((blocks ctx.blockSize b).getLastD ctx.decryptIv) scratch⟩ := by
  obtain ⟨key, hkey, hD⟩ := h
  obtain ⟨scratch, tail, hp, ht⟩ := Context.inPlace_eq (d := .decrypt) hkey hb
  have hl : ctx.cipher.links key .decrypt (ctx.iv .decrypt) (blocks ctx.blockSize b) =
      ⟨unchain D ctx.decryptIv (blocks ctx.blockSize b),
        (blocks ctx.blockSize b).getLastD ctx.decryptIv, none⟩ :=
    links_decrypt hD fun _ hx => length_of_mem_blocks hx
  rw [hl] at hp ht
  rw [ht rfl, List.append_nil] at hp
  exact ⟨scratch, hp⟩

end Context

end Coffer.Cipher
