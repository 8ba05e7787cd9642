import Coffer.Proofs.Cipher.Separation
import Coffer.Proofs.Outcome
/-
  The shape of a context.

  A context is made of buffers that are overwritten in their places.  A copy traps when the two buffers
  differ in length, and so does cutting a buffer into blocks of no bytes.  `Operation.inMemory` is an
  operation with every copy that it makes, `none` where one of them traps.  Setting both chaining
  values is two settings there, and what the first has stored stays when the second fails.

  * `Context.Fits`       — the buffers have the length of a block.  No copy traps then, and in memory an
                           operation does what it does to the context (`Operation.inMemory_eq`);
  * `Context.KeyedWith`  — the two directions are unset, or expanded from one user key;
  * `Family`             — contexts with their pasts, which are bound, worked with and forked in any
                           order.  One act keeps them sound (`Family.act_sound`), and so does every
                           run (`Family.run_sound`);
  * `contexts_keep_their_shape` — all of it, with what settings leave (`Context.SetsCleanly`).
-/
namespace Coffer.Cipher

/-! ## Backends that install what they expand -/

namespace BlockCipher

/-- A keying that succeeds installs exactly one expanded key in the schedule that it was given. -/
def Installs (c : BlockCipher) : Prop :=
  ∀ d s key bits s', c.setKey d s key bits = (.ok (), s') → ∃ expanded, s.install expanded = .ok s'

/-- The schedule holds what the backend expands from `key` for direction `d`. -/
structure Expands (c : BlockCipher) (key : Bytes) (d : Direction) (s : KeySchedule) : Prop where
  setKey_eq : c.setKey d (.empty d c.keySize) key (key.length * 8) = (.ok (), s)
  direction_eq : s.direction = d
  isSet : s.isSet = true

theorem Installs.expands {c : BlockCipher} (hc : c.Installs) {d : Direction} {key : Bytes}
    {s : KeySchedule} (h : c.setKey d (.empty d c.keySize) key (key.length * 8) = (.ok (), s)) :
    c.Expands key d s := by
  obtain ⟨expanded, hinstall⟩ := hc _ _ _ _ _ h
  rw [KeySchedule.install] at hinstall
  split at hinstall
  · cases hinstall
  · cases hinstall
    exact ⟨h, rfl, rfl⟩

end BlockCipher

/-- An AES backend installs the round keys. -/
theorem Aes.installs_backend (algorithm : Algorithm) (name : String) :
    (Aes.backend algorithm name).Installs := by
  intro d s key bits s' h
  rcases hs : Aes.keySchedule d s key bits with e | s''
  · simp only [Aes.backend, hs, Prod.mk.injEq, reduceCtorEq, false_and] at h
  · simp only [Aes.backend, hs, Prod.mk.injEq, true_and] at h
    subst h
    obtain ⟨-, -, hs⟩ := bind_eq_ok_iff.mp hs
    split at hs
    · cases hs
    · obtain ⟨expanded, -, hinstall⟩ := bind_eq_ok_iff.mp hs
      exact ⟨expanded, hinstall⟩

/-! ## Operations in memory -/

/-- What the buffer `dst` holds after `src` was copied to it. -/
def copyTo (dst src : Bytes) : Option Bytes := if dst.length = src.length then some src else none

theorem copyTo_of_length {dst src : Bytes} (h : dst.length = src.length) :
    copyTo dst src = some src := if_pos h

namespace Context.Memory

/-- Both schedules are expanded beside the context and put in their places together. -/
def setKey (ctx : Context) (key : Bytes) : Processed :=
  if key.isEmpty then ⟨.error (.invalidKeyMaterial 0 .empty), [], ctx⟩
  else if 0xFFFFFFFF < key.length * 8 then
    ⟨.error (.invalidKeyMaterial key.length .tooLong), [], ctx⟩
  else
    let keyed (d : Direction) :=
      ctx.cipher.setKey d (.empty d ctx.cipher.keySize) key (key.length * 8)
    match keyed .encrypt with
    | (.error e, _) => ⟨.error e, [], ctx⟩
    | (.ok (), forEncrypt) =>
      match keyed .decrypt with
      | (.error e, _) => ⟨.error e, [], ctx⟩
      | (.ok (), forDecrypt) =>
        ⟨.ok (), [], { ctx with encryptKey := some forEncrypt, decryptKey := some forDecrypt }⟩

/-- One chaining value is overwritten. -/
def setIv (ctx : Context) (d : Direction) (iv : Bytes) : Option Processed :=
  if iv.length ≠ ctx.blockSize then
    some ⟨.error (.invalidArgument (.ivLength ctx.blockSize iv.length)), [], ctx⟩
  else (copyTo (ctx.iv d) iv).map fun iv => ⟨.ok (), [], ctx.withIv d iv⟩

/-- Both chaining values are overwritten, one after the other. -/
def setIvs (ctx : Context) (iv : Bytes) : Option Processed :=
  (setIv ctx .encrypt iv).bind fun r =>
    match r.outcome with
    | .ok () => setIv r.context .decrypt iv
    | .error _ => some r

/-- One block: it is copied to the work block, and a ciphertext block to the chaining value. -/
def step (d : Direction) (key : KeySchedule) (ctx : Context) (block : Bytes) : Option Processed :=
  (copyTo ctx.scratch block).bind fun scratch =>
    match d with
    | .encrypt =>
      let mixed := xorOnto scratch ctx.encryptIv
      match ctx.cipher.block .encrypt mixed block key with
      | (.error e, out) => some ⟨.error e, out, { ctx with scratch := mixed }⟩
      | (.ok (), out) => (copyTo ctx.encryptIv out).map fun iv =>
        ⟨.ok (), out, { ctx with scratch := mixed, encryptIv := iv }⟩
    | .decrypt =>
      match ctx.cipher.block .decrypt scratch block key with
      | (.error e, out) => some ⟨.error e, out, { ctx with scratch := scratch }⟩
      | (.ok (), out) =>
        -- The two buffers change places.
        some ⟨.ok (), xorOnto out ctx.decryptIv,
          { ctx with decryptIv := scratch, scratch := ctx.decryptIv }⟩

/-- Blocks one after the other, up to the first that fails. -/
def run (d : Direction) (key : KeySchedule) (ctx : Context) (done : List Bytes) :
    List Bytes → Option Processed
  | [] => some ⟨.ok (), done.reverse.flatten, ctx⟩
  | block :: rest =>
    (step d key ctx block).bind fun r =>
      match r.outcome with
      | .ok () => run d key r.context (r.buffer :: done) rest
      | .error e => some ⟨.error e, (rest.reverse ++ r.buffer :: done).reverse.flatten, r.context⟩

/-- A buffer in place. -/
def inPlace (d : Direction) (ctx : Context) (buffer : Bytes) : Option Processed :=
  match ctx.key? d with
  | none => some ⟨.error (.notInitialized d), buffer, ctx⟩
  | some key =>
    if ctx.blockSize = 0 then none
    else if buffer.length % ctx.blockSize ≠ 0 then
      some ⟨.error (.invalidBufferLength buffer.length ctx.blockSize), buffer, ctx⟩
    else run d key ctx [] (blocks ctx.blockSize buffer)

/-- A call with an output buffer of its own: the input is copied there. -/
def into (d : Direction) (ctx : Context) (input output : Bytes) : Option Processed :=
  if input.length ≠ output.length then
    some ⟨.error (.invalidArgument (.unequalBuffers input.length output.length)), output, ctx⟩
  else (copyTo output input).bind (inPlace d ctx)

end Context.Memory

/-- What an operation leaves, with the copies that it makes. -/
def Operation.inMemory (o : Operation) (ctx : Context) : Option Processed :=
  match o with
  | setKey key => some (Context.Memory.setKey ctx key)
  | setIvs iv => Context.Memory.setIvs ctx iv
  | setIv d iv => Context.Memory.setIv ctx d iv
  | call c =>
    match c.output? with
    | none => Context.Memory.inPlace c.direction ctx c.data
    | some out => Context.Memory.into c.direction ctx c.data out

/-! ## Buffers of one block -/

variable {ctx : Context} {d : Direction} {key : KeySchedule}

namespace Context

/-- A block is not empty, and every buffer of the context has its length. -/
structure Fits (ctx : Context) : Prop where
  blockSize_pos : 0 < ctx.blockSize
  length_encryptIv : ctx.encryptIv.length = ctx.blockSize
  length_decryptIv : ctx.decryptIv.length = ctx.blockSize
  length_scratch : ctx.scratch.length = ctx.blockSize

theorem Fits.length_iv (h : ctx.Fits) (d : Direction) : (ctx.iv d).length = ctx.blockSize := by
  cases d
  · exact h.length_encryptIv
  · exact h.length_decryptIv

theorem Fits.withIv (h : ctx.Fits) (d : Direction) {iv : Bytes} (hiv : iv.length = ctx.blockSize) :
    (ctx.withIv d iv).Fits := by
  cases d
  · exact ⟨h.blockSize_pos, hiv, h.length_decryptIv, h.length_scratch⟩
  · exact ⟨h.blockSize_pos, h.length_encryptIv, hiv, h.length_scratch⟩

theorem fits_fresh {cipher : BlockCipher} (h : 0 < cipher.blockSize) (name : String) :
    (fresh cipher name).Fits :=
  ⟨h, List.length_replicate, List.length_replicate, List.length_replicate⟩

/-- One block leaves buffers of one block, whether the backend takes it or not. -/
theorem Fits.step (h : ctx.Fits) {block : Bytes} (hb : block.length = ctx.blockSize) :
    (ctx.step d key block).context.Fits := by
  cases d with
  | encrypt =>
    have hmixed : (xorOnto block ctx.encryptIv).length = ctx.blockSize := by rw [length_xorOnto, hb]
    have hout := ctx.cipher.length_block .encrypt (xorOnto block ctx.encryptIv) block key
    rw [Context.step]
    rcases hblock : ctx.cipher.block .encrypt (xorOnto block ctx.encryptIv) block key
      with ⟨e | ⟨⟩, out⟩
    · exact ⟨h.blockSize_pos, h.length_encryptIv, h.length_decryptIv, hmixed⟩
    · rw [hblock] at hout
      exact ⟨h.blockSize_pos, hout.trans hb, h.length_decryptIv, hmixed⟩
  | decrypt =>
    rw [Context.step]
    rcases ctx.cipher.block .decrypt block block key with ⟨e | ⟨⟩, out⟩
    · exact ⟨h.blockSize_pos, h.length_encryptIv, h.length_decryptIv, hb⟩
    · exact ⟨h.blockSize_pos, h.length_encryptIv, hb, h.length_decryptIv⟩

theorem step_blockSize (d : Direction) (key : KeySchedule) (ctx : Context) (block : Bytes) :
    (ctx.step d key block).context.blockSize = ctx.blockSize :=
  congrArg BlockCipher.blockSize (step_cipher d key ctx block)

theorem Fits.run (h : ctx.Fits) {bs : List Bytes} (hbs : ∀ b ∈ bs, b.length = ctx.blockSize)
    (done : List Bytes) : (ctx.run d key done bs).context.Fits := by
  induction bs generalizing ctx done with
  | nil => exact h
  | cons b bs ih =>
    have hstep : (ctx.step d key b).context.Fits := h.step (hbs b List.mem_cons_self)
    rw [Context.run]
    rcases (ctx.step d key b).outcome with e | ⟨⟩
    · exact hstep
    · refine ih hstep (fun b' hb' => ?_) _
      rw [step_blockSize]
      exact hbs b' (List.mem_cons_of_mem b hb')

theorem Fits.inPlace (h : ctx.Fits) (d : Direction) (buffer : Bytes) :
    (ctx.inPlace d buffer).context.Fits := by
  rw [Context.inPlace]
  rcases ctx.key? d with _ | key
  · exact h
  · show (ite _ _ _ : Processed).context.Fits
    split
    · exact h
    · exact h.run (fun _ hb => length_of_mem_blocks hb) []

/-! ### No copy traps -/

theorem Fits.step_inMemory (h : ctx.Fits) {block : Bytes} (hb : block.length = ctx.blockSize) :
    Memory.step d key ctx block = some (ctx.step d key block) := by
  rw [Memory.step, copyTo_of_length (h.length_scratch.trans hb.symm), Option.bind_some]
  cases d with
  | encrypt =>
    have hout := ctx.cipher.length_block .encrypt (xorOnto block ctx.encryptIv) block key
    rcases hblock : ctx.cipher.block .encrypt (xorOnto block ctx.encryptIv) block key
      with ⟨e | ⟨⟩, out⟩
    · simp only [Context.step, hblock]
    · -- A block operation gives out a block, so that it fits the chaining value.
      rw [hblock] at hout
      have hcopy := copyTo_of_length (h.length_encryptIv.trans (hout.trans hb).symm)
      simp only [Context.step, hblock, hcopy, Option.map_some]
  | decrypt =>
    rcases hblock : ctx.cipher.block .decrypt block block key with ⟨e | ⟨⟩, out⟩
    · simp only [Context.step, hblock]
    · simp only [Context.step, hblock]

theorem Fits.run_inMemory (h : ctx.Fits) {bs : List Bytes}
    (hbs : ∀ b ∈ bs, b.length = ctx.blockSize) (done : List Bytes) :
    Memory.run d key ctx done bs = some (ctx.run d key done bs) := by
  induction bs generalizing ctx done with
  | nil => rfl
  | cons b bs ih =>
    have hb := hbs b List.mem_cons_self
    rw [Memory.run, Context.run, h.step_inMemory hb, Option.bind_some]
    rcases (ctx.step d key b).outcome with e | ⟨⟩
    · rfl
    · refine ih (h.step hb) (fun b' hb' => ?_) _
      rw [step_blockSize]
      exact hbs b' (List.mem_cons_of_mem b hb')

theorem Fits.inPlace_inMemory (h : ctx.Fits) (d : Direction) (buffer : Bytes) :
    Memory.inPlace d ctx buffer = some (ctx.inPlace d buffer) := by
  rw [Memory.inPlace, Context.inPlace]
  rcases ctx.key? d with _ | key
  · rfl
  · simp only [Nat.ne_of_gt h.blockSize_pos, if_false]
    split
    · rfl
    · exact h.run_inMemory (fun _ hb => length_of_mem_blocks hb) []

theorem Fits.into_inMemory (h : ctx.Fits) (d : Direction) (input output : Bytes) :
    Memory.into d ctx input output = some (ctx.into d input output) := by
  rw [Memory.into, Context.into]
  split
  · rfl
  · rename_i hlen
    rw [copyTo_of_length (Decidable.not_not.mp hlen).symm, Option.bind_some]
    exact h.inPlace_inMemory d input

theorem setKey_inMemory (ctx : Context) (key : Bytes) :
    Memory.setKey ctx key = ctx.adopt (ctx.setKey key) := by
  simp only [Memory.setKey, Context.setKey]
  split
  · rfl
  · split
    · rfl
    · rcases ctx.cipher.setKey .encrypt (.empty .encrypt ctx.cipher.keySize) key (key.length * 8)
        with ⟨e | ⟨⟩, ek⟩
      · rfl
      · rcases ctx.cipher.setKey .decrypt (.empty .decrypt ctx.cipher.keySize) key (key.length * 8)
          with ⟨e | ⟨⟩, dk⟩
        · rfl
        · rfl

theorem Fits.setIv_inMemory (h : ctx.Fits) (d : Direction) (iv : Bytes) :
    Memory.setIv ctx d iv = some (ctx.adopt (ctx.setIv d iv)) := by
  rw [Memory.setIv, Context.setIv]
  split
  · rfl
  · rename_i hlen
    rw [copyTo_of_length ((h.length_iv d).trans (Decidable.not_not.mp hlen).symm), Option.map_some]
    rfl

/-- The second of the two settings refuses nothing that the first has taken. -/
theorem Fits.setIvs_inMemory (h : ctx.Fits) (iv : Bytes) :
    Memory.setIvs ctx iv = some (ctx.adopt (ctx.setIvs iv)) := by
  rw [Memory.setIvs, h.setIv_inMemory, Option.bind_some]
  by_cases hlen : iv.length = ctx.blockSize
  · have hfits := h.withIv .encrypt hlen
    have hlen' : iv.length = (ctx.withIv .encrypt iv).blockSize := hlen
    rw [setIv_of_length hlen, setIvs_of_length hlen]
    show Memory.setIv (ctx.withIv .encrypt iv) .decrypt iv = _
    rw [hfits.setIv_inMemory, setIv_of_length hlen']
    rfl
  · rw [setIvs_of_length_ne hlen, Context.setIv, if_pos hlen]
    rfl

end Context

/-- **On buffers of one block no copy traps,** and an operation does what it does to the context. -/
theorem Operation.inMemory_eq (h : ctx.Fits) (o : Operation) : o.inMemory ctx = some (o.run ctx) := by
  cases o with
  | setKey key => exact congrArg some (ctx.setKey_inMemory key)
  | setIvs iv => exact h.setIvs_inMemory iv
  | setIv d iv => exact h.setIv_inMemory d iv
  | call c =>
    show (match c.output? with | none => _ | some out => _ : Option Processed) = some (c.run ctx)
    rw [Call.run]
    rcases c.output? with _ | out
    · exact h.inPlace_inMemory c.direction c.data
    · exact h.into_inMemory c.direction c.data out

/-! ## One user key for both directions -/

namespace Context

/-- Both directions are unset, or both hold what the backend expands from one user key. -/
def KeyedWith (ctx : Context) : Option Bytes → Prop
  | none => ∀ d, ctx.key? d = none
  | some key => ∀ d, ∃ s, ctx.key? d = some s ∧ ctx.cipher.Expands key d s

/-- Only the backend and the schedules matter. -/
theorem KeyedWith.of_eq {key? : Option Bytes} {other : Context} (h : ctx.KeyedWith key?)
    (hcipher : other.cipher = ctx.cipher) (hkey : ∀ d, other.key? d = ctx.key? d) :
    other.KeyedWith key? := by
  cases key? with
  | none =>
    intro d
    rw [hkey]
    exact h d
  | some key =>
    intro d
    rw [hkey, hcipher]
    exact h d

/-- A key that is taken is the key of both directions. -/
theorem keyedWith_of_setKey (hc : ctx.cipher.Installs) {key : Bytes} {keyed : Context}
    (h : ctx.setKey key = .ok keyed) : keyed.KeyedWith (some key) := by
  obtain ⟨-, -, ek, dk, he, hd, rfl⟩ := setKey_eq_ok_iff.mp h
  intro d
  cases d
  · exact ⟨ek, rfl, hc.expands he⟩
  · exact ⟨dk, rfl, hc.expands hd⟩

/-- A call in place leaves the backend and the schedules as they are. -/
theorem inPlace_keeps (d : Direction) (ctx : Context) (buffer : Bytes) :
    (ctx.inPlace d buffer).context.cipher = ctx.cipher ∧
      ∀ d', (ctx.inPlace d buffer).context.key? d' = ctx.key? d' := by
  rw [inPlace]
  rcases ctx.key? d with _ | key
  · exact ⟨rfl, fun _ => rfl⟩
  · show (ite _ _ _ : Processed).context.cipher = _ ∧ ∀ d', (ite _ _ _ : Processed).context.key? d' = _
    split
    · exact ⟨rfl, fun _ => rfl⟩
    · obtain ⟨scratch, tail, hrun, -⟩ := run_eq d key ctx [] (blocks ctx.blockSize buffer)
      rw [hrun]
      exact ⟨moved_cipher ctx d _ scratch, fun d' => moved_key? ctx d d' _ scratch⟩

/-- A call is refused, or leaves what a call in place leaves. -/
theorem call_context (c : Call) (ctx : Context) :
    (c.run ctx).context = ctx ∨ (c.run ctx).context = (ctx.inPlace c.direction c.data).context := by
  rw [Call.run]
  split
  · exact .inr rfl
  · rw [into]
    split
    · exact .inl rfl
    · exact .inr rfl

end Context

/-! ## Contexts with their pasts -/

/-- What was done to a context, the latest first: each operation with its outcome. -/
abbrev Past := List (Operation × Except CipherError Unit)

/-- The user key of the latest keying that succeeded. -/
def latestKey? : Past → Option Bytes
  | [] => none
  | (.setKey key, .ok ()) :: _ => some key
  | _ :: past => latestKey? past

theorem latestKey?_of_error (o : Operation) (e : CipherError) (past : Past) :
    latestKey? ((o, .error e) :: past) = latestKey? past := by
  cases o <;> rfl

/-- A context with its past. -/
structure Member where
  context : Context
  past : Past

namespace Member

/-- The buffers of a member fit, and its key is that of the latest keying in its past. -/
structure Sound (m : Member) : Prop where
  installs : m.context.cipher.Installs
  fits : m.context.Fits
  keyed : m.context.KeyedWith (latestKey? m.past)

/-- A member after an operation that has left `r`. -/
def behind (m : Member) (o : Operation) (r : Processed) : Member :=
  ⟨r.context, (o, r.outcome) :: m.past⟩

variable {m : Member}

/-- A setting that fails leaves a sound member, so that only one that succeeds is to be looked at. -/
theorem Sound.adopt (h : m.Sound) (o : Operation) (r : Except CipherError Context)
    (hok : ∀ ctx, r = .ok ctx → (m.behind o ⟨.ok (), [], ctx⟩).Sound) :
    (m.behind o (m.context.adopt r)).Sound := by
  cases r with
  | ok ctx => exact hok ctx rfl
  | error e =>
    refine ⟨h.installs, h.fits, ?_⟩
    show m.context.KeyedWith (latestKey? ((o, .error e) :: m.past))
    rw [latestKey?_of_error]
    exact h.keyed

/-- **An operation keeps a member sound,** whether it succeeds or fails. -/
theorem Sound.run (h : m.Sound) (o : Operation) : (m.behind o (o.run m.context)).Sound := by
  cases o with
  | setKey key =>
    refine h.adopt _ _ fun keyed hset => ?_
    have hkeyed := Context.keyedWith_of_setKey h.installs hset
    obtain ⟨-, -, ek, dk, -, -, rfl⟩ := Context.setKey_eq_ok_iff.mp hset
    exact ⟨h.installs,
      ⟨h.fits.blockSize_pos, h.fits.length_encryptIv, h.fits.length_decryptIv, h.fits.length_scratch⟩,
      hkeyed⟩
  | setIvs iv =>
    refine h.adopt _ _ fun ctx hset => ?_
    by_cases hlen : iv.length = m.context.blockSize
    · rw [Context.setIvs_of_length hlen] at hset
      cases hset
      exact ⟨h.installs, ⟨h.fits.blockSize_pos, hlen, hlen, h.fits.length_scratch⟩,
        h.keyed.of_eq rfl fun d => by cases d <;> rfl⟩
    · rw [Context.setIvs_of_length_ne hlen] at hset
      cases hset
  | setIv d iv =>
    refine h.adopt _ _ fun ctx hset => ?_
    rw [Context.setIv] at hset
    split at hset
    · cases hset
    · rename_i hlen
      cases hset
      refine ⟨?_, h.fits.withIv d (Decidable.not_not.mp hlen), h.keyed.of_eq ?_ fun d' => ?_⟩
      · cases d <;> exact h.installs
      · cases d <;> rfl
      · cases d <;> cases d' <;> rfl
  | call c =>
    show Member.Sound ⟨(c.run m.context).context, (.call c, (c.run m.context).outcome) :: m.past⟩
    rcases Context.call_context c m.context with hcall | hcall
    · rw [hcall]
      exact ⟨h.installs, h.fits, h.keyed⟩
    · obtain ⟨hcipher, hkey⟩ := m.context.inPlace_keeps c.direction c.data
      rw [hcall]
      exact ⟨by rw [hcipher]; exact h.installs, h.fits.inPlace c.direction c.data,
        h.keyed.of_eq hcipher hkey⟩

end Member

/-! ## Families of contexts -/

/-- Contexts with their pasts, in the order in which they were made. -/
abbrev Family := List Member

namespace Family

/-- What can be done to a family; each number is the place of the context that it is done to. -/
inductive Act
  | bind (cipher : BlockCipher) (name : String)
  | operate (place : Nat) (o : Operation)
  | fork (place : Nat)

/-- The family after an act, `none` where a copy traps.  A fork has the past of its parent.  What
    cannot be bound or forked adds nothing. -/
def act (family : Family) : Act → Option Family
  | .bind cipher name =>
    match Context.bind cipher name with
    | .ok ctx => some (family ++ [⟨ctx, []⟩])
    | .error _ => some family
  | .operate place o =>
    match family[place]? with
    | none => some family
    | some m => (o.inMemory m.context).map fun r => family.set place (m.behind o r)
  | .fork place =>
    match family[place]? with
    | none => some family
    | some m =>
      match m.context.fork with
      | .ok child => some (family ++ [⟨child, m.past⟩])
      | .error _ => some family

/-- The family after some acts. -/
def run (family : Family) : List Act → Option Family
  | [] => some family
  | a :: acts => (family.act a).bind fun family => run family acts

/-- A fork fits, and has the keys of its parent. -/
theorem sound_fork {m : Member} (h : m.Sound) {child : Context} (hfork : m.context.fork = .ok child) :
    Member.Sound ⟨child, m.past⟩ := by
  obtain ⟨-, rfl⟩ := Context.fork_eq_ok_iff.mp hfork
  exact ⟨h.installs,
    ⟨h.fits.blockSize_pos, List.length_replicate, List.length_replicate, List.length_replicate⟩,
    h.keyed.of_eq rfl fun d => by cases d <;> rfl⟩

variable {family : Family}

/-- **One act keeps a family sound, and nothing traps.** -/
theorem act_sound (h : ∀ m ∈ family, m.Sound) {a : Act}
    (ha : ∀ cipher name, a = .bind cipher name → cipher.Installs) :
    ∃ family', family.act a = some family' ∧ ∀ m ∈ family', m.Sound := by
  cases a with
  | bind cipher name =>
    rcases hbind : Context.bind cipher name with e | ctx
    · exact ⟨family, by simp only [act, hbind], h⟩
    · refine ⟨family ++ [⟨ctx, []⟩], by simp only [act, hbind], ?_⟩
      obtain ⟨-, hpos, -, rfl⟩ := Context.bind_eq_ok_iff.mp hbind
      have hnew : Member.Sound ⟨Context.fresh cipher name, []⟩ :=
        ⟨ha cipher name rfl, Context.fits_fresh hpos name, fun d => by cases d <;> rfl⟩
      exact List.forall_mem_append.mpr ⟨h, List.forall_mem_singleton.mpr hnew⟩
  | operate place o =>
    rcases hm : family[place]? with _ | m
    · exact ⟨family, by simp only [act, hm], h⟩
    · have hsound := h m (List.mem_of_getElem? hm)
      refine ⟨family.set place (m.behind o (o.run m.context)), ?_, ?_⟩
      · simp only [act, hm, Operation.inMemory_eq hsound.fits, Option.map_some]
      · intro m' hm'
        rcases List.mem_or_eq_of_mem_set hm' with hm' | rfl
        · exact h m' hm'
        · exact hsound.run o
  | fork place =>
    rcases hm : family[place]? with _ | m
    · exact ⟨family, by simp only [act, hm], h⟩
    · have hsound := h m (List.mem_of_getElem? hm)
      rcases hfork : m.context.fork with e | child
      · exact ⟨family, by simp only [act, hm, hfork], h⟩
      · refine ⟨family ++ [⟨child, m.past⟩], by simp only [act, hm, hfork], ?_⟩
        exact List.forall_mem_append.mpr
          ⟨h, List.forall_mem_singleton.mpr (sound_fork hsound hfork)⟩

/-- **A run keeps a family sound, and nothing traps.** -/
theorem run_sound {acts : List Act} (h : ∀ m ∈ family, m.Sound)
    (hacts : ∀ cipher name, Act.bind cipher name ∈ acts → cipher.Installs) :
    ∃ family', family.run acts = some family' ∧ ∀ m ∈ family', m.Sound := by
  induction acts generalizing family with
  | nil => exact ⟨family, rfl, h⟩
  | cons a acts ih =>
    obtain ⟨next, hnext, hsound⟩ := act_sound h fun cipher name ha =>
      hacts cipher name (ha ▸ List.mem_cons_self)
    obtain ⟨last, hlast, hsound'⟩ := ih hsound fun cipher name ha =>
      hacts cipher name (List.mem_cons_of_mem a ha)
    exact ⟨last, by rw [run, hnext, Option.bind_some, hlast], hsound'⟩

end Family

/-! ## What settings leave -/

/-- A setting of a key or of chaining values, as opposed to a call. -/
def Operation.IsSetting : Operation → Prop
  | call _ => False
  | _ => True

namespace Context

/-- What settings come to on a context, in memory. -/
structure SetsCleanly (ctx : Context) : Prop where
  /-- A setting that fails changes nothing. -/
  failed : ∀ (o : Operation) r, o.IsSetting → o.inMemory ctx = some r → r.outcome ≠ .ok () →
    r.context = ctx
  /-- A key that the backend refuses in one of the directions is refused. -/
  refused : ∀ key d e s r,
    ctx.cipher.setKey d (.empty d ctx.cipher.keySize) key (key.length * 8) = (.error e, s) →
    (Operation.setKey key).inMemory ctx = some r → r.outcome ≠ .ok ()
  /-- A key that is taken leaves the chaining values, as well as the backend and the work block. -/
  keyed : ∀ key r, (Operation.setKey key).inMemory ctx = some r → r.outcome = .ok () →
    (∀ d, r.context.iv d = ctx.iv d) ∧ r.context.cipher = ctx.cipher ∧
      r.context.scratch = ctx.scratch

theorem adopt_of_ne_ok {set : Except CipherError Context} (h : (ctx.adopt set).outcome ≠ .ok ()) :
    (ctx.adopt set).context = ctx := by
  cases set with
  | ok ctx' => exact absurd rfl h
  | error e => rfl

theorem adopt_of_ok {set : Except CipherError Context} (h : (ctx.adopt set).outcome = .ok ()) :
    ∃ ctx', set = .ok ctx' ∧ ctx.adopt set = ⟨.ok (), [], ctx'⟩ := by
  cases set with
  | ok ctx' => exact ⟨ctx', rfl, rfl⟩
  | error e => cases h

theorem Fits.setsCleanly (h : ctx.Fits) : ctx.SetsCleanly where
  failed o r ho hr hne := by
    rw [Operation.inMemory_eq h] at hr
    cases hr
    cases o with
    | setKey key => exact adopt_of_ne_ok hne
    | setIvs iv => exact adopt_of_ne_ok hne
    | setIv d iv => exact adopt_of_ne_ok hne
    | call c => exact ho.elim
  refused key d e s r hs hr hok := by
    rw [Operation.inMemory_eq h] at hr
    cases hr
    obtain ⟨keyed, hset, -⟩ := adopt_of_ok hok
    obtain ⟨-, -, ek, dk, hek, hdk, -⟩ := setKey_eq_ok_iff.mp hset
    cases d
    · cases hek.symm.trans hs
    · cases hdk.symm.trans hs
  keyed key r hr hok := by
    rw [Operation.inMemory_eq h] at hr
    cases hr
    obtain ⟨keyed, hset, hrun⟩ := adopt_of_ok hok
    obtain ⟨-, -, ek, dk, -, -, rfl⟩ := setKey_eq_ok_iff.mp hset
    rw [Operation.run, hrun]
    exact ⟨fun d => by cases d <;> rfl, rfl, rfl⟩

/-- **Contexts keep their shape.**  However contexts are bound to backends that install what they
    expand, worked with and forked, and whatever fails: no copy traps; the buffers of every context
    have the length of its block; its directions are both unset, or both expanded from the user key
    of the latest keying in its past that succeeded; and settings leave it as `SetsCleanly` says. -/
theorem contexts_keep_their_shape {acts : List Family.Act}
    (h : ∀ cipher name, Family.Act.bind cipher name ∈ acts → cipher.Installs) :
    ∃ family, Family.run [] acts = some family ∧ ∀ m ∈ family,
      m.context.Fits ∧ m.context.KeyedWith (latestKey? m.past) ∧ m.context.SetsCleanly ∧
        ∀ o : Operation, o.inMemory m.context = some (o.run m.context) := by
  obtain ⟨family, hrun, hsound⟩ := Family.run_sound (fun m hm => absurd hm List.not_mem_nil) h
  refine ⟨family, hrun, fun m hm => ?_⟩
  have hm := hsound m hm
  exact ⟨hm.fits, hm.keyed, hm.fits.setsCleanly, Operation.inMemory_eq hm.fits⟩

/-- On AES: a context and its fork, which has got a key of its own behind the fork and has refused a
    third one. -/
theorem contexts_keep_their_shape_on_aes :
    ∃ ctx child, Family.run [] [.bind Aes.accelerated "log",
        .operate 0 (.setKey (List.replicate 16 7)), .fork 0,
        .operate 1 (.setKey (List.replicate 32 9)), .operate 1 (.setKey (List.replicate 5 1)),
        .operate 0 (.setIvs [])] = some [ctx, child] ∧
      ctx.context.Fits ∧ ctx.context.KeyedWith (some (List.replicate 16 7)) ∧
      child.context.Fits ∧ child.context.KeyedWith (some (List.replicate 32 9)) := by
  have hacts : ∀ cipher name, Family.Act.bind cipher name ∈ [.bind Aes.accelerated "log",
      .operate 0 (.setKey (List.replicate 16 7)), .fork 0,
      .operate 1 (.setKey (List.replicate 32 9)), .operate 1 (.setKey (List.replicate 5 1)),
      .operate 0 (.setIvs [])] → cipher.Installs := by
    intro cipher name h
    simp only [List.mem_cons, List.not_mem_nil, or_false, reduceCtorEq, Family.Act.bind.injEq] at h
    rw [h.1]
    exact Aes.installs_backend _ _
  obtain ⟨family, hrun, hall⟩ := contexts_keep_their_shape hacts
  obtain ⟨ctx, child, hfamily⟩ : ∃ ctx child, family =
      [⟨ctx, [(.setIvs [], .error (.invalidArgument (.ivLength 16 0))),
        (.setKey (List.replicate 16 7), .ok ())]⟩,
      ⟨child, [(.setKey (List.replicate 5 1), .error (.invalidKeyMaterial 5 .notAesLength)),
        (.setKey (List.replicate 32 9), .ok ()), (.setKey (List.replicate 16 7), .ok ())]⟩] :=
    ⟨_, _, (Option.some.inj hrun).symm⟩
  subst hfamily
  have hctx := hall _ List.mem_cons_self
  have hchild := hall _ (List.mem_cons_of_mem _ List.mem_cons_self)
  exact ⟨_, _, hrun, hctx.1, hctx.2.1, hchild.1, hchild.2.1⟩

end Context

end Coffer.Cipher
