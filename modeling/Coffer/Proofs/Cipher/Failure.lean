import Coffer.Proofs.Cipher.Separation
/-
  What a failing call leaves.

  A call fails in one of two ways.  The context refuses it before the backend is asked for anything
  (`Refusal`): the context is then as it was, and an output buffer of the call's own holds the input
  if the lengths agree, since the input is copied before the key and the length are looked at
  (`into_of_refusal`).  Or the backend refuses a block: then the call stops at a block boundary, and
  a later call can go on from there.

  Whether a backend refuses a block may depend on when it is asked.  `Context.inPlaceOver` is a call
  over a backend that is `c n` when it is asked for the `n`-th time; over a backend that does not
  vary it is the call itself (`inPlaceOver_const`).

  * `BlockCipher.linksOver`     — the recurrence over a backend that varies;
  * `runOver_eq`                — a call computes it, and leaves the blocks from the refused one on;
  * `linksOver_take`            — the recurrence on the blocks in front of the refused one;
  * `failure_stops_between_blocks` — both together, with the call that goes on.
-/
namespace Coffer.Cipher

variable {ctx : Context} {d : Direction} {key : KeySchedule}

/-! ## Calls that the context refuses -/

namespace Context

/-- The refusals of a context: what it answers to a call before it asks the backend. -/
inductive Refusal (ctx : Context) (d : Direction) (input output : Bytes) : CipherError → Prop
  | unequal (h : input.length ≠ output.length) :
    Refusal ctx d input output (.invalidArgument (.unequalBuffers input.length output.length))
  | unkeyed (h : input.length = output.length) (hkey : ctx.key? d = none) :
    Refusal ctx d input output (.notInitialized d)
  | ragged {key : KeySchedule} (h : input.length = output.length) (hkey : ctx.key? d = some key)
    (hlen : input.length % ctx.blockSize ≠ 0) :
    Refusal ctx d input output (.invalidBufferLength input.length ctx.blockSize)

/-- **A refused call changes nothing in the context, but it has copied its input already,** unless the
    buffers differ in length. -/
theorem into_of_refusal {input output : Bytes} {e : CipherError}
    (h : Refusal ctx d input output e) :
    ctx.into d input output =
      ⟨.error e, if input.length = output.length then input else output, ctx⟩ := by
  cases h with
  | unequal h => rw [into, if_pos h, if_neg h]
  | unkeyed h hkey =>
    rw [into, if_neg (by simpa using h), if_pos h]
    simp only [inPlace, hkey]
  | ragged h hkey hlen =>
    rw [into, if_neg (by simpa using h), if_pos h]
    simp only [inPlace, hkey, ne_eq, hlen, not_false_eq_true, if_true]

end Context

/-- A failure of the recurrence is the backend's answer for one of the blocks. -/
theorem BlockCipher.exists_link_of_failure {c : BlockCipher} {iv : Bytes} {bs : List Bytes}
    {e : CipherError} (h : (c.links key d iv bs).failure? = some e) :
    ∃ before, ∃ b ∈ bs, c.link key d before b = .error e := by
  induction bs generalizing iv with
  | nil => cases h
  | cons b bs ih =>
    rcases hl : c.link key d iv b with e' | ⟨out, next⟩
    · rw [links_cons_of_error hl] at h
      cases h
      exact ⟨iv, b, List.mem_cons_self, hl⟩
    · rw [links_cons_of_ok hl] at h
      obtain ⟨before, b', hb', hlink⟩ := ih h
      exact ⟨before, b', List.mem_cons_of_mem b hb', hlink⟩

namespace Context

/-- **A call fails by a refusal of the context or by the backend's answer for one of its blocks.** -/
theorem refusal_or_link {input output : Bytes} {e : CipherError}
    (h : (ctx.into d input output).outcome = .error e) :
    Refusal ctx d input output e ∨
      ∃ key, ctx.key? d = some key ∧ ∃ before, ∃ b ∈ blocks ctx.blockSize input,
        ctx.cipher.link key d before b = .error e := by
  by_cases heq : input.length = output.length
  · rw [into, if_neg (by simpa using heq)] at h
    rcases hkey : ctx.key? d with _ | key
    · simp only [inPlace, hkey] at h
      cases h
      exact .inl (.unkeyed heq hkey)
    · by_cases hlen : input.length % ctx.blockSize = 0
      · obtain ⟨scratch, tail, hp, -⟩ := inPlace_eq hkey hlen
        rw [hp] at h
        have hfailure := Chained.outcome_eq_error_iff.mp h
        exact .inr ⟨key, rfl, BlockCipher.exists_link_of_failure hfailure⟩
      · simp only [inPlace, hkey, ne_eq, hlen, not_false_eq_true, if_true] at h
        cases h
        exact .inl (.ragged heq hkey hlen)
  · rw [into, if_pos heq] at h
    cases h
    exact .inl (.unequal heq)

/-- **Refused calls leave the context, and the output only when its length is wrong.**  What a call
    fails with is a refusal of the context, or what the backend answered for one of its blocks.
    Whatever the context refuses leaves it as it was, and the output buffer holds what it held
    exactly when its length differs from the input's or it held the input already. -/
theorem refused_calls_leave_the_context (ctx : Context) (d : Direction) (input output : Bytes)
    (e : CipherError) :
    ((ctx.into d input output).outcome = .error e →
      Refusal ctx d input output e ∨
        ∃ key, ctx.key? d = some key ∧ ∃ before, ∃ b ∈ blocks ctx.blockSize input,
          ctx.cipher.link key d before b = .error e) ∧
    (Refusal ctx d input output e →
      (ctx.into d input output).outcome = .error e ∧
      (ctx.into d input output).context = ctx ∧
      ((ctx.into d input output).buffer = output ↔
        input.length ≠ output.length ∨ input = output) ∧
      (input.length = output.length → (ctx.into d input output).buffer = input)) := by
  refine ⟨refusal_or_link, fun h => ?_⟩
  rw [into_of_refusal h]
  refine ⟨rfl, rfl, ?_, fun heq => if_pos heq⟩
  by_cases heq : input.length = output.length
  · simp only [heq, ne_eq, not_true_eq_false, false_or, if_true]
  · simp only [heq, ne_eq, not_false_eq_true, true_or, if_false]

/-- Of an output that is too short, and of a context without a key. -/
theorem refused_calls_leave_the_context_without_key :
    ((fresh Aes.portable "log").into .encrypt (List.replicate 16 1) (List.replicate 8 0)).buffer =
        List.replicate 8 0 ∧
      ((fresh Aes.portable "log").into .decrypt (List.replicate 16 1) (List.replicate 16 0)).context =
        fresh Aes.portable "log" := by
  have hshort := (refused_calls_leave_the_context (fresh Aes.portable "log") .encrypt
    (List.replicate 16 1) (List.replicate 8 0) _).2 (.unequal (by decide))
  have hunkeyed := (refused_calls_leave_the_context (fresh Aes.portable "log") .decrypt
    (List.replicate 16 1) (List.replicate 16 0) _).2 (.unkeyed rfl rfl)
  exact ⟨hshort.2.2.1.mpr (.inl (by decide)), hunkeyed.2.1⟩

/-- **The plaintext stands in the output buffer of a call that was refused.** -/
theorem refused_call_leaves_the_plaintext :
    ∃ ctx, Context.bind Aes.portable "" = .ok ctx ∧
      ctx.into .encrypt (List.replicate 16 1) (List.replicate 16 0xee) =
        ⟨.error (.notInitialized .encrypt), List.replicate 16 1, ctx⟩ ∧
      (ctx.into .encrypt (List.replicate 16 1) (List.replicate 16 0xee)).buffer ≠
        List.replicate 16 0xee :=
  ⟨_, rfl, rfl, by decide⟩

end Context

/-! ## Backends that refuse blocks -/

namespace BlockCipher

/-- A block operation that fails leaves its output buffer as it was. -/
def KeepsOutput (c : BlockCipher) : Prop :=
  ∀ d input output key e out, c.block d input output key = (.error e, out) → out = output

/-- What the backend answers, `healed` answers as well. -/
def AnsweredBy (c healed : BlockCipher) : Prop :=
  ∀ d input output key out, c.block d input output key = (.ok (), out) →
    healed.block d input output key = (.ok (), out)

/-- The backend at a time when it refuses every block with `e`. -/
def refusing (c : BlockCipher) (e : CipherError) : BlockCipher :=
  { c with
    block := fun _ _ output _ => (.error e, output)
    length_block := fun _ _ _ _ => rfl }

theorem keepsOutput_refusing (c : BlockCipher) (e : CipherError) : (c.refusing e).KeepsOutput := by
  intro d input output key e' out h
  exact (congrArg Prod.snd h).symm

theorem answeredBy_refusing (c : BlockCipher) (e : CipherError) (healed : BlockCipher) :
    (c.refusing e).AnsweredBy healed := by
  intro d input output key out h
  cases congrArg Prod.fst h

/-- What backends share leaves the output as it was when it fails. -/
theorem eq_output_of_transformBlock {size : Nat} {d : Direction} {input output out : Bytes}
    {s : KeySchedule} {e : CipherError}
    (h : transformBlock size d input output s = (.error e, out)) : out = output := by
  rw [transformBlock] at h
  split at h
  · exact (congrArg Prod.snd h).symm
  · split at h
    · exact (congrArg Prod.snd h).symm
    · rcases hs : s.expanded with e' | k
      · rw [hs] at h
        exact (congrArg Prod.snd h).symm
      · rw [hs] at h
        cases congrArg Prod.fst h

theorem keepsOutput_aes (algorithm : Algorithm) (name : String) :
    (Aes.backend algorithm name).KeepsOutput := by
  intro d input output key e out h
  exact eq_output_of_transformBlock h

/-- The recurrence over a backend that is `c n` when it is asked for the `n`-th time. -/
def linksOver (key : KeySchedule) (d : Direction) :
    (c : Nat → BlockCipher) → (iv : Bytes) → List Bytes → Chained
  | _, iv, [] => ⟨[], iv, none⟩
  | c, iv, block :: rest =>
    match (c 0).link key d iv block with
    | .error e => ⟨[], iv, some e⟩
    | .ok (out, next) =>
      let r := linksOver key d (fun n => c (n + 1)) next rest
      ⟨out :: r.blocks, r.iv, r.failure?⟩

variable {c : Nat → BlockCipher} {iv : Bytes}

theorem linksOver_cons_of_error {block : Bytes} {e : CipherError}
    (h : (c 0).link key d iv block = .error e) (rest : List Bytes) :
    linksOver key d c iv (block :: rest) = ⟨[], iv, some e⟩ := by
  simp only [linksOver, h]

theorem linksOver_cons_of_ok {block out next : Bytes}
    (h : (c 0).link key d iv block = .ok (out, next)) (rest : List Bytes) :
    linksOver key d c iv (block :: rest) =
      ⟨out :: (linksOver key d (fun n => c (n + 1)) next rest).blocks,
        (linksOver key d (fun n => c (n + 1)) next rest).iv,
        (linksOver key d (fun n => c (n + 1)) next rest).failure?⟩ := by
  simp only [linksOver, h]

/-- **The blocks in front of a refused one are processed as if they had been all.** -/
theorem linksOver_take {bs : List Bytes} {e : CipherError}
    (h : (linksOver key d c iv bs).failure? = some e) :
    linksOver key d c iv (bs.take (linksOver key d c iv bs).blocks.length) =
        ⟨(linksOver key d c iv bs).blocks, (linksOver key d c iv bs).iv, none⟩ ∧
      ∃ b, bs[(linksOver key d c iv bs).blocks.length]? = some b ∧
        (c (linksOver key d c iv bs).blocks.length).link key d (linksOver key d c iv bs).iv b =
          .error e := by
  induction bs generalizing c iv with
  | nil => cases h
  | cons b bs ih =>
    rcases hl : (c 0).link key d iv b with e' | ⟨out, next⟩
    · rw [linksOver_cons_of_error hl] at h ⊢
      cases h
      exact ⟨rfl, b, rfl, hl⟩
    · rw [linksOver_cons_of_ok hl] at h ⊢
      obtain ⟨htake, hrefused⟩ := ih h
      refine ⟨?_, hrefused⟩
      rw [List.length_cons, List.take_succ_cons, linksOver_cons_of_ok hl, htake]

/-- Where nothing was refused, a backend that answers as well gives the same. -/
theorem linksOver_eq_links {healed : BlockCipher} (hc : ∀ n, (c n).AnsweredBy healed)
    {bs : List Bytes} (h : (linksOver key d c iv bs).failure? = none) :
    healed.links key d iv bs = linksOver key d c iv bs := by
  induction bs generalizing c iv with
  | nil => rfl
  | cons b bs ih =>
    rcases hl : (c 0).link key d iv b with e | ⟨out, next⟩
    · rw [linksOver_cons_of_error hl] at h
      cases h
    · have hlink : healed.link key d iv b = .ok (out, next) := by
        cases d with
        | encrypt =>
          rcases hb : (c 0).block .encrypt (xorOnto b iv) b key with ⟨e | ⟨⟩, o⟩
          · simp only [link, hb, reduceCtorEq] at hl
          · simp only [link, hb] at hl
            simp only [link, hc 0 _ _ _ _ _ hb, hl]
        | decrypt =>
          rcases hb : (c 0).block .decrypt b b key with ⟨e | ⟨⟩, o⟩
          · simp only [link, hb, reduceCtorEq] at hl
          · simp only [link, hb] at hl
            simp only [link, hc 0 _ _ _ _ _ hb, hl]
      rw [linksOver_cons_of_ok hl] at h ⊢
      rw [links_cons_of_ok hlink, ih (fun n => hc (n + 1)) h]

end BlockCipher

/-! ## Calls over a backend that varies -/

namespace Context

/-- The context with its backend as it is at another time. -/
def on (ctx : Context) (c : BlockCipher) : Context := { ctx with cipher := c }

/-- One block in place while the backend is `c`. -/
def stepOver (d : Direction) (key : KeySchedule) (c : BlockCipher) (ctx : Context) (block : Bytes) :
    Processed :=
  let r := (ctx.on c).step d key block
  { r with context := r.context.on ctx.cipher }

/-- Blocks in place, the `n`-th of them while the backend is `c n`, up to the first that fails. -/
def runOver (d : Direction) (key : KeySchedule) :
    (c : Nat → BlockCipher) → (ctx : Context) → (done : List Bytes) → List Bytes → Processed
  | _, ctx, done, [] => ⟨.ok (), done.reverse.flatten, ctx⟩
  | c, ctx, done, block :: rest =>
    let r := ctx.stepOver d key (c 0) block
    match r.outcome with
    | .ok () => runOver d key (fun n => c (n + 1)) r.context (r.buffer :: done) rest
    | .error e => ⟨.error e, (rest.reverse ++ r.buffer :: done).reverse.flatten, r.context⟩

/-- A buffer in place while the backend varies. -/
def inPlaceOver (d : Direction) (c : Nat → BlockCipher) (ctx : Context) (buffer : Bytes) : Processed :=
  match ctx.key? d with
  | none => ⟨.error (.notInitialized d), buffer, ctx⟩
  | some key =>
    if buffer.length % ctx.blockSize ≠ 0 then
      ⟨.error (.invalidBufferLength buffer.length ctx.blockSize), buffer, ctx⟩
    else runOver d key c ctx [] (blocks ctx.blockSize buffer)

@[simp] theorem on_key? (ctx : Context) (c : BlockCipher) (d : Direction) :
    (ctx.on c).key? d = ctx.key? d := by cases d <;> rfl

@[simp] theorem on_iv (ctx : Context) (c : BlockCipher) (d : Direction) :
    (ctx.on c).iv d = ctx.iv d := by cases d <;> rfl

theorem on_self (ctx : Context) : ctx.on ctx.cipher = ctx := rfl

theorem on_moved (ctx : Context) (c : BlockCipher) (d : Direction) (iv scratch : Bytes) :
    (ctx.moved d iv scratch).on c = (ctx.on c).moved d iv scratch := by cases d <;> rfl

theorem stepOver_self (d : Direction) (key : KeySchedule) (ctx : Context) (block : Bytes) :
    ctx.stepOver d key ctx.cipher block = ctx.step d key block := by
  have hon : (ctx.step d key block).context.on ctx.cipher = (ctx.step d key block).context := by
    rw [← step_cipher d key ctx block, on_self]
  simp only [stepOver, on_self, hon]

theorem runOver_const (d : Direction) (key : KeySchedule) (ctx : Context) (done bs : List Bytes) :
    ctx.runOver d key (fun _ => ctx.cipher) done bs = ctx.run d key done bs := by
  induction bs generalizing ctx done with
  | nil => rfl
  | cons b bs ih =>
    rw [runOver, run]
    simp only [stepOver_self]
    rcases (ctx.step d key b).outcome with e | ⟨⟩
    · rfl
    · have hc := step_cipher d key ctx b
      rw [← hc]
      exact ih (ctx.step d key b).context _

/-- **Over a backend that does not vary, the call is the one in place.** -/
theorem inPlaceOver_const (d : Direction) (ctx : Context) (buffer : Bytes) :
    ctx.inPlaceOver d (fun _ => ctx.cipher) buffer = ctx.inPlace d buffer := by
  rw [inPlaceOver, inPlace]
  cases ctx.key? d with
  | none => rfl
  | some key => simp only [runOver_const]

theorem stepOver_of_link_eq_ok {c : BlockCipher} {block out next : Bytes}
    (h : c.link key d (ctx.iv d) block = .ok (out, next)) :
    ∃ scratch, ctx.stepOver d key c block = ⟨.ok (), out, ctx.moved d next scratch⟩ := by
  have hon : (ctx.on c).cipher.link key d ((ctx.on c).iv d) block = .ok (out, next) := by
    rw [on_iv]
    exact h
  obtain ⟨scratch, hs⟩ := step_of_link_eq_ok hon
  refine ⟨scratch, ?_⟩
  rw [stepOver, hs]
  simp only [on_moved]
  rfl

/-- A refused block is still in the buffer. -/
theorem buffer_step_of_error (hc : ctx.cipher.KeepsOutput) {block : Bytes} {e : CipherError}
    (h : (ctx.step d key block).outcome = .error e) : (ctx.step d key block).buffer = block := by
  cases d with
  | encrypt =>
    rcases hb : ctx.cipher.block .encrypt (xorOnto block ctx.encryptIv) block key with ⟨e' | ⟨⟩, o⟩
    · simp only [step, hb]
      exact hc _ _ _ _ _ _ hb
    · simp only [step, hb, reduceCtorEq] at h
  | decrypt =>
    rcases hb : ctx.cipher.block .decrypt block block key with ⟨e' | ⟨⟩, o⟩
    · simp only [step, hb]
      exact hc _ _ _ _ _ _ hb
    · simp only [step, hb, reduceCtorEq] at h

theorem stepOver_of_link_eq_error {c : BlockCipher} (hc : c.KeepsOutput) {block : Bytes}
    {e : CipherError} (h : c.link key d (ctx.iv d) block = .error e) :
    ∃ scratch, ctx.stepOver d key c block = ⟨.error e, block, ctx.moved d (ctx.iv d) scratch⟩ := by
  have hon : (ctx.on c).cipher.link key d ((ctx.on c).iv d) block = .error e := by
    rw [on_iv]
    exact h
  obtain ⟨scratch, out, hs⟩ := step_of_link_eq_error hon
  have hout : out = block := by
    have hfails : ((ctx.on c).step d key block).outcome = .error e := by rw [hs]
    have hbuffer := buffer_step_of_error hc hfails
    rwa [hs] at hbuffer
  refine ⟨scratch, ?_⟩
  rw [stepOver, hs, hout]
  simp only [on_moved, on_iv]
  rfl

/-- **A call computes the recurrence up to the refused block,** which is still in the buffer with those
    after it. -/
theorem runOver_eq (d : Direction) (key : KeySchedule) {c : Nat → BlockCipher}
    (hc : ∀ n, (c n).KeepsOutput) (ctx : Context) (done bs : List Bytes) :
    ∃ scratch, ctx.runOver d key c done bs =
      ⟨(BlockCipher.linksOver key d c (ctx.iv d) bs).outcome,
        (done.reverse ++ (BlockCipher.linksOver key d c (ctx.iv d) bs).blocks ++
          bs.drop (BlockCipher.linksOver key d c (ctx.iv d) bs).blocks.length).flatten,
        ctx.moved d (BlockCipher.linksOver key d c (ctx.iv d) bs).iv scratch⟩ := by
  induction bs generalizing c ctx done with
  | nil =>
    refine ⟨ctx.scratch, ?_⟩
    cases d <;>
      simp [runOver, BlockCipher.linksOver, Chained.outcome, moved, withIv, iv]
  | cons b bs ih =>
    rcases hl : (c 0).link key d (ctx.iv d) b with e | ⟨out, next⟩
    · obtain ⟨scratch, hs⟩ := stepOver_of_link_eq_error (hc 0) hl
      rw [BlockCipher.linksOver_cons_of_error hl]
      refine ⟨scratch, ?_⟩
      simp [runOver, hs, Chained.outcome]
    · obtain ⟨scratch, hs⟩ := stepOver_of_link_eq_ok hl
      obtain ⟨scratch', hr⟩ := ih (fun n => hc (n + 1)) (ctx.moved d next scratch) (out :: done)
      rw [moved_iv, moved_moved] at hr
      rw [BlockCipher.linksOver_cons_of_ok hl]
      refine ⟨scratch', ?_⟩
      simp only [runOver, hs, hr, List.reverse_cons, List.append_assoc, List.cons_append,
        List.nil_append, List.length_cons, List.drop_succ_cons]
      rfl

/-! ## Going on behind a failure -/

/-- What was done before stands in front and decides nothing. -/
theorem run_done (d : Direction) (key : KeySchedule) (ctx : Context) (done bs : List Bytes) :
    ctx.run d key done bs =
      { ctx.run d key [] bs with
        buffer := done.reverse.flatten ++ (ctx.run d key [] bs).buffer } := by
  induction bs generalizing ctx done with
  | nil => simp [run]
  | cons b bs ih =>
    rw [run, run]
    rcases (ctx.step d key b).outcome with e | ⟨⟩
    · simp
    · simp only [ih _ ((ctx.step d key b).buffer :: done), ih _ [(ctx.step d key b).buffer]]
      simp

/-- A call goes on behind blocks that were all taken. -/
theorem run_append {xs : List Bytes} (d : Direction) (key : KeySchedule) (ctx : Context)
    (done : List Bytes) (h : (ctx.cipher.links key d (ctx.iv d) xs).failure? = none)
    (ys : List Bytes) :
    ∃ scratch, ctx.run d key done (xs ++ ys) =
      (ctx.moved d (ctx.cipher.links key d (ctx.iv d) xs).iv scratch).run d key
        ((ctx.cipher.links key d (ctx.iv d) xs).blocks.reverse ++ done) ys := by
  induction xs generalizing ctx done with
  | nil => exact ⟨ctx.scratch, by cases d <;> rfl⟩
  | cons x xs ih =>
    rcases hl : ctx.cipher.link key d (ctx.iv d) x with e | ⟨out, next⟩
    · rw [BlockCipher.links_cons_of_error hl] at h
      cases h
    · rw [BlockCipher.links_cons_of_ok hl] at h ⊢
      obtain ⟨scratch, hs⟩ := step_of_link_eq_ok hl
      obtain ⟨scratch', hr⟩ := ih (ctx.moved d next scratch) (out :: done)
        (by rw [moved_cipher, moved_iv]; exact h)
      rw [moved_cipher, moved_iv, moved_moved] at hr
      refine ⟨scratch', ?_⟩
      simp only [List.cons_append, run, hs, hr, List.reverse_cons, List.append_assoc,
        List.nil_append]

/-- A call that goes on behind blocks which the backend has taken. -/
theorem inPlace_resumes (hkey : ctx.key? d = some key) (hbs : 0 < ctx.blockSize) {front tail : Bytes}
    (hfront : front.length % ctx.blockSize = 0) (htail : tail.length % ctx.blockSize = 0)
    (h : (ctx.cipher.links key d (ctx.iv d) (blocks ctx.blockSize front)).failure? = none)
    (scratch : Bytes) :
    let r := ctx.cipher.links key d (ctx.iv d) (blocks ctx.blockSize front)
    let later := (ctx.moved d r.iv scratch).inPlace d tail
    let whole := ctx.inPlace d (front ++ tail)
    later.outcome = whole.outcome ∧ r.blocks.flatten ++ later.buffer = whole.buffer ∧
      ∀ d', later.context.Agrees d' whole.context := by
  intro r later whole
  have hlater : later = (ctx.moved d r.iv scratch).run d key [] (blocks ctx.blockSize tail) := by
    simp only [later, inPlace, moved_key?, hkey, moved_blockSize, htail, ne_eq, not_true_eq_false,
      if_false]
  obtain ⟨scratch', hrun⟩ := run_append d key ctx [] h (blocks ctx.blockSize tail)
  have hwhole : whole = (ctx.moved d r.iv scratch').run d key r.blocks.reverse
      (blocks ctx.blockSize tail) := by
    have hmod : (front ++ tail).length % ctx.blockSize = 0 := by
      rw [List.length_append, Nat.add_mod, hfront, htail, Nat.zero_mod]
    rw [List.append_nil] at hrun
    simp only [whole, inPlace, hkey, hmod, ne_eq, not_true_eq_false, if_false,
      blocks_append hbs hfront, hrun]
    rfl
  -- The two differ in the work block only, which is filled before it is looked at.
  have hsame : (ctx.moved d r.iv scratch).Agrees d (ctx.moved d r.iv scratch') := by
    cases d <;> exact ⟨rfl, rfl, rfl⟩
  have hagree := hsame.run key [] (blocks ctx.blockSize tail)
  have hflip : later.context.Agrees d.flip whole.context :=
    ((ctx.agrees_flip_moved d r.iv scratch).trans (agrees_flip_inPlace _ d tail)).symm.trans
      (agrees_flip_inPlace ctx d (front ++ tail))
  rw [hwhole, run_done, List.reverse_reverse, hlater] at *
  refine ⟨hagree.outcome_eq.symm, by rw [hagree.buffer_eq], fun d' => ?_⟩
  by_cases hd : d = d'
  · rw [← hd]
    exact hagree.context
  · rw [eq_flip_of_ne hd]
    exact hflip

/-- The same when the blocks in front were taken at other times, and `healed` is the backend by now. -/
theorem inPlace_resumes_on {healed : BlockCipher} (hsize : healed.blockSize = ctx.blockSize)
    (hkey : ctx.key? d = some key) (hbs : 0 < ctx.blockSize) {front tail : Bytes}
    (hfront : front.length % ctx.blockSize = 0) (htail : tail.length % ctx.blockSize = 0)
    {out : List Bytes} {iv : Bytes}
    (h : healed.links key d (ctx.iv d) (blocks ctx.blockSize front) = ⟨out, iv, none⟩)
    (scratch : Bytes) :
    let later := ((ctx.moved d iv scratch).on healed).inPlace d tail
    let whole := (ctx.on healed).inPlace d (front ++ tail)
    later.outcome = whole.outcome ∧ out.flatten ++ later.buffer = whole.buffer ∧
      ∀ d', later.context.Agrees d' whole.context := by
  intro later whole
  have hon : (ctx.on healed).blockSize = ctx.blockSize := hsize
  have hlinks : (ctx.on healed).cipher.links key d ((ctx.on healed).iv d)
      (blocks (ctx.on healed).blockSize front) = ⟨out, iv, none⟩ := by
    rw [hon, on_iv]
    exact h
  rw [← hon] at hbs hfront htail
  have hmain := inPlace_resumes ((on_key? ctx healed d).trans hkey) hbs hfront htail
    (by rw [hlinks]) scratch
  rw [hlinks] at hmain
  simp only [later, on_moved]
  exact hmain

/-- What a call comes to that has failed with `e` at block `j` of its buffer: `failed` is what it leaves,
    and `alone` what a call on the blocks in front of block `j` leaves. -/
structure StopsAt (ctx : Context) (d : Direction) (key : KeySchedule) (c : Nat → BlockCipher)
    (buffer : Bytes) (e : CipherError) (j : Nat) (alone failed : Processed) : Prop where
  lt : j < buffer.length / ctx.blockSize
  /-- The blocks in front of block `j` are processed. -/
  alone_outcome : alone.outcome = .ok ()
  alone_buffer : alone.buffer =
    (BlockCipher.linksOver key d c (ctx.iv d) ((blocks ctx.blockSize buffer).take j)).blocks.flatten
  /-- Block `j` is refused behind them. -/
  refused : ∃ b, (blocks ctx.blockSize buffer)[j]? = some b ∧
    (c j).link key d (alone.context.iv d) b = Except.error e
  /-- The buffer holds the processed blocks, and the blocks from block `j` on as they were. -/
  buffer_eq : failed.buffer = alone.buffer ++ buffer.drop (j * ctx.blockSize)
  iv_eq : failed.context.iv d = alone.context.iv d
  key_eq : failed.context.key? d = ctx.key? d
  /-- The other direction is as it was. -/
  other : ctx.Agrees d.flip failed.context
  /-- When the backend has healed, a call on the blocks from block `j` on gives what one call on all of
      them would have given. -/
  resumes : ∀ healed : BlockCipher, healed.blockSize = ctx.blockSize →
    (∀ n, (c n).AnsweredBy healed) →
    let later := (failed.context.on healed).inPlace d (buffer.drop (j * ctx.blockSize))
    let whole := (ctx.on healed).inPlace d buffer
    later.outcome = whole.outcome ∧ alone.buffer ++ later.buffer = whole.buffer ∧
      ∀ d', later.context.Agrees d' whole.context

/-- A call over a backend that varies computes the recurrence. -/
theorem inPlaceOver_eq {c : Nat → BlockCipher} (hc : ∀ n, (c n).KeepsOutput)
    (hkey : ctx.key? d = some key) {buffer : Bytes} (hlen : buffer.length % ctx.blockSize = 0) :
    let r := BlockCipher.linksOver key d c (ctx.iv d) (blocks ctx.blockSize buffer)
    ∃ scratch, ctx.inPlaceOver d c buffer =
      ⟨r.outcome, (r.blocks ++ (blocks ctx.blockSize buffer).drop r.blocks.length).flatten,
        ctx.moved d r.iv scratch⟩ := by
  intro r
  obtain ⟨scratch, hrun⟩ := runOver_eq d key hc ctx [] (blocks ctx.blockSize buffer)
  refine ⟨scratch, ?_⟩
  simp only [inPlaceOver, hkey, hlen, ne_eq, not_true_eq_false, if_false, hrun, List.reverse_nil,
    List.nil_append]
  rfl

/-- **A failing block operation stops a call at a block boundary.**  On a keyed context, over a backend
    that may refuse any block at any time and leaves its output buffer as it was when it does, a
    call on whole blocks that fails does so at a block `j`, and `StopsAt` is what it leaves.  Over a
    backend that does not vary, the call is the one in place. -/
theorem failure_stops_between_blocks {ctx : Context} {d : Direction} {key : KeySchedule}
    {c : Nat → BlockCipher} {buffer : Bytes} {e : CipherError} (hkey : ctx.key? d = some key)
    (hc : ∀ n, (c n).KeepsOutput) (hlen : buffer.length % ctx.blockSize = 0)
    (hfail : (ctx.inPlaceOver d c buffer).outcome = .error e) :
    (∃ j, StopsAt ctx d key c buffer e j (ctx.inPlaceOver d c (buffer.take (j * ctx.blockSize)))
      (ctx.inPlaceOver d c buffer)) ∧
    ctx.inPlaceOver d (fun _ => ctx.cipher) buffer = ctx.inPlace d buffer := by
  refine ⟨?_, inPlaceOver_const d ctx buffer⟩
  obtain ⟨scratch, hcall⟩ := inPlaceOver_eq hc hkey hlen
  generalize hr : BlockCipher.linksOver key d c (ctx.iv d) (blocks ctx.blockSize buffer) = r at hcall
  have hfailure : r.failure? = some e := by
    rw [hcall] at hfail
    exact Chained.outcome_eq_error_iff.mp hfail
  obtain ⟨htake, b, hb, hrefused⟩ := BlockCipher.linksOver_take (by rw [hr]; exact hfailure)
  rw [hr] at htake hb hrefused
  -- The buffer is cut in front of the refused block.
  obtain ⟨hlt, hbs, hle⟩ := bounds_of_getElem?_blocks hb
  obtain ⟨hfront, htail⟩ := blocks_take_drop hbs hle
  obtain ⟨hfrontlen, htaillen⟩ := length_take_drop_mod hlen hle
  obtain ⟨scratch', halone⟩ := inPlaceOver_eq hc hkey hfrontlen
  rw [hfront, htake] at halone
  have halone' : ctx.inPlaceOver d c (buffer.take (r.blocks.length * ctx.blockSize)) =
      ⟨.ok (), r.blocks.flatten, ctx.moved d r.iv scratch'⟩ := by
    rw [halone]
    simp [Chained.outcome]
  refine ⟨r.blocks.length, ?_⟩
  rw [halone', hcall]
  refine ⟨hlt, rfl, by rw [htake], ⟨b, hb, by rw [moved_iv]; exact hrefused⟩, ?_,
    by rw [moved_iv, moved_iv], moved_key? ctx d d _ _, ctx.agrees_flip_moved d r.iv scratch, ?_⟩
  · rw [List.flatten_append, ← htail, flatten_blocks_of_mod_eq_zero htaillen]
  · intro healed hsize hanswers later whole
    -- The healed backend takes the blocks in front, and makes the same of them.
    have hlinks : healed.links key d (ctx.iv d) ((blocks ctx.blockSize buffer).take r.blocks.length) =
        ⟨r.blocks, r.iv, none⟩ := by
      rw [BlockCipher.linksOver_eq_links hanswers (by rw [htake]), htake]
    rw [← hfront] at hlinks
    have hmain := inPlace_resumes_on hsize hkey hbs hfrontlen htaillen hlinks scratch
    rw [List.take_append_drop] at hmain
    exact hmain

/-- The hardware, which refuses the second block that it is asked for. -/
def wavering (n : Nat) : BlockCipher :=
  if n = 1 then Aes.accelerated.refusing (.allocationFailed 0) else Aes.accelerated

theorem keepsOutput_wavering (n : Nat) : (wavering n).KeepsOutput := by
  rw [wavering]
  split
  · exact BlockCipher.keepsOutput_refusing _ _
  · exact BlockCipher.keepsOutput_aes _ _

theorem answeredBy_wavering (n : Nat) : (wavering n).AnsweredBy Aes.accelerated := by
  rw [wavering]
  split
  · exact BlockCipher.answeredBy_refusing _ _ _
  · exact fun _ _ _ _ _ h => h

/-- On AES, with three blocks to be encrypted; the backend heals behind the second. -/
theorem failure_stops_between_blocks_on_aes :
    ∃ keyed key, (fresh Aes.accelerated "log").setKey (List.replicate 16 7) = .ok keyed ∧
      keyed.encryptKey = some key ∧ (∀ n, (wavering n).AnsweredBy Aes.accelerated) ∧
      ∃ j, keyed.StopsAt .encrypt key wavering (List.replicate 48 9) (.allocationFailed 0) j
        (keyed.inPlaceOver .encrypt wavering ((List.replicate 48 9).take (j * keyed.blockSize)))
        (keyed.inPlaceOver .encrypt wavering (List.replicate 48 9)) := by
  obtain ⟨keyed, E, D, hset, hinv⟩ := Aes.keyed_inverts
    (show (fresh Aes.accelerated "log").cipher = _ from rfl)
    (show Aes.IsKeyLength (List.replicate 16 7).length from Or.inl rfl)
  obtain ⟨-, -, ek, dk, -, -, rfl⟩ := setKey_eq_ok_iff.mp hset
  obtain ⟨key, hkey, hE⟩ := hinv.encrypts
  cases hkey
  have hlen : (List.replicate 48 (9 : UInt8)).length % 16 = 0 := by decide
  have hcut : blocks 16 (List.replicate 48 9) =
      [List.replicate 16 9, List.replicate 16 9, List.replicate 16 9] := by decide
  -- The first block is taken, the second is refused.
  have hlink (iv : Bytes) : (wavering 0).link ek .encrypt iv (List.replicate 16 9) =
      .ok (E (xorOnto (List.replicate 16 9) iv), E (xorOnto (List.replicate 16 9) iv)) := by
    have hblock := hE (xorOnto (List.replicate 16 9) iv) (List.replicate 16 9)
      (by rw [length_xorOnto]; rfl) rfl
    simp only [BlockCipher.link, show wavering 0 = Aes.accelerated from rfl,
      show Aes.accelerated.block .encrypt (xorOnto (List.replicate 16 9) iv) (List.replicate 16 9)
        ek = _ from hblock]
  have hfail (iv : Bytes) : (BlockCipher.linksOver ek .encrypt wavering iv
      (blocks 16 (List.replicate 48 9))).outcome = .error (.allocationFailed 0) := by
    rw [hcut, BlockCipher.linksOver_cons_of_ok (hlink iv)]
    rfl
  refine ⟨_, ek, hset, rfl, answeredBy_wavering,
    (failure_stops_between_blocks rfl keepsOutput_wavering hlen ?_).1⟩
  have hkeyed : ({ fresh Aes.accelerated "log" with
      encryptKey := some ek, decryptKey := some dk } : Context).key? .encrypt = some ek := rfl
  obtain ⟨scratch, hcall⟩ := inPlaceOver_eq keepsOutput_wavering hkeyed hlen
  rw [hcall]
  exact hfail _

end Context

end Coffer.Cipher
