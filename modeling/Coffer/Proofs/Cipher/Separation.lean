import Coffer.Proofs.Cipher.Calls
/-
  The two directions of a context do not interfere.

  An `Operation` is anything that can be done to a context between binding and dropping it.  Each is
  about one direction or about both (`Operation.direction?`), and each may fail.  `Context.observed d`
  is what some operations show to somebody who looks at direction `d` alone: the outcome and the
  buffer of every operation that is not about the other direction.

  * `Context.Agrees d`       — two contexts that look the same in direction `d`: on one backend, with
                               one key and one chaining value there; the work block does not count;
  * `Operation.run_agrees`   — an operation answers alike on contexts that agree, and they agree again;
  * `Operation.run_hidden`   — an operation of the other direction leaves a context that agrees;
  * `directions_do_not_interfere` — so the operations of the other direction can be left out.
-/
namespace Coffer.Cipher

/-! ## Operations -/

/-- What can be done to a context. -/
inductive Operation
  | setKey (key : Bytes)
  | setIvs (iv : Bytes)
  | setIv (d : Direction) (iv : Bytes)
  | call (c : Call)

namespace Operation

/-- The direction that an operation is about; a key and a common chaining value are about both. -/
def direction? : Operation → Option Direction
  | setKey _ => none
  | setIvs _ => none
  | setIv d _ => some d
  | call c => some c.direction

/-- The operations that are not about direction `d`, in their order. -/
def without (d : Direction) (operations : List Operation) : List Operation :=
  operations.filter fun o => o.direction? ≠ some d

theorem without_cons_of_eq {d : Direction} {o : Operation} (h : o.direction? = some d)
    (operations : List Operation) : without d (o :: operations) = without d operations :=
  List.filter_cons_of_neg (by simp [h])

theorem without_cons_of_ne {d : Direction} {o : Operation} (h : o.direction? ≠ some d)
    (operations : List Operation) : without d (o :: operations) = o :: without d operations :=
  List.filter_cons_of_pos (by simp [h])

end Operation

namespace Context

/-- What setting something leaves: the new context, or the old one with the failure.  There is no
    buffer. -/
def adopt (ctx : Context) : Except CipherError Context → Processed
  | .ok set => ⟨.ok (), [], set⟩
  | .error e => ⟨.error e, [], ctx⟩

end Context

namespace Operation

/-- What an operation leaves. -/
def run (o : Operation) (ctx : Context) : Processed :=
  match o with
  | setKey key => ctx.adopt (ctx.setKey key)
  | setIvs iv => ctx.adopt (ctx.setIvs iv)
  | setIv d iv => ctx.adopt (ctx.setIv d iv)
  | call c => c.run ctx

/-- The context behind some operations. -/
def runAll (operations : List Operation) (ctx : Context) : Context :=
  operations.foldl (fun ctx o => (o.run ctx).context) ctx

end Operation

namespace Context

/-- What some operations show of direction `d`: the outcomes and the buffers of those that are not
    about the other one. -/
def observed (d : Direction) : Context → List Operation → List (Except CipherError Unit × Bytes)
  | _, [] => []
  | ctx, o :: operations =>
    if o.direction? = some d.flip then observed d (o.run ctx).context operations
    else ((o.run ctx).outcome, (o.run ctx).buffer) :: observed d (o.run ctx).context operations

/-- The contexts look the same in direction `d`. -/
structure Agrees (d : Direction) (ctx other : Context) : Prop where
  cipher_eq : other.cipher = ctx.cipher
  key_eq : other.key? d = ctx.key? d
  iv_eq : other.iv d = ctx.iv d

end Context

/-- What two operations leave looks the same in direction `d`. -/
structure Processed.Agrees (d : Direction) (p q : Processed) : Prop where
  outcome_eq : q.outcome = p.outcome
  buffer_eq : q.buffer = p.buffer
  context : p.context.Agrees d q.context

variable {d : Direction} {ctx other : Context}

/-! ## The same operation on contexts that agree -/

namespace Context

theorem Agrees.refl (d : Direction) (ctx : Context) : ctx.Agrees d ctx := ⟨rfl, rfl, rfl⟩

theorem Agrees.trans {third : Context} (h : ctx.Agrees d other) (h' : other.Agrees d third) :
    ctx.Agrees d third :=
  ⟨h'.cipher_eq.trans h.cipher_eq, h'.key_eq.trans h.key_eq, h'.iv_eq.trans h.iv_eq⟩

theorem Agrees.symm (h : ctx.Agrees d other) : other.Agrees d ctx :=
  ⟨h.cipher_eq.symm, h.key_eq.symm, h.iv_eq.symm⟩

theorem Agrees.blockSize_eq (h : ctx.Agrees d other) : other.blockSize = ctx.blockSize :=
  congrArg BlockCipher.blockSize h.cipher_eq

/-- A new chaining value, the same for both. -/
theorem Agrees.withIv (h : ctx.Agrees d other) (d' : Direction) (iv : Bytes) :
    (ctx.withIv d' iv).Agrees d (other.withIv d' iv) := by
  obtain ⟨hcipher, hkey, hiv⟩ := h
  cases d <;> cases d' <;> exact ⟨hcipher, hkey, by first | exact hiv | rfl⟩

/-- One block comes out alike: the work block is filled before the backend looks at it. -/
theorem Agrees.step (h : ctx.Agrees d other) (key : KeySchedule) (block : Bytes) :
    (ctx.step d key block).Agrees d (other.step d key block) := by
  obtain ⟨hcipher, hkey, hiv⟩ := h
  cases d with
  | encrypt =>
    have hiv : other.encryptIv = ctx.encryptIv := hiv
    simp only [Context.step, hcipher, hiv]
    rcases ctx.cipher.block .encrypt (xorOnto block ctx.encryptIv) block key with ⟨e | ⟨⟩, out⟩
    · exact ⟨rfl, rfl, rfl, hkey, rfl⟩
    · exact ⟨rfl, rfl, rfl, hkey, rfl⟩
  | decrypt =>
    have hiv : other.decryptIv = ctx.decryptIv := hiv
    simp only [Context.step, hcipher, hiv]
    rcases ctx.cipher.block .decrypt block block key with ⟨e | ⟨⟩, out⟩
    · exact ⟨rfl, rfl, rfl, hkey, rfl⟩
    · exact ⟨rfl, rfl, rfl, hkey, rfl⟩

/-- Blocks one after the other come out alike, up to the first that is refused. -/
theorem Agrees.run (h : ctx.Agrees d other) (key : KeySchedule) (done bs : List Bytes) :
    (ctx.run d key done bs).Agrees d (other.run d key done bs) := by
  induction bs generalizing ctx other done with
  | nil => exact ⟨rfl, rfl, h⟩
  | cons b bs ih =>
    have hstep := h.step key b
    rw [Context.run, Context.run]
    simp only [hstep.outcome_eq, hstep.buffer_eq]
    rcases (ctx.step d key b).outcome with e | ⟨⟩
    · exact ⟨rfl, rfl, hstep.context⟩
    · exact ih hstep.context _

theorem Agrees.inPlace (h : ctx.Agrees d other) (buffer : Bytes) :
    (ctx.inPlace d buffer).Agrees d (other.inPlace d buffer) := by
  rw [Context.inPlace, Context.inPlace, h.key_eq, h.blockSize_eq]
  rcases ctx.key? d with _ | key
  · exact ⟨rfl, rfl, h⟩
  · show Processed.Agrees d (if _ then _ else _) (if _ then _ else _)
    split
    · exact ⟨rfl, rfl, h⟩
    · exact h.run key [] _

theorem Agrees.into (h : ctx.Agrees d other) (input output : Bytes) :
    (ctx.into d input output).Agrees d (other.into d input output) := by
  rw [Context.into, Context.into]
  split
  · exact ⟨rfl, rfl, h⟩
  · exact h.inPlace input

/-! ## Calls and settings of the other direction -/

/-- Moving a chaining value and the work block is not seen in the other direction. -/
theorem agrees_moved_flip (d : Direction) (ctx : Context) (iv scratch : Bytes) :
    ctx.Agrees d (ctx.moved d.flip iv scratch) := by
  cases d <;> exact ⟨rfl, rfl, rfl⟩

/-- A call in place is not seen in the other direction, wherever it stops. -/
theorem agrees_inPlace_flip (d : Direction) (ctx : Context) (buffer : Bytes) :
    ctx.Agrees d (ctx.inPlace d.flip buffer).context := by
  rw [inPlace]
  rcases ctx.key? d.flip with _ | key
  · exact Agrees.refl d ctx
  · show ctx.Agrees d (ite _ _ _ : Processed).context
    split
    · exact Agrees.refl d ctx
    · obtain ⟨scratch, tail, hrun, -⟩ := run_eq d.flip key ctx [] (blocks ctx.blockSize buffer)
      rw [hrun]
      exact agrees_moved_flip d ctx _ scratch

/-- The same for a direction that a call leaves alone. -/
theorem agrees_flip_moved (ctx : Context) (d : Direction) (iv scratch : Bytes) :
    ctx.Agrees d.flip (ctx.moved d iv scratch) := by
  cases d <;> exact ⟨rfl, rfl, rfl⟩

theorem agrees_flip_inPlace (ctx : Context) (d : Direction) (buffer : Bytes) :
    ctx.Agrees d.flip (ctx.inPlace d buffer).context := by
  cases d
  · exact agrees_inPlace_flip .decrypt ctx buffer
  · exact agrees_inPlace_flip .encrypt ctx buffer

theorem agrees_into_flip (d : Direction) (ctx : Context) (input output : Bytes) :
    ctx.Agrees d (ctx.into d.flip input output).context := by
  rw [into]
  split
  · exact Agrees.refl d ctx
  · exact agrees_inPlace_flip d ctx input

/-! ## Setting keys and chaining values -/

/-- Contexts on one backend take the same keys, and then hold the same ones. -/
theorem Agrees.setKey (h : ctx.Agrees d other) (key : Bytes) :
    (ctx.adopt (ctx.setKey key)).Agrees d (other.adopt (other.setKey key)) := by
  simp only [Context.setKey, h.cipher_eq]
  split
  · exact ⟨rfl, rfl, h⟩
  · split
    · exact ⟨rfl, rfl, h⟩
    · -- Both schedules are the backend's, and the context is only asked for where to put them.
      rcases ctx.cipher.setKey .encrypt (.empty .encrypt ctx.cipher.keySize) key (key.length * 8)
        with ⟨e | ⟨⟩, ek⟩
      · exact ⟨rfl, rfl, h⟩
      · rcases ctx.cipher.setKey .decrypt (.empty .decrypt ctx.cipher.keySize) key (key.length * 8)
          with ⟨e | ⟨⟩, dk⟩
        · exact ⟨rfl, rfl, h⟩
        · exact ⟨rfl, rfl, rfl, by cases d <;> rfl, by cases d <;> exact h.iv_eq⟩

/-- A chaining value is taken by its length, and a refused one changes nothing. -/
theorem Agrees.setIv (h : ctx.Agrees d other) (d' : Direction) (iv : Bytes) :
    (ctx.adopt (ctx.setIv d' iv)).Agrees d (other.adopt (other.setIv d' iv)) := by
  rw [Context.setIv, Context.setIv, h.blockSize_eq]
  split
  · exact ⟨rfl, rfl, h⟩
  · exact ⟨rfl, rfl, h.withIv d' iv⟩

theorem Agrees.setIvs (h : ctx.Agrees d other) (iv : Bytes) :
    (ctx.adopt (ctx.setIvs iv)).Agrees d (other.adopt (other.setIvs iv)) := by
  by_cases hlen : iv.length = ctx.blockSize
  · rw [setIvs_of_length hlen, setIvs_of_length (hlen.trans h.blockSize_eq.symm)]
    exact ⟨rfl, rfl, (h.withIv .encrypt iv).withIv .decrypt iv⟩
  · have hother : iv.length ≠ other.blockSize := by rw [h.blockSize_eq]; exact hlen
    rw [setIvs_of_length_ne hlen, setIvs_of_length_ne hother, h.blockSize_eq]
    exact ⟨rfl, rfl, h⟩

theorem agrees_setIv_flip (d : Direction) (ctx : Context) (iv : Bytes) :
    ctx.Agrees d (ctx.adopt (ctx.setIv d.flip iv)).context := by
  rw [Context.setIv]
  split
  · exact Agrees.refl d ctx
  · cases d <;> exact ⟨rfl, rfl, rfl⟩

end Context

/-! ## Operations one after the other -/

namespace Operation

/-- **An operation answers alike on contexts that agree,** and they agree again, unless it is about the
    other direction. -/
theorem run_agrees (h : ctx.Agrees d other) {o : Operation} (ho : o.direction? ≠ some d.flip) :
    (o.run ctx).Agrees d (o.run other) := by
  cases o with
  | setKey key => exact h.setKey key
  | setIvs iv => exact h.setIvs iv
  | setIv d' iv => exact h.setIv d' iv
  | call c =>
    have hd : c.direction = d := by
      have hne : c.direction ≠ d.flip := fun heq => ho (congrArg some heq)
      revert hne
      cases c.direction <;> cases d <;> decide
    show (c.run ctx).Agrees d (c.run other)
    rw [Call.run, Call.run, hd]
    split
    · exact h.inPlace c.data
    · exact h.into c.data _

/-- **An operation of the other direction is not seen,** whether it succeeds or fails. -/
theorem run_hidden (ctx : Context) {o : Operation} (ho : o.direction? = some d.flip) :
    ctx.Agrees d (o.run ctx).context := by
  cases o with
  | setKey key => cases ho
  | setIvs iv => cases ho
  | setIv d' iv =>
    cases ho
    exact ctx.agrees_setIv_flip d iv
  | call c =>
    have hd : c.direction = d.flip := Option.some.inj ho
    show ctx.Agrees d (c.run ctx).context
    rw [Call.run, hd]
    split
    · exact ctx.agrees_inPlace_flip d c.data
    · exact ctx.agrees_into_flip d c.data _

/-- Contexts that agree still do so when one of them has gone without the other direction. -/
theorem runAll_agrees (h : ctx.Agrees d other) (operations : List Operation) :
    (runAll operations ctx).Agrees d (runAll (without d.flip operations) other) := by
  induction operations generalizing ctx other with
  | nil => exact h
  | cons o operations ih =>
    by_cases ho : o.direction? = some d.flip
    · rw [without_cons_of_eq ho]
      -- Only the first context moves.
      have hback : (o.run ctx).context.Agrees d other :=
        (run_hidden ctx ho).symm.trans h
      exact ih hback
    · rw [without_cons_of_ne ho]
      exact ih (run_agrees h ho).context

end Operation

namespace Context

/-- What is seen of one direction stays the same without the other. -/
theorem Agrees.observed (h : ctx.Agrees d other) (operations : List Operation) :
    ctx.observed d operations = other.observed d (Operation.without d.flip operations) := by
  induction operations generalizing ctx other with
  | nil => rfl
  | cons o operations ih =>
    rw [Context.observed]
    by_cases ho : o.direction? = some d.flip
    · rw [if_pos ho, Operation.without_cons_of_eq ho]
      exact ih ((Operation.run_hidden ctx ho).symm.trans h)
    · have hrun := Operation.run_agrees h ho
      rw [if_neg ho, Operation.without_cons_of_ne ho, Context.observed, if_neg ho, hrun.outcome_eq,
        hrun.buffer_eq, ih hrun.context]

/-- **The two directions of a context do not interfere.**  Whatever is done to a context, in any order
    and with any failures, leaving out the operations of the other direction changes neither the
    outcome nor the buffer of any operation that remains, and at every point the chaining value of
    the direction is what it would have been without them. -/
theorem directions_do_not_interfere (ctx : Context) (d : Direction) (operations : List Operation) :
    ctx.observed d operations = ctx.observed d (Operation.without d.flip operations) ∧
    ∀ count, (Operation.runAll (operations.take count) ctx).iv d =
      (Operation.runAll (Operation.without d.flip (operations.take count)) ctx).iv d := by
  constructor
  · exact (Agrees.refl d ctx).observed operations
  · intro count
    exact (Operation.runAll_agrees (Agrees.refl d ctx) (operations.take count)).iv_eq.symm

end Context

end Coffer.Cipher
