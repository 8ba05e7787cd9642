import Coffer.Proofs.Container.Writer
/-
  A writer of a body and the raw stream below it.

  * `Output.Stable P` — no call on a raw stream leads out of `P`; then no call on a writer on top of it
    does either (`BodyWriter.inner_write` and its siblings);
  * `Output.Maps f`   — `f` forgets of a raw stream what its answers do not depend on; then the writer
    on top of `f inner` answers as the writer on top of `inner` does (`BodyWriter.write_mapRaw` and its
    siblings).
-/
namespace Coffer.Container.BodyWriter

open Resource (ResolveError)

variable {V W : Type} [Output V] [Output W]

/-! ## What calls on the raw stream keep -/

section Stable

variable {P : W → Prop}

theorem inner_passOn (hP : Output.Stable P) (w : BodyWriter W) (h : P w.inner) (count : Nat) :
    P (w.passOn count).2.inner := by
  rw [passOn]
  rcases (w.context.inPlace .encrypt (w.pending.take count)).outcome with e | ⟨⟩
  · exact h
  · exact hP.writeAll _ _ h

theorem inner_write (hP : Output.Stable P) (w : BodyWriter W) (h : P w.inner) (b : Bytes) :
    P (w.write b).2.inner := by
  by_cases hfailed : w.failed = true
  · rw [write_of_failed hfailed]
    exact h
  · rw [Bool.not_eq_true] at hfailed
    rcases hwhole : (w.pending ++ b).length - (w.pending ++ b).length % w.context.blockSize with _ | k
    · rw [write_of_short hfailed hwhole]
      exact h
    · have hpass := inner_passOn hP { w with pending := w.pending ++ b } h (k + 1)
      rcases hp : passOn (k + 1) { w with pending := w.pending ++ b } with ⟨e | ⟨⟩, w'⟩ <;>
        rw [hp] at hpass
      · rw [write_of_passOn_error hfailed (Nat.succ_ne_zero k) hwhole hp]
        exact hpass
      · rw [write_of_passOn_ok hfailed (Nat.succ_ne_zero k) hwhole hp]
        exact hpass

theorem inner_flush (hP : Output.Stable P) (w : BodyWriter W) (h : P w.inner) :
    P w.flush.2.inner := by
  rw [flush]
  split
  · exact h
  · exact hP.flush _ h

theorem inner_finish (hP : Output.Stable P) (w : BodyWriter W) (h : P w.inner) : P w.finish.2 := by
  by_cases hfailed : w.failed = true
  · rw [finish_of_failed hfailed]
    exact h
  · rw [Bool.not_eq_true] at hfailed
    have hpass := inner_passOn hP { w with pending := pad w.context.blockSize w.pending } h
      (pad w.context.blockSize w.pending).length
    rcases hp : passOn (pad w.context.blockSize w.pending).length
      { w with pending := pad w.context.blockSize w.pending } with ⟨e | ⟨⟩, w'⟩ <;> rw [hp] at hpass
    · rw [finish_of_passOn_error hfailed hp]
      exact hpass
    · rw [finish_of_passOn_ok hfailed hp]
      exact hP.flush _ hpass

end Stable

/-! ## The same calls on top of less -/

/-- The writer on top of what `f` leaves of the raw stream. -/
def mapRaw (f : W → V) (w : BodyWriter W) : BodyWriter V := ⟨f w.inner, w.context, w.pending, w.failed⟩

section Maps

variable {f : W → V}

theorem passOn_mapRaw (hf : Output.Maps f) (w : BodyWriter W) (count : Nat) :
    (w.mapRaw f).passOn count = ((w.passOn count).1, (w.passOn count).2.mapRaw f) := by
  rcases hsealed : w.context.inPlace .encrypt (w.pending.take count) with ⟨e | ⟨⟩, buffer, context⟩
  · simp only [passOn, mapRaw, hsealed]
  · simp only [passOn, mapRaw, hsealed, hf.writeAll]

theorem write_mapRaw (hf : Output.Maps f) (w : BodyWriter W) (b : Bytes) :
    (w.mapRaw f).write b = ((w.write b).1, (w.write b).2.mapRaw f) := by
  by_cases hfailed : w.failed = true
  · rw [write_of_failed hfailed, write_of_failed (w := w.mapRaw f) hfailed]
  · rw [Bool.not_eq_true] at hfailed
    have hfailed' : (w.mapRaw f).failed = false := hfailed
    rcases hwhole : (w.pending ++ b).length - (w.pending ++ b).length % w.context.blockSize with _ | k
    · rw [write_of_short hfailed hwhole, write_of_short hfailed' hwhole]
      rfl
    · have hpass := passOn_mapRaw hf { w with pending := w.pending ++ b } (k + 1)
      rcases hp : passOn (k + 1) { w with pending := w.pending ++ b } with ⟨e | ⟨⟩, w'⟩ <;>
        rw [hp] at hpass
      · rw [write_of_passOn_error hfailed (Nat.succ_ne_zero k) hwhole hp,
          write_of_passOn_error hfailed' (Nat.succ_ne_zero k) hwhole hpass]
      · rw [write_of_passOn_ok hfailed (Nat.succ_ne_zero k) hwhole hp,
          write_of_passOn_ok hfailed' (Nat.succ_ne_zero k) hwhole hpass]
        rfl

theorem flush_mapRaw (hf : Output.Maps f) (w : BodyWriter W) :
    (w.mapRaw f).flush = (w.flush.1, w.flush.2.mapRaw f) := by
  rw [flush, flush]
  show (if w.failed = true then _ else _) = _
  by_cases hfailed : w.failed = true
  · rw [if_pos hfailed, if_pos hfailed]
  · rw [if_neg hfailed, if_neg hfailed]
    simp only [mapRaw, hf.flush]

theorem finish_mapRaw (hf : Output.Maps f) (w : BodyWriter W) :
    (w.mapRaw f).finish = (w.finish.1, f w.finish.2) := by
  by_cases hfailed : w.failed = true
  · rw [finish_of_failed hfailed, finish_of_failed (w := w.mapRaw f) hfailed]
    rfl
  · rw [Bool.not_eq_true] at hfailed
    have hfailed' : (w.mapRaw f).failed = false := hfailed
    have hpass := passOn_mapRaw hf { w with pending := pad w.context.blockSize w.pending }
      (pad w.context.blockSize w.pending).length
    rcases hp : passOn (pad w.context.blockSize w.pending).length
      { w with pending := pad w.context.blockSize w.pending } with ⟨e | ⟨⟩, w'⟩ <;> rw [hp] at hpass
    · rw [finish_of_passOn_error hfailed hp, finish_of_passOn_error hfailed' hpass]
      rfl
    · rw [finish_of_passOn_ok hfailed hp, finish_of_passOn_ok hfailed' hpass]
      exact hf.flush w'.inner

end Maps

/-- A write that succeeds takes all it is given. -/
theorem write_eq_ok (w : BodyWriter W) {b : Bytes} {n : Nat} (h : (w.write b).1 = .ok n) :
    n = b.length := by
  rw [write] at h
  split at h
  · cases h
  · dsimp only at h
    split at h
    · cases h
      rfl
    · split at h
      · cases h
      · cases h
        rfl

end Coffer.Container.BodyWriter
