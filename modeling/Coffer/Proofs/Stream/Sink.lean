import Coffer.Stream.Sink
/-
  What a raw writer has taken.

  Whatever its script, a `Sink` only ever adds to what it has taken: one call a front of its bytes
  (`write_spec`), all of the bytes in many calls a front again, and everything where the calls
  succeed (`writeAll_spec`), and a flush nothing (`taken_flush`).
-/
namespace Coffer

/-! ## Raw streams of any kind -/

/-- A property of raw streams that calls keep. -/
structure Output.Stable {W : Type} [Output W] (P : W → Prop) : Prop where
  write : ∀ w b, P w → P (Output.write w b).2
  writeAll : ∀ w b, P w → P (Output.writeAll w b).2
  flush : ∀ w, P w → P (Output.flush w).2

/-- A function between raw streams under which calls have the same answers. -/
structure Output.Maps {V W : Type} [Output V] [Output W] (f : W → V) : Prop where
  write : ∀ w b, Output.write (f w) b = ((Output.write w b).1, f (Output.write w b).2)
  writeAll : ∀ w b, Output.writeAll (f w) b = ((Output.writeAll w b).1, f (Output.writeAll w b).2)
  flush : ∀ w, Output.flush (f w) = ((Output.flush w).1, f (Output.flush w).2)

namespace Sink

variable {s s' : Sink} {b : Bytes}

theorem taken_accept (s : Sink) (b : Bytes) (n : Nat) :
    (s.accept b n).2.taken = s.taken ++ b.take n := by
  simp only [accept, taken, List.reverse_cons, List.flatten_append, List.flatten_singleton]

/-- One call takes as many bytes as it says, from the front, and a call that fails takes none. -/
theorem write_spec (s : Sink) (b : Bytes) :
    (∃ n, (s.write b).1 = .ok (min n b.length) ∧ (s.write b).2.taken = s.taken ++ b.take n) ∨
      ∃ e, (s.write b).1 = .error e ∧ (s.write b).2.taken = s.taken := by
  rcases hw : s.writes with _ | ⟨n | e, later⟩
  · left
    refine ⟨s.limit.getD b.length, ?_, ?_⟩
    · simp only [write, hw]
      rfl
    · simp only [write, hw]
      exact taken_accept s b _
  · left
    refine ⟨n, ?_, ?_⟩
    · simp only [write, hw]
      rfl
    · simp only [write, hw]
      exact taken_accept { s with writes := later } b n
  · right
    refine ⟨e, ?_, ?_⟩
    · simp only [write, hw]
    · simp only [write, hw]
      rfl

/-- **However many calls it takes, a front of the bytes is taken,** and all of them if the calls
    succeed. -/
theorem writeAll_spec (s : Sink) (b : Bytes) :
    ∃ given, given <+: b ∧ (s.writeAll b).2.taken = s.taken ++ given ∧
      ((s.writeAll b).1 = .ok () → given = b) := by
  fun_induction writeAll s b with
  | case1 s => exact ⟨[], List.prefix_refl _, (List.append_nil _).symm, fun _ => rfl⟩
  | case2 s b hb e s1 hw hk ih =>
    rcases write_spec s b with ⟨n, hn, -⟩ | ⟨e', -, ht⟩
    · rw [hw] at hn
      cases hn
    · rw [hw] at ht
      have ht : s1.taken = s.taken := ht
      rwa [ht] at ih
  | case3 s b hb e s1 hw hk =>
    rcases write_spec s b with ⟨n, hn, -⟩ | ⟨e', -, ht⟩
    · rw [hw] at hn
      cases hn
    · rw [hw] at ht
      have ht : s1.taken = s.taken := ht
      refine ⟨[], List.nil_prefix, ?_, fun h => by cases h⟩
      rw [List.append_nil]
      exact ht
  | case4 s b hb s1 hw =>
    rcases write_spec s b with ⟨n, hn, ht⟩ | ⟨e', he, -⟩
    · rw [hw] at ht
      exact ⟨b.take n, List.take_prefix _ _, ht, fun h => by cases h⟩
    · rw [hw] at he
      cases he
  | case5 s b hb k s1 hw hk ih =>
    rcases write_spec s b with ⟨n, hn, ht⟩ | ⟨e', he, -⟩
    · rw [hw] at hn ht
      have hn : k = min n b.length := Except.ok.inj hn
      have ht : s1.taken = s.taken ++ b.take n := ht
      have htake : b.take n = b.take k := by rw [hn, ← List.take_eq_take_min]
      obtain ⟨given, hpre, htaken, hall⟩ := ih
      -- The front taken by this call and the one taken of the rest by the later calls.
      refine ⟨b.take k ++ given, ?_, ?_, ?_⟩
      · have hboth := (List.prefix_append_right_inj (b.take k)).mpr hpre
        rwa [List.take_append_drop] at hboth
      · rw [htaken, ht, htake, List.append_assoc]
      · intro h
        rw [hall h, List.take_append_drop]
    · rw [hw] at he
      cases he

/-- A flush takes nothing. -/
@[simp] theorem taken_flush (s : Sink) : s.flush.2.taken = s.taken := by
  rcases hf : s.flushes with _ | ⟨_ | e, later⟩
  · simp only [flush, hf]
  · simp only [flush, hf]
    rfl
  · simp only [flush, hf]
    rfl

/-! ## Raw writers that never fail -/

/-- Every call takes something, and every flush succeeds. -/
structure ErrorFree (s : Sink) : Prop where
  writes : ∀ reply ∈ s.writes, ∃ n, 0 < n ∧ reply = .takes n
  limit : s.limit ≠ some 0
  flushes : ∀ reply ∈ s.flushes, reply = none

/-- One call on a writer that never fails takes at least a byte. -/
theorem ErrorFree.write (h : s.ErrorFree) (hb : b ≠ []) :
    ∃ n, 0 < n ∧ (s.write b).1 = .ok n ∧ (s.write b).2.ErrorFree := by
  have hpos := List.length_pos_iff.mpr hb
  rcases hw : s.writes with _ | ⟨reply, later⟩
  · refine ⟨min (s.limit.getD b.length) b.length, ?_, ?_, ?_⟩
    · rcases hl : s.limit with _ | k
      · rw [Option.getD_none, Nat.min_self]
        exact hpos
      · have hk : k ≠ 0 := by
          rintro rfl
          exact h.limit hl
        rw [Option.getD_some]
        omega
    · simp only [Sink.write, hw]
      rfl
    · simp only [Sink.write, hw]
      exact ⟨h.writes, h.limit, h.flushes⟩
  · obtain ⟨n, hn, rfl⟩ := h.writes reply (by rw [hw]; exact List.mem_cons_self)
    refine ⟨min n b.length, by omega, ?_, ?_⟩
    · simp only [Sink.write, hw]
      rfl
    · simp only [Sink.write, hw]
      refine ⟨fun r hr => h.writes r ?_, h.limit, h.flushes⟩
      rw [hw]
      exact List.mem_cons_of_mem _ hr

/-- **A writer that never fails takes everything,** in however many calls. -/
theorem ErrorFree.writeAll (h : s.ErrorFree) (b : Bytes) :
    (s.writeAll b).1 = .ok () ∧ (s.writeAll b).2.ErrorFree := by
  fun_induction Sink.writeAll s b with
  | case1 s => exact ⟨rfl, h⟩
  | case2 s b hb e s1 hw hk ih =>
    obtain ⟨n, -, hn, -⟩ := h.write hb
    rw [hw] at hn
    cases hn
  | case3 s b hb e s1 hw hk =>
    obtain ⟨n, -, hn, -⟩ := h.write hb
    rw [hw] at hn
    cases hn
  | case4 s b hb s1 hw =>
    obtain ⟨n, hpos, hn, -⟩ := h.write hb
    rw [hw] at hn
    cases hn
    omega
  | case5 s b hb k s1 hw hk ih =>
    obtain ⟨n, -, -, hfree⟩ := h.write hb
    rw [hw] at hfree
    exact ih hfree

theorem ErrorFree.flush (h : s.ErrorFree) : s.flush.1 = .ok () ∧ s.flush.2.ErrorFree := by
  rcases hf : s.flushes with _ | ⟨reply, later⟩
  · simp only [Sink.flush, hf]
    exact ⟨trivial, h⟩
  · have hreply := h.flushes reply (by rw [hf]; exact List.mem_cons_self)
    subst hreply
    simp only [Sink.flush, hf]
    refine ⟨trivial, h.writes, h.limit, fun r hr => h.flushes r ?_⟩
    rw [hf]
    exact List.mem_cons_of_mem _ hr

end Sink

end Coffer
