import Coffer.Stream.Source
/-
  What a raw reader comes to, call by call.

  A source shows the end of its stream with an empty answer: when its events are used up, but also at
  an empty piece, and at any piece when the limit is zero.  `Source.ahead` are the events before that,
  `Source.delivered` is what they hold and `Source.faults` what goes wrong among them, interruptions
  left out.

  * `Source.serves_read`     — one call takes the front of `delivered`, or the front of `faults`, or
                               finds both empty;
  * `Source.calls`           — calls one after the other, with all their answers;
  * `Source.calls_spec`      — before the end, what the calls gave and what is still to come make up
                               `delivered` and `faults`, and every call makes the source smaller;
  * `Source.readRetrying_eq_calls` — a call that is tried again is some interrupted calls and one more;
  * `Source.readExact_eq_ok` — bytes that are read exactly are the first that were still to come, whatever
                               went wrong between them.
-/
namespace Coffer

/-! ## Answers -/

/-- The bytes among some answers. -/
def handedOut (answers : List (Except IoError Bytes)) : Bytes :=
  answers.flatMap fun
    | .ok b => b
    | .error _ => []

/-- The failures among some answers. -/
def errorsOf (answers : List (Except IoError Bytes)) : List IoError :=
  answers.filterMap fun
    | .ok _ => none
    | .error e => some e

/-- The failures that are not merely interruptions. -/
def reported (errors : List IoError) : List IoError :=
  errors.filter fun e => e.kind ≠ .interrupted

section Answers

variable (xs ys : List (Except IoError Bytes)) (es fs : List IoError)

@[simp] theorem handedOut_nil : handedOut [] = [] := rfl

@[simp] theorem handedOut_append : handedOut (xs ++ ys) = handedOut xs ++ handedOut ys :=
  List.flatMap_append

@[simp] theorem handedOut_ok (b : Bytes) : handedOut (.ok b :: xs) = b ++ handedOut xs := rfl

@[simp] theorem handedOut_error (e : IoError) : handedOut (.error e :: xs) = handedOut xs := rfl

@[simp] theorem errorsOf_nil : errorsOf [] = [] := rfl

@[simp] theorem errorsOf_append : errorsOf (xs ++ ys) = errorsOf xs ++ errorsOf ys :=
  List.filterMap_append

@[simp] theorem errorsOf_ok (b : Bytes) : errorsOf (.ok b :: xs) = errorsOf xs := rfl

@[simp] theorem errorsOf_error (e : IoError) : errorsOf (.error e :: xs) = e :: errorsOf xs := rfl

@[simp] theorem reported_append : reported (es ++ fs) = reported es ++ reported fs :=
  List.filter_append es fs

theorem reported_of_interrupted {e : IoError} (h : e.kind = .interrupted) :
    reported (e :: es) = reported es := by
  rw [reported, List.filter_cons_of_neg (by simp [h])]
  rfl

theorem reported_of_not_interrupted {e : IoError} (h : e.kind ≠ .interrupted) :
    reported (e :: es) = e :: reported es := by
  rw [reported, List.filter_cons_of_pos (by simp [h])]
  rfl

/-- Nothing that is reported is an interruption. -/
theorem not_interrupted_of_mem_reported {e : IoError} (h : e ∈ reported es) :
    e.kind ≠ .interrupted := by
  simpa using (List.mem_filter.mp h).2

/-- Answers that are not empty hold a byte or a failure each. -/
theorem length_le_of_nil_not_mem (h : .ok [] ∉ xs) :
    xs.length ≤ (handedOut xs).length + (errorsOf xs).length := by
  induction xs with
  | nil => exact Nat.le_refl 0
  | cons a xs ih =>
    have ih := ih fun hm => h (List.mem_cons_of_mem a hm)
    cases a with
    | error e =>
      rw [handedOut_error, errorsOf_error, List.length_cons, List.length_cons]
      omega
    | ok b =>
      have hb : 0 < b.length := by
        refine List.length_pos_iff.mpr ?_
        rintro rfl
        exact h List.mem_cons_self
      rw [handedOut_ok, errorsOf_ok, List.length_cons, List.length_append]
      omega

end Answers

/-! ## What a source holds -/

namespace ReadEvent

/-- The bytes an event holds. -/
def held : ReadEvent → Bytes
  | bytes b => b
  | failure _ => []

/-- What goes wrong at an event. -/
def error? : ReadEvent → Option IoError
  | bytes _ => none
  | failure e => some e

/-- Whether the event looks like the end of the stream, where a call gives at most `limit`. -/
def pauses (limit : Option Nat) : ReadEvent → Bool
  | bytes b => b.isEmpty || limit == some 0
  | failure _ => false

end ReadEvent

namespace Source

variable {n : Nat} {s s' : Source}

/-- The events before the source first shows the end of its stream. -/
def ahead (s : Source) : List ReadEvent := s.events.takeWhile fun e => !e.pauses s.limit

/-- The bytes before the source first shows the end of its stream. -/
def delivered (s : Source) : Bytes := s.ahead.flatMap ReadEvent.held

/-- What goes wrong before the source first shows the end of its stream, interruptions left out. -/
def faults (s : Source) : List IoError := reported (s.ahead.filterMap ReadEvent.error?)

/-- How one call is answered, and what is left behind it. -/
inductive Serves (n : Nat) (s : Source) : Except IoError Bytes × Source → Prop
  | ended {s' : Source} : s.delivered = [] → s.faults = [] → Serves n s (.ok [], s')
  | gave {b : Bytes} {s' : Source} : b ≠ [] → b.length ≤ n → s.delivered = b ++ s'.delivered →
      s.faults = s'.faults → s'.ending = .finished → s'.size < s.size → Serves n s (.ok b, s')
  | failed {e : IoError} {s' : Source} : s.delivered = s'.delivered →
      s.faults = reported [e] ++ s'.faults → s'.ending = .finished → s'.size < s.size →
      Serves n s (.error e, s')

theorem ahead_of_pauses {e : ReadEvent} {later : List ReadEvent} (hev : s.events = e :: later)
    (h : e.pauses s.limit = true) : s.ahead = [] := by
  rw [ahead, hev, List.takeWhile_cons_of_neg (by simp [h])]

theorem ahead_of_not_pauses {e : ReadEvent} {later : List ReadEvent} (hev : s.events = e :: later)
    (h : e.pauses s.limit = false) : s.ahead = e :: ({ s with events := later } : Source).ahead := by
  rw [ahead, hev, List.takeWhile_cons_of_pos (by simp [h])]
  rfl

theorem serves_of_ahead_eq_nil (h : s.ahead = []) : Serves n s (.ok [], s') := by
  refine .ended ?_ ?_
  · rw [delivered, h]
    rfl
  · rw [faults, h]
    rfl

/-- What is left of a piece stands in front of the later events, when there is anything left. -/
theorem holds_left (hlimit : s.limit ≠ some 0) (left : Bytes) (later : List ReadEvent) :
    ({ s with events := if left.isEmpty then later else (.bytes left) :: later } : Source).delivered =
        left ++ ({ s with events := later } : Source).delivered ∧
      ({ s with events := if left.isEmpty then later else (.bytes left) :: later } : Source).faults =
        ({ s with events := later } : Source).faults := by
  rcases left with _ | ⟨x, xs⟩
  · exact ⟨rfl, rfl⟩
  · have hp : (ReadEvent.bytes (x :: xs)).pauses s.limit = false := by
      simp only [ReadEvent.pauses, List.isEmpty_cons, Bool.false_or, beq_eq_false_iff_ne]
      exact hlimit
    have hahead := ahead_of_not_pauses
      (show ({ s with events := (.bytes (x :: xs)) :: later } : Source).events = _ from rfl) hp
    constructor
    · show Source.delivered { s with events := (.bytes (x :: xs)) :: later } = _
      rw [delivered, hahead]
      rfl
    · show Source.faults { s with events := (.bytes (x :: xs)) :: later } = _
      rw [faults, hahead]
      rfl

/-- A source of some bytes delivers them. -/
theorem delivered_ofBytes (b : Bytes) : (ofBytes b).delivered = b ∧ (ofBytes b).faults = [] := by
  have hlimit : (⟨[], none, .finished⟩ : Source).limit ≠ some 0 := by decide
  obtain ⟨hdelivered, hfaults⟩ := holds_left hlimit b []
  exact ⟨hdelivered.trans (List.append_nil b), hfaults⟩

/-- **One call takes the front of what is still to come.** -/
theorem serves_read (hn : 0 < n) (hs : s.ending = .finished) : Serves n s (s.read n) := by
  rcases hev : s.events with _ | ⟨b | e, later⟩
  · simp only [read, hev, hs]
    exact serves_of_ahead_eq_nil (by rw [ahead, hev]; rfl)
  · rcases hp : (ReadEvent.bytes b).pauses s.limit with _ | _
    · -- The call takes the front of the piece, and what is left of it stays in front.
      obtain ⟨hb, hlimit⟩ : b ≠ [] ∧ s.limit ≠ some 0 := by
        simpa [ReadEvent.pauses] using hp
      have hpos : 0 < s.allowed n ∧ s.allowed n ≤ n := by
        rcases hl : s.limit with _ | k
        · simp only [allowed, hl]; omega
        · have hk : k ≠ 0 := by rintro rfl; exact hlimit hl
          simp only [allowed, hl]; omega
      have hgiven : b.take (s.allowed n) ≠ [] := by
        rw [Ne, List.take_eq_nil_iff]
        rintro (h | h)
        · omega
        · exact hb h
      have hread : s.read n = (.ok (b.take (s.allowed n)), { s with events :=
          if (b.drop (s.allowed n)).isEmpty then later
          else (.bytes (b.drop (s.allowed n))) :: later }) := by
        simp only [read, hev]
      have hsize := size_read_lt_of_ok hread hgiven
      have hahead := ahead_of_not_pauses hev hp
      obtain ⟨hdelivered, hfaults⟩ := holds_left hlimit (b.drop (s.allowed n)) later
      rw [hread]
      refine .gave hgiven (by rw [List.length_take]; omega) ?_ ?_ hs hsize
      · rw [hdelivered, ← List.append_assoc, List.take_append_drop, delivered, hahead]
        rfl
      · rw [hfaults, faults, hahead]
        rfl
    · -- An empty piece or a limit of zero: the answer is empty, as at the end.
      have hgiven : b.take (s.allowed n) = [] := by
        rcases (by simpa [ReadEvent.pauses] using hp : b = [] ∨ s.limit = some 0) with rfl | hl
        · exact List.take_nil
        · simp only [allowed, hl, Nat.min_zero, List.take_zero]
      simp only [read, hev, hgiven]
      exact serves_of_ahead_eq_nil (ahead_of_pauses hev hp)
  · have hread : s.read n = (.error e, { s with events := later }) := by
      simp only [read, hev]
    have hahead := ahead_of_not_pauses hev rfl
    have hsize : ({ s with events := later } : Source).size < s.size := by
      simp only [size, hev, List.foldr_cons, ReadEvent.size]
      omega
    rw [hread]
    refine .failed ?_ ?_ hs hsize
    · rw [delivered, hahead]
      rfl
    · rw [faults, hahead, faults, ← reported_append]
      rfl

/-! ## Calls one after the other -/

/-- The answers of `k` calls for at most `n` bytes each, and the source behind them. -/
def calls (n : Nat) : (k : Nat) → Source → List (Except IoError Bytes) × Source
  | 0, s => ([], s)
  | k + 1, s => ((s.read n).1 :: (calls n k (s.read n).2).1, (calls n k (s.read n).2).2)

theorem calls_add (n j k : Nat) (s : Source) :
    s.calls n (j + k) =
      ((s.calls n j).1 ++ ((s.calls n j).2.calls n k).1, ((s.calls n j).2.calls n k).2) := by
  induction j generalizing s with
  | zero => rw [Nat.zero_add]; rfl
  | succ j ih =>
    rw [show j + 1 + k = (j + k) + 1 from by omega, calls, ih]
    rfl

/-- **Before the end, calls take the front of what is still to come,** and each leaves less. -/
theorem calls_spec (hn : 0 < n) (hs : s.ending = .finished) {k : Nat}
    (h : .ok [] ∉ (s.calls n k).1) :
    s.delivered = handedOut (s.calls n k).1 ++ (s.calls n k).2.delivered ∧
      s.faults = reported (errorsOf (s.calls n k).1) ++ (s.calls n k).2.faults ∧
      (s.calls n k).2.ending = .finished ∧ k + (s.calls n k).2.size ≤ s.size := by
  induction k generalizing s with
  | zero => exact ⟨rfl, rfl, hs, Nat.le_of_eq (Nat.zero_add _)⟩
  | succ k ih =>
    rw [calls] at h ⊢
    have hserves := serves_read hn hs
    rcases hr : s.read n with ⟨a, s1⟩
    rw [hr] at h hserves
    have hlater : .ok [] ∉ (s1.calls n k).1 := by
      intro hm
      exact h (List.mem_cons_of_mem a hm)
    cases hserves with
    | ended _ _ => exact absurd List.mem_cons_self h
    | gave _ _ hd hf hs1 hlt =>
      obtain ⟨hd', hf', hs', hle⟩ := ih hs1 hlater
      refine ⟨?_, ?_, hs', ?_⟩
      · rw [hd, hd', handedOut_ok, List.append_assoc]
      · rw [hf, hf', errorsOf_ok]
      · show k + 1 + (s1.calls n k).2.size ≤ s.size
        omega
    | @failed e _ hd hf hs1 hlt =>
      obtain ⟨hd', hf', hs', hle⟩ := ih hs1 hlater
      refine ⟨?_, ?_, hs', ?_⟩
      · rw [hd, hd', handedOut_error]
      · rw [hf, hf', errorsOf_error, ← List.append_assoc, ← reported_append]
        rfl
      · show k + 1 + (s1.calls n k).2.size ≤ s.size
        omega

/-- **At the end, calls have taken everything.** -/
theorem calls_ended (hn : 0 < n) (hs : s.ending = .finished) {k : Nat}
    {before : List (Except IoError Bytes)} (h : s.calls n (k + 1) = (before ++ [.ok []], s'))
    (hbefore : .ok [] ∉ before) :
    s.delivered = handedOut before ∧ s.faults = reported (errorsOf before) ∧ k ≤ s.size := by
  -- All calls but the last are those before the end, and the last one finds nothing to come.
  have hsplit := h
  rw [calls_add n k 1 s] at hsplit
  have hlast : ((s.calls n k).1, (((s.calls n k).2).read n).1) = (before, .ok []) := by
    have h := List.append_inj' (congrArg Prod.fst hsplit) rfl
    exact Prod.ext h.1 (List.cons.inj h.2).1
  obtain ⟨hfst, hend⟩ := Prod.ext_iff.mp hlast
  have hfst : (s.calls n k).1 = before := hfst
  have hend : (((s.calls n k).2).read n).1 = .ok [] := hend
  obtain ⟨hd, hf, hs', hle⟩ := calls_spec hn hs (by rw [hfst]; exact hbefore)
  have hserves := serves_read hn hs'
  rcases hr : ((s.calls n k).2).read n with ⟨a, s1⟩
  rw [hr] at hend hserves
  cases hserves with
  | ended hd0 hf0 =>
    rw [hd0, hfst, List.append_nil] at hd
    rw [hf0, hfst, List.append_nil] at hf
    exact ⟨hd, hf, by omega⟩
  | gave hb _ _ _ _ _ => exact absurd (Except.ok.inj hend) hb
  | failed _ _ _ _ => cases hend

/-! ## Calls that are made again after an interruption -/

/-- Answers that only ask to be tried again. -/
def Interruptions (answers : List (Except IoError Bytes)) : Prop :=
  ∀ a ∈ answers, ∃ e : IoError, a = .error e ∧ e.kind = .interrupted

theorem Interruptions.spec {waits : List (Except IoError Bytes)} (h : Interruptions waits) :
    handedOut waits = [] ∧ reported (errorsOf waits) = [] ∧ .ok [] ∉ waits := by
  induction waits with
  | nil => exact ⟨rfl, rfl, List.not_mem_nil⟩
  | cons a waits ih =>
    obtain ⟨e, rfl, he⟩ := h a List.mem_cons_self
    obtain ⟨hb, hr, hm⟩ := ih fun b hb => h b (List.mem_cons_of_mem _ hb)
    refine ⟨hb, ?_, ?_⟩
    · rw [errorsOf_error, reported_of_interrupted _ he]
      exact hr
    · rw [List.mem_cons]
      rintro (h | h)
      · cases h
      · exact hm h

/-- A call that is tried again is some interrupted calls and one more, whose answer it has. -/
theorem readRetrying_eq_calls (n : Nat) (s : Source) :
    ∃ waits, Interruptions waits ∧
      s.calls n (waits.length + 1) = (waits ++ [(s.readRetrying n).1], (s.readRetrying n).2) := by
  fun_induction readRetrying n s with
  | case1 s e s1 hr he ih =>
    obtain ⟨waits, hw, hc⟩ := ih
    refine ⟨.error e :: waits, ?_, ?_⟩
    · intro a ha
      rcases List.mem_cons.mp ha with rfl | ha
      · exact ⟨e, rfl, he⟩
      · exact hw a ha
    · rw [List.length_cons, calls, hr, hc]
      rfl
  | case2 s e s1 hr he =>
    refine ⟨[], fun a ha => absurd ha List.not_mem_nil, ?_⟩
    rw [List.length_nil, calls, hr]
    rfl
  | case3 s b s1 hr =>
    refine ⟨[], fun a ha => absurd ha List.not_mem_nil, ?_⟩
    rw [List.length_nil, calls, hr]
    rfl

/-- A call that is tried again does not fail with an interruption. -/
theorem readRetrying_not_interrupted {e : IoError} (h : s.readRetrying n = (.error e, s')) :
    e.kind ≠ .interrupted := by
  fun_induction readRetrying n s with
  | case1 s e1 s1 hr he ih => exact ih h
  | case2 s e1 s1 hr he => cases h; exact he
  | case3 s b s1 hr => cases h

theorem Serves.of_eq {s1 : Source} {answer : Except IoError Bytes × Source}
    (hd : s.delivered = s1.delivered) (hf : s.faults = s1.faults) (hlt : s1.size < s.size)
    (h : Serves n s1 answer) : Serves n s answer := by
  cases h with
  | ended hd0 hf0 => exact .ended (hd.trans hd0) (hf.trans hf0)
  | gave hb hle hd1 hf1 hs hlt1 =>
    exact .gave hb hle (hd.trans hd1) (hf.trans hf1) hs (Nat.lt_trans hlt1 hlt)
  | failed hd1 hf1 hs hlt1 => exact .failed (hd.trans hd1) (hf.trans hf1) hs (Nat.lt_trans hlt1 hlt)

theorem serves_readRetrying (hn : 0 < n) (hs : s.ending = .finished) :
    Serves n s (s.readRetrying n) := by
  fun_induction readRetrying n s with
  | case1 s e s1 hr he ih =>
    have hserves := serves_read hn hs
    rw [hr] at hserves
    cases hserves with
    | failed hd hf hs1 hlt =>
      rw [reported_of_interrupted [] he] at hf
      exact (ih hs1).of_eq hd hf hlt
  | case2 s e s1 hr he => rw [← hr]; exact serves_read hn hs
  | case3 s b s1 hr => rw [← hr]; exact serves_read hn hs

/-- Where nothing goes wrong but interruptions, a call that is tried again does not fail: a failure
    that is no interruption would be one of the faults. -/
theorem readRetrying_ne_error (hn : 0 < n) (hs : s.ending = .finished) (hf : s.faults = [])
    {e : IoError} : s.readRetrying n ≠ (.error e, s') := by
  intro hr
  have hserves := serves_readRetrying hn hs
  rw [hr] at hserves
  cases hserves with
  | failed _ hf' _ _ =>
    rw [reported_of_not_interrupted [] (readRetrying_not_interrupted hr), hf] at hf'
    cases hf'

/-- **Exactly so many bytes are read where so many are to come and nothing goes wrong.** -/
theorem readExactAfter_of_le (got : Bytes) (hs : s.ending = .finished) (hf : s.faults = [])
    (hle : n ≤ s.delivered.length) :
    ∃ later, s.readExactAfter got n = (.ok (got ++ s.delivered.take n), later) ∧
      later.delivered = s.delivered.drop n ∧ later.faults = [] ∧ later.ending = .finished := by
  fun_induction readExactAfter got n s with
  | case1 got s =>
    refine ⟨s, ?_, rfl, hf, hs⟩
    rw [List.take_zero, List.append_nil]
  | case2 got n s hn e s1 hr => exact absurd hr (readRetrying_ne_error (Nat.pos_of_ne_zero hn) hs hf)
  | case3 got n s hn s1 hr =>
    have hserves := serves_readRetrying (Nat.pos_of_ne_zero hn) hs
    rw [hr] at hserves
    cases hserves with
    | ended hd _ => rw [hd] at hle; exact absurd (Nat.le_zero.mp hle) hn
    | gave hb _ _ _ _ _ => exact absurd rfl hb
  | case4 got n s hn b s1 hr hb ih =>
    have hserves := serves_readRetrying (Nat.pos_of_ne_zero hn) hs
    rw [hr] at hserves
    cases hserves with
    | ended _ _ => exact absurd rfl hb
    | gave _ hbn hd hf' hs1 _ =>
      rw [hd, List.length_append] at hle
      obtain ⟨later, hread, hdl, hfl, hsl⟩ := ih hs1 (hf'.symm.trans hf) (by omega)
      refine ⟨later, ?_, ?_, hfl, hsl⟩
      · rw [hread, hd, List.take_append, List.take_of_length_le hbn, List.append_assoc]
      · rw [hdl, hd, List.drop_append, List.drop_eq_nil_of_le hbn, List.nil_append]

theorem readExact_of_le (hs : s.ending = .finished) (hf : s.faults = [])
    (hle : n ≤ s.delivered.length) :
    ∃ later, s.readExact n = (.ok (s.delivered.take n), later) ∧
      later.delivered = s.delivered.drop n ∧ later.faults = [] ∧ later.ending = .finished :=
  readExactAfter_of_le [] hs hf hle

/-- **A stream that ends before so many bytes have come ended early,** when nothing else goes wrong. -/
theorem readExactAfter_of_lt (got : Bytes) (hs : s.ending = .finished) (hf : s.faults = [])
    (hlt : s.delivered.length < n) :
    ∃ later, s.readExactAfter got n = (.error .endedEarly, later) := by
  fun_induction readExactAfter got n s with
  | case1 got s => exact absurd hlt (Nat.not_lt_zero _)
  | case2 got n s hn e s1 hr => exact absurd hr (readRetrying_ne_error (Nat.pos_of_ne_zero hn) hs hf)
  | case3 got n s hn s1 hr => exact ⟨s1, rfl⟩
  | case4 got n s hn b s1 hr hb ih =>
    have hserves := serves_readRetrying (Nat.pos_of_ne_zero hn) hs
    rw [hr] at hserves
    cases hserves with
    | ended _ _ => exact absurd rfl hb
    | gave _ hbn hd hf' hs1 _ =>
      rw [hd, List.length_append] at hlt
      exact ih hs1 (hf'.symm.trans hf) (by omega)

theorem readExact_of_lt (hs : s.ending = .finished) (hf : s.faults = [])
    (hlt : s.delivered.length < n) : ∃ later, s.readExact n = (.error .endedEarly, later) :=
  readExactAfter_of_lt [] hs hf hlt

/-! ## What is still to come, whatever goes wrong -/

/-- What a call gives is taken from the front; a failed one takes nothing. -/
inductive TakesFront (n : Nat) (s : Source) : Except IoError Bytes × Source → Prop
  | gave {b : Bytes} {s' : Source} : b.length ≤ n → s.rest = b ++ s'.rest →
      TakesFront n s (.ok b, s')
  | failed {e : IoError} {s' : Source} : s.rest = s'.rest → TakesFront n s (.error e, s')

theorem takesFront_read (n : Nat) (s : Source) : TakesFront n s (s.read n) := by
  rw [Source.read]
  split
  · split
    · exact .gave (Nat.zero_le n) (List.nil_append _).symm
    · exact .failed rfl
  · rename_i e later hev
    refine .failed ?_
    rw [rest, hev]
    rfl
  · rename_i b later hev
    have hallowed : s.allowed n ≤ n := by
      rw [allowed]
      split <;> omega
    have hleft : ({ s with events := if (b.drop (s.allowed n)).isEmpty then later
        else (.bytes (b.drop (s.allowed n))) :: later } : Source).rest =
        b.drop (s.allowed n) ++ ({ s with events := later } : Source).rest := by
      rcases b.drop (s.allowed n) with _ | ⟨x, xs⟩ <;> rfl
    refine .gave ?_ ?_
    · exact Nat.le_trans (List.length_take_le _ b) hallowed
    · rw [hleft, ← List.append_assoc, List.take_append_drop, rest, hev]
      rfl

theorem takesFront_readRetrying (n : Nat) (s : Source) : TakesFront n s (s.readRetrying n) := by
  fun_induction readRetrying n s with
  | case1 s e s1 hr he ih =>
    have htakes := takesFront_read n s
    rw [hr] at htakes
    cases htakes with
    | failed hrest =>
      -- The interrupted call took nothing, so the next one is at the same front.
      generalize s1.readRetrying n = answer at ih ⊢
      cases ih with
      | gave hlen hrest' => exact .gave hlen (hrest.trans hrest')
      | failed hrest' => exact .failed (hrest.trans hrest')
  | case2 s e s1 hr he => rw [← hr]; exact takesFront_read n s
  | case3 s b s1 hr => rw [← hr]; exact takesFront_read n s

/-- **Bytes that are read exactly are the first that were still to come.** -/
theorem readExactAfter_eq_ok {got b : Bytes} (h : s.readExactAfter got n = (.ok b, s')) :
    ∃ more, b = got ++ more ∧ more.length = n ∧ s.rest = more ++ s'.rest := by
  fun_induction readExactAfter got n s with
  | case1 got s =>
    cases h
    exact ⟨[], (List.append_nil b).symm, rfl, rfl⟩
  | case2 got n s hn e s1 hr => cases h
  | case3 got n s hn s1 hr => cases h
  | case4 got n s hn b1 s1 hr hb ih =>
    have htakes := takesFront_readRetrying n s
    rw [hr] at htakes
    cases htakes with
    | gave hlen hrest =>
      obtain ⟨more, hmore, hlen', hrest'⟩ := ih h
      refine ⟨b1 ++ more, ?_, ?_, ?_⟩
      · rw [hmore, List.append_assoc]
      · rw [List.length_append]
        omega
      · rw [hrest, hrest', List.append_assoc]

theorem readExact_eq_ok {b : Bytes} (h : s.readExact n = (.ok b, s')) :
    b.length = n ∧ s.rest = b ++ s'.rest := by
  obtain ⟨more, rfl, hlen, hrest⟩ := readExactAfter_eq_ok h
  exact ⟨hlen, hrest⟩

end Source

end Coffer
