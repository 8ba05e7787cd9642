import Coffer.Bytes
import Coffer.Stream.Error
/-
  Raw input streams.

  A `Source` is everything a raw reader will ever do: the pieces it delivers and the failures in
  between, in order, and the most bytes it gives at once.  Every finite run of a reader is such a
  script, so a law about all sources is a law about all readers.

  * `read`         — one call: bytes of one piece, or one failure; an empty answer means the end,
                     which an empty piece can also pretend once;
  * `readRetrying` — the same, but an interruption is tried again;
  * `readExact`    — exactly so many bytes;
  * `size`         — goes down with every call that gives something (`size_read_lt_of_ok`).

  A directory can be opened like a file, but no call on it ever gives anything: its source is
  `Source.directory`.
-/
namespace Coffer

/-- One thing a raw reader does. -/
inductive ReadEvent
  | bytes (b : Bytes)
  | failure (e : IoError)
  deriving Repr

/-- A bound on the calls that an event can serve. -/
def ReadEvent.size : ReadEvent → Nat
  | bytes b => b.length + 1
  | failure _ => 1

/-- What a raw reader does for ever once its events are used up. -/
inductive Ending
  /-- The stream is at its end. -/
  | finished
  /-- Every call fails, for what was opened is a directory. -/
  | directory
  deriving DecidableEq, Repr

/-- A raw reader. -/
structure Source where
  events : List ReadEvent
  /-- The most bytes one call gives, when there is a limit. -/
  limit : Option Nat
  ending : Ending

namespace Source

/-- A source that delivers `b` and ends. -/
def ofBytes (b : Bytes) : Source := ⟨if b.isEmpty then [] else [.bytes b], none, .finished⟩

/-- The source of an opened directory. -/
def directory : Source := ⟨[], none, .directory⟩

/-- The bytes still to come, whatever failures are in between. -/
def rest (s : Source) : Bytes :=
  s.events.flatMap fun | .bytes b => b | .failure _ => []

/-- A bound on the calls that can still give something. -/
def size (s : Source) : Nat :=
  s.events.foldr (fun e later => e.size + later) 0

/-- How many of `n` wanted bytes one call may give. -/
def allowed (s : Source) (n : Nat) : Nat := match s.limit with
  | none => n
  | some k => min n k

/-- One call for at most `n` bytes. -/
def read (n : Nat) (s : Source) : Except IoError Bytes × Source :=
  match s.events with
  | [] =>
    match s.ending with
    | .finished => (.ok [], s)
    | .directory => (.error .isDirectory, s)
  | .failure e :: later => (.error e, { s with events := later })
  | .bytes b :: later =>
    let given := b.take (s.allowed n)
    let left := b.drop (s.allowed n)
    (.ok given, { s with events := if left.isEmpty then later else .bytes left :: later })

/-- **A call that gives bytes leaves less to come.** -/
theorem size_read_lt_of_ok {n : Nat} {s s' : Source} {b : Bytes} (h : s.read n = (.ok b, s'))
    (hb : b ≠ []) : s'.size < s.size := by
  unfold read at h
  split at h
  · split at h
    · cases h; exact absurd rfl hb
    · cases h
  · cases h
  · rename_i c later hev
    injection h with h1 h2
    injection h1 with h1
    subst h1 h2
    have hpos : 0 < s.allowed n ∧ 0 < c.length := by
      rcases Nat.eq_zero_or_pos (s.allowed n) with h0 | h0
      · rw [h0] at hb; exact absurd rfl hb
      · refine ⟨h0, ?_⟩
        cases c with
        | nil => simp at hb
        | cons _ _ => simp
    have hlen := List.length_drop (i := s.allowed n) (l := c)
    simp only [size, hev]
    split
    · simp only [List.foldr_cons, ReadEvent.size]
      omega
    · simp only [List.foldr_cons, ReadEvent.size]
      omega

/-- **A call that fails leaves less to come,** unless a directory was opened. -/
theorem size_read_lt_of_error {n : Nat} {s s' : Source} {e : IoError}
    (h : s.read n = (.error e, s')) (he : e ≠ .isDirectory) : s'.size < s.size := by
  unfold read at h
  split at h
  · split at h
    · cases h
    · cases h; exact absurd rfl he
  · rename_i later hev
    cases h
    simp [size, hev, ReadEvent.size]
  · cases h

/-- One call for at most `n` bytes, made again after an interruption. -/
def readRetrying (n : Nat) (s : Source) : Except IoError Bytes × Source :=
  match _hread : s.read n with
  | (.error e, s') => if _he : e.kind = .interrupted then readRetrying n s' else (.error e, s')
  | (.ok b, s') => (.ok b, s')
termination_by s.size
decreasing_by exact size_read_lt_of_error _hread fun h' => by rw [h'] at _he; cases _he

theorem size_readRetrying_lt {n : Nat} {s s' : Source} {b : Bytes}
    (h : s.readRetrying n = (.ok b, s')) (hb : b ≠ []) : s'.size < s.size := by
  fun_induction readRetrying n s with
  | case1 s e s1 hr hk ih =>
    exact Nat.lt_trans (ih h) (size_read_lt_of_error hr fun h' => by rw [h'] at hk; cases hk)
  | case2 s e s1 hr hk => cases h
  | case3 s b1 s1 hr => cases h; exact size_read_lt_of_ok hr hb

/-- Exactly `n` more bytes behind those already `got`; interruptions are tried again. -/
def readExactAfter (got : Bytes) (n : Nat) (s : Source) : Except IoError Bytes × Source :=
  if n = 0 then (.ok got, s)
  else
    match _hread : s.readRetrying n with
    | (.error e, s') => (.error e, s')
    | (.ok b, s') =>
      if _hb : b = [] then (.error .endedEarly, s')
      else readExactAfter (got ++ b) (n - b.length) s'
termination_by s.size
decreasing_by exact size_readRetrying_lt _hread _hb

/-- Exactly `n` bytes. -/
def readExact (n : Nat) (s : Source) : Except IoError Bytes × Source := readExactAfter [] n s

/-- Bytes asked for at once when a stream is read to its end. -/
def portion : Nat := 8192

/-- Everything up to the end or the first failure; `got` holds what came before, last first. -/
def readToEndAfter (got : List Bytes) (s : Source) : Except IoError Unit × Bytes × Source :=
  match _hread : s.readRetrying portion with
  | (.error e, s') => (.error e, got.reverse.flatten, s')
  | (.ok b, s') =>
    if _hb : b = [] then (.ok (), got.reverse.flatten, s') else readToEndAfter (b :: got) s'
termination_by s.size
decreasing_by exact size_readRetrying_lt _hread _hb

/-- Everything up to the end or the first failure. -/
def readToEnd (s : Source) : Except IoError Unit × Bytes × Source := readToEndAfter [] s

end Source

end Coffer
