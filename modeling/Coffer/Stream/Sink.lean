import Coffer.Bytes
import Coffer.Stream.Error
/-
  Raw output streams.

  `Output` is what a writer of containers needs of the stream below it.  A `Sink` is a raw writer
  that answers call after call as scripted, with short writes and failures anywhere; every finite
  run of a writer is such a script.  `Sink.taken` is everything it has accepted.
-/
namespace Coffer

/-- A stream that bytes are written to. -/
class Output (W : Type) where
  /-- One call, which takes some of the bytes; how many is the answer. -/
  write : W → Bytes → Except IoError Nat × W
  /-- All of the bytes, in as many calls as it takes; interruptions are tried again. -/
  writeAll : W → Bytes → Except IoError Unit × W
  flush : W → Except IoError Unit × W

/-- How a raw writer answers one call. -/
inductive WriteReply
  /-- At most so many bytes are taken. -/
  | takes (n : Nat)
  | fails (e : IoError)
  deriving Repr

/-- A raw writer. -/
structure Sink where
  /-- The pieces accepted so far, the latest first. -/
  pieces : List Bytes
  /-- The answers to the next write calls. -/
  writes : List WriteReply
  /-- The most bytes a call takes after that, when there is a limit. -/
  limit : Option Nat
  /-- The answers to the next flush calls; later ones succeed. -/
  flushes : List (Option IoError)

namespace Sink

/-- A writer that takes everything. -/
def empty : Sink := ⟨[], [], none, []⟩

/-- Everything accepted so far. -/
def taken (s : Sink) : Bytes := s.pieces.reverse.flatten

/-- The first `n` of the bytes `b` are taken. -/
def accept (s : Sink) (b : Bytes) (n : Nat) : Except IoError Nat × Sink :=
  (.ok (min n b.length), { s with pieces := b.take n :: s.pieces })

/-- One call with the bytes `b`. -/
def write (s : Sink) (b : Bytes) : Except IoError Nat × Sink :=
  match s.writes with
  | .takes n :: later => { s with writes := later }.accept b n
  | .fails e :: later => (.error e, { s with writes := later })
  | [] => s.accept b (s.limit.getD b.length)

/-- What a write call uses up: an answer of the script, or bytes. -/
theorem write_progress {s s' : Sink} {b : Bytes} {r : Except IoError Nat}
    (h : s.write b = (r, s')) :
    s'.writes.length + 1 = s.writes.length ∨
      (s'.writes.length = 0 ∧ s.writes.length = 0 ∧ ∃ n, r = .ok n) := by
  unfold write at h
  split at h
  · rename_i hw; left; simp only [accept] at h; cases h; simp [hw]
  · rename_i hw; left; cases h; simp [hw]
  · rename_i hw; right; simp only [accept] at h; cases h; simp [hw]

/-- All of the bytes `b`, in as many calls as it takes. -/
def writeAll (s : Sink) (b : Bytes) : Except IoError Unit × Sink :=
  if _hb : b = [] then (.ok (), s)
  else
    match _hwrite : s.write b with
    | (.error e, s') => if e.kind = .interrupted then writeAll s' b else (.error e, s')
    | (.ok n, s') => if _hn : n = 0 then (.error .wroteNothing, s') else writeAll s' (b.drop n)
termination_by s.writes.length + b.length
decreasing_by
  · rcases write_progress _hwrite with h1 | ⟨_, _, n, h2⟩
    · omega
    · cases h2
  · have hpos : 0 < b.length := List.length_pos_iff.2 _hb
    rcases write_progress _hwrite with h1 | h1 <;> simp only [List.length_drop] <;> omega

/-- One flush call. -/
def flush (s : Sink) : Except IoError Unit × Sink :=
  match s.flushes with
  | some e :: later => (.error e, { s with flushes := later })
  | none :: later => (.ok (), { s with flushes := later })
  | [] => (.ok (), s)

instance : Output Sink where
  write := write
  writeAll := writeAll
  flush := flush

end Sink

end Coffer
