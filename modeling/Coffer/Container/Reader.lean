import Coffer.Cipher.Context
import Coffer.Container.Padding
import Coffer.Stream.Source
/-
  Reading the body of a container.

  A `BodyReader` decrypts a raw source as it is read.  The raw source may deliver any number of
  bytes at a time, but the cipher context only sees whole blocks, and the last block seen so far is
  held back until the source ends: only then is it known to carry the padding.

  * `pending` — ciphertext that was read and not decrypted yet;
  * `ready`   — plaintext of the last refill, of which the first `taken` bytes were handed out.

  A failed block operation, a body that does not end in a whole block, or bad padding puts an end
  to the reader; a failure of the raw source does not.
-/
namespace Coffer.Container

open Cipher (Context)
open Resource (ResolveError)

/-- A raw source that is decrypted as it is read. -/
structure BodyReader where
  source : Source
  context : Context
  pending : Bytes
  ready : Bytes
  /-- The bytes of `ready` handed out already. -/
  taken : Nat
  /-- The raw source has ended. -/
  done : Bool
  failed : Bool

namespace BodyReader

/-- Raw bytes asked for at once. -/
def portion : Nat := 8192

/-- A reader of the rest of `source`; the context has its key and its chaining value. -/
def ofSource (source : Source) (context : Context) : BodyReader :=
  ⟨source, context, [], [], 0, false, false⟩

/-- Bytes in a block. -/
def blockSize (r : BodyReader) : Nat := r.context.blockSize

/-- How many pending bytes can be decrypted: the whole blocks but the last one. -/
def decryptable (r : BodyReader) : Nat :=
  (r.pending.length - r.pending.length % r.blockSize) - r.blockSize

/-- Decrypt what can be decrypted. -/
def decryptSome (r : BodyReader) : Except IoError Unit × BodyReader :=
  let count := r.decryptable
  if count = 0 then (.ok (), r)
  else
    let p := r.context.inPlace .decrypt (r.pending.take count)
    let left := r.pending.drop count
    match p.outcome with
    | .error e =>
      (.error (ResolveError.cipher e).toIo,
        { r with context := p.context, pending := p.buffer ++ left })
    | .ok () =>
      (.ok (), { r with context := p.context, pending := left, ready := r.ready ++ p.buffer })

/-- Decrypt the last block, the source having ended, and drop its padding. -/
def decryptRest (r : BodyReader) : Except IoError Unit × BodyReader :=
  let r := { r with done := true }
  if r.pending.isEmpty then (.error (ResolveError.format .emptyBody).toIo, r)
  else if r.pending.length % r.blockSize ≠ 0 then
    (.error (ResolveError.format (.partialBlock (r.pending.length % r.blockSize))).toIo, r)
  else
    let p := r.context.inPlace .decrypt r.pending
    let r := { r with context := p.context, pending := p.buffer }
    match p.outcome with
    | .error e => (.error (ResolveError.cipher e).toIo, r)
    | .ok () =>
      let last := p.buffer.length - r.blockSize
      match unpaddedSize (p.buffer.drop last) with
      | .error e => (.error e.toIo, r)
      | .ok n => (.ok (), { r with ready := r.ready ++ p.buffer.take (last + n), pending := [] })

/-- One raw read and what follows from it; called when everything ready is handed out. -/
def refill (r : BodyReader) : Except IoError Unit × BodyReader :=
  match r.source.readRetrying portion with
  | (.error e, source) => (.error e, { r with source := source })
  | (.ok got, source) =>
    let r := { r with source := source, pending := r.pending ++ got, ready := [], taken := 0 }
    let (outcome, r) := if got.isEmpty then r.decryptRest else r.decryptSome
    (outcome, { r with failed := !outcome.isOk })

/-- How much can still come: it goes down with every refill. -/
def remaining (r : BodyReader) : Nat := if r.done then 0 else r.source.size + 1

theorem source_decryptSome (r : BodyReader) : r.decryptSome.2.source = r.source := by
  unfold decryptSome
  simp only
  split
  · rfl
  · split <;> rfl

theorem done_decryptSome (r : BodyReader) : r.decryptSome.2.done = r.done := by
  unfold decryptSome
  simp only
  split
  · rfl
  · split <;> rfl

theorem done_decryptRest (r : BodyReader) : r.decryptRest.2.done = true := by
  unfold decryptRest
  simp only
  split
  · rfl
  · split
    · rfl
    · split
      · rfl
      · split <;> rfl

/-- **A refill that succeeds leaves less to come.** -/
theorem remaining_refill_lt {r r' : BodyReader} (hd : r.done = false)
    (h : r.refill = (.ok (), r')) : r'.remaining < r.remaining := by
  unfold refill at h
  split at h
  · cases h
  · rename_i got source hr
    have h' := congrArg Prod.snd h
    simp only at h'
    subst h'
    by_cases hg : got = []
    · subst hg
      simp [remaining, done_decryptRest, hd]
    · have hlt := Source.size_readRetrying_lt hr hg
      simp [remaining, hg, done_decryptSome, source_decryptSome, hd]
      omega

/-- One call for at most `n` bytes; an empty answer means the end. -/
def read (n : Nat) (r : BodyReader) : Except IoError Bytes × BodyReader :=
  if n = 0 then (.ok [], r)
  else if r.taken < r.ready.length then
    let given := (r.ready.drop r.taken).take n
    (.ok given, { r with taken := r.taken + given.length })
  else if r.failed then (.error ⟨.invalidData, "decryption already failed"⟩, r)
  else if _hdone : r.done = true then (.ok [], r)
  else
    match _hrefill : r.refill with
    | (.error e, r') => (.error e, r')
    | (.ok (), r') => read n r'
termination_by r.remaining
decreasing_by exact remaining_refill_lt (by simpa using _hdone) _hrefill

/-- A call that gives bytes leaves either less to come or less to hand out. -/
theorem unread_lt {n : Nat} {r r' : BodyReader} {b : Bytes} (h : r.read n = (.ok b, r'))
    (hb : b ≠ []) :
    r'.remaining < r.remaining ∨
      (r'.remaining = r.remaining ∧ r'.ready.length - r'.taken < r.ready.length - r.taken) := by
  fun_induction read n r with
  | case1 => cases h; exact absurd rfl hb
  | case2 r hn ht given =>
    right
    injection h with h1 h2
    injection h1 with h1
    subst h1 h2
    have hpos : 0 < given.length := by simp [given]; omega
    exact ⟨rfl, by simp only; omega⟩
  | case3 => cases h
  | case4 => cases h; exact absurd rfl hb
  | case5 => cases h
  | case6 r hn ht hf hd r1 hr ih =>
    left
    have hlt := remaining_refill_lt (by simpa using hd) hr
    rcases ih h with h1 | h1 <;> omega

/-- Everything up to the end or the first failure; `got` holds what came before, last first. -/
def readToEndAfter (got : List Bytes) (r : BodyReader) : Except IoError Unit × Bytes × BodyReader :=
  match _hread : r.read portion with
  | (.error e, r') => (.error e, got.reverse.flatten, r')
  | (.ok b, r') =>
    if _hb : b = [] then (.ok (), got.reverse.flatten, r') else readToEndAfter (b :: got) r'
termination_by (r.remaining, r.ready.length - r.taken)
decreasing_by
  rcases unread_lt _hread _hb with h1 | ⟨h1, h2⟩
  · exact Prod.Lex.left _ _ h1
  · rw [h1]; exact Prod.Lex.right _ h2

/-- Everything up to the end or the first failure. -/
def readToEnd (r : BodyReader) : Except IoError Unit × Bytes × BodyReader := readToEndAfter [] r

end BodyReader

end Coffer.Container
