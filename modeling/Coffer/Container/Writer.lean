import Coffer.Cipher.Context
import Coffer.Container.Padding
import Coffer.Stream.Sink
/-
  Writing the body of a container.

  A `BodyWriter` encrypts everything written to it and passes it on in whole blocks; less than a
  block stays behind until more comes.  `finish` pads what is left and writes the last block; a body
  without it is unfinished, and mostly does not decrypt.

  Once a block fails to encrypt or to reach the raw stream, every later call fails too, for the
  chaining value has moved past bytes that were never stored.
-/
namespace Coffer.Container

open Cipher (Context)
open Resource (ResolveError)

/-- A raw stream that is encrypted as it is written. -/
structure BodyWriter (W : Type) where
  inner : W
  context : Context
  /-- Bytes that were written and not passed on yet. -/
  pending : Bytes
  failed : Bool

namespace BodyWriter

variable {W : Type}

/-- A writer on top of `inner`; the context has its key and its chaining value. -/
def onTop (inner : W) (context : Context) : BodyWriter W := ⟨inner, context, [], false⟩

/-- Bytes in a block. -/
def blockSize (w : BodyWriter W) : Nat := w.context.blockSize

/-- Every call on a failed writer ends so. -/
def alreadyFailed : IoError := ⟨.other, "encryption already failed"⟩

variable [Output W]

/-- Encrypt the first `count` pending bytes and pass them on. -/
def passOn (count : Nat) (w : BodyWriter W) : Except IoError Unit × BodyWriter W :=
  let p := w.context.inPlace .encrypt (w.pending.take count)
  let w := { w with context := p.context, pending := p.buffer ++ w.pending.drop count }
  match p.outcome with
  | .error e => (.error (ResolveError.cipher e).toIo, { w with failed := true })
  | .ok () =>
    let (outcome, inner) := Output.writeAll w.inner p.buffer
    (outcome, { w with inner := inner, failed := !outcome.isOk })

/-- One call with the bytes `b`, which are all taken when it succeeds. -/
def write (w : BodyWriter W) (b : Bytes) : Except IoError Nat × BodyWriter W :=
  if w.failed then (.error alreadyFailed, w)
  else
    let w := { w with pending := w.pending ++ b }
    let whole := w.pending.length - w.pending.length % w.blockSize
    if whole = 0 then (.ok b.length, w)
    else
      match w.passOn whole with
      | (.error e, w) => (.error e, w)
      | (.ok (), w) => (.ok b.length, { w with pending := w.pending.drop whole })

/-- All of the bytes `b`: nothing to do when there are none, one call otherwise, for a call takes
    all it is given and is never merely interrupted. -/
def writeAll (w : BodyWriter W) (b : Bytes) : Except IoError Unit × BodyWriter W :=
  if b.isEmpty then (.ok (), w)
  else
    let (outcome, w) := w.write b
    (outcome.map fun _ => (), w)

/-- Flush the raw stream; less than a block stays behind. -/
def flush (w : BodyWriter W) : Except IoError Unit × BodyWriter W :=
  if w.failed then (.error alreadyFailed, w)
  else
    let (outcome, inner) := Output.flush w.inner
    (outcome, { w with inner := inner })

/-- Pad, encrypt and pass on the last block, and flush; afterwards only the raw stream is left. -/
def finish (w : BodyWriter W) : Except IoError Unit × W :=
  if w.failed then (.error alreadyFailed, w.inner)
  else
    let w := { w with pending := pad w.blockSize w.pending }
    match w.passOn w.pending.length with
    | (.error e, w) => (.error e, w.inner)
    | (.ok (), w) => Output.flush w.inner

end BodyWriter

end Coffer.Container
