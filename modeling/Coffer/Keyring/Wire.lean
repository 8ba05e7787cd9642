import Coffer.Keyring.Passphrase
/-
  Frames on the wire.

  Client and secret holder exchange frames over a byte stream, which may arrive cut anywhere.  A
  decoder looks at the bytes received so far and says one of three things, `Decoded`:

  * INCOMPLETE — the bytes begin a frame; nothing is consumed, and more must come;
  * FRAME      — a whole frame, and the bytes behind it;
  * FAILED     — the bytes begin no frame, and some may have been consumed.

  All numbers on the wire are big-endian.  `takeSecret` is the part that both directions share: the
  length of a secret in four bytes, and the secret.
-/
namespace Coffer.Keyring

/-- What a decoder makes of the bytes received so far. -/
inductive Decoded (α : Type)
  | incomplete
  | frame (value : α) (rest : Bytes)
  | failed (fault : SecretError) (rest : Bytes)

namespace Decoded

variable {α : Type}

/-- The bytes left when `received` was looked at. -/
def rest (received : Bytes) : Decoded α → Bytes
  | incomplete => received
  | frame _ rest => rest
  | failed _ rest => rest

/-- What a decoder's answer means when no more bytes will come: a frame that has begun cannot be
    completed. -/
def atEnd (received : Bytes) : Decoded α → Except SecretError (Option α)
  | frame value _ => .ok (some value)
  | failed fault _ => .error fault
  | incomplete =>
    if received.isEmpty then .ok none
    else .error (.io ⟨.other, "bytes remaining on stream"⟩)

end Decoded

/-- A secret as it is written: its length in four bytes, and its bytes. -/
def secretFrame (p : Passphrase) : Bytes := be32 p.size ++ p.bytes

/-- The secret at the front of `b`.  A length above the limit is refused as soon as it is known;
    then, as nothing is consumed, the bytes left are `whole`. -/
def takeSecret (whole b : Bytes) : Decoded Passphrase :=
  if b.length < 4 then .incomplete
  else
    let size := bigEndian (b.take 4)
    if maxPassphrase < size then .failed .tooLarge whole
    else if b.length < 4 + size then .incomplete
    else
      let rest := b.drop (4 + size)
      match Passphrase.ofBytes ((b.drop 4).take size) with
      | .ok secret => .frame secret rest
      | .error e => .failed e rest

theorem length_rest_takeSecret {whole b rest : Bytes} {secret : Passphrase}
    (h : takeSecret whole b = .frame secret rest) : rest.length < b.length := by
  unfold takeSecret at h
  split at h
  · cases h
  · simp only at h
    split at h
    · cases h
    · split at h
      · cases h
      · split at h
        · cases h; simp only [List.length_drop]; omega
        · cases h

end Coffer.Keyring
