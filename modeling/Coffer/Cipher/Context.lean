import Coffer.Cipher.Backend
/-
  Block chaining over a backend.

      encrypt:  C[i] = E(P[i] xor IV);  IV := C[i]
      decrypt:  P[i] = D(C[i]) xor IV;  IV := C[i]

  A `Context` binds a backend and keeps, for each direction, a key schedule and a chaining value of
  its own.  Callers pass whole blocks; padding is not a matter of chaining.

  `Context.inPlace` processes a buffer block by block.  It stops at the first block that fails, and
  what it leaves is told by a `Processed`: the outcome, the buffer and the context.
-/
namespace Coffer.Cipher

/-! ## Contexts -/

/-- A backend with its keys and chaining values. -/
structure Context where
  cipher : BlockCipher
  /-- The resource the context serves; diagnostics only. -/
  name : String
  encryptKey : Option KeySchedule
  decryptKey : Option KeySchedule
  encryptIv : Bytes
  decryptIv : Bytes
  /-- A work block; between calls it holds what the last block left. -/
  scratch : Bytes

/-- The largest piece of memory that is given out: 64 GiB. -/
def allocationLimit : Nat := 0x1000000000

/-- A block of zeros. -/
def zeroBlock (size : Nat) : Except CipherError Bytes :=
  if allocationLimit < size then .error (.allocationFailed size)
  else .ok (List.replicate size 0)

namespace Context

/-- Bytes in a block of the bound backend. -/
def blockSize (ctx : Context) : Nat := ctx.cipher.blockSize

/-- The algorithm of the bound backend. -/
def algorithm (ctx : Context) : Algorithm := ctx.cipher.algorithm

/-- Whether both directions have a key. -/
def isKeyed (ctx : Context) : Bool := ctx.encryptKey.isSome && ctx.decryptKey.isSome

/-- The key schedule of one direction. -/
def key? (ctx : Context) : Direction → Option KeySchedule
  | .encrypt => ctx.encryptKey
  | .decrypt => ctx.decryptKey

/-- The chaining value of one direction. -/
def iv (ctx : Context) : Direction → Bytes
  | .encrypt => ctx.encryptIv
  | .decrypt => ctx.decryptIv

/-- The context with another chaining value in one direction. -/
def withIv (ctx : Context) (d : Direction) (iv : Bytes) : Context :=
  match d with
  | .encrypt => { ctx with encryptIv := iv }
  | .decrypt => { ctx with decryptIv := iv }

/-- Bind a backend, unkeyed and with zeroed chaining values. -/
def bind (cipher : BlockCipher) (name : String) : Except CipherError Context := do
  ensureSupported cipher
  if cipher.blockSize = 0 then throw (.invalidArgument (.zeroBlockSize cipher.name))
  let zeros ← zeroBlock cipher.blockSize
  return ⟨cipher, name, none, none, zeros, zeros, zeros⟩

/-- A context on the same keys with fresh chaining values. -/
def fork (ctx : Context) : Except CipherError Context := do
  let zeros ← zeroBlock ctx.blockSize
  return { ctx with encryptIv := zeros, decryptIv := zeros, scratch := zeros }

/-! ### Keys and chaining values -/

/-- Expand `key` for both directions.  Both schedules are replaced or neither is. -/
def setKey (ctx : Context) (key : Bytes) : Except CipherError Context :=
  if key.isEmpty then .error (.invalidKeyMaterial 0 .empty)
  else if 0xFFFFFFFF < key.length * 8 then .error (.invalidKeyMaterial key.length .tooLong)
  else
    let keyed (d : Direction) :=
      ctx.cipher.setKey d (.empty d ctx.cipher.keySize) key (key.length * 8)
    match keyed .encrypt with
    | (.error e, _) => .error e
    | (.ok (), forEncrypt) =>
      match keyed .decrypt with
      | (.error e, _) => .error e
      | (.ok (), forDecrypt) =>
        .ok { ctx with encryptKey := some forEncrypt, decryptKey := some forDecrypt }

/-- Set the chaining value of one direction to `iv`, which must be one block. -/
def setIv (ctx : Context) (d : Direction) (iv : Bytes) : Except CipherError Context :=
  if iv.length ≠ ctx.blockSize then .error (.invalidArgument (.ivLength ctx.blockSize iv.length))
  else .ok (ctx.withIv d iv)

/-- Set both chaining values to `iv`. -/
def setIvs (ctx : Context) (iv : Bytes) : Except CipherError Context := do
  (← ctx.setIv .encrypt iv).setIv .decrypt iv

end Context

/-! ## Processing blocks -/

/-- What processing left behind. -/
structure Processed where
  outcome : Except CipherError Unit
  buffer : Bytes
  context : Context

namespace Context

/-- One block in place. -/
def step (d : Direction) (key : KeySchedule) (ctx : Context) (block : Bytes) : Processed :=
  match d with
  | .encrypt =>
    let mixed := xorOnto block ctx.encryptIv
    match ctx.cipher.block .encrypt mixed block key with
    | (.error e, out) => ⟨.error e, out, { ctx with scratch := mixed }⟩
    | (.ok (), out) => ⟨.ok (), out, { ctx with scratch := mixed, encryptIv := out }⟩
  | .decrypt =>
    match ctx.cipher.block .decrypt block block key with
    | (.error e, out) => ⟨.error e, out, { ctx with scratch := block }⟩
    | (.ok (), out) =>
      ⟨.ok (), xorOnto out ctx.decryptIv, { ctx with decryptIv := block, scratch := ctx.decryptIv }⟩

/-- Blocks in place, one after the other, up to the first that fails; `done` holds the blocks
    already processed, last first. -/
def run (d : Direction) (key : KeySchedule) (ctx : Context) (done : List Bytes) :
    List Bytes → Processed
  | [] => ⟨.ok (), done.reverse.flatten, ctx⟩
  | block :: rest =>
    let r := ctx.step d key block
    match r.outcome with
    | .ok () => run d key r.context (r.buffer :: done) rest
    | .error e => ⟨.error e, (rest.reverse ++ r.buffer :: done).reverse.flatten, r.context⟩

/-- Process a buffer of whole blocks in place. -/
def inPlace (d : Direction) (ctx : Context) (buffer : Bytes) : Processed :=
  match ctx.key? d with
  | none => ⟨.error (.notInitialized d), buffer, ctx⟩
  | some key =>
    if buffer.length % ctx.blockSize ≠ 0 then
      ⟨.error (.invalidBufferLength buffer.length ctx.blockSize), buffer, ctx⟩
    else ctx.run d key [] (blocks ctx.blockSize buffer)

/-- Process `input` into the buffer `output` of the same length: the input is copied there first
    and then processed in place. -/
def into (d : Direction) (ctx : Context) (input output : Bytes) : Processed :=
  if input.length ≠ output.length then
    ⟨.error (.invalidArgument (.unequalBuffers input.length output.length)), output, ctx⟩
  else ctx.inPlace d input

/-- The diagnostic rendering of a context; it shows no key material. -/
def debug (ctx : Context) : String :=
  Text.record "CipherContext"
    [("name", Text.quote ctx.name), ("algorithm", ctx.algorithm.debug),
     ("block_size", toString ctx.blockSize), ("keyed", toString ctx.isKeyed)]

end Context

end Coffer.Cipher
