import Coffer.Cipher.Registry
import Coffer.Container.Header
import Coffer.Container.Reader
import Coffer.Container.Writer
import Coffer.Keyring.SecretSource
import Coffer.Resource.Policy
/-
  Opening resources.

      unresolved ─► scheme-checked ─┬─► plain-open
                                    └─► secret-requested ─► key-derived ─► decrypting-open

  An `Opener` opens resources on top of raw streams.  A resource that is not encrypted is its raw
  stream, and nothing is asked of anybody.  For an encrypted one the stages come in a fixed order,
  and the first that fails ends the opening:

  * to read  — the header, the algorithm it names, the secret, the cipher, its block size, the key,
               the key check value;
  * to write — the cost, the secret, the cipher, its block size, the key, the header.

  `Opener.openRead` and `Opener.openWrite` give the outcome, and with it the opener and the raw
  stream as they were left, so that it can be said what a failed opening did not touch.
-/
namespace Coffer.Resource

open Cipher (BlockCipher Context GetFailure Registry)
open Container (BodyReader BodyWriter Header Sixteen checkCost ivSize sixteenOf)
open Keyring (Passphrase SecretSource)

/-! ## States -/

/-- How far an opening has come. -/
inductive OpenState
  | unresolved
  | schemeChecked
  | plainOpen
  | secretRequested
  | keyDerived
  | decryptingOpen
  deriving DecidableEq, Repr

/-- The text of a state. -/
def OpenState.text : OpenState → String
  | unresolved => "unresolved"
  | schemeChecked => "scheme-checked"
  | plainOpen => "plain-open"
  | secretRequested => "secret-requested"
  | keyDerived => "key-derived"
  | decryptingOpen => "decrypting-open"

/-- The states of an opening that succeeded. -/
def OpenState.trail (encrypted : Bool) : List OpenState :=
  if encrypted then [unresolved, schemeChecked, secretRequested, keyDerived, decryptingOpen]
  else [unresolved, schemeChecked, plainOpen]

/-! ## Opened resources -/

/-- A resource that is open for reading. -/
inductive Opened
  | plain (raw : Source)
  | decrypting (algorithm : Algorithm) (body : BodyReader)

namespace Opened

/-- The algorithm a resource is encrypted with. -/
def algorithm? : Opened → Option Algorithm
  | plain _ => none
  | decrypting a _ => some a

/-- Whether the resource is encrypted. -/
def isEncrypted (o : Opened) : Bool := o.algorithm?.isSome

/-- The states the opening went through. -/
def states (o : Opened) : List OpenState := OpenState.trail o.isEncrypted

/-- One call for at most `n` bytes. -/
def read (n : Nat) : Opened → Except IoError Bytes × Opened
  | plain raw => let (got, raw) := raw.read n; (got, plain raw)
  | decrypting a body => let (got, body) := body.read n; (got, decrypting a body)

/-- Everything up to the end or the first failure. -/
def readToEnd : Opened → Except IoError Unit × Bytes × Opened
  | plain raw => let (end?, got, raw) := raw.readToEnd; (end?, got, plain raw)
  | decrypting a body => let (end?, got, body) := body.readToEnd; (end?, got, decrypting a body)

/-- The resource after its file was emptied: the raw stream gives nothing more. -/
def emptied : Opened → Opened
  | plain _ => plain (.ofBytes [])
  | decrypting a body => decrypting a { body with source := .ofBytes [] }

end Opened

/-- A resource that is open for writing. -/
inductive Created (W : Type)
  | plain (raw : W)
  | encrypting (algorithm : Algorithm) (body : BodyWriter W)

namespace Created

variable {W : Type}

/-- Whether the resource is encrypted. -/
def isEncrypted : Created W → Bool
  | plain _ => false
  | encrypting _ _ => true

/-- The states the opening went through. -/
def states (c : Created W) : List OpenState := OpenState.trail c.isEncrypted

/-- The raw stream below. -/
def inner : Created W → W
  | plain raw => raw
  | encrypting _ body => body.inner

variable [Output W]

/-- One call with the bytes `b`. -/
def write (b : Bytes) : Created W → Except IoError Nat × Created W
  | plain raw => let (n, raw) := Output.write raw b; (n, plain raw)
  | encrypting a body => let (n, body) := body.write b; (n, encrypting a body)

/-- All of the bytes `b`. -/
def writeAll (b : Bytes) : Created W → Except IoError Unit × Created W
  | plain raw => let (o, raw) := Output.writeAll raw b; (o, plain raw)
  | encrypting a body => let (o, body) := body.writeAll b; (o, encrypting a body)

/-- Flush the raw stream. -/
def flush : Created W → Except IoError Unit × Created W
  | plain raw => let (o, raw) := Output.flush raw; (o, plain raw)
  | encrypting a body => let (o, body) := body.flush; (o, encrypting a body)

/-- Write what is still missing; only the raw stream is left. -/
def finish : Created W → Except IoError Unit × W
  | plain raw => Output.flush raw
  | encrypting _ body => body.finish

end Created

/-! ## Openers -/

/-- What to do where a resource leaves it open. -/
structure Options where
  /-- The secret of resources that name none. -/
  defaultLocation : String
  /-- The algorithm of new resources that name none. -/
  defaultAlgorithm : Algorithm
  /-- The cost of new resources. -/
  cost : Kdf.Cost
  deriving DecidableEq, Repr

/-- The diagnostic rendering of options. -/
def Options.debug (o : Options) : String :=
  Text.record "ResolverOptions"
    [("default_location", Text.quote o.defaultLocation),
     ("default_algorithm", o.defaultAlgorithm.debug),
     ("kdf", Text.record "KdfParams"
       [("mem_cost_kib", toString o.cost.memory.toNat),
        ("time_cost", toString o.cost.passes.toNat),
        ("parallelism", toString o.cost.lanes.toNat)])]

/-- The location of a resource's secret. -/
def Options.location (o : Options) (p : EncryptionParams) : String :=
  p.location.getD o.defaultLocation

/-- What opens resources: a source of secrets and a registry of ciphers. -/
structure Opener (S : Type) where
  secrets : S
  registry : Registry
  options : Options

/-- The salt and the first chaining value of a new container. -/
structure Nonces where
  salt : Sixteen
  iv : Sixteen

/-- The failure of an opening whose cipher could not be had. -/
def ofGetFailure : GetFailure → ResolveError
  | .failed e => .cipher e
  | .crashed => .constructorCrashed

/-- A context on a cipher, which must have blocks of the size that containers hold. -/
def bindContext (cipher : BlockCipher) (name : String) : Except ResolveError Context := do
  let ctx ← (Context.bind cipher name).mapError .cipher
  if ctx.blockSize ≠ ivSize then throw (.format (.blockSize ctx.algorithm ctx.blockSize ivSize))
  return ctx

/-- A context keyed for reading the container of a header. -/
def unlock (cipher : BlockCipher) (name : String) (secret : Passphrase) (h : Header) :
    Except ResolveError Context := do
  let ctx ← bindContext cipher name
  let key ← (Kdf.deriveKey secret.bytes h.salt.val h.cost).mapError .cipher
  if Kdf.keyCheck key ≠ h.keyCheck.val then throw .wrongPassphrase
  let ctx ← (ctx.setKey key).mapError .cipher
  (ctx.setIv .decrypt h.iv.val).mapError .cipher

/-- A context keyed for writing a new container, and the header of the container. -/
def lock (cipher : BlockCipher) (name : String) (secret : Passphrase) (algorithm : Algorithm)
    (cost : Kdf.Cost) (nonces : Nonces) : Except ResolveError (Context × Header) := do
  let ctx ← bindContext cipher name
  let key ← (Kdf.deriveKey secret.bytes nonces.salt.val cost).mapError .cipher
  let ctx ← (ctx.setKey key).mapError .cipher
  let ctx ← (ctx.setIv .encrypt nonces.iv.val).mapError .cipher
  return (ctx, ⟨algorithm, cost, nonces.salt, nonces.iv, sixteenOf (Kdf.keyCheck key)⟩)

namespace Opener

variable {S : Type}

/-- The diagnostic rendering of an opener whose registry has so many handles. -/
def debug (o : Opener S) (handles : Nat) : String :=
  Text.record "EncryptedResourceResolver"
    [("registry", o.registry.debug handles), ("options", o.options.debug)]

variable [SecretSource S]

/-- The secret at a location, and then the cipher of an algorithm. -/
def draw (o : Opener S) (location : String) (a : Algorithm) :
    Except ResolveError (Passphrase × BlockCipher) × Opener S :=
  let (secret, secrets) := SecretSource.readSecret location o.secrets
  let o := { o with secrets := secrets }
  match secret with
  | .error e => (.error (.secret e), o)
  | .ok secret =>
    let (cipher, registry) := o.registry.get a
    let o := { o with registry := registry }
    match cipher with
    | .error e => (.error (ofGetFailure e), o)
    | .ok cipher => (.ok (secret, cipher), o)

/-! ### Reading -/

/-- Open the container that a raw stream holds. -/
def openContainer (o : Opener S) (h : Handle) (p : EncryptionParams) (raw : Source) :
    Except ResolveError Opened × Opener S × Source :=
  match Header.readFrom raw with
  | (.error e, raw) => (.error e, o, raw)
  | (.ok header, raw) =>
    let declared := p.algorithm.getD header.algorithm
    if declared ≠ header.algorithm then
      (.error (.algorithmMismatch declared header.algorithm), o, raw)
    else
      match o.draw (o.options.location p) header.algorithm with
      | (.error e, o) => (.error e, o, raw)
      | (.ok (secret, cipher), o) =>
        match unlock cipher h.path secret header with
        | .error e => (.error e, o, raw)
        | .ok ctx => (.ok (.decrypting header.algorithm (.ofSource raw ctx)), o, raw)

/-- Open a resource on top of its stored bytes. -/
def openRead (o : Opener S) (h : Handle) (raw : Source) :
    Except ResolveError Opened × Opener S × Source :=
  match h.encryption with
  | .error e => (.error e, o, raw)
  | .ok none => (.ok (.plain raw), o, raw)
  | .ok (some p) => o.openContainer h p raw

/-! ### Writing -/

/-- Everything that can fail before a byte is stored; `none` for a plain resource. -/
def prepareWrite (o : Opener S) (h : Handle) (nonces : Nonces) :
    Except ResolveError (Option (Context × Header)) × Opener S :=
  match h.encryption with
  | .error e => (.error e, o)
  | .ok none => (.ok none, o)
  | .ok (some p) =>
    match checkCost o.options.cost with
    | .error e => (.error e, o)
    | .ok () =>
      let algorithm := p.algorithm.getD o.options.defaultAlgorithm
      match o.draw (o.options.location p) algorithm with
      | (.error e, o) => (.error e, o)
      | (.ok (secret, cipher), o) =>
        (some <$> lock cipher h.path secret algorithm o.options.cost nonces, o)

end Opener

/-- Begin a resource that was prepared, by writing the header of an encrypted one. -/
def beginWrite {W : Type} [Output W] (raw : W) :
    Option (Context × Header) → Except ResolveError (Created W) × W
  | none => (.ok (.plain raw), raw)
  | some (ctx, header) =>
    match header.writeTo raw with
    | (.error e, raw) => (.error (.io e), raw)
    | (.ok (), raw) => (.ok (.encrypting header.algorithm (.onTop raw ctx)), raw)

/-- Open a resource for writing its stored bytes. -/
def Opener.openWrite {S W : Type} [SecretSource S] [Output W] (o : Opener S) (h : Handle)
    (nonces : Nonces) (raw : W) : Except ResolveError (Created W) × Opener S × W :=
  match o.prepareWrite h nonces with
  | (.error e, o) => (.error e, o, raw)
  | (.ok prepared, o) =>
    let (created, raw) := beginWrite raw prepared
    (created, o, raw)

end Coffer.Resource
