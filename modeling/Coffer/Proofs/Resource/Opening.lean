import Coffer.Proofs.Cipher.Registry
import Coffer.Proofs.Resource.RoundTrip
/-
  The stages of an opening come in their order, and the first that fails ends it.

  * `Drawn`  — the secret, and then the cipher;
  * `Keys`   — the block size, the key, the key check value, the key schedule;
  * `Reads`  — the header, the algorithm it names, `Drawn`, `Keys`;
  * `Writes` — the cost, `Drawn`, `Keys`, the header.

  Each of these relations says for every stage what is returned and how everything is left when the stages
  before it have succeeded and it fails.  It holds of one result only, the one that is computed
  (`drawn_iff`, `reads_iff`, `writes_iff`), so that nothing is done by a stage behind a failed one.  From
  the relations it can be read off when an opening succeeds (`opens_iff`), and what was asked of whom
  (`Reads.asks`, `Writes.asks`).
-/
namespace Coffer.Resource

open Cipher (BlockCipher Context GetFailure Registry ensureSupported)
open Container (BodyReader BodyWriter Header Sixteen checkCost headerSize ivSize)
open Keyring (Passphrase SecretSource)

/-! ## Keying a context -/

/-- What is wrong with a cipher whose blocks are not of the size that containers hold. -/
def sizeFault (cipher : BlockCipher) : ResolveError :=
  if Cipher.allocationLimit < cipher.blockSize then .cipher (.allocationFailed cipher.blockSize)
  else .format (.blockSize cipher.algorithm cipher.blockSize ivSize)

section Keying

variable {cipher : BlockCipher} {name : String} {secret : Passphrase}

/-- **A vetted cipher can be bound unless its blocks have another size.** -/
theorem bindContext_eq (hsupported : ensureSupported cipher = .ok ()) (hpos : cipher.blockSize ≠ 0)
    (name : String) : bindContext cipher name =
      if cipher.blockSize = ivSize then .ok (Context.fresh cipher name)
      else .error (sizeFault cipher) := by
  by_cases hle : cipher.blockSize ≤ Cipher.allocationLimit
  · have hbound : Context.bind cipher name = .ok (Context.fresh cipher name) :=
      Context.bind_eq_ok_iff.mpr ⟨hsupported, Nat.pos_of_ne_zero hpos, hle, rfl⟩
    by_cases hsize : cipher.blockSize = ivSize
    · rw [if_pos hsize]
      exact bindContext_of_bind hbound hsize name
    · have hsize' : (Context.fresh cipher name).blockSize ≠ ivSize := hsize
      rw [if_neg hsize, sizeFault, if_neg (Nat.not_lt.mpr hle)]
      simp only [bindContext, hbound, mapError_ok, ok_bind, if_pos hsize', throw_eq_error, error_bind]
      rfl
  · -- Such a block is not even allocated; its size is wrong all the same.
    have hlarge : Cipher.allocationLimit < cipher.blockSize := Nat.lt_of_not_le hle
    have hsize : cipher.blockSize ≠ ivSize := by
      intro h
      rw [h] at hlarge
      exact absurd hlarge (by decide)
    have hbound : Context.bind cipher name = .error (.allocationFailed cipher.blockSize) := by
      simp only [Context.bind, hsupported, hpos, Cipher.zeroBlock, if_pos hlarge]
      rfl
    rw [if_neg hsize, sizeFault, if_pos hlarge]
    simp only [bindContext, hbound]
    rfl

/-- How keying a context ends.  A reader has a check value to compare with, a writer has none. -/
inductive Keys (cipher : BlockCipher) (name : String) (secret : Passphrase) (salt : Sixteen)
    (cost : Kdf.Cost) (check? : Option Bytes) : Except ResolveError (Bytes × Context) → Prop
  | blockSize : cipher.blockSize ≠ ivSize → Keys cipher name secret salt cost check?
      (.error (sizeFault cipher))
  | derivation {e : Cipher.CipherError} : cipher.blockSize = ivSize →
      Kdf.deriveKey secret.bytes salt.val cost = .error e →
      Keys cipher name secret salt cost check? (.error (.cipher e))
  | check {key check : Bytes} : cipher.blockSize = ivSize →
      Kdf.deriveKey secret.bytes salt.val cost = .ok key → check? = some check →
      Kdf.keyCheck key ≠ check → Keys cipher name secret salt cost check? (.error .wrongPassphrase)
  | schedule {key : Bytes} {e : Cipher.CipherError} : cipher.blockSize = ivSize →
      Kdf.deriveKey secret.bytes salt.val cost = .ok key →
      (∀ check, check? = some check → Kdf.keyCheck key = check) →
      (Context.fresh cipher name).setKey key = .error e →
      Keys cipher name secret salt cost check? (.error (.cipher e))
  | keyed {key : Bytes} {keyed : Context} : cipher.blockSize = ivSize →
      Kdf.deriveKey secret.bytes salt.val cost = .ok key →
      (∀ check, check? = some check → Kdf.keyCheck key = check) →
      (Context.fresh cipher name).setKey key = .ok keyed →
      Keys cipher name secret salt cost check? (.ok (key, keyed))

/-- Keying ends in one of these ways. -/
theorem exists_keys (cipher : BlockCipher) (name : String) (secret : Passphrase) (salt : Sixteen)
    (cost : Kdf.Cost) (check? : Option Bytes) : ∃ r, Keys cipher name secret salt cost check? r := by
  by_cases hsize : cipher.blockSize = ivSize
  · rcases hkey : Kdf.deriveKey secret.bytes salt.val cost with e | key
    · exact ⟨_, .derivation hsize hkey⟩
    · -- A writer has nothing to compare with, and so only a reader can have the wrong key.
      by_cases hwrong : ∃ check, check? = some check ∧ Kdf.keyCheck key ≠ check
      · obtain ⟨check, heq, hne⟩ := hwrong
        exact ⟨_, .check hsize hkey heq hne⟩
      · have hcheck : ∀ check, check? = some check → Kdf.keyCheck key = check :=
          fun check heq => Decidable.of_not_not fun hne => hwrong ⟨check, heq, hne⟩
        rcases hset : (Context.fresh cipher name).setKey key with e | keyed
        · exact ⟨_, .schedule hsize hkey hcheck hset⟩
        · exact ⟨_, .keyed hsize hkey hcheck hset⟩
  · exact ⟨_, .blockSize hsize⟩

/-- The chaining value of a container fits a context with blocks of its size. -/
theorem setIv_of_setKey {key : Bytes} {keyed : Context} (hsize : cipher.blockSize = ivSize)
    (hset : (Context.fresh cipher name).setKey key = .ok keyed) (d : Direction) (iv : Sixteen) :
    keyed.setIv d iv.val = .ok (keyed.withIv d iv.val) := by
  refine Context.setIv_of_length ?_ d
  rw [Context.blockSize, Context.setKey_cipher hset]
  exact iv.property.trans hsize.symm

/-- **A reader keys its context and then sets the chaining value,** which cannot fail. -/
theorem Keys.unlock_eq {header : Header} {r : Except ResolveError (Bytes × Context)}
    (hsupported : ensureSupported cipher = .ok ()) (hpos : cipher.blockSize ≠ 0)
    (h : Keys cipher name secret header.salt header.cost (some header.keyCheck.val) r) :
    unlock cipher name secret header = r.map fun k => k.2.withIv .decrypt header.iv.val := by
  have hbind := bindContext_eq hsupported hpos name
  rw [unlock, hbind]
  cases h with
  | blockSize hsize => simp only [if_neg hsize, error_bind, Except.map]
  | derivation hsize hkey =>
    simp only [if_pos hsize, ok_bind, hkey, error_mapError, error_bind, Except.map]
  | check hsize hkey heq hne =>
    cases heq
    simp only [if_pos hsize, ok_bind, hkey, mapError_ok, if_pos hne, throw_eq_error, error_bind,
      Except.map]
  | schedule hsize hkey hcheck hset =>
    simp only [if_pos hsize, ok_bind, hkey, mapError_ok, ne_eq, hcheck _ rfl, not_true_eq_false,
      if_false, hset, error_mapError, error_bind, Except.map]
  | keyed hsize hkey hcheck hset =>
    simp only [if_pos hsize, ok_bind, hkey, mapError_ok, ne_eq, hcheck _ rfl, not_true_eq_false,
      if_false, hset, setIv_of_setKey hsize hset, Except.map]

/-- **A writer does the same,** and has the header of the container, too. -/
theorem Keys.lock_eq {a : Algorithm} {cost : Kdf.Cost} {nonces : Nonces}
    {r : Except ResolveError (Bytes × Context)} (hsupported : ensureSupported cipher = .ok ())
    (hpos : cipher.blockSize ≠ 0) (h : Keys cipher name secret nonces.salt cost none r) :
    lock cipher name secret a cost nonces =
      r.map fun k => (k.2.withIv .encrypt nonces.iv.val, headerOf a cost nonces k.1) := by
  have hbind := bindContext_eq hsupported hpos name
  rw [lock, hbind]
  cases h with
  | blockSize hsize => simp only [if_neg hsize, error_bind, Except.map]
  | derivation hsize hkey =>
    simp only [if_pos hsize, ok_bind, hkey, error_mapError, error_bind, Except.map]
  | check _ _ heq _ => cases heq
  | schedule hsize hkey _ hset =>
    simp only [if_pos hsize, ok_bind, hkey, mapError_ok, hset, error_mapError, error_bind, Except.map]
  | keyed hsize hkey _ hset =>
    simp only [if_pos hsize, ok_bind, hkey, mapError_ok, hset, setIv_of_setKey hsize hset, Except.map]
    rfl

end Keying

section Stages

variable {S : Type} [SecretSource S] {o o' : Opener S} {h : Handle} {p : EncryptionParams}
  {location : String} {a : Algorithm}

/-! ## Drawing the secret and the cipher -/

/-- How drawing ends: the secret is asked for at this location, and the cipher only when the secret was
    there. -/
inductive Drawn (o : Opener S) (location : String) (a : Algorithm) :
    Except ResolveError (Passphrase × BlockCipher) × Opener S → Prop
  | noSecret {e : Keyring.SecretError} {secrets : S} :
      SecretSource.readSecret location o.secrets = (.error e, secrets) →
      Drawn o location a (.error (.secret e), { o with secrets := secrets })
  | noCipher {secret : Passphrase} {secrets : S} {e : GetFailure} {registry : Registry} :
      SecretSource.readSecret location o.secrets = (.ok secret, secrets) →
      o.registry.get a = (.error e, registry) →
      Drawn o location a
        (.error (ofGetFailure e), { o with secrets := secrets, registry := registry })
  | drawn {secret : Passphrase} {secrets : S} {cipher : BlockCipher} {registry : Registry} :
      SecretSource.readSecret location o.secrets = (.ok secret, secrets) →
      o.registry.get a = (.ok cipher, registry) →
      Drawn o location a (.ok (secret, cipher), { o with secrets := secrets, registry := registry })

theorem drawn_draw (o : Opener S) (location : String) (a : Algorithm) :
    Drawn o location a (o.draw location a) := by
  rw [Opener.draw]
  rcases hsecret : SecretSource.readSecret location o.secrets with ⟨e | secret, secrets⟩
  · exact .noSecret hsecret
  · simp only
    rcases hcipher : o.registry.get a with ⟨e | cipher, registry⟩
    · exact .noCipher hsecret hcipher
    · exact .drawn hsecret hcipher

/-- **Drawing is told by its stages.** -/
theorem drawn_iff {r : Except ResolveError (Passphrase × BlockCipher) × Opener S} :
    Drawn o location a r ↔ o.draw location a = r := by
  constructor
  · intro h
    cases h with
    | noSecret hsecret => simp only [Opener.draw, hsecret]
    | noCipher hsecret hcipher => simp only [Opener.draw, hsecret, hcipher]
    | drawn hsecret hcipher => simp only [Opener.draw, hsecret, hcipher]
  · rintro rfl
    exact drawn_draw o location a

/-- Drawing changes the secrets and the registry only. -/
theorem Drawn.options_eq {r : Except ResolveError (Passphrase × BlockCipher) × Opener S}
    (h : Drawn o location a r) : r.2.options = o.options := by
  cases h <;> rfl

/-- A cipher that is drawn has been vetted. -/
theorem Drawn.vetted {secret : Passphrase} {cipher : BlockCipher} (hr : o.registry.Vetted)
    (h : Drawn o location a (.ok (secret, cipher), o')) :
    ensureSupported cipher = .ok () ∧ cipher.blockSize ≠ 0 := by
  cases h with
  | drawn _ hcipher =>
    obtain ⟨hsupported, -, hpos, -⟩ := hr.get_ok (congrArg Prod.fst hcipher)
    exact ⟨hsupported, hpos⟩

/-! ## Reading -/

/-- The resource names this algorithm, or none. -/
def EncryptionParams.Accepts (p : EncryptionParams) (a : Algorithm) : Prop :=
  ∀ declared, p.algorithm = some declared → declared = a

/-- How opening a container to read ends: what is returned, and how the opener and the raw stream are
    left. -/
inductive Reads (o : Opener S) (h : Handle) (p : EncryptionParams) (raw : Source) :
    Except ResolveError Opened × Opener S × Source → Prop
  | noHeader {e : ResolveError} {left : Source} : Header.readFrom raw = (.error e, left) →
      Reads o h p raw (.error e, o, left)
  | otherAlgorithm {header : Header} {left : Source} {declared : Algorithm} :
      Header.readFrom raw = (.ok header, left) → p.algorithm = some declared →
      declared ≠ header.algorithm →
      Reads o h p raw (.error (.algorithmMismatch declared header.algorithm), o, left)
  | undrawn {header : Header} {left : Source} {e : ResolveError} {o' : Opener S} :
      Header.readFrom raw = (.ok header, left) → p.Accepts header.algorithm →
      Drawn o (o.options.location p) header.algorithm (.error e, o') →
      Reads o h p raw (.error e, o', left)
  | unkeyed {header : Header} {left : Source} {secret : Passphrase} {cipher : BlockCipher}
      {e : ResolveError} {o' : Opener S} :
      Header.readFrom raw = (.ok header, left) → p.Accepts header.algorithm →
      Drawn o (o.options.location p) header.algorithm (.ok (secret, cipher), o') →
      Keys cipher h.path secret header.salt header.cost (some header.keyCheck.val) (.error e) →
      Reads o h p raw (.error e, o', left)
  | opened {header : Header} {left : Source} {secret : Passphrase} {cipher : BlockCipher}
      {key : Bytes} {keyed : Context} {o' : Opener S} :
      Header.readFrom raw = (.ok header, left) → p.Accepts header.algorithm →
      Drawn o (o.options.location p) header.algorithm (.ok (secret, cipher), o') →
      Keys cipher h.path secret header.salt header.cost (some header.keyCheck.val) (.ok (key, keyed)) →
      Reads o h p raw (.ok (.decrypting header.algorithm
        (.ofSource left (keyed.withIv .decrypt header.iv.val))), o', left)

/-- An algorithm that is accepted is the one that the resource would name. -/
theorem EncryptionParams.Accepts.getD_eq (ha : p.Accepts a) : p.algorithm.getD a = a := by
  rcases hp : p.algorithm with _ | declared
  · rfl
  · exact ha declared hp

/-- Opening ends in one of these ways. -/
theorem exists_reads (o : Opener S) (h : Handle) (p : EncryptionParams) (raw : Source) :
    ∃ r, Reads o h p raw r := by
  -- A stage fails, or the next one is looked at.
  rcases hread : Header.readFrom raw with ⟨e | header, left⟩
  · exact ⟨_, .noHeader hread⟩
  by_cases hother : ∃ declared, p.algorithm = some declared ∧ declared ≠ header.algorithm
  · obtain ⟨declared, hp, hne⟩ := hother
    exact ⟨_, .otherAlgorithm hread hp hne⟩
  have haccepts : p.Accepts header.algorithm := fun declared hp =>
    Decidable.of_not_not fun hne => hother ⟨declared, hp, hne⟩
  rcases hdraw : o.draw (o.options.location p) header.algorithm with ⟨e | ⟨secret, cipher⟩, o'⟩
  · exact ⟨_, .undrawn hread haccepts (drawn_iff.mpr hdraw)⟩
  obtain ⟨e | ⟨key, keyed⟩, hkeys⟩ :=
    exists_keys cipher h.path secret header.salt header.cost (some header.keyCheck.val)
  · exact ⟨_, .unkeyed hread haccepts (drawn_iff.mpr hdraw) hkeys⟩
  · exact ⟨_, .opened hread haccepts (drawn_iff.mpr hdraw) hkeys⟩

theorem Reads.openContainer_eq {raw : Source} {r : Except ResolveError Opened × Opener S × Source}
    (hr : o.registry.Vetted) (hreads : Reads o h p raw r) : o.openContainer h p raw = r := by
  rw [Opener.openContainer]
  cases hreads with
  | noHeader hread => simp only [hread]
  | otherAlgorithm hread hp hne => simp only [hread, hp, Option.getD_some, if_pos hne]
  | undrawn hread haccepts hdrawn =>
    simp only [hread, haccepts.getD_eq, ne_eq, not_true_eq_false, if_false, drawn_iff.mp hdrawn]
  | unkeyed hread haccepts hdrawn hkeys =>
    obtain ⟨hsupported, hpos⟩ := hdrawn.vetted hr
    simp only [hread, haccepts.getD_eq, ne_eq, not_true_eq_false, if_false, drawn_iff.mp hdrawn,
      hkeys.unlock_eq hsupported hpos, Except.map]
  | opened hread haccepts hdrawn hkeys =>
    obtain ⟨hsupported, hpos⟩ := hdrawn.vetted hr
    simp only [hread, haccepts.getD_eq, ne_eq, not_true_eq_false, if_false, drawn_iff.mp hdrawn,
      hkeys.unlock_eq hsupported hpos, Except.map]

theorem reads_openRead (hr : o.registry.Vetted) (hp : h.encryption = .ok (some p)) (raw : Source) :
    Reads o h p raw (o.openRead h raw) := by
  obtain ⟨r, hreads⟩ := exists_reads o h p raw
  simp only [Opener.openRead, hp]
  rwa [hreads.openContainer_eq hr]

/-- **Opening a container to read is told by its stages.** -/
theorem reads_iff {raw : Source} {r : Except ResolveError Opened × Opener S × Source}
    (hr : o.registry.Vetted) (hp : h.encryption = .ok (some p)) :
    Reads o h p raw r ↔ o.openRead h raw = r := by
  constructor
  · intro hreads
    simp only [Opener.openRead, hp, hreads.openContainer_eq hr]
  · rintro rfl
    exact reads_openRead hr hp raw

/-! ## Writing -/

/-- How opening a container to write ends: what is returned, and how the opener and the raw stream are
    left. -/
inductive Writes {W : Type} [Output W] (o : Opener S) (h : Handle) (p : EncryptionParams)
    (nonces : Nonces) (raw : W) : Except ResolveError (Created W) × Opener S × W → Prop
  | costly {e : ResolveError} : checkCost o.options.cost = .error e →
      Writes o h p nonces raw (.error e, o, raw)
  | undrawn {e : ResolveError} {o' : Opener S} : checkCost o.options.cost = .ok () →
      Drawn o (o.options.location p) (p.algorithm.getD o.options.defaultAlgorithm) (.error e, o') →
      Writes o h p nonces raw (.error e, o', raw)
  | unkeyed {secret : Passphrase} {cipher : BlockCipher} {e : ResolveError} {o' : Opener S} :
      checkCost o.options.cost = .ok () →
      Drawn o (o.options.location p) (p.algorithm.getD o.options.defaultAlgorithm)
        (.ok (secret, cipher), o') →
      Keys cipher h.path secret nonces.salt o.options.cost none (.error e) →
      Writes o h p nonces raw (.error e, o', raw)
  | noHeader {secret : Passphrase} {cipher : BlockCipher} {key : Bytes} {keyed : Context} {e : IoError}
      {o' : Opener S} {left : W} : checkCost o.options.cost = .ok () →
      Drawn o (o.options.location p) (p.algorithm.getD o.options.defaultAlgorithm)
        (.ok (secret, cipher), o') →
      Keys cipher h.path secret nonces.salt o.options.cost none (.ok (key, keyed)) →
      (headerOf (p.algorithm.getD o.options.defaultAlgorithm) o.options.cost nonces key).writeTo raw =
        (.error e, left) →
      Writes o h p nonces raw (.error (.io e), o', left)
  | begun {secret : Passphrase} {cipher : BlockCipher} {key : Bytes} {keyed : Context}
      {o' : Opener S} {left : W} : checkCost o.options.cost = .ok () →
      Drawn o (o.options.location p) (p.algorithm.getD o.options.defaultAlgorithm)
        (.ok (secret, cipher), o') →
      Keys cipher h.path secret nonces.salt o.options.cost none (.ok (key, keyed)) →
      (headerOf (p.algorithm.getD o.options.defaultAlgorithm) o.options.cost nonces key).writeTo raw =
        (.ok (), left) →
      Writes o h p nonces raw (.ok (.encrypting (p.algorithm.getD o.options.defaultAlgorithm)
        (.onTop left (keyed.withIv .encrypt nonces.iv.val))), o', left)

section Writing

variable {W : Type} [Output W] {nonces : Nonces} {raw : W}

theorem exists_writes (o : Opener S) (h : Handle) (p : EncryptionParams) (nonces : Nonces) (raw : W) :
    ∃ r, Writes o h p nonces raw r := by
  rcases hcost : checkCost o.options.cost with e | ⟨⟩
  · exact ⟨_, .costly hcost⟩
  rcases hdraw : o.draw (o.options.location p) (p.algorithm.getD o.options.defaultAlgorithm) with
    ⟨e | ⟨secret, cipher⟩, o'⟩
  · exact ⟨_, .undrawn hcost (drawn_iff.mpr hdraw)⟩
  obtain ⟨e | ⟨key, keyed⟩, hkeys⟩ :=
    exists_keys cipher h.path secret nonces.salt o.options.cost none
  · exact ⟨_, .unkeyed hcost (drawn_iff.mpr hdraw) hkeys⟩
  rcases hwrite : (headerOf (p.algorithm.getD o.options.defaultAlgorithm) o.options.cost nonces
    key).writeTo raw with ⟨e | ⟨⟩, left⟩
  · exact ⟨_, .noHeader hcost (drawn_iff.mpr hdraw) hkeys hwrite⟩
  · exact ⟨_, .begun hcost (drawn_iff.mpr hdraw) hkeys hwrite⟩

/-- What preparing comes to once the secret and the cipher are there. -/
theorem prepareWrite_eq {secret : Passphrase} {cipher : BlockCipher}
    {r : Except ResolveError (Bytes × Context)} (hr : o.registry.Vetted)
    (hp : h.encryption = .ok (some p)) (hcost : checkCost o.options.cost = .ok ())
    (hdrawn : Drawn o (o.options.location p) (p.algorithm.getD o.options.defaultAlgorithm)
      (.ok (secret, cipher), o'))
    (hkeys : Keys cipher h.path secret nonces.salt o.options.cost none r) :
    o.prepareWrite h nonces = (r.map fun k => some (k.2.withIv .encrypt nonces.iv.val,
      headerOf (p.algorithm.getD o.options.defaultAlgorithm) o.options.cost nonces k.1), o') := by
  obtain ⟨hsupported, hpos⟩ := hdrawn.vetted hr
  have hoptions : o'.options = o.options := hdrawn.options_eq
  rw [Opener.prepareWrite, hp]
  simp only [hcost, drawn_iff.mp hdrawn, hoptions, hkeys.lock_eq hsupported hpos]
  rcases r with e | ⟨key, keyed⟩ <;> rfl

theorem Writes.openWrite_eq {r : Except ResolveError (Created W) × Opener S × W}
    (hr : o.registry.Vetted) (hp : h.encryption = .ok (some p)) (hwrites : Writes o h p nonces raw r) :
    o.openWrite h nonces raw = r := by
  rw [Opener.openWrite]
  cases hwrites with
  | costly hcost => simp only [Opener.prepareWrite, hp, hcost]
  | undrawn hcost hdrawn => simp only [Opener.prepareWrite, hp, hcost, drawn_iff.mp hdrawn]
  | unkeyed hcost hdrawn hkeys => simp only [prepareWrite_eq hr hp hcost hdrawn hkeys, Except.map]
  | noHeader hcost hdrawn hkeys hwrite =>
    simp only [prepareWrite_eq hr hp hcost hdrawn hkeys, Except.map, beginWrite, hwrite]
  | begun hcost hdrawn hkeys hwrite =>
    simp only [prepareWrite_eq hr hp hcost hdrawn hkeys, Except.map, beginWrite, hwrite]
    rfl

theorem writes_openWrite (hr : o.registry.Vetted) (hp : h.encryption = .ok (some p))
    (nonces : Nonces) (raw : W) : Writes o h p nonces raw (o.openWrite h nonces raw) := by
  obtain ⟨r, hwrites⟩ := exists_writes o h p nonces raw
  rwa [hwrites.openWrite_eq hr hp]

/-- **Opening a container to write is told by its stages.** -/
theorem writes_iff {r : Except ResolveError (Created W) × Opener S × W} (hr : o.registry.Vetted)
    (hp : h.encryption = .ok (some p)) :
    Writes o h p nonces raw r ↔ o.openWrite h nonces raw = r := by
  constructor
  · exact fun hwrites => hwrites.openWrite_eq hr hp
  · rintro rfl
    exact writes_openWrite hr hp nonces raw

end Writing

/-! ## When a container can be read -/

/-- No stage of reading fails. -/
def Opener.Readable (o : Opener S) (h : Handle) (p : EncryptionParams) (raw : Source) : Prop :=
  ∃ (front : Bytes) (left : Source) (hlen : front.length = 70) (header : Header),
    raw.readExact 70 = (.ok front, left) ∧ raw.rest = front ++ left.rest ∧
    Header.decode front hlen = .ok header ∧ p.Accepts header.algorithm ∧
    ∃ secret, (SecretSource.readSecret (o.options.location p) o.secrets).1 = .ok secret ∧
    ∃ cipher, (o.registry.get header.algorithm).1 = .ok cipher ∧ cipher.blockSize = 16 ∧
    ∃ key, Kdf.deriveKey secret.bytes header.salt.val header.cost = .ok key ∧
      Kdf.keyCheck key = header.keyCheck.val ∧
    ∃ keyed, (Context.fresh cipher h.path).setKey key = .ok keyed

/-- **A container is opened to read exactly when no stage fails.** -/
theorem opens_iff {raw : Source} (hr : o.registry.Vetted) (hp : h.encryption = .ok (some p)) :
    (∃ opened, (o.openRead h raw).1 = .ok opened) ↔ o.Readable h p raw := by
  constructor
  · rintro ⟨opened, hok⟩
    have hreads := reads_openRead hr hp raw
    rcases hopen : o.openRead h raw with ⟨outcome, o', left⟩
    rw [hopen] at hreads hok
    cases hok
    -- Only the last way of ending hands out a resource, and every stage is behind it.
    cases hreads with
    | opened hread haccepts hdrawn hkeys =>
      obtain ⟨front, hlen, hexact, hdecode⟩ := Header.readFrom_eq_ok_iff.mp hread
      cases hdrawn with
      | drawn hsecret hcipher =>
        cases hkeys with
        | keyed hsize hkey hcheck hset =>
          exact ⟨front, left, hlen, _, hexact, (Source.readExact_eq_ok hexact).2, hdecode, haccepts,
            _, congrArg Prod.fst hsecret, _, congrArg Prod.fst hcipher, hsize, _, hkey,
            hcheck _ rfl, _, hset⟩
  · rintro ⟨front, left, hlen, header, hexact, -, hdecode, haccepts, secret, hsecret, cipher, hcipher,
      hsize, key, hkey, hcheck, keyed, hset⟩
    have hread := Header.readFrom_eq_ok_iff.mpr ⟨front, hlen, hexact, hdecode⟩
    have hdrawn : Drawn o (o.options.location p) header.algorithm _ :=
      .drawn (Prod.ext hsecret rfl) (Prod.ext hcipher rfl)
    have hkeys : Keys cipher h.path secret header.salt header.cost (some header.keyCheck.val) _ :=
      .keyed hsize hkey (by rintro _ ⟨⟩; exact hcheck) hset
    have hopen := (reads_iff hr hp).mp (.opened hread haccepts hdrawn hkeys)
    exact ⟨_, congrArg Prod.fst hopen⟩

/-! ## What is asked for -/

/-- What an opening has asked for when it is over: nothing, or the secret at this location, or with that
    secret the cipher, too.  Asking comes after what makes the opening ready to use an algorithm. -/
inductive Asks (o : Opener S) (location : String) (ready : Algorithm → Prop) : Opener S → Prop
  | nothing : Asks o location ready o
  | secret {a : Algorithm} {answer : Except Keyring.SecretError Passphrase} {secrets : S} : ready a →
      SecretSource.readSecret location o.secrets = (answer, secrets) →
      Asks o location ready { o with secrets := secrets }
  | cipher {a : Algorithm} {secret : Passphrase} {secrets : S}
      {answer : Except GetFailure BlockCipher} {registry : Registry} : ready a →
      SecretSource.readSecret location o.secrets = (.ok secret, secrets) →
      o.registry.get a = (answer, registry) →
      Asks o location ready { o with secrets := secrets, registry := registry }

theorem Drawn.asks {ready : Algorithm → Prop} (ha : ready a)
    {r : Except ResolveError (Passphrase × BlockCipher) × Opener S} (h : Drawn o location a r) :
    Asks o location ready r.2 := by
  cases h with
  | noSecret hsecret => exact .secret ha hsecret
  | noCipher hsecret hcipher => exact .cipher ha hsecret hcipher
  | drawn hsecret hcipher => exact .cipher ha hsecret hcipher

/-- The front of a raw stream is a header of this algorithm, which the resource accepts. -/
def Heads (p : EncryptionParams) (raw : Source) (a : Algorithm) : Prop :=
  ∃ header left, Header.readFrom raw = (.ok header, left) ∧ p.Accepts header.algorithm ∧
    header.algorithm = a

/-- **Whoever reads asks when the header is there and names the right algorithm.** -/
theorem Reads.asks {raw : Source} {r : Except ResolveError Opened × Opener S × Source}
    (hreads : Reads o h p raw r) : Asks o (o.options.location p) (Heads p raw) r.2.1 := by
  cases hreads with
  | noHeader _ => exact .nothing
  | otherAlgorithm _ _ _ => exact .nothing
  | undrawn hread haccepts hdrawn => exact hdrawn.asks ⟨_, _, hread, haccepts, rfl⟩
  | unkeyed hread haccepts hdrawn _ => exact hdrawn.asks ⟨_, _, hread, haccepts, rfl⟩
  | opened hread haccepts hdrawn _ => exact hdrawn.asks ⟨_, _, hread, haccepts, rfl⟩

/-- The cost of new resources keeps the ceilings, and they are to have this algorithm. -/
def Affords (o : Opener S) (p : EncryptionParams) (a : Algorithm) : Prop :=
  checkCost o.options.cost = .ok () ∧ p.algorithm.getD o.options.defaultAlgorithm = a

/-- **Whoever writes asks when the cost has been checked.** -/
theorem Writes.asks {W : Type} [Output W] {nonces : Nonces} {raw : W}
    {r : Except ResolveError (Created W) × Opener S × W} (hwrites : Writes o h p nonces raw r) :
    Asks o (o.options.location p) (Affords o p) r.2.1 := by
  cases hwrites with
  | costly _ => exact .nothing
  | undrawn hcost hdrawn => exact hdrawn.asks ⟨hcost, rfl⟩
  | unkeyed hcost hdrawn _ => exact hdrawn.asks ⟨hcost, rfl⟩
  | noHeader hcost hdrawn _ _ => exact hdrawn.asks ⟨hcost, rfl⟩
  | begun hcost hdrawn _ _ => exact hdrawn.asks ⟨hcost, rfl⟩

/-- However an opening ends, the registry is as vetted as it was. -/
theorem Asks.vetted {ready : Algorithm → Prop} (hr : o.registry.Vetted)
    (h : Asks o location ready o') : o'.registry.Vetted := by
  cases h with
  | nothing => exact hr
  | secret _ _ => exact hr
  | @cipher a _ _ _ _ _ _ hcipher =>
    have hget := hr.get a
    rwa [hcipher] at hget

end Stages

/-! ## Counting the requests -/

/-- A source of secrets that notes where it was asked. -/
structure Noting (S : Type) where
  source : S
  asked : List String

instance {S : Type} [SecretSource S] : SecretSource (Noting S) where
  readSecret location noting :=
    let (secret, source) := SecretSource.readSecret location noting.source
    (secret, ⟨source, noting.asked ++ [location]⟩)

namespace Opener

variable {S : Type}

/-- The same opener, whose source begins to note where it is asked. -/
def noting (o : Opener S) : Opener (Noting S) := ⟨⟨o.secrets, []⟩, o.registry, o.options⟩

/-- The same opener without the notes. -/
def forget (o : Opener (Noting S)) : Opener S := ⟨o.secrets.source, o.registry, o.options⟩

end Opener

section Requests

variable {S : Type} [SecretSource S] {o : Opener (Noting S)} {h : Handle} {p : EncryptionParams}
  {location : String} {a : Algorithm}

theorem readSecret_noting {noting noting' : Noting S} {answer : Except Keyring.SecretError Passphrase}
    (h : SecretSource.readSecret location noting = (answer, noting')) :
    SecretSource.readSecret location noting.source = (answer, noting'.source) ∧
      noting'.asked = noting.asked ++ [location] := by
  obtain ⟨rfl, rfl⟩ := Prod.mk.inj h
  exact ⟨rfl, rfl⟩

theorem Drawn.forget {r : Except ResolveError (Passphrase × BlockCipher) × Opener (Noting S)}
    (h : Drawn o location a r) : Drawn o.forget location a (r.1, r.2.forget) := by
  cases h with
  | noSecret hsecret => exact .noSecret (readSecret_noting hsecret).1
  | noCipher hsecret hcipher => exact .noCipher (readSecret_noting hsecret).1 hcipher
  | drawn hsecret hcipher => exact .drawn (readSecret_noting hsecret).1 hcipher

/-- Taking notes makes no difference. -/
theorem Reads.forget {raw : Source} {r : Except ResolveError Opened × Opener (Noting S) × Source}
    (hreads : Reads o h p raw r) : Reads o.forget h p raw (r.1, r.2.1.forget, r.2.2) := by
  cases hreads with
  | noHeader hread => exact .noHeader hread
  | otherAlgorithm hread hp hne => exact .otherAlgorithm hread hp hne
  | undrawn hread haccepts hdrawn => exact .undrawn hread haccepts hdrawn.forget
  | unkeyed hread haccepts hdrawn hkeys => exact .unkeyed hread haccepts hdrawn.forget hkeys
  | opened hread haccepts hdrawn hkeys => exact .opened hread haccepts hdrawn.forget hkeys

theorem Writes.forget {W : Type} [Output W] {nonces : Nonces} {raw : W}
    {r : Except ResolveError (Created W) × Opener (Noting S) × W}
    (hwrites : Writes o h p nonces raw r) :
    Writes o.forget h p nonces raw (r.1, r.2.1.forget, r.2.2) := by
  cases hwrites with
  | costly hcost => exact .costly hcost
  | undrawn hcost hdrawn => exact .undrawn hcost hdrawn.forget
  | unkeyed hcost hdrawn hkeys => exact .unkeyed hcost hdrawn.forget hkeys
  | noHeader hcost hdrawn hkeys hwrite => exact .noHeader hcost hdrawn.forget hkeys hwrite
  | begun hcost hdrawn hkeys hwrite => exact .begun hcost hdrawn.forget hkeys hwrite

/-- **A secret is asked for at most once,** and only at the one location. -/
theorem Asks.asked {o : Opener S} {o' : Opener (Noting S)} {ready : Algorithm → Prop}
    (h : Asks o.noting location ready o') :
    o'.secrets.asked = [] ∨ o'.secrets.asked = [location] := by
  cases h with
  | nothing => exact .inl rfl
  | secret _ hsecret => exact .inr (readSecret_noting hsecret).2
  | cipher _ hsecret _ => exact .inr (readSecret_noting hsecret).2

end Requests

/-! ## Openings as a whole -/

/-- The secret of a resource is the one that `pwfile` names. -/
theorem encryption_location {h : Handle} {p : EncryptionParams} (hp : h.encryption = .ok (some p)) :
    p.location = h.param "pwfile" := by
  obtain ⟨kind, -, hp⟩ := bind_eq_ok_iff.mp hp
  by_cases hkind : kind = .plain
  · simp only [hkind, if_true] at hp
    cases hp
  simp only [hkind, if_false] at hp
  rcases hflag : h.flag? with _ | ⟨flag, value⟩ <;> simp only [hflag] at hp
  · -- Without a flag the resource is plain, or refused.
    simp only [pure_eq_ok, ok_bind, Bool.not_false, if_true] at hp
    split at hp <;> cases hp
  obtain ⟨encrypted, -, hp⟩ := bind_eq_ok_iff.mp hp
  cases encrypted
  · simp only [Bool.not_false, if_true] at hp
    split at hp <;> cases hp
  simp only [Bool.not_true, Bool.false_eq_true, if_false] at hp
  -- Whatever the algorithm is, the location is what `pwfile` gives.
  have hlocation : ∀ algorithm? : Except ResolveError (Option Algorithm), (do
      let algorithm ← algorithm?
      if h.param "pwfile" = some "" then throw (.invalidParameter "pwfile" "empty secret location")
      return some ⟨algorithm, h.param "pwfile"⟩ : Except ResolveError (Option EncryptionParams)) =
        .ok (some p) → p.location = h.param "pwfile" := by
    intro algorithm? hp
    obtain ⟨algorithm, -, hp⟩ := bind_eq_ok_iff.mp hp
    split at hp <;> cases hp
    rfl
  split at hp
  · exact hlocation _ hp
  · split at hp <;> exact hlocation _ hp

/-- What an opening of `o` has asked for when it leaves `o'`, and `noted` where it noted its requests: at
    most one secret, from this location, and a cipher only with that secret. -/
structure AsksOnce {S : Type} [SecretSource S] (o : Opener S) (location : String)
    (ready : Algorithm → Prop) (o' : Opener S) (noted : Opener (Noting S)) : Prop where
  asks : Asks o location ready o'
  vetted : o'.registry.Vetted
  forget : noted.forget = o'
  asked : noted.secrets.asked = [] ∨ noted.secrets.asked = [location]

section Opening

variable {S : Type} [SecretSource S] {o : Opener S} {h : Handle} {p : EncryptionParams}

theorem AsksOnce.of_asks {ready ready' : Algorithm → Prop} {o' : Opener S} {noted : Opener (Noting S)}
    (hr : o.registry.Vetted) (hp : h.encryption = .ok (some p))
    (hasks : Asks o (o.options.location p) ready o')
    (hnoted : Asks o.noting (o.options.location p) ready' noted) (hforget : noted.forget = o') :
    AsksOnce o ((h.param "pwfile").getD o.options.defaultLocation) ready o' noted := by
  rw [Options.location, encryption_location hp] at hasks hnoted
  exact ⟨hasks, hasks.vetted hr, hforget, hnoted.asked⟩

theorem openRead_asksOnce (hr : o.registry.Vetted) (hp : h.encryption = .ok (some p)) (raw : Source) :
    AsksOnce o ((h.param "pwfile").getD o.options.defaultLocation) (Heads p raw)
      (o.openRead h raw).2.1 (o.noting.openRead h raw).2.1 := by
  have hr' : o.noting.registry.Vetted := hr
  have hnoted := reads_openRead hr' hp raw
  have hforget := (reads_iff hr hp).mp hnoted.forget
  exact .of_asks hr hp (reads_openRead hr hp raw).asks hnoted.asks
    (congrArg (fun r => r.2.1) hforget.symm)

theorem openWrite_asksOnce {W : Type} [Output W] (hr : o.registry.Vetted)
    (hp : h.encryption = .ok (some p)) (nonces : Nonces) (raw : W) :
    AsksOnce o ((h.param "pwfile").getD o.options.defaultLocation) (Affords o p)
      (o.openWrite h nonces raw).2.1 (o.noting.openWrite h nonces raw).2.1 := by
  have hr' : o.noting.registry.Vetted := hr
  have hnoted := writes_openWrite hr' hp nonces raw
  have hforget := (writes_iff hr hp).mp hnoted.forget
  exact .of_asks hr hp (writes_openWrite hr hp nonces raw).asks hnoted.asks
    (congrArg (fun r => r.2.1) hforget.symm)

/-- **An opening takes its stages in order.**  Where it cannot be told whether a resource is encrypted,
    that is the failure, and nothing is touched; a plain resource is its raw stream, and nobody is asked
    for anything.  A container is opened to read exactly when no stage fails, and the first stage that
    fails decides what is returned and how the opener and the raw stream are left. -/
theorem opening_takes_its_stages_in_order (o : Opener S) (hr : o.registry.Vetted) (h : Handle) :
    (∀ e, h.encryption = .error e →
      (∀ raw, o.openRead h raw = (.error e, o, raw)) ∧
      ∀ {W : Type} [Output W] (nonces : Nonces) (raw : W),
        o.openWrite h nonces raw = (.error e, o, raw)) ∧
    (h.encryption = .ok none →
      (∀ raw, o.openRead h raw = (.ok (.plain raw), o, raw)) ∧
      ∀ {W : Type} [Output W] (nonces : Nonces) (raw : W),
        o.openWrite h nonces raw = (.ok (.plain raw), o, raw)) ∧
    ∀ p, h.encryption = .ok (some p) →
      (∀ raw, (∀ r, Reads o h p raw r ↔ o.openRead h raw = r) ∧
        ((∃ opened, (o.openRead h raw).1 = .ok opened) ↔ o.Readable h p raw) ∧
        AsksOnce o ((h.param "pwfile").getD o.options.defaultLocation) (Heads p raw)
          (o.openRead h raw).2.1 (o.noting.openRead h raw).2.1) ∧
      ∀ {W : Type} [Output W] (nonces : Nonces) (raw : W),
        (∀ r, Writes o h p nonces raw r ↔ o.openWrite h nonces raw = r) ∧
        AsksOnce o ((h.param "pwfile").getD o.options.defaultLocation) (Affords o p)
          (o.openWrite h nonces raw).2.1 (o.noting.openWrite h nonces raw).2.1 := by
  refine ⟨fun e he => ?_, fun hplain => ?_, fun p hp => ?_⟩
  · constructor
    · intro raw
      simp only [Opener.openRead, he]
    · intro W _ nonces raw
      simp only [Opener.openWrite, Opener.prepareWrite, he]
  · constructor
    · intro raw
      simp only [Opener.openRead, hplain]
    · intro W _ nonces raw
      simp only [Opener.openWrite, Opener.prepareWrite, hplain, beginWrite]
  · constructor
    · intro raw
      exact ⟨fun r => reads_iff hr hp, opens_iff hr hp, openRead_asksOnce hr hp raw⟩
    · intro W _ nonces raw
      exact ⟨fun r => writes_iff hr hp, openWrite_asksOnce hr hp nonces raw⟩

end Opening

/-- One header, of a container on AES at the lowest cost: it is opened by whoever names no algorithm,
    and whoever names another is refused without asking for the secret.  A plain resource is handed
    back. -/
theorem opening_takes_its_stages_in_order_on_aes :
    ∃ (o : Opener Passphrase) (header : Header) (left : Source),
      o = ⟨⟨[0x61], rfl⟩, .builtin, "here", .aes, .standard⟩ ∧ header.algorithm = .aes ∧
      (∃ opened, (o.openRead ⟨"vfile", "notes", firstParam [("enc", "")]⟩
        (.ofBytes header.encode)).1 = .ok opened) ∧
      o.noting.openRead ⟨"vfile", "notes", firstParam [("enc", ""), ("cipher", "vendor")]⟩
        (.ofBytes header.encode) = (.error (.algorithmMismatch .vendor .aes), o.noting, left) ∧
      o.openRead ⟨"file", "notes", firstParam []⟩ (.ofBytes header.encode) =
        (.ok (.plain (.ofBytes header.encode)), o, .ofBytes header.encode) := by
  let secret : Passphrase := ⟨[0x61], rfl⟩
  let nonces : Nonces := ⟨⟨List.replicate 16 1, rfl⟩, ⟨List.replicate 16 2, rfl⟩⟩
  let o : Opener Passphrase := ⟨secret, .builtin, "here", .aes, .standard⟩
  obtain ⟨key, hkey⟩ : ∃ key, Kdf.deriveKey secret.bytes nonces.salt.val ⟨8, 1, 1⟩ = .ok key := ⟨_, rfl⟩
  let header := headerOf .aes ⟨8, 1, 1⟩ nonces key
  obtain ⟨hdelivered, hfaults⟩ := Source.delivered_ofBytes header.encode
  have hcost : checkCost header.cost = .ok () := rfl
  have hbody : (Source.ofBytes header.encode).delivered = header.encode ++ [] := by
    rw [hdelivered, List.append_nil]
  obtain ⟨left, hread, -⟩ := Header.readFrom_of_delivered hcost rfl hfaults hbody
  obtain ⟨front, hlen, hexact, hdecode⟩ := Header.readFrom_eq_ok_iff.mp hread
  have hcheck : Kdf.keyCheck key = header.keyCheck.val :=
    (Container.sixteenOf_of_length (Kdf.length_keyCheck key)).symm
  have hkeyed : ∃ keyed, (Context.fresh Cipher.Aes.portable "notes").setKey key = .ok keyed := by
    obtain ⟨keyed, -, -, hset, -⟩ := Cipher.Aes.keyed_inverts
      (show (Context.fresh Cipher.Aes.portable "notes").cipher = _ from rfl)
      (Or.inr (Or.inr (Kdf.length_deriveKey hkey)))
    exact ⟨keyed, hset⟩
  refine ⟨o, header, left, rfl, rfl, ?_, ?_, ?_⟩
  · exact ((((opening_takes_its_stages_in_order o (Registry.vetted_builtin true)
      ⟨"vfile", "notes", firstParam [("enc", "")]⟩).2.2 ⟨none, none⟩ rfl).1 _).2.1).mpr
        ⟨front, left, hlen, header, hexact, (Source.readExact_eq_ok hexact).2, hdecode,
          (by rintro _ ⟨⟩), secret, rfl, Cipher.Aes.portable, rfl, rfl, key, hkey, hcheck, hkeyed⟩
  · exact ((((opening_takes_its_stages_in_order o.noting (Registry.vetted_builtin true)
      ⟨"vfile", "notes", firstParam [("enc", ""), ("cipher", "vendor")]⟩).2.2 ⟨some .vendor, none⟩
        rfl).1 _).1 _).mp (.otherAlgorithm hread rfl
        (show Algorithm.vendor ≠ .aes by decide))
  · exact ((opening_takes_its_stages_in_order o (Registry.vetted_builtin true)
      ⟨"file", "notes", firstParam []⟩).2.1 rfl).1 _

end Coffer.Resource
