import Coffer.Proofs.Container.Header
import Coffer.Proofs.Container.Reader
import Coffer.Proofs.Container.Writer
import Coffer.Resource.Opening
/-
  What is written to an encrypted resource is read back.

  The two sides of a container share the backend, the secret and what the header says; from these
  `lock` and `unlock` make contexts with the same block operations and the same chaining value
  (`lock_eq`, `unlock_eq`).  The writer stores the header and the sealed data behind it
  (`stores_sealed`), and whoever finds such a body behind a header reads the data and nothing else
  (`yields_sealed`).
-/
namespace Coffer.Resource

open Cipher (BlockCipher Context Registry chain)
open Container (BodyReader BodyWriter Header Opens checkCost ivSize pad)
open Keyring (Passphrase SecretSource)

/-! ## Contexts on both sides -/

/-- A fresh context on a backend, with the keys of another. -/
def keyedAs (keyed : Context) (cipher : BlockCipher) (name : String) : Context :=
  { Context.fresh cipher name with
    encryptKey := keyed.encryptKey, decryptKey := keyed.decryptKey }

section Contexts

variable {cipher : BlockCipher} {key : Bytes} {secret : Passphrase} {bound keyed : Context}
  {other : String}

theorem mapError_ok {ε ε' α : Type} (f : ε → ε') (a : α) :
    (Except.ok a : Except ε α).mapError f = .ok a :=
  rfl

/-- A backend that can be bound and has blocks of the right size serves containers. -/
theorem bindContext_of_bind (hbind : Context.bind cipher other = .ok bound)
    (hsize : cipher.blockSize = ivSize) (name : String) :
    bindContext cipher name = .ok (Context.fresh cipher name) := by
  obtain ⟨hsupported, hpos, hle, -⟩ := Context.bind_eq_ok_iff.mp hbind
  have hb : Context.bind cipher name = .ok (Context.fresh cipher name) :=
    Context.bind_eq_ok_iff.mpr ⟨hsupported, hpos, hle, rfl⟩
  have hs : (Context.fresh cipher name).blockSize = ivSize := hsize
  simp only [bindContext, hb, hs, mapError_ok, bind, Except.bind, ne_eq, not_true_eq_false,
    if_false]
  rfl

theorem setKey_fresh (hbind : Context.bind cipher other = .ok bound)
    (hkeyed : bound.setKey key = .ok keyed) (name : String) :
    (Context.fresh cipher name).setKey key = .ok (keyedAs keyed cipher name) := by
  obtain ⟨-, -, -, rfl⟩ := Context.bind_eq_ok_iff.mp hbind
  have hcipher : (Context.fresh cipher name).cipher = (Context.fresh cipher other).cipher := rfl
  exact Context.setKey_of_cipher_eq hcipher hkeyed

theorem setIv_keyedAs (hsize : cipher.blockSize = ivSize) (name : String) (d : Direction)
    (iv : Container.Sixteen) :
    (keyedAs keyed cipher name).setIv d iv.val =
      .ok ((keyedAs keyed cipher name).withIv d iv.val) := by
  have hlen : iv.val.length = (keyedAs keyed cipher name).blockSize := iv.property.trans hsize.symm
  exact Context.setIv_of_length hlen d

/-- **The context of a writer,** and the header of the container. -/
theorem lock_eq (hbind : Context.bind cipher other = .ok bound)
    (hkeyed : bound.setKey key = .ok keyed) (hsize : cipher.blockSize = ivSize) {nonces : Nonces}
    {cost : Kdf.Cost} (hkey : Kdf.deriveKey secret.bytes nonces.salt.val cost = .ok key)
    (name : String) (a : Algorithm) :
    lock cipher name secret a cost nonces =
      .ok ((keyedAs keyed cipher name).withIv .encrypt nonces.iv.val,
        ⟨a, cost, nonces.salt, nonces.iv, Container.sixteenOf (Kdf.keyCheck key)⟩) := by
  simp only [lock, bindContext_of_bind hbind hsize, hkey, mapError_ok, bind, Except.bind,
    setKey_fresh hbind hkeyed, setIv_keyedAs hsize, pure, Except.pure]

/-- **The context of a reader,** where the header has the check value of the key. -/
theorem unlock_eq (hbind : Context.bind cipher other = .ok bound)
    (hkeyed : bound.setKey key = .ok keyed) (hsize : cipher.blockSize = ivSize) {header : Header}
    (hkey : Kdf.deriveKey secret.bytes header.salt.val header.cost = .ok key)
    (hcheck : header.keyCheck.val = Kdf.keyCheck key) (name : String) :
    unlock cipher name secret header =
      .ok ((keyedAs keyed cipher name).withIv .decrypt header.iv.val) := by
  simp only [unlock, bindContext_of_bind hbind hsize, hkey, hcheck, mapError_ok, bind,
    Except.bind, setKey_fresh hbind hkeyed, setIv_keyedAs hsize, ne_eq, not_true_eq_false, if_false]

/-- Both have the block operations of the keyed backend. -/
theorem inverts_withIv {E D : Bytes → Bytes} (hbind : Context.bind cipher other = .ok bound)
    (hkeyed : bound.setKey key = .ok keyed) (hinv : keyed.Inverts E D) (name : String)
    (d : Direction) (iv : Bytes) : ((keyedAs keyed cipher name).withIv d iv).Inverts E D := by
  have hcipher : keyed.cipher = cipher := by
    obtain ⟨-, -, -, rfl⟩ := Context.bind_eq_ok_iff.mp hbind
    exact Context.setKey_cipher hkeyed
  refine hinv.of_eq ?_ ?_
  · rw [hcipher]
    cases d <;> rfl
  · intro d'
    cases d <;> cases d' <;> rfl

end Contexts

/-! ## Drawing the secret and the cipher -/

/-- An opener that finds a handle encrypted, and has this secret where it asks for it and this backend
    registered for `a`. -/
structure Opener.Draws {S : Type} [SecretSource S] (o : Opener S) (h : Handle) (p : EncryptionParams)
    (a : Algorithm) (secret : Passphrase) (cipher : BlockCipher) : Prop where
  encrypted : h.encryption = .ok (some p)
  secret_eq : (SecretSource.readSecret (o.options.location p) o.secrets).1 = .ok secret
  cipher_eq : (o.registry.get a).1 = .ok cipher

theorem Opener.Draws.draw_eq {S : Type} [SecretSource S] {o : Opener S} {h : Handle}
    {p : EncryptionParams} {a : Algorithm} {secret : Passphrase} {cipher : BlockCipher}
    (hdraws : o.Draws h p a secret cipher) :
    ∃ o', o.draw (o.options.location p) a = (.ok (secret, cipher), o') ∧ o'.options = o.options := by
  obtain ⟨-, hsecret, hcipher⟩ := hdraws
  rcases hs : SecretSource.readSecret (o.options.location p) o.secrets with ⟨answer, secrets⟩
  rw [hs] at hsecret
  rcases hc : o.registry.get a with ⟨got, registry⟩
  rw [hc] at hcipher
  have hsecret : answer = .ok secret := hsecret
  have hcipher : got = .ok cipher := hcipher
  subst hsecret hcipher
  refine ⟨{ o with secrets := secrets, registry := registry }, ?_, rfl⟩
  simp only [Opener.draw, hs, hc]

/-! ## Writing -/

/-- Calls with some pieces, one after the other: their answers, and the resource behind them. -/
def Created.writes {W : Type} [Output W] :
    List Bytes → Created W → List (Except IoError Nat) × Created W
  | [], c => ([], c)
  | b :: later, c => ((c.write b).1 :: (writes later (c.write b).2).1, (writes later (c.write b).2).2)

section Writing

variable {S : Type} [SecretSource S] {o : Opener S} {h : Handle} {p : EncryptionParams}
  {a : Algorithm} {secret : Passphrase} {cipher : BlockCipher} {key : Bytes}
  {context bound keyed : Context} {other : String} {nonces : Nonces} {sink : Sink}
  {E : Bytes → Bytes} {schedule : Cipher.KeySchedule} {start : Sink} {data : Bytes}

/-- **An encrypted resource begins with its header,** and its writer is on top of that. -/
theorem openWrite_eq (hdraws : o.Draws h p a secret cipher)
    (ha : p.algorithm.getD o.options.defaultAlgorithm = a)
    (hcost : checkCost o.options.cost = .ok ()) {header : Header}
    (hlock : lock cipher h.path secret a o.options.cost nonces = .ok (context, header))
    (hfree : sink.ErrorFree) :
    ∃ o' raw, o.openWrite h nonces sink =
        (.ok (.encrypting header.algorithm (.onTop raw context)), o', raw) ∧
      raw.taken = sink.taken ++ header.encode ∧ raw.ErrorFree := by
  have hp := hdraws.encrypted
  obtain ⟨o', hdraw, hoptions⟩ := hdraws.draw_eq
  obtain ⟨hok, hfree'⟩ := hfree.writeAll header.encode
  obtain ⟨given, -, htaken, hall⟩ := Sink.writeAll_spec sink header.encode
  rw [hall hok] at htaken
  refine ⟨o', (sink.writeAll header.encode).2, ?_, htaken, hfree'⟩
  have hprepare : o.prepareWrite h nonces = (.ok (some (context, header)), o') := by
    simp only [Opener.prepareWrite, hp, hcost, ha, hdraw, hoptions, hlock]
    rfl
  have hwrite : header.writeTo sink = (.ok (), (sink.writeAll header.encode).2) := Prod.ext hok rfl
  simp only [Opener.openWrite, hprepare, beginWrite, hwrite]

/-- Every piece is taken, whatever the raw stream makes of it, if only it does not fail. -/
theorem writes_spec (hkey : context.encryptKey = some schedule) (hsize : 0 < context.blockSize)
    (hE : context.Encrypts E) {w : BodyWriter Sink}
    (hw : BodyWriter.Follows context schedule start data w) (hfree : w.inner.ErrorFree)
    (pieces : List Bytes) :
    ∃ w', (Created.encrypting a w).writes pieces =
        (pieces.map fun b => .ok b.length, .encrypting a w') ∧ w'.inner.ErrorFree ∧
      BodyWriter.Follows context schedule start (data ++ pieces.flatten) w' := by
  induction pieces generalizing data w with
  | nil =>
    refine ⟨w, rfl, hfree, ?_⟩
    rw [List.flatten_nil, List.append_nil]
    exact hw
  | cons b later ih =>
    obtain ⟨w1, hwrite, hfree1, hw1⟩ := (hw.write hsize b).of_errorFree hkey hE hfree
    obtain ⟨w', hwrites, hfree', hw'⟩ := ih hw1 hfree1
    have hfirst : (Created.encrypting a w).write b = (.ok b.length, .encrypting a w1) := by
      simp only [Created.write, hwrite]
    refine ⟨w', ?_, hfree', ?_⟩
    · rw [Created.writes, hfirst, hwrites]
      rfl
    · rw [List.flatten_cons, ← List.append_assoc]
      exact hw'

end Writing

/-! ## Reading -/

/-- The answers to reads of these sizes, and the resource behind them. -/
def Opened.reads : (sizes : List Nat) → Opened → List (Except IoError Bytes) × Opened
  | [], r => ([], r)
  | n :: later, r => ((r.read n).1 :: (reads later (r.read n).2).1, (reads later (r.read n).2).2)

theorem reads_decrypting (a : Algorithm) (body : BodyReader) (sizes : List Nat) :
    (Opened.decrypting a body).reads sizes =
      ((body.reads sizes).1, .decrypting a (body.reads sizes).2) := by
  induction sizes generalizing body with
  | nil => rfl
  | cons n later ih =>
    have hfirst : (Opened.decrypting a body).read n = ((body.read n).1, .decrypting a (body.read n).2) :=
      rfl
    rw [Opened.reads, hfirst, ih]
    rfl

/-- Some answers hand out `data`, in order and without a failure, and then nothing for ever.  No answer
    looks like the end before `data` is handed out, so there are no more of them than it has bytes, and
    enough of them hand out everything. -/
def Yields (data : Bytes) (answers : List (Except IoError Bytes)) : Prop :=
  ∃ live rest, answers = live ++ rest ∧ .ok [] ∉ live ∧ errorsOf live = [] ∧ handedOut live <+: data ∧
    live.length ≤ data.length ∧ (rest ≠ [] → handedOut live = data) ∧ ∀ a ∈ rest, a = .ok []

section Reading

variable {S : Type} [SecretSource S] {o : Opener S} {h : Handle} {p : EncryptionParams}
  {a : Algorithm} {secret : Passphrase} {cipher : BlockCipher} {context : Context}
  {header : Header} {s : Source} {body data : Bytes} {D : Bytes → Bytes}

/-- Without faults a body that opens yields its data. -/
theorem yields_of_opens (hsize : 0 < context.blockSize) (hD : context.Decrypts D)
    (hs : s.ending = .finished) (hfaults : s.faults = [])
    (ho : Opens D context.blockSize context.decryptIv s.delivered data) {sizes : List Nat}
    (hsizes : ∀ n ∈ sizes, 0 < n) :
    Yields data ((BodyReader.ofSource s context).reads sizes).1 := by
  obtain ⟨live, rest, heq, hserved⟩ := BodyReader.reads_served hsize hD hs (.sound ho) hsizes
  have hfailed := hserved.failed
  have henough := hserved.enough
  rw [hfaults, List.prefix_nil] at hfailed
  rw [hfaults, List.length_nil] at henough
  exact ⟨live, rest, heq, hserved.nil_not_mem, hfailed, hserved.handed, henough,
    fun hne => (hserved.complete hne).1, hserved.ended⟩

/-- **Opening a container finds the header and goes on with the body.** -/
theorem openRead_eq (hdraws : o.Draws h p header.algorithm secret cipher)
    (ha : p.algorithm = none ∨ p.algorithm = some header.algorithm)
    (hcost : checkCost header.cost = .ok ())
    (hunlock : unlock cipher h.path secret header = .ok context) (hs : s.ending = .finished)
    (hfaults : s.faults = []) (hdelivered : s.delivered = header.encode ++ body) :
    ∃ o' left, o.openRead h s =
        (.ok (.decrypting header.algorithm (.ofSource left context)), o', left) ∧
      left.delivered = body ∧ left.faults = [] ∧ left.ending = .finished := by
  obtain ⟨left, hread, hbody, hfaults', hs'⟩ := Header.readFrom_of_delivered hcost hs hfaults hdelivered
  obtain ⟨o', hdraw, -⟩ := hdraws.draw_eq
  refine ⟨o', left, ?_, hbody, hfaults', hs'⟩
  have hdeclared : p.algorithm.getD header.algorithm = header.algorithm := by
    rcases ha with ha | ha
    · rw [ha]
      rfl
    · rw [ha]
      rfl
  simp only [Opener.openRead, hdraws.encrypted, Opener.openContainer, hread, hdeclared, ne_eq, not_true_eq_false,
    if_false, hdraw, hunlock]

end Reading

/-! ## There and back -/

/-- The header of a new container. -/
def headerOf (a : Algorithm) (cost : Kdf.Cost) (nonces : Nonces) (key : Bytes) : Header :=
  ⟨a, cost, nonces.salt, nonces.iv, Container.sixteenOf (Kdf.keyCheck key)⟩

/-- Some data as the body of a container. -/
def sealedBody (E : Bytes → Bytes) (iv : Container.Sixteen) (data : Bytes) : Bytes :=
  (chain E iv.val (blocks ivSize (pad ivSize data))).flatten

section RoundTrip

variable {S : Type} [SecretSource S] {o : Opener S} {h : Handle} {p : EncryptionParams}
  {a : Algorithm} {secret : Passphrase} {cipher : BlockCipher} {key : Bytes} {bound keyed : Context}
  {other : String} {E D : Bytes → Bytes}

theorem blockSize_withIv (hsize : cipher.blockSize = ivSize) (name : String) (d : Direction)
    (iv : Bytes) : ((keyedAs keyed cipher name).withIv d iv).blockSize = ivSize := by
  cases d <;> exact hsize

/-- A body has one block more than the whole blocks of its data. -/
theorem length_sealedBody (hbind : Context.bind cipher other = .ok bound)
    (hkeyed : bound.setKey key = .ok keyed) (hinv : keyed.Inverts E D)
    (hsize : cipher.blockSize = ivSize) (iv : Container.Sixteen) (data : Bytes) :
    (sealedBody E iv data).length = (data.length / 16 + 1) * 16 := by
  have hcontext := (inverts_withIv hbind hkeyed hinv other .encrypt iv.val).encrypts
  have hblock := @blockSize_withIv cipher keyed hsize other .encrypt iv.val
  have hlen := Container.length_chain_pad (by rw [hblock]; decide) hcontext iv.val data
  rwa [hblock] at hlen

/-- **What is written and finished is stored behind the header, padded and sealed.** -/
theorem stores_sealed (hdraws : o.Draws h p a secret cipher)
    (ha : p.algorithm.getD o.options.defaultAlgorithm = a)
    (hcost : checkCost o.options.cost = .ok ()) {nonces : Nonces}
    (hkey : Kdf.deriveKey secret.bytes nonces.salt.val o.options.cost = .ok key)
    (hbind : Context.bind cipher other = .ok bound) (hkeyed : bound.setKey key = .ok keyed)
    (hinv : keyed.Inverts E D) (hsize : cipher.blockSize = ivSize) {sink : Sink}
    (hfree : sink.ErrorFree) (pieces : List Bytes) :
    ∃ created o' raw, o.openWrite h nonces sink = (.ok created, o', raw) ∧
      (created.writes pieces).1 = pieces.map (fun b => .ok b.length) ∧
      (created.writes pieces).2.finish.1 = .ok () ∧
      (created.writes pieces).2.finish.2.taken = sink.taken ++
        ((headerOf a o.options.cost nonces key).encode ++ sealedBody E nonces.iv pieces.flatten) := by
  have hlock := lock_eq hbind hkeyed hsize hkey h.path a
  have hE := (inverts_withIv hbind hkeyed hinv h.path .encrypt nonces.iv.val).encrypts
  have hblock := @blockSize_withIv cipher keyed hsize h.path .encrypt nonces.iv.val
  have hpos : 0 < ((keyedAs keyed cipher h.path).withIv .encrypt nonces.iv.val).blockSize := by
    rw [hblock]
    decide
  obtain ⟨schedule, hschedule, -⟩ := id hE
  obtain ⟨o', raw, hopen, htaken, hraw⟩ := openWrite_eq hdraws ha hcost hlock hfree
  obtain ⟨w, hwrites, hw, hfollows⟩ := writes_spec (a := a) hschedule hpos hE
    (BodyWriter.follows_onTop hschedule raw) hraw pieces
  obtain ⟨hok, hstored⟩ := (hfollows.finish hpos).of_errorFree hschedule hE hw
  refine ⟨_, o', raw, hopen, ?_, ?_, ?_⟩
  · exact congrArg Prod.fst hwrites
  · rw [hwrites]
    exact hok
  · rw [hwrites]
    show w.finish.2.taken = _
    rw [hstored, htaken, hblock, List.append_assoc]
    rfl

/-- **A body behind a header yields its data** to everybody who has the secret and the backend. -/
theorem yields_sealed {header : Header} (hdraws : o.Draws h p header.algorithm secret cipher)
    (ha : p.algorithm = none ∨ p.algorithm = some header.algorithm)
    (hcost : checkCost header.cost = .ok ())
    (hkey : Kdf.deriveKey secret.bytes header.salt.val header.cost = .ok key)
    (hcheck : header.keyCheck.val = Kdf.keyCheck key)
    (hbind : Context.bind cipher other = .ok bound) (hkeyed : bound.setKey key = .ok keyed)
    (hinv : keyed.Inverts E D) (hsize : cipher.blockSize = ivSize) {s : Source} {data : Bytes}
    (hs : s.ending = .finished) (hfaults : s.faults = [])
    (hdelivered : s.delivered = header.encode ++ sealedBody E header.iv data) :
    ∃ opened o' left, o.openRead h s = (.ok opened, o', left) ∧
      ∀ sizes : List Nat, (∀ n ∈ sizes, 0 < n) → Yields data (opened.reads sizes).1 := by
  have hunlock := unlock_eq hbind hkeyed hsize hkey hcheck h.path
  have hcontext := inverts_withIv hbind hkeyed hinv h.path .decrypt header.iv.val
  have hblock := @blockSize_withIv cipher keyed hsize h.path .decrypt header.iv.val
  have hpos : 0 < ((keyedAs keyed cipher h.path).withIv .decrypt header.iv.val).blockSize := by
    rw [hblock]
    decide
  obtain ⟨o', left, hopen, hbody, hnone, hending⟩ :=
    openRead_eq hdraws ha hcost hunlock hs hfaults hdelivered
  refine ⟨_, o', left, hopen, ?_⟩
  intro sizes hsizes
  rw [reads_decrypting]
  refine yields_of_opens hpos hcontext.decrypts hending hnone ?_ hsizes
  -- Blocks of sixteen bytes: the count of the padding fits a byte.
  have hcount : Container.padCount ((keyedAs keyed cipher h.path).withIv .decrypt
      header.iv.val).blockSize data.length < 256 := by
    rw [hblock, Container.padCount, ivSize]
    omega
  have hopens := Container.opens_chain_pad hpos hcontext header.iv.val hcount
  rw [hbody]
  show Opens D _ header.iv.val (chain E header.iv.val (blocks ivSize (pad ivSize data))).flatten data
  rwa [hblock] at hopens ⊢

/-- **What is written to an encrypted resource is read back.**  The pieces may be cut in any way and the
    raw writer may take them in any portions; 70 bytes of header and the padded, sealed data are stored.
    Whoever has the same secret and backend, whatever else is set differently there, opens them and reads
    exactly the data, however the raw reader cuts them and whatever sizes are asked for. -/
theorem what_is_written_is_read_back (hdraws : o.Draws h p a secret cipher)
    (ha : p.algorithm.getD o.options.defaultAlgorithm = a) (hsize : cipher.blockSize = ivSize)
    (hcost : checkCost o.options.cost = .ok ()) {nonces : Nonces}
    (hkey : Kdf.deriveKey secret.bytes nonces.salt.val o.options.cost = .ok key)
    (hinv : cipher.InvertsUnder key) {sink : Sink} (hfree : sink.ErrorFree) (pieces : List Bytes) :
    ∃ created o₁ raw, o.openWrite h nonces sink = (.ok created, o₁, raw) ∧
      (created.writes pieces).1 = pieces.map (fun b => .ok b.length) ∧
      (created.writes pieces).2.finish.1 = .ok () ∧
      ∃ header body : Bytes,
        (created.writes pieces).2.finish.2.taken = sink.taken ++ (header ++ body) ∧
        header.length = 70 ∧ body.length = 16 * (pieces.flatten.length / 16 + 1) ∧
        ∀ {T : Type} [SecretSource T] (reader : Opener T) (h' : Handle) (p' : EncryptionParams)
          (s : Source), reader.Draws h' p' a secret cipher →
          p'.algorithm = none ∨ p'.algorithm = some a →
          s.delivered = header ++ body → s.faults = [] → s.ending = .finished →
          ∃ opened o₂ left, reader.openRead h' s = (.ok opened, o₂, left) ∧
            ∀ sizes : List Nat, (∀ n ∈ sizes, 0 < n) →
              Yields pieces.flatten (opened.reads sizes).1 := by
  obtain ⟨bound, keyed, E, D, hbind, hkeyed, hinverts⟩ := hinv
  obtain ⟨created, o₁, raw, hopen, hanswers, hok, htaken⟩ :=
    stores_sealed hdraws ha hcost hkey hbind hkeyed hinverts hsize hfree pieces
  refine ⟨created, o₁, raw, hopen, hanswers, hok, _, _, htaken, Container.Header.length_encode _, ?_, ?_⟩
  · rw [length_sealedBody hbind hkeyed hinverts hsize, Nat.mul_comm]
  · intro T _ reader h' p' s hdraws' ha' hdelivered hfaults hs
    have hcheck : (headerOf a o.options.cost nonces key).keyCheck.val = Kdf.keyCheck key :=
      Container.sixteenOf_of_length (Kdf.length_keyCheck key)
    exact @yields_sealed T _ reader h' p' secret cipher key bound keyed _ E D
      (headerOf a o.options.cost nonces key) hdraws' ha' hcost hkey hcheck hbind hkeyed hinverts hsize
      s _ hs hfaults hdelivered

end RoundTrip

/-- A passphrase is a source of itself, wherever it is asked for. -/
instance : SecretSource Passphrase where
  readSecret _ secret := (.ok secret, secret)

/-- On AES at the lowest cost: three pieces through a raw writer that takes seven bytes once and then
    three a call, read through another handle by an opener that would choose everything else. -/
theorem what_is_written_is_read_back_on_aes :
    ∃ (secret : Passphrase) (writer reader : Opener Passphrase) (h h' : Handle) (nonces : Nonces)
      (created : Created Sink) (opened : Opened),
      writer = ⟨secret, .builtin, "here", .aes, ⟨8, 1, 1⟩⟩ ∧
      reader = ⟨secret, .builtin, "there", .vendor, .standard⟩ ∧
      (writer.openWrite h nonces ⟨[], [.takes 7], some 3, []⟩).1 = .ok created ∧
      (created.writes [[1, 2], [], [3]]).2.finish.2.taken.length = 86 ∧
      (reader.openRead h' (.ofBytes (created.writes [[1, 2], [], [3]]).2.finish.2.taken)).1 =
        .ok opened ∧
      ∀ sizes : List Nat, (∀ n ∈ sizes, 0 < n) → Yields [1, 2, 3] (opened.reads sizes).1 := by
  let secret : Passphrase := ⟨[0x61], rfl⟩
  let nonces : Nonces := ⟨⟨List.replicate 16 1, rfl⟩, ⟨List.replicate 16 2, rfl⟩⟩
  let h : Handle := ⟨"vfile", "notes", firstParam [("enc", "")]⟩
  let h' : Handle := ⟨"acc", "copy", firstParam [("encrypted", "yes"), ("cipher", "AES")]⟩
  let writer : Opener Passphrase := ⟨secret, .builtin, "here", .aes, ⟨8, 1, 1⟩⟩
  let reader : Opener Passphrase := ⟨secret, .builtin, "there", .vendor, .standard⟩
  obtain ⟨key, hkey⟩ : ∃ key, Kdf.deriveKey secret.bytes nonces.salt.val ⟨8, 1, 1⟩ = .ok key := ⟨_, rfl⟩
  have hinv : Cipher.Aes.portable.InvertsUnder key := by
    have hlen : Cipher.Aes.IsKeyLength key.length := Or.inr (Or.inr (Kdf.length_deriveKey hkey))
    obtain ⟨keyed, E, D, hset, hinv⟩ := Cipher.Aes.keyed_inverts
      (show (Context.fresh Cipher.Aes.portable Cipher.Aes.portable.name).cipher = _ from rfl) hlen
    exact ⟨_, keyed, E, D, rfl, hset, hinv⟩
  have hfree : Sink.ErrorFree ⟨[], [.takes 7], some 3, []⟩ := by
    refine ⟨?_, by decide, ?_⟩
    · intro reply hreply
      exact ⟨7, by decide, List.mem_singleton.mp hreply⟩
    · intro reply hreply
      cases hreply
  obtain ⟨created, o₁, raw, hopen, -, -, header, body, htaken, hheader, hbody, hread⟩ :=
    what_is_written_is_read_back (o := writer) (h := h) (p := ⟨none, none⟩) (a := .aes)
      ⟨rfl, rfl, rfl⟩ rfl rfl rfl hkey hinv hfree [[1, 2], [], [3]]
  have htaken : (created.writes [[1, 2], [], [3]]).2.finish.2.taken = header ++ body := htaken
  obtain ⟨hdelivered, hfaults⟩ := Source.delivered_ofBytes (header ++ body)
  obtain ⟨opened, o₂, left, hopened, hyields⟩ := hread reader h' ⟨some .aes, none⟩
    (.ofBytes (header ++ body)) ⟨rfl, rfl, rfl⟩ (Or.inr rfl) hdelivered hfaults rfl
  refine ⟨secret, writer, reader, h, h', nonces, created, opened, rfl, rfl, ?_, ?_, ?_, hyields⟩
  · rw [hopen]
  · rw [htaken, List.length_append, hheader, hbody]
    rfl
  · rw [htaken, hopened]

end Coffer.Resource
