import Coffer.Proofs.Container.Layers
import Coffer.Proofs.Disk.Staged
import Coffer.Proofs.Resource.Opening
import Coffer.Resource.Local
/-
  Creating a local resource is all or nothing.

  Until a resource is committed its disk is `Restored` when it is given up: the destination can be read
  as before, and the temporary file is gone.  A commit has `Replaced` the destination, or it is as if
  the resource had been given up.  What the destination holds then is `Content`: the bytes that the
  write calls accepted, or the header and the sealed data.

  The calls on a created resource are those on the same resource on top of the device of its staged
  file (`Created.performAll_mapRaw`), and so what the device takes is what a container on top of a plain
  raw stream would be given.
-/
namespace Coffer.Resource

open Cipher (BlockCipher Context KeySchedule chain)
open Disk (blank blank_sound)
open Container (BodyWriter Header checkCost ivSize pad sealing)
open Container.BodyWriter (Request submitted onTop)
open Keyring (Passphrase SecretSource)

/-! ## The disk afterwards -/

/-- The destination can be read as before, and there is no temporary file: the disk is the same, or the
    only place that is different is the temporary's, and nothing is there. -/
structure Restored (path : String) (d d' : Disk) : Prop where
  readable : ∀ b, d'.readFile path = .ok b ↔ d.readFile path = .ok b
  only : d' = d ∨ ∃ temporary t, StagedFile.temporaryPath? path = some temporary ∧
    d.Names temporary t ∧ d'.entryAt? t = none ∧ Disk.Only [t] d d'

/-- The destination can be read as these bytes, and there is no temporary file; no other place is
    different. -/
structure Replaced (path : String) (content : Bytes) (d d' : Disk) : Prop where
  readable : d'.readFile path = .ok content
  only : ∃ temporary t q, StagedFile.temporaryPath? path = some temporary ∧ d.Names temporary t ∧
    d.Names path q ∧ d'.entryAt? t = none ∧ Disk.Only [t, q] d d'

theorem Restored.refl (path : String) (d : Disk) : Restored path d d :=
  ⟨fun _ => Iff.rfl, .inl rfl⟩

section Staging

variable {path : String} {t : Place} {base : Bytes} {d d' : Disk} {s : Staging}

/-- What happens at the temporary's place is not seen at the destination. -/
theorem Restored.of_only (hd : d.Sound) (hd' : d'.Sound) {temporary : String}
    (htemp : StagedFile.temporaryPath? path = some temporary) (ht : d.Names temporary t)
    (hgone : d'.entryAt? t = none) (honly : Disk.Only [t] d d') : Restored path d d' := by
  have hsame : ∀ p, d.Names path p → d.SameAt d' p := by
    intro p hp
    have hne := ht.ne (StagedFile.lastName?_temporaryPath_ne htemp) hp
    exact honly.same p fun hmem => hne (List.mem_singleton.mp hmem).symm
  refine ⟨fun b => ?_, .inr ⟨temporary, t, htemp, ht, hgone, honly⟩⟩
  rw [hd'.readFile_eq_ok_iff, hd.readFile_eq_ok_iff]
  constructor
  · rintro ⟨p, hp, hholds⟩
    have hp := honly.names_iff.mp hp
    exact ⟨p, hp, .of_sameAt (hsame p hp).symm hholds⟩
  · rintro ⟨p, hp, hholds⟩
    exact ⟨p, honly.names_iff.mpr hp, .of_sameAt (hsame p hp) hholds⟩

/-- **A staging that is given up leaves no trace.** -/
theorem restored_discard (hd : d.Sound) (hs : Staging.Stores path t base d s) :
    Restored path d s.discard := by
  obtain ⟨b, -, hstands⟩ := hs.stands
  obtain ⟨hgone, honly, hsound⟩ := hstands.discard hs.sound
  have htemp := hstands.temporary_eq
  rw [hs.destination_eq] at htemp
  exact .of_only hd hsound htemp (hs.only.names_iff.mp hstands.names) hgone (hs.only.trans honly)

/-- **A staging that is committed has replaced its destination,** or it has left no trace. -/
theorem commit_cases (hd : d.Sound) (hs : Staging.Stores path t base d s) (fault? : Option Disk.Fault) :
    ((∃ e, (s.commit fault?).1 = .error e) ∧ Restored path d (s.commit fault?).2) ∨
      ((s.commit fault?).1 = .ok () ∧
        ∃ b, s.device.taken = base ++ b ∧ Replaced path b d (s.commit fault?).2) := by
  obtain ⟨b, htaken, hstands⟩ := hs.stands
  have htemp := hstands.temporary_eq
  have hnames := hs.only.names_iff.mp hstands.names
  have hcommits := hstands.commit hs.sound s.device.flush.1 fault?
  rw [hs.destination_eq] at htemp
  rw [Staging.commit]
  rcases hc : s.file.commit s.disk s.device.flush.1 fault? with ⟨e | ⟨⟩, d'⟩ <;> rw [hc] at hcommits
  · cases hcommits with
    | failed hgone honly hsound =>
      exact .inl ⟨⟨e, rfl⟩, .of_only hd hsound htemp hnames hgone (hs.only.trans honly)⟩
  · cases hcommits with
    | @placed q _ hq hne hholds hgone honly hsound =>
      rw [hs.destination_eq] at hq
      have hreadable : d'.readFile path = .ok b :=
        hsound.readFile_eq_ok_iff.mpr ⟨q, honly.names_iff.mpr hq, hholds⟩
      have honly' := (hs.only.mono (List.cons_subset_cons t (List.nil_subset [q]))).trans honly
      exact .inr ⟨rfl, b, htaken, hreadable, _, t, q, htemp, hnames, hs.only.names_iff.mp hq, hgone, honly'⟩

end Staging

/-! ## Calls on a created resource -/

/-- The bytes that write calls have accepted. -/
def accepted : List Request → List (Except IoError Nat) → Bytes
  | .write b :: later, .ok n :: answers => b.take n ++ accepted later answers
  | _ :: later, _ :: answers => accepted later answers
  | _, _ => []

namespace Created

variable {V W : Type} [Output V] [Output W]

/-- One call; a flush that succeeds answers nothing. -/
def perform (c : Created W) : Request → Except IoError Nat × Created W
  | .write b => c.write b
  | .flush => (c.flush.1.map fun _ => 0, c.flush.2)

/-- Calls one after the other. -/
def performAll : List Request → Created W → List (Except IoError Nat) × Created W
  | [], c => ([], c)
  | r :: later, c => ((c.perform r).1 :: (performAll later (c.perform r).2).1,
      (performAll later (c.perform r).2).2)

/-- The same resource on top of what `f` leaves of the raw stream. -/
def mapRaw (f : W → V) : Created W → Created V
  | plain raw => plain (f raw)
  | encrypting a body => encrypting a (body.mapRaw f)

omit [Output V] [Output W] in
theorem inner_mapRaw (f : W → V) (c : Created W) : (c.mapRaw f).inner = f c.inner := by
  cases c <;> rfl

theorem inner_perform {P : W → Prop} (hP : Output.Stable P) {c : Created W} (h : P c.inner)
    (r : Request) : P (c.perform r).2.inner := by
  cases c with
  | plain raw =>
    cases r with
    | write b => exact hP.write raw b h
    | flush => exact hP.flush raw h
  | encrypting a body =>
    cases r with
    | write b => exact BodyWriter.inner_write hP body h b
    | flush => exact BodyWriter.inner_flush hP body h

theorem inner_performAll {P : W → Prop} (hP : Output.Stable P) {c : Created W} (h : P c.inner)
    (requests : List Request) : P (c.performAll requests).2.inner := by
  induction requests generalizing c with
  | nil => exact h
  | cons r later ih => exact ih (inner_perform hP h r)

theorem inner_finish {P : W → Prop} (hP : Output.Stable P) {c : Created W} (h : P c.inner) :
    P c.finish.2 := by
  cases c with
  | plain raw => exact hP.flush raw h
  | encrypting a body => exact BodyWriter.inner_finish hP body h

variable {f : W → V}

theorem perform_mapRaw (hf : Output.Maps f) (c : Created W) (r : Request) :
    (c.mapRaw f).perform r = ((c.perform r).1, (c.perform r).2.mapRaw f) := by
  cases c with
  | plain raw =>
    cases r with
    | write b => simp only [mapRaw, perform, write, hf.write]
    | flush => simp only [mapRaw, perform, flush, hf.flush]
  | encrypting a body =>
    cases r with
    | write b => simp only [mapRaw, perform, write, BodyWriter.write_mapRaw hf]
    | flush => simp only [mapRaw, perform, flush, BodyWriter.flush_mapRaw hf]

/-- **What is below the raw stream's answers makes no difference to the calls.** -/
theorem performAll_mapRaw (hf : Output.Maps f) (c : Created W) (requests : List Request) :
    (c.mapRaw f).performAll requests =
      ((c.performAll requests).1, (c.performAll requests).2.mapRaw f) := by
  induction requests generalizing c with
  | nil => rfl
  | cons r later ih =>
    rw [performAll, perform_mapRaw hf, ih]
    rfl

theorem finish_mapRaw (hf : Output.Maps f) (c : Created W) :
    (c.mapRaw f).finish = (c.finish.1, f c.finish.2) := by
  cases c with
  | plain raw => exact hf.flush raw
  | encrypting a body => exact BodyWriter.finish_mapRaw hf body

/-! ### On top of a device -/

/-- **A plain resource passes on what its write calls accept.** -/
theorem plain_taken (start : Sink) (requests : List Request) :
    (((plain start).performAll requests).2.finish.2).taken =
      start.taken ++ accepted requests ((plain start).performAll requests).1 := by
  induction requests generalizing start with
  | nil =>
    show start.flush.2.taken = start.taken ++ []
    rw [List.append_nil, Sink.taken_flush]
  | cons r later ih =>
    cases r with
    | write b =>
      have hstep : (plain start).perform (.write b) = ((start.write b).1, plain (start.write b).2) := rfl
      rw [performAll, hstep]
      show ((performAll later (plain (start.write b).2)).2.finish.2).taken = _
      rw [ih]
      rcases Sink.write_spec start b with ⟨n, hn, htaken⟩ | ⟨e, he, htaken⟩
      · rw [hn, htaken, accepted, List.append_assoc, ← List.take_eq_take_min]
      · rw [he, htaken, accepted]
        intro b' n _ h
        cases h
    | flush =>
      have hstep : (plain start).perform .flush =
          (start.flush.1.map fun _ => 0, plain start.flush.2) := rfl
      rw [performAll, hstep]
      show ((performAll later (plain start.flush.2)).2.finish.2).taken = _
      rw [ih, Sink.taken_flush, accepted]
      intro b n h
      cases h

theorem performAll_encrypting (a : Algorithm) (w : BodyWriter W) (requests : List Request) :
    (((encrypting a w).performAll requests).1.map fun answer => answer.map fun _ => ()) =
        (w.performAll requests).1 ∧
      ((encrypting a w).performAll requests).2 = encrypting a (w.performAll requests).2 := by
  induction requests generalizing w with
  | nil => exact ⟨rfl, rfl⟩
  | cons r later ih =>
    cases r with
    | write b =>
      obtain ⟨hanswers, hafter⟩ := ih (w.write b).2
      exact ⟨congrArg (((w.write b).1.map fun _ => ()) :: ·) hanswers, hafter⟩
    | flush =>
      obtain ⟨hanswers, hafter⟩ := ih w.flush.2
      refine ⟨?_, hafter⟩
      show ((w.flush.1.map fun _ => 0).map fun _ => ()) :: _ = w.flush.1 :: _
      rw [show ((w.flush.1.map fun _ => 0).map fun _ => ()) = w.flush.1 by cases w.flush.1 <;> rfl]
      exact congrArg (w.flush.1 :: ·) hanswers

/-- A write call of an encrypted resource takes everything or fails. -/
theorem write_answers (a : Algorithm) (w : BodyWriter W) (requests : List Request) (b : Bytes) (n : Nat)
    (h : (Request.write b, .ok n) ∈ requests.zip ((encrypting a w).performAll requests).1) :
    n = b.length := by
  induction requests generalizing w with
  | nil => cases h
  | cons r later ih =>
    rcases List.mem_cons.mp h with heq | hlater
    · obtain ⟨rfl, hn⟩ := Prod.mk.inj heq
      exact BodyWriter.write_eq_ok w hn.symm
    · cases r with
      | write b' => exact ih (w.write b').2 hlater
      | flush => exact ih w.flush.2 hlater

/-- **An encrypted resource that finishes well has accepted every write and passed on the sealed
    data.** -/
theorem encrypting_taken {context : Context} {key : KeySchedule} (a : Algorithm)
    (hkey : context.encryptKey = some key) (hsize : 0 < context.blockSize) (start : Sink)
    (requests : List Request)
    (hok : ((encrypting a (onTop start context)).performAll requests).2.finish.1 = .ok ()) :
    (∀ b answer, (Request.write b, answer) ∈
        requests.zip ((encrypting a (onTop start context)).performAll requests).1 →
      answer = .ok b.length) ∧
    (sealing context key (pad context.blockSize (submitted requests))).failure? = none ∧
    ((encrypting a (onTop start context)).performAll requests).2.finish.2.taken = start.taken ++
      (sealing context key (pad context.blockSize (submitted requests))).blocks.flatten := by
  obtain ⟨hanswers, hafter⟩ := performAll_encrypting a (onTop start context) requests
  have hseals := BodyWriter.seals_performAll hkey hsize start requests
  rw [hafter] at hok ⊢
  obtain ⟨given, htaken, -, hall⟩ := hseals.finished
  obtain ⟨hsealed, rfl⟩ := hall hok
  refine ⟨fun b answer hmem => ?_, hsealed, htaken⟩
  have hnone : BodyWriter.NoWriteFailed requests ((onTop start context).performAll requests).1 := by
    by_contra hnot
    obtain ⟨-, e, he⟩ := hseals.stuck hnot
    have hok : ((onTop start context).performAll requests).2.finish.1 = .ok () := hok
    rw [he] at hok
    cases hok
  rcases answer with e | n
  · -- A failed write is seen below, too.
    have hbelow : (Request.write b, (Except.error e : Except IoError Unit)) ∈
        requests.zip ((onTop start context).performAll requests).1 := by
      rw [← hanswers, List.zip_map_right]
      exact List.mem_map.mpr ⟨_, hmem, rfl⟩
    cases hnone b _ hbelow
  · rw [write_answers a _ requests b n hmem]

end Created

/-! ## What is asked before a file is touched -/

/-- The scheme is that of a local file, and the resource is plain, or it is encrypted, the cost keeps the
    ceilings, and the secret, the cipher and the key are there. -/
def Opener.Admits {S : Type} [SecretSource S] (o : Opener S) (h : Handle) (nonces : Nonces) : Prop :=
  h.localPath = .ok h.path ∧ (h.encryption = .ok none ∨ ∃ p secret cipher key,
    checkCost o.options.cost = .ok () ∧
    o.Draws h p (p.algorithm.getD o.options.defaultAlgorithm) secret cipher ∧
    Kdf.deriveKey secret.bytes nonces.salt.val o.options.cost = .ok key)

/-- What the destination of a committed resource holds, after these calls and their answers. -/
inductive Content {S : Type} [SecretSource S] (o : Opener S) (h : Handle) (nonces : Nonces)
    (requests : List Request) (answers : List (Except IoError Nat)) : Bytes → Prop
  /-- The bytes that the write calls accepted. -/
  | plain : h.encryption = .ok none → Content o h nonces requests answers (accepted requests answers)
  /-- The header and the sealed data behind it, all of which was accepted. -/
  | encrypted {p : EncryptionParams} {secret : Passphrase} {cipher : BlockCipher} {context : Context}
      {header : Header} {key : KeySchedule} :
      o.Draws h p (p.algorithm.getD o.options.defaultAlgorithm) secret cipher →
      lock cipher h.path secret (p.algorithm.getD o.options.defaultAlgorithm) o.options.cost nonces =
        .ok (context, header) →
      context.encryptKey = some key →
      (∀ b answer, (Request.write b, answer) ∈ requests.zip answers → answer = .ok b.length) →
      header.encode.length = 70 →
      (sealing context key (pad ivSize (submitted requests))).failure? = none →
      (∀ E, context.Encrypts E →
        (sealing context key (pad ivSize (submitted requests))).blocks =
          chain E nonces.iv.val (blocks ivSize (pad ivSize (submitted requests)))) →
      Content o h nonces requests answers (header.encode ++
        (sealing context key (pad ivSize (submitted requests))).blocks.flatten)

theorem localPath_eq_ok {h : Handle} {path : String} (hpath : h.localPath = .ok path) :
    path = h.path := by
  rw [Handle.localPath] at hpath
  split at hpath
  · cases hpath
    rfl
  · split at hpath <;> cases hpath

/-- What a context for writing is. -/
theorem lock_spec {cipher : BlockCipher} {name : String} {secret : Passphrase} {a : Algorithm}
    {cost : Kdf.Cost} {nonces : Nonces} {context : Context} {header : Header}
    (h : lock cipher name secret a cost nonces = .ok (context, header)) :
    (∃ key, Kdf.deriveKey secret.bytes nonces.salt.val cost = .ok key) ∧
      (∃ key, context.encryptKey = some key) ∧ context.blockSize = ivSize ∧
      context.encryptIv = nonces.iv.val := by
  obtain ⟨fresh, hfresh, h⟩ := bind_eq_ok_iff.mp h
  obtain ⟨key, hkey, h⟩ := bind_eq_ok_iff.mp h
  obtain ⟨keyed, hkeyed, h⟩ := bind_eq_ok_iff.mp h
  obtain ⟨context', hiv, h⟩ := bind_eq_ok_iff.mp h
  cases h
  obtain ⟨bound, hbound, hfresh⟩ := bind_eq_ok_iff.mp hfresh
  have hsize : bound.blockSize = ivSize ∧ bound = fresh := by
    split at hfresh
    · cases hfresh
    · rename_i hsize
      cases hfresh
      exact ⟨of_not_not hsize, rfl⟩
  obtain ⟨hsize, rfl⟩ := hsize
  obtain ⟨-, -, ek, dk, -, -, rfl⟩ := Context.setKey_eq_ok_iff.mp (mapError_eq_ok_iff.mp hkeyed)
  have hlen : nonces.iv.val.length =
      ({ bound with encryptKey := some ek, decryptKey := some dk } : Context).blockSize :=
    nonces.iv.property.trans hsize.symm
  cases (Context.setIv_of_length hlen .encrypt).symm.trans (mapError_eq_ok_iff.mp hiv)
  exact ⟨⟨key, mapError_eq_ok_iff.mp hkey⟩, ⟨ek, rfl⟩, hsize, rfl⟩

section Creating

variable {S : Type} [SecretSource S] {o o' : Opener S} {h : Handle} {nonces : Nonces} {d d' : Disk}

/-- **Preparing succeeds when nothing has to be asked for, or when all that was asked for is there.** -/
theorem prepareWrite_eq_ok {prepared : Option (Context × Header)}
    (hprepare : o.prepareWrite h nonces = (.ok prepared, o')) :
    (prepared = none ∧ h.encryption = .ok none) ∨
      ∃ p secret cipher context header, prepared = some (context, header) ∧
        checkCost o.options.cost = .ok () ∧
        o.Draws h p (p.algorithm.getD o.options.defaultAlgorithm) secret cipher ∧
        lock cipher h.path secret (p.algorithm.getD o.options.defaultAlgorithm) o.options.cost nonces =
          .ok (context, header) := by
  rw [Opener.prepareWrite] at hprepare
  rcases hencryption : h.encryption with e | _ | p <;> simp only [hencryption] at hprepare
  · cases hprepare
  · cases hprepare
    exact .inl ⟨rfl, rfl⟩
  · rcases hcost : checkCost o.options.cost with e | ⟨⟩ <;> simp only [hcost] at hprepare
    · cases hprepare
    rcases hdraw : o.draw (o.options.location p) (p.algorithm.getD o.options.defaultAlgorithm) with
      ⟨e | ⟨secret, cipher⟩, o''⟩ <;> simp only [hdraw] at hprepare
    · cases hprepare
    have hdrawn := drawn_iff.mpr hdraw
    cases hdrawn with
    | drawn hsecret hcipher =>
      rcases hlock : lock cipher h.path secret (p.algorithm.getD o.options.defaultAlgorithm)
        o.options.cost nonces with e | ⟨context, header⟩ <;> rw [hlock] at hprepare
      · cases hprepare
      · cases hprepare
        have hdraws : o.Draws h p (p.algorithm.getD o.options.defaultAlgorithm) secret cipher :=
          ⟨hencryption, congrArg Prod.fst hsecret, congrArg Prod.fst hcipher⟩
        exact .inr ⟨p, secret, cipher, context, header, rfl, rfl, hdraws, hlock⟩

theorem admits_of_prepared {prepared : Option (Context × Header)} (hpath : h.localPath = .ok h.path)
    (hprepare : o.prepareWrite h nonces = (.ok prepared, o')) : o.Admits h nonces := by
  refine ⟨hpath, ?_⟩
  rcases prepareWrite_eq_ok hprepare with
    ⟨-, hplain⟩ | ⟨p, secret, cipher, context, header, -, hcost, hdraws, hlock⟩
  · exact .inl hplain
  · obtain ⟨⟨key, hkey⟩, -⟩ := lock_spec hlock
    exact .inr ⟨p, secret, cipher, key, hcost, hdraws, hkey⟩

/-- What creating a local resource comes to. -/
inductive Begins (o : Opener S) (h : Handle) (nonces : Nonces) (d : Disk) (device : Sink) :
    Except ResolveError (Created Staging) × Opener S × Disk → Prop
  | refused (e : ResolveError) (o' : Opener S) : Begins o h nonces d device (.error e, o', d)
  | broken {e : ResolveError} {o' : Opener S} {d' : Disk} : o.Admits h nonces →
      Restored h.path d d' → Begins o h nonces d device (.error e, o', d')
  | plain {o' : Opener S} {raw : Staging} {t : Place} : o.Admits h nonces → h.encryption = .ok none →
      raw.Stores h.path t device.taken d → raw.device = device →
      Begins o h nonces d device (.ok (.plain raw), o', raw.disk)
  | encrypting {o' : Opener S} {raw : Staging} {t : Place} {p : EncryptionParams} {secret : Passphrase}
      {cipher : BlockCipher} {context : Context} {header : Header} : o.Admits h nonces →
      o.Draws h p (p.algorithm.getD o.options.defaultAlgorithm) secret cipher →
      lock cipher h.path secret (p.algorithm.getD o.options.defaultAlgorithm) o.options.cost nonces =
        .ok (context, header) →
      raw.Stores h.path t device.taken d → raw.device.taken = device.taken ++ header.encode →
      Begins o h nonces d device (.ok (.encrypting header.algorithm (.onTop raw context)), o', raw.disk)

/-- **A resource is begun in a file of its own, or there is no trace of it.** -/
theorem createPath_begins (o : Opener S) (h : Handle) (nonces : Nonces) (hd : d.Sound) (device : Sink)
    (fault? : Option Disk.Fault) :
    Begins o h nonces d device (o.createPath h nonces d device fault?) := by
  rw [Opener.createPath]
  rcases hpath : h.localPath with e | path
  · exact .refused e o
  cases localPath_eq_ok hpath
  rcases hprepare : o.prepareWrite h nonces with ⟨e | prepared, o'⟩
  · exact .refused e o'
  have hadmits := admits_of_prepared hpath hprepare
  simp only
  rcases hstaged : StagedFile.create h.path d fault? with ⟨e | staged, d'⟩
  · cases StagedFile.create_of_error hstaged
    exact .refused _ o'
  obtain ⟨t, hstores⟩ := Staging.stores_create hd hstaged device
  simp only
  rcases prepareWrite_eq_ok hprepare with
    ⟨rfl, hplain⟩ | ⟨p, secret, cipher, context, header, rfl, -, hdraws, hlock⟩
  · exact .plain hadmits hplain hstores rfl
  · have hwritten := Staging.stable_stores.writeAll _ header.encode hstores
    have hmaps := Staging.maps_device.writeAll ⟨staged, d', device⟩ header.encode
    obtain ⟨given, -, htaken, hall⟩ := Sink.writeAll_spec device header.encode
    rcases hw : Output.writeAll (Staging.mk staged d' device) header.encode with ⟨e | ⟨⟩, raw⟩ <;>
      rw [hw] at hwritten hmaps
    · simp only [beginWrite, Header.writeTo, hw]
      exact .broken hadmits (restored_discard hd hwritten)
    · simp only [beginWrite, Header.writeTo, hw]
      have hdevice : device.writeAll header.encode = (.ok (), raw.device) := hmaps
      rw [hdevice] at htaken hall
      rw [hall rfl] at htaken
      exact .encrypting hadmits hdraws hlock hwritten htaken

/-- How a commit ends, with what it was given to store. -/
theorem commit_spec {path : String} {t : Place} {base : Bytes} (hd : d.Sound) {c : Created Staging}
    (hc : c.inner.Stores path t base d) (fault? : Option Disk.Fault) :
    ((∃ e, (c.commit fault?).1 = .error e) ∧ Restored path d (c.commit fault?).2) ∨
      ((c.commit fault?).1 = .ok () ∧ c.finish.1 = .ok () ∧
        ∃ b, c.finish.2.device.taken = base ++ b ∧ Replaced path b d (c.commit fault?).2) := by
  have hfinish := Created.inner_finish Staging.stable_stores hc
  rw [Created.commit]
  rcases hf : c.finish with ⟨e | ⟨⟩, s⟩ <;> rw [hf] at hfinish
  · exact .inl ⟨⟨e, rfl⟩, restored_discard hd hfinish⟩
  · rcases commit_cases hd hfinish fault? with ⟨herror, hrestored⟩ | ⟨hok, b, htaken, hreplaced⟩
    · exact .inl ⟨herror, hrestored⟩
    · exact .inr ⟨hok, rfl, b, htaken, hreplaced⟩

/-- What becomes of a created resource after some calls: given up it has left no trace, and so it has
    when its commit fails; committed it has replaced the destination with its content. -/
structure Settles (o : Opener S) (h : Handle) (nonces : Nonces) (d : Disk) (created : Created Staging)
    (requests : List Request) : Prop where
  discarded : Restored h.path d (created.performAll requests).2.discard
  failed : ∀ fault? e, ((created.performAll requests).2.commit fault?).1 = .error e →
    Restored h.path d ((created.performAll requests).2.commit fault?).2
  committed : ∀ fault?, ((created.performAll requests).2.commit fault?).1 = .ok () →
    ∃ content, Replaced h.path content d ((created.performAll requests).2.commit fault?).2 ∧
      Content o h nonces requests (created.performAll requests).1 content

/-- A plain resource has, once it is committed, replaced its destination with what its calls accepted. -/
theorem Settles.replaced_of_plain {created : Created Staging} {requests : List Request}
    (h' : Settles o h nonces d created requests) (hplain : h.encryption = .ok none)
    {fault? : Option Disk.Fault} (hok : ((created.performAll requests).2.commit fault?).1 = .ok ()) :
    Replaced h.path (accepted requests (created.performAll requests).1) d
      ((created.performAll requests).2.commit fault?).2 := by
  obtain ⟨content, hreplaced, hcontent⟩ := h'.committed fault? hok
  cases hcontent with
  | plain _ => exact hreplaced
  | encrypted hdraws => cases hplain.symm.trans hdraws.encrypted

/-- A resource in a file of its own settles, if what the device takes until it finishes is its content. -/
theorem settles_of_stores (hd : d.Sound) {created : Created Staging} {t : Place} {base : Bytes}
    (hstores : created.inner.Stores h.path t base d) {requests : List Request}
    (hcontent : ∀ b, (created.performAll requests).2.finish.1 = .ok () →
      (created.performAll requests).2.finish.2.device.taken = base ++ b →
      Content o h nonces requests (created.performAll requests).1 b) :
    Settles o h nonces d created requests := by
  have hwritten := Created.inner_performAll Staging.stable_stores hstores requests
  refine ⟨restored_discard hd hwritten, fun fault? e he => ?_, fun fault? hok => ?_⟩
  · rcases commit_spec hd hwritten fault? with ⟨-, hrestored⟩ | ⟨hok, -⟩
    · exact hrestored
    · rw [hok] at he
      cases he
  · rcases commit_spec hd hwritten fault? with ⟨⟨e, he⟩, -⟩ | ⟨-, hfinish, b, htaken, hreplaced⟩
    · rw [he] at hok
      cases hok
    · exact ⟨b, hreplaced, hcontent b hfinish htaken⟩

theorem content_plain (hplain : h.encryption = .ok none) (raw : Staging) (requests : List Request)
    {b : Bytes} (htaken : ((Created.plain raw).performAll requests).2.finish.2.device.taken =
      raw.device.taken ++ b) :
    Content o h nonces requests ((Created.plain raw).performAll requests).1 b := by
  have hsink := Created.plain_taken raw.device requests
  have hmap := Created.performAll_mapRaw Staging.maps_device (.plain raw) requests
  have hfinish := Created.finish_mapRaw Staging.maps_device ((Created.plain raw).performAll requests).2
  rw [show Created.plain raw.device = (Created.plain raw).mapRaw fun s => s.device from rfl, hmap,
    hfinish, htaken] at hsink
  cases List.append_cancel_left hsink
  exact .plain hplain

theorem content_encrypting {p : EncryptionParams} {secret : Passphrase} {cipher : BlockCipher}
    {context : Context} {header : Header}
    (hdraws : o.Draws h p (p.algorithm.getD o.options.defaultAlgorithm) secret cipher)
    (hlock : lock cipher h.path secret (p.algorithm.getD o.options.defaultAlgorithm) o.options.cost
      nonces = .ok (context, header))
    (raw : Staging) {base : Bytes} (hheader : raw.device.taken = base ++ header.encode)
    (requests : List Request) {b : Bytes}
    (hok : ((Created.encrypting header.algorithm (onTop raw context)).performAll requests).2.finish.1 =
      .ok ())
    (htaken : ((Created.encrypting header.algorithm
      (onTop raw context)).performAll requests).2.finish.2.device.taken = base ++ b) :
    Content o h nonces requests
      ((Created.encrypting header.algorithm (onTop raw context)).performAll requests).1 b := by
  obtain ⟨-, ⟨key, hkey⟩, hsize, hiv⟩ := lock_spec hlock
  have hpos : 0 < context.blockSize := by
    rw [hsize]
    decide
  have hmap := Created.performAll_mapRaw Staging.maps_device
    (.encrypting header.algorithm (onTop raw context)) requests
  have hfinish := Created.finish_mapRaw Staging.maps_device
    ((Created.encrypting header.algorithm (onTop raw context)).performAll requests).2
  have hsink := Created.encrypting_taken header.algorithm hkey hpos raw.device requests
  rw [show (Created.encrypting header.algorithm (onTop raw.device context)) =
    (Created.encrypting header.algorithm (onTop raw context)).mapRaw fun s => s.device from rfl,
    hmap, hfinish] at hsink
  obtain ⟨hanswers, hsealed, hstored⟩ := hsink hok
  rw [htaken, hheader, List.append_assoc] at hstored
  cases List.append_cancel_left hstored
  rw [hsize] at hsealed ⊢
  refine .encrypted hdraws hlock hkey hanswers (Header.length_encode header) hsealed ?_
  intro E hE
  rw [Container.sealing_of_encrypts hkey hE, hiv, hsize]

/-- **Creating a local resource is all or nothing,** on a disk on which no file has two names.  If it
    fails, or the resource is given up after any calls, or its commit fails, then the destination is as it
    was and nothing is left of the temporary file, whenever the device fails before that file is to be
    removed.  No file is touched before everything that has to be asked for is there.  After a commit the
    destination holds what the resource was given: the header and the sealed data, every call having
    succeeded, or what the calls on a plain resource accepted. -/
theorem creating_is_all_or_nothing (o : Opener S) (h : Handle) (nonces : Nonces) (hd : d.Sound)
    (device : Sink) (opening? : Option Disk.Fault) :
    let begun := o.createPath h nonces d device opening?
    (begun.2.2 ≠ d → o.Admits h nonces) ∧
    (∀ e, begun.1 = .error e → Restored h.path d begun.2.2) ∧
    ∀ created, begun.1 = .ok created → ∀ requests, Settles o h nonces d created requests := by
  have hbegins := createPath_begins o h nonces hd device opening?
  intro begun
  rcases hbegun : o.createPath h nonces d device opening? with ⟨outcome, o', d'⟩
  rw [hbegun] at hbegins
  rw [show begun = (outcome, o', d') from hbegun]
  cases hbegins with
  | refused e =>
    exact ⟨fun hne => absurd rfl hne, fun _ _ => .refl _ _, by rintro _ ⟨⟩⟩
  | broken hadmits hrestored =>
    exact ⟨fun _ => hadmits, fun _ _ => hrestored, by rintro _ ⟨⟩⟩
  | @plain _ raw t hadmits hplain hstores hdevice =>
    refine ⟨fun _ => hadmits, by rintro _ ⟨⟩, ?_⟩
    rintro created ⟨⟩ requests
    have hbelow : (Created.plain raw).inner.Stores h.path t device.taken d := hstores
    refine settles_of_stores hd hbelow fun b _ htaken => ?_
    exact content_plain hplain raw requests (hdevice ▸ htaken)
  | @encrypting _ raw t p secret cipher context header hadmits hdraws hlock hstores hheader =>
    refine ⟨fun _ => hadmits, by rintro _ ⟨⟩, ?_⟩
    rintro created ⟨⟩ requests
    have hbelow : (Created.encrypting header.algorithm (onTop raw context)).inner.Stores h.path t
        device.taken d := hstores
    refine settles_of_stores hd hbelow fun b hok htaken => ?_
    exact content_encrypting hdraws hlock raw hheader requests hok htaken

end Creating

/-- An opener that has a passphrase and the built-in ciphers. -/
def localOpener : Opener Passphrase := ⟨⟨[0x61], rfl⟩, .builtin, "here", .aes, ⟨8, 1, 1⟩⟩

/-- A salt and a chaining value. -/
def localNonces : Nonces := ⟨⟨List.replicate 16 1, rfl⟩, ⟨List.replicate 16 2, rfl⟩⟩

/-- A plain file on an empty disk: over a device that takes three bytes of four, and then renames the file
    or not; and over one that breaks at the second flush. -/
theorem creating_is_all_or_nothing_on_blank :
    (∃ created, (localOpener.createPath ⟨"file", "out", firstParam []⟩ localNonces blank
        ⟨[], [.takes 3], none, []⟩).1 = .ok created ∧
      (created.performAll [.write [1, 2, 3, 4], .flush]).2.commit.1 = .ok () ∧
      Replaced "out" [1, 2, 3] blank (created.performAll [.write [1, 2, 3, 4], .flush]).2.commit.2 ∧
      ((created.performAll [.write [1, 2, 3, 4], .flush]).2.commit (some ⟨0, .busy⟩)).1 = .error .busy ∧
      Restored "out" blank
        ((created.performAll [.write [1, 2, 3, 4], .flush]).2.commit (some ⟨0, .busy⟩)).2) ∧
    ∃ created, (localOpener.createPath ⟨"file", "out", firstParam []⟩ localNonces blank
        ⟨[], [], none, [none, some .brokenPipe]⟩).1 = .ok created ∧
      (created.performAll [.write [1], .flush]).2.commit.1 = .error .brokenPipe ∧
      Restored "out" blank (created.performAll [.write [1], .flush]).2.commit.2 := by
  constructor
  · have hsettles := (creating_is_all_or_nothing localOpener ⟨"file", "out", firstParam []⟩ localNonces
      blank_sound ⟨[], [.takes 3], none, []⟩ none).2.2 _ rfl [.write [1, 2, 3, 4], .flush]
    exact ⟨_, rfl, rfl, hsettles.replaced_of_plain rfl rfl, rfl, hsettles.failed _ .busy rfl⟩
  · have hsettles := (creating_is_all_or_nothing localOpener ⟨"file", "out", firstParam []⟩ localNonces
      blank_sound ⟨[], [], none, [none, some .brokenPipe]⟩ none).2.2 _ rfl [.write [1], .flush]
    exact ⟨_, rfl, rfl, hsettles.failed none .brokenPipe rfl⟩

/-- A disk with one file that has two names, its own and that of its temporary file. -/
def twice : Disk :=
  ((blank.newInode 0o644 [1, 2]).2.setEntry ["out"] (.file 0)).setEntry [".out.tmp"] (.file 0)

/-- **A destination is emptied through its other name.**  The temporary file is opened by a fixed name, and
    a file that has this name is emptied, though it be the destination itself: a resource that is given up
    has lost the file that was there. -/
theorem creating_empties_a_file_of_two_names :
    twice.readFile "out" = .ok [1, 2] ∧
      ∃ created, (localOpener.createPath ⟨"file", "out", firstParam []⟩ localNonces twice).1 =
          .ok created ∧
        created.discard.readFile "out" = .ok [] ∧ ¬ Restored "out" twice created.discard := by
  have hbefore : twice.readFile "out" = .ok [1, 2] := by rfl
  refine ⟨hbefore, _, rfl, rfl, fun hrestored => ?_⟩
  cases (hrestored.readable [1, 2]).mpr hbefore

end Coffer.Resource
