import Coffer.Proofs.Resource.Local
import Coffer.Proofs.Text.Blank
/-
  A request for encryption is not dropped.

  A resource asks for encryption when one of its two flags says yes (`Handle.Asks`).  It is taken for
  plain all the same in one case, namely that `enc` is there and says no (`encryption_eq_ok_none_iff`):
  `encrypted` is looked at only when there is no `enc`.  Everywhere else it is encrypted or refused,
  and then nothing but a front of one container (`Opener.Conceals`) ever reaches a raw stream
  (`writesConcealed`) or a disk (`createsConcealed`).
-/
namespace Coffer.Resource

open Cipher (Context)
open Container (BodyWriter Header ivSize pad sealing)
open Container.BodyWriter (Request submitted onTop)
open Disk (blank blank_sound)
open Keyring (SecretSource)

/-! ## Flags -/

/-- A flag value that says yes. -/
def Affirms (value : String) : Prop :=
  ∃ word ∈ ["", "1", "true", "yes"], Text.InAnyCase word value

/-- A flag value that says no. -/
def Denies (value : String) : Prop :=
  ∃ word ∈ ["0", "false", "no"], Text.InAnyCase word value

section Flags

variable {name value : String}

theorem exists_inAnyCase_iff {words : List String}
    (hwords : ∀ word ∈ words, word.toList.any Char.isUpper = false) :
    (∃ word ∈ words, Text.InAnyCase word value) ↔ Text.lower value ∈ words := by
  constructor
  · rintro ⟨word, hword, hvalue⟩
    rwa [(Text.lower_eq_iff_inAnyCase (List.any_eq_false.mp (hwords word hword))).mpr hvalue]
  · intro hlower
    exact ⟨_, hlower, (Text.lower_eq_iff_inAnyCase (List.any_eq_false.mp (hwords _ hlower))).mp rfl⟩

theorem affirms_iff : Affirms value ↔ Text.lower value ∈ ["", "1", "true", "yes"] :=
  exists_inAnyCase_iff (by decide)

theorem denies_iff : Denies value ↔ Text.lower value ∈ ["0", "false", "no"] :=
  exists_inAnyCase_iff (by decide)

/-- No value says both. -/
theorem Affirms.not_denies (h : Affirms value) : ¬Denies value := by
  rw [affirms_iff] at h
  rw [denies_iff]
  have hdisjoint : ∀ word ∈ ["", "1", "true", "yes"], word ∉ ["0", "false", "no"] := by decide
  exact hdisjoint _ h

/-- A flag is off when its value says no, and only then. -/
theorem flagValue_eq_false_iff : flagValue name value = .ok false ↔ Denies value := by
  rw [denies_iff, flagValue]
  split <;> simp_all

end Flags

/-! ## When a resource is plain -/

/-- The scheme is one that honours the parameters of encryption. -/
def Handle.Parameterized (h : Handle) : Prop := h.scheme ∈ ["vfile", "acc", "http", "https"]

instance (h : Handle) : Decidable h.Parameterized :=
  inferInstanceAs (Decidable (h.scheme ∈ ["vfile", "acc", "http", "https"]))

/-- One of the flags is there and says yes. -/
def Handle.Asks (h : Handle) : Prop :=
  ∃ name ∈ ["enc", "encrypted"], ∃ value, h.param name = some value ∧ Affirms value

/-- The flag that goes before the other is there and says no. -/
def Handle.Declines (h : Handle) : Prop := ∃ value, h.param "enc" = some value ∧ Denies value

section Policy

variable {h : Handle} {name value : String}

theorem Handle.Parameterized.kind_eq (hscheme : h.Parameterized) :
    SchemeKind.of h.scheme = .ok .parameterized := by
  have hall : ∀ scheme ∈ ["vfile", "acc", "http", "https"],
      SchemeKind.of scheme = .ok .parameterized := by
    intro scheme hmem
    simp only [List.mem_cons, List.not_mem_nil, or_false] at hmem
    rcases hmem with rfl | rfl | rfl | rfl <;> rfl
  exact hall _ hscheme

/-- With a flag a resource is plain if the flag says no, and only then. -/
theorem encryption_of_flag_eq_ok_none_iff (hscheme : h.Parameterized)
    (hflag : h.flag? = some (name, value)) : h.encryption = .ok none ↔ Denies value := by
  have hvalue : flagValue name value = .ok false ↔ Denies value := flagValue_eq_false_iff
  rw [← hvalue, Handle.encryption, hscheme.kind_eq, ok_bind, if_neg (by decide), hflag]
  simp only
  rcases flagValue name value with e | _ | _
  · exact ⟨nofun, nofun⟩
  · exact ⟨fun _ => rfl, fun _ => rfl⟩
  · -- The details of encryption can be wrong, but no detail makes the resource plain.
    have hdetails : ∀ algorithm? : Except ResolveError (Option Algorithm), (do
        let algorithm ← algorithm?
        if h.param "pwfile" = some "" then throw (.invalidParameter "pwfile" "empty secret location")
        return some ⟨algorithm, h.param "pwfile"⟩ : Except ResolveError (Option EncryptionParams)) ≠
          .ok none := by
      intro algorithm? hplain
      obtain ⟨algorithm, -, hplain⟩ := bind_eq_ok_iff.mp hplain
      split at hplain <;> cases hplain
    refine ⟨fun hplain => ?_, nofun⟩
    simp only [ok_bind, Bool.not_true, Bool.false_eq_true, if_false] at hplain
    split at hplain
    · exact absurd hplain (hdetails _)
    · split at hplain <;> exact absurd hplain (hdetails _)

/-- **A resource that asks for encryption is taken for plain exactly when it declines first.** -/
theorem encryption_eq_ok_none_iff (hscheme : h.Parameterized) (hasks : h.Asks) :
    h.encryption = .ok none ↔ h.Declines := by
  obtain ⟨name, hname, value, hparam, haffirms⟩ := hasks
  rcases henc : h.param "enc" with _ | decisive
  · -- Then it is the other flag that says yes, and it decides.
    have hother : h.param "encrypted" = some value := by
      simp only [List.mem_cons, List.not_mem_nil, or_false] at hname
      rcases hname with rfl | rfl
      · rw [henc] at hparam
        cases hparam
      · exact hparam
    have hflag : h.flag? = some ("encrypted", value) := by
      rw [Handle.flag?, henc, hother]
    rw [encryption_of_flag_eq_ok_none_iff hscheme hflag, Handle.Declines, henc]
    constructor
    · intro hdenies
      exact absurd hdenies haffirms.not_denies
    · rintro ⟨_, ⟨⟩, -⟩
  · have hflag : h.flag? = some ("enc", decisive) := by
      rw [Handle.flag?, henc]
    rw [encryption_of_flag_eq_ok_none_iff hscheme hflag, Handle.Declines, henc]
    constructor
    · intro hdenies
      exact ⟨decisive, rfl, hdenies⟩
    · rintro ⟨_, ⟨⟩, hdenies⟩
      exact hdenies

end Policy

/-! ## What is stored -/

section Storing

variable {S : Type} [SecretSource S] {o : Opener S} {h : Handle} {nonces : Nonces} {context : Context}
  {header : Header} {requests : List Request} {a : Algorithm}

/-- The context and the header that the opener writes the resource with. -/
def Opener.Locks (o : Opener S) (h : Handle) (nonces : Nonces) (context : Context) (header : Header) :
    Prop :=
  ∃ p secret cipher, o.Draws h p (p.algorithm.getD o.options.defaultAlgorithm) secret cipher ∧
    lock cipher h.path secret (p.algorithm.getD o.options.defaultAlgorithm) o.options.cost nonces =
      .ok (context, header)

/-- The bytes are a front of the container that these calls make: the header, and the data of the calls,
    padded and sealed. -/
def Opener.Conceals (o : Opener S) (h : Handle) (nonces : Nonces) (requests : List Request)
    (b : Bytes) : Prop :=
  ∃ context header key, o.Locks h nonces context header ∧ context.encryptKey = some key ∧
    b <+: header.encode ++ (sealing context key (pad ivSize (submitted requests))).blocks.flatten

/-- What the writer on top of a header has passed on, and what it leaves when it finishes. -/
theorem conceals_performAll (hlocks : o.Locks h nonces context header) {start : Sink} {base : Bytes}
    (hstart : start.taken = base ++ header.encode) (requests : List Request) :
    (∃ b, ((Created.encrypting a (onTop start context)).performAll requests).2.inner.taken =
        base ++ b ∧ o.Conceals h nonces requests b) ∧
      ∃ b, ((Created.encrypting a (onTop start context)).performAll requests).2.finish.2.taken =
        base ++ b ∧ o.Conceals h nonces requests b := by
  obtain ⟨p, secret, cipher, hdraws, hlock⟩ := id hlocks
  obtain ⟨-, ⟨key, hkey⟩, hsize, -⟩ := lock_spec hlock
  have hpos : 0 < context.blockSize := by
    rw [hsize]
    decide
  have hseals := BodyWriter.seals_performAll hkey hpos start requests
  rw [(Created.performAll_encrypting a (onTop start context) requests).2]
  -- A front of the sealed data is, behind the header, a front of the container.
  have hconceals : ∀ given, given <+:
      (sealing context key (pad context.blockSize (submitted requests))).blocks.flatten →
      o.Conceals h nonces requests (header.encode ++ given) := by
    intro given hgiven
    rw [hsize] at hgiven
    exact ⟨context, header, key, hlocks, hkey, (List.prefix_append_right_inj _).mpr hgiven⟩
  constructor
  · obtain ⟨given, htaken, hgiven⟩ := hseals.front
    exact ⟨_, by rw [← List.append_assoc, ← hstart]; exact htaken, hconceals given hgiven⟩
  · obtain ⟨given, htaken, hgiven, -⟩ := hseals.finished
    exact ⟨_, by rw [← List.append_assoc, ← hstart]; exact htaken, hconceals given hgiven⟩

/-! ### Raw streams -/

/-- How opening to write ends for a resource that is not plain. -/
inductive SealedOpening {W : Type} [Output W] (o : Opener S) (h : Handle) (nonces : Nonces) (raw : W) :
    Except ResolveError (Created W) × Opener S × W → Prop
  | refused (e : ResolveError) (o' : Opener S) : SealedOpening o h nonces raw (.error e, o', raw)
  | broken {context : Context} {header : Header} {e : IoError} {o' : Opener S} {left : W} :
      o.Locks h nonces context header → header.writeTo raw = (.error e, left) →
      SealedOpening o h nonces raw (.error (.io e), o', left)
  | begun {context : Context} {header : Header} {o' : Opener S} {left : W} :
      o.Locks h nonces context header → header.writeTo raw = (.ok (), left) →
      SealedOpening o h nonces raw (.ok (.encrypting header.algorithm (.onTop left context)), o', left)

theorem openWrite_sealed {W : Type} [Output W] (hne : h.encryption ≠ .ok none) (o : Opener S)
    (nonces : Nonces) (raw : W) : SealedOpening o h nonces raw (o.openWrite h nonces raw) := by
  rw [Opener.openWrite]
  rcases hprepare : o.prepareWrite h nonces with ⟨e | prepared, o'⟩
  · exact .refused e o'
  · rcases prepareWrite_eq_ok hprepare with
      ⟨-, hplain⟩ | ⟨p, secret, cipher, context, header, rfl, -, hdraws, hlock⟩
    · exact absurd hplain hne
    · have hlocks : o.Locks h nonces context header := ⟨p, secret, cipher, hdraws, hlock⟩
      rcases hwrite : header.writeTo raw with ⟨e | ⟨⟩, left⟩
      · simp only [beginWrite, hwrite]
        exact .broken hlocks hwrite
      · simp only [beginWrite, hwrite]
        exact .begun hlocks hwrite

/-- All that opening a raw stream to write, any calls, and finishing add to it is concealed. -/
structure WritesConcealed (o : Opener S) (h : Handle) (nonces : Nonces) (raw : Sink) : Prop where
  refused : ∀ e o' left, o.openWrite h nonces raw = (.error e, o', left) →
    ∃ b, left.taken = raw.taken ++ b ∧ (b = [] ∨ o.Conceals h nonces [] b)
  opened : ∀ created o' left, o.openWrite h nonces raw = (.ok created, o', left) →
    created.isEncrypted = true ∧ ∀ requests,
      (∃ b, (created.performAll requests).2.inner.taken = raw.taken ++ b ∧
        o.Conceals h nonces requests b) ∧
      ∃ b, (created.performAll requests).2.finish.2.taken = raw.taken ++ b ∧
        o.Conceals h nonces requests b

/-- **A raw stream is given nothing but a front of the container.** -/
theorem writesConcealed (hne : h.encryption ≠ .ok none) (o : Opener S) (nonces : Nonces) (raw : Sink) :
    WritesConcealed o h nonces raw := by
  have hsealed := openWrite_sealed hne o nonces raw
  constructor
  · intro e o' left hopen
    rw [hopen] at hsealed
    cases hsealed with
    | refused => exact ⟨[], (List.append_nil _).symm, .inl rfl⟩
    | @broken context header e o' left hlocks hwrite =>
      obtain ⟨p, secret, cipher, hdraws, hlock⟩ := id hlocks
      obtain ⟨-, ⟨key, hkey⟩, -, -⟩ := lock_spec hlock
      obtain ⟨given, hgiven, htaken, -⟩ := Sink.writeAll_spec raw header.encode
      have hleft : (raw.writeAll header.encode).2 = left := congrArg Prod.snd hwrite
      rw [hleft] at htaken
      exact ⟨given, htaken,
        .inr ⟨context, header, key, hlocks, hkey, hgiven.trans (List.prefix_append _ _)⟩⟩
  · intro created o' left hopen
    rw [hopen] at hsealed
    cases hsealed with
    | @begun context header o' left hlocks hwrite =>
      obtain ⟨given, -, htaken, hall⟩ := Sink.writeAll_spec raw header.encode
      have hwritten : raw.writeAll header.encode = (.ok (), left) := hwrite
      rw [hwritten] at htaken hall
      rw [hall rfl] at htaken
      exact ⟨rfl, conceals_performAll hlocks htaken⟩

/-! ### Local files -/

/-- All that creating a local resource, any calls, and committing add to the disk is concealed: until
    the commit it is in a temporary file, and then at the destination. -/
structure CreatesConcealed (o : Opener S) (h : Handle) (nonces : Nonces) (d : Disk) (device : Sink) :
    Prop where
  refused : ∀ fault? e o' d', o.createPath h nonces d device fault? = (.error e, o', d') →
    Restored h.path d d'
  created : ∀ fault? created o' d', o.createPath h nonces d device fault? = (.ok created, o', d') →
    created.isEncrypted = true ∧ ∀ requests,
      (∃ t b, (created.performAll requests).2.inner.file.Stands t b
          (created.performAll requests).2.inner.disk ∧
        Disk.Only [t] d (created.performAll requests).2.inner.disk ∧ o.Conceals h nonces requests b) ∧
      Restored h.path d (created.performAll requests).2.discard ∧
      ∀ fault?, (∀ e, ((created.performAll requests).2.commit fault?).1 = .error e →
          Restored h.path d ((created.performAll requests).2.commit fault?).2) ∧
        (((created.performAll requests).2.commit fault?).1 = .ok () →
          ∃ b, Replaced h.path b d ((created.performAll requests).2.commit fault?).2 ∧
            o.Conceals h nonces requests b)

/-- **A disk is given nothing but a front of the container,** if no file on it has two names. -/
theorem createsConcealed (hne : h.encryption ≠ .ok none) (o : Opener S) (nonces : Nonces) {d : Disk}
    (hd : d.Sound) (device : Sink) : CreatesConcealed o h nonces d device := by
  constructor
  · intro fault? e o' d' hcreate
    have hbegins := createPath_begins o h nonces hd device fault?
    rw [hcreate] at hbegins
    cases hbegins with
    | refused => exact .refl _ _
    | broken _ hrestored => exact hrestored
  · intro fault? created o' d' hcreate
    have hbegins := createPath_begins o h nonces hd device fault?
    rw [hcreate] at hbegins
    cases hbegins with
    | plain _ hplain => exact absurd hplain hne
    | @encrypting _ raw t p secret cipher context header _ hdraws hlock hstores hheader =>
      refine ⟨rfl, fun requests => ?_⟩
      -- The device below is given what the same calls give to a raw stream.
      have hmap := Created.performAll_mapRaw Staging.maps_device
        (.encrypting header.algorithm (onTop raw context)) requests
      have hfinish := Created.finish_mapRaw Staging.maps_device
        ((Created.encrypting header.algorithm (onTop raw context)).performAll requests).2
      obtain ⟨⟨b, hb, hconceals⟩, b', hb', hconceals'⟩ :=
        conceals_performAll (a := header.algorithm) ⟨p, secret, cipher, hdraws, hlock⟩ hheader requests
      rw [show (Created.encrypting header.algorithm (onTop raw.device context)) =
        (Created.encrypting header.algorithm (onTop raw context)).mapRaw fun s => s.device from rfl,
        hmap] at hb hb'
      rw [Created.inner_mapRaw] at hb
      rw [hfinish] at hb'
      have hafter := Created.inner_performAll Staging.stable_stores
        (c := .encrypting header.algorithm (onTop raw context)) hstores requests
      obtain ⟨stored, hstored, hstands⟩ := hafter.stands
      refine ⟨⟨t, stored, hstands, hafter.only, ?_⟩, restored_discard hd hafter,
        fun renaming? => ⟨fun e he => ?_, fun hok => ?_⟩⟩
      · rwa [List.append_cancel_left (hstored.symm.trans hb)]
      · rcases commit_spec hd hafter renaming? with ⟨-, hrestored⟩ | ⟨hok, -⟩
        · exact hrestored
        · rw [hok] at he
          cases he
      · rcases commit_spec hd hafter renaming? with ⟨⟨e, he⟩, -⟩ | ⟨-, -, committed, htaken, hreplaced⟩
        · rw [he] at hok
          cases hok
        · rw [List.append_cancel_left (hb'.symm.trans htaken)] at hconceals'
          exact ⟨committed, hreplaced, hconceals'⟩

end Storing

/-! ## Requests for encryption -/

/-- **A request for encryption is not dropped, unless it is declined first.**  A resource with a flag that
    says yes is taken for plain exactly when `enc` is there and says no.  If it is not declined, then
    nothing that opens it to write hands out its raw stream, and nothing but a front of one container is
    ever given to the raw stream, or to a disk on which no file has two names, whatever the calls and
    however they fail. -/
theorem requested_encryption_is_not_dropped {h : Handle} (hscheme : h.Parameterized) (hasks : h.Asks) :
    (h.encryption = .ok none ↔ h.Declines) ∧
    (¬h.Declines → ∀ {S : Type} [SecretSource S] (o : Opener S) (nonces : Nonces),
      (∀ {W : Type} [Output W] (raw left : W), (o.openWrite h nonces raw).1 ≠ .ok (.plain left)) ∧
      (∀ raw : Sink, WritesConcealed o h nonces raw) ∧
      ∀ (d : Disk) (device : Sink), d.Sound → CreatesConcealed o h nonces d device) := by
  have hplain := encryption_eq_ok_none_iff hscheme hasks
  refine ⟨hplain, fun hdeclines S _ o nonces => ?_⟩
  have hne : h.encryption ≠ .ok none := fun hnone => hdeclines (hplain.mp hnone)
  refine ⟨fun raw left hopen => ?_, writesConcealed hne o nonces,
    fun d device hd => createsConcealed hne o nonces hd device⟩
  have hsealed := openWrite_sealed hne o nonces raw
  rcases hresult : o.openWrite h nonces raw with ⟨outcome, o', raw'⟩
  rw [hresult] at hsealed hopen
  cases hopen
  cases hsealed

/-- Two flags that contradict each other, the second in capitals: the first decides. -/
theorem requested_encryption_is_not_dropped_on_two :
    (Handle.encryption ⟨"vfile", "out", firstParam [("encrypted", "no"), ("enc", "YES")]⟩ ≠ .ok none ∧
      WritesConcealed localOpener ⟨"vfile", "out", firstParam [("encrypted", "no"), ("enc", "YES")]⟩
        localNonces .empty ∧
      CreatesConcealed localOpener ⟨"vfile", "out", firstParam [("encrypted", "no"), ("enc", "YES")]⟩
        localNonces blank .empty) ∧
    Handle.encryption ⟨"vfile", "out", firstParam [("encrypted", "YES"), ("enc", "no")]⟩ = .ok none := by
  have hyes : Affirms "YES" := affirms_iff.mpr (by decide)
  constructor
  · obtain ⟨hplain, hconcealed⟩ := @requested_encryption_is_not_dropped
      ⟨"vfile", "out", firstParam [("encrypted", "no"), ("enc", "YES")]⟩ (by decide)
      ⟨"enc", by decide, "YES", rfl, hyes⟩
    have hdeclines : ¬Handle.Declines
        ⟨"vfile", "out", firstParam [("encrypted", "no"), ("enc", "YES")]⟩ := by
      rintro ⟨_, ⟨⟩, hdenies⟩
      exact hyes.not_denies hdenies
    obtain ⟨-, hwrites, hcreates⟩ := hconcealed hdeclines localOpener localNonces
    exact ⟨fun hnone => hdeclines (hplain.mp hnone), hwrites _, hcreates _ _ blank_sound⟩
  · exact (@requested_encryption_is_not_dropped
      ⟨"vfile", "out", firstParam [("encrypted", "YES"), ("enc", "no")]⟩ (by decide)
      ⟨"encrypted", by decide, "YES", rfl, hyes⟩).1.mpr ⟨"no", rfl, denies_iff.mpr (by decide)⟩

/-- A resource that asks with one flag and declines with the other is written as it is. -/
theorem declined_request_is_written_as_it_is :
    ∃ h : Handle, h = ⟨"vfile", "/x", firstParam [("enc", "no"), ("encrypted", "yes")]⟩ ∧
      h.Parameterized ∧ h.Asks ∧ h.encryption = .ok none ∧
      (localOpener.openWrite h localNonces Sink.empty).1 = .ok (.plain .empty) := by
  refine ⟨_, rfl, by decide, ?_, rfl, rfl⟩
  exact ⟨"encrypted", by decide, "yes", rfl, affirms_iff.mpr (by decide)⟩

end Coffer.Resource
