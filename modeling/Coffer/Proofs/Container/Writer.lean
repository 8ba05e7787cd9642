import Coffer.Container.Writer
import Coffer.Proofs.Cipher.Aes
import Coffer.Proofs.Container.Padding
import Coffer.Proofs.Stream.Sink
/-
  Writing a body is encrypting it in one go.

  `sealing context key data` chains the whole blocks of all the data at once, up to the first that the
  backend refuses.  A `BodyWriter` gets there call by call: while none of its writes has failed it
  `Follows` the data, with everything sealed passed on and the rest pending; afterwards it is `Stuck`
  with a front of what is sealed.  A write leads from the first to either of them (`Follows.write`),
  no call leads out of the second (`Stuck.performAll`), and `finish` seals the padded data
  (`Follows.finish`).
-/
namespace Coffer.Container

open Cipher (Context KeySchedule Chained BlockCipher)
open Resource (ResolveError)

/-- The chaining of the whole blocks of some data, where a context stands. -/
def sealing (context : Context) (key : KeySchedule) (data : Bytes) : Chained :=
  context.cipher.links key .encrypt context.encryptIv (blocks context.blockSize data)

section Sealing

variable {context : Context} {key : KeySchedule} {a : Bytes}

/-- More data only adds to what is sealed. -/
theorem prefix_sealing_append (hsize : 0 < context.blockSize) (key : KeySchedule) (a b : Bytes) :
    (sealing context key a).blocks.flatten <+: (sealing context key (a ++ b)).blocks.flatten := by
  obtain ⟨more, hmore⟩ := prefix_blocks_append hsize a b
  obtain ⟨tail, htail⟩ := @BlockCipher.prefix_links_append context.cipher key .encrypt
    context.encryptIv (blocks context.blockSize a) more
  rw [sealing, sealing, ← hmore, ← htail, List.flatten_append]
  exact List.prefix_append _ _

/-- Sealing goes on with the rest of the data and the chaining value behind it. -/
theorem sealing_append (hsize : 0 < context.blockSize)
    (h : (sealing context key a).failure? = none) (b : Bytes) :
    sealing context key (a ++ b) =
      ⟨(sealing context key a).blocks ++ (context.cipher.links key .encrypt
          (sealing context key a).iv (blocks context.blockSize (rest context.blockSize a ++ b))).blocks,
        (context.cipher.links key .encrypt
          (sealing context key a).iv (blocks context.blockSize (rest context.blockSize a ++ b))).iv,
        (context.cipher.links key .encrypt (sealing context key a).iv
          (blocks context.blockSize (rest context.blockSize a ++ b))).failure?⟩ := by
  rw [sealing, blocks_append_rest hsize]
  exact BlockCipher.links_append h _

/-- Data that is sealed has as many bytes as its whole blocks. -/
theorem length_sealing (h : (sealing context key a).failure? = none) :
    (sealing context key a).blocks.flatten.length =
      a.length / context.blockSize * context.blockSize := by
  rw [sealing] at h ⊢
  rw [length_flatten_of_length_eq
    (BlockCipher.length_of_mem_links fun _ hx => length_of_mem_blocks hx),
    BlockCipher.length_links h, length_blocks]

/-- Where the backend refuses no block, everything is sealed, and sealing is chaining. -/
theorem sealing_of_encrypts {E : Bytes → Bytes} (hkey : context.encryptKey = some key)
    (hE : context.Encrypts E) (data : Bytes) :
    sealing context key data =
      ⟨Cipher.chain E context.encryptIv (blocks context.blockSize data),
        (Cipher.chain E context.encryptIv (blocks context.blockSize data)).getLastD context.encryptIv,
        none⟩ := by
  obtain ⟨key', hkey', hblock⟩ := hE
  have heq : key' = key := Option.some.inj (hkey'.symm.trans hkey)
  subst heq
  exact Context.links_encrypt hblock fun _ hx => length_of_mem_blocks hx

end Sealing

namespace BodyWriter

variable {W : Type} [Output W] {w : BodyWriter W} {key : KeySchedule}

/-! ## Passing blocks on -/

/-- A batch whose encryption fails is not passed on. -/
theorem passOn_of_refused (hkey : w.context.encryptKey = some key) {count : Nat}
    (hmod : (w.pending.take count).length % w.context.blockSize = 0) {e : Cipher.CipherError}
    (h : (sealing w.context key (w.pending.take count)).failure? = some e) :
    ∃ context pending, w.passOn count =
      (.error (ResolveError.cipher e).toIo, ⟨w.inner, context, pending, true⟩) := by
  obtain ⟨scratch, tail, hp, -⟩ := Context.inPlace_eq (d := .encrypt) hkey hmod
  refine ⟨(w.context.inPlace .encrypt (w.pending.take count)).context,
    (w.context.inPlace .encrypt (w.pending.take count)).buffer ++ w.pending.drop count, ?_⟩
  have houtcome : (w.context.inPlace .encrypt (w.pending.take count)).outcome = .error e := by
    rw [hp]
    show (sealing w.context key (w.pending.take count)).outcome = .error e
    rw [Chained.outcome, h]
  simp only [passOn, houtcome]

/-- A batch whose encryption succeeds is passed on as a whole, as far as the raw stream takes it. -/
theorem passOn_of_sealed (hkey : w.context.encryptKey = some key) {count : Nat}
    (hmod : (w.pending.take count).length % w.context.blockSize = 0)
    (h : (sealing w.context key (w.pending.take count)).failure? = none) :
    ∃ scratch, w.passOn count =
      ((Output.writeAll w.inner (sealing w.context key (w.pending.take count)).blocks.flatten).1,
        ⟨(Output.writeAll w.inner (sealing w.context key (w.pending.take count)).blocks.flatten).2,
          w.context.moved .encrypt (sealing w.context key (w.pending.take count)).iv scratch,
          (sealing w.context key (w.pending.take count)).blocks.flatten ++ w.pending.drop count,
          !(Output.writeAll w.inner
            (sealing w.context key (w.pending.take count)).blocks.flatten).1.isOk⟩) := by
  obtain ⟨scratch, tail, hp, htail⟩ := Context.inPlace_eq (d := .encrypt) hkey hmod
  refine ⟨scratch, ?_⟩
  have hp : w.context.inPlace .encrypt (w.pending.take count) =
      ⟨.ok (), (sealing w.context key (w.pending.take count)).blocks.flatten,
        w.context.moved .encrypt (sealing w.context key (w.pending.take count)).iv scratch⟩ := by
    have htail : tail = [] := htail h
    rw [hp, htail, List.append_nil]
    show (⟨(sealing w.context key (w.pending.take count)).outcome, _, _⟩ : Cipher.Processed) = _
    rw [Chained.outcome, h]
    rfl
  simp only [passOn, hp]

/-- A write that leaves less than a block passes nothing on. -/
theorem write_of_short (hf : w.failed = false) {b : Bytes}
    (h : (w.pending ++ b).length - (w.pending ++ b).length % w.context.blockSize = 0) :
    w.write b = (.ok b.length, { w with pending := w.pending ++ b }) := by
  rw [write, if_neg (by rw [hf]; exact Bool.false_ne_true)]
  exact if_pos h

theorem write_of_passOn_error (hf : w.failed = false) {b : Bytes} {whole : Nat} (h0 : whole ≠ 0)
    (h : (w.pending ++ b).length - (w.pending ++ b).length % w.context.blockSize = whole)
    {e : IoError} {w' : BodyWriter W}
    (hpass : passOn whole { w with pending := w.pending ++ b } = (.error e, w')) :
    w.write b = (.error e, w') := by
  rw [write, if_neg (by rw [hf]; exact Bool.false_ne_true)]
  simp only [blockSize, h, h0, if_false, hpass]

theorem write_of_passOn_ok (hf : w.failed = false) {b : Bytes} {whole : Nat} (h0 : whole ≠ 0)
    (h : (w.pending ++ b).length - (w.pending ++ b).length % w.context.blockSize = whole)
    {w' : BodyWriter W} (hpass : passOn whole { w with pending := w.pending ++ b } = (.ok (), w')) :
    w.write b = (.ok b.length, { w' with pending := w'.pending.drop whole }) := by
  rw [write, if_neg (by rw [hf]; exact Bool.false_ne_true)]
  simp only [blockSize, h, h0, if_false, hpass]

/-! ## While no write has failed -/

/-- The writer on top of `start` has been given `data`: its whole blocks are sealed and passed on, and
    the rest is pending. -/
structure Follows (context : Context) (key : KeySchedule) (start : Sink) (data : Bytes)
    (w : BodyWriter Sink) : Prop where
  cipher_eq : w.context.cipher = context.cipher
  key_eq : w.context.encryptKey = some key
  iv_eq : w.context.encryptIv = (sealing context key data).iv
  sealed_eq : (sealing context key data).failure? = none
  pending_eq : w.pending = rest context.blockSize data
  taken_eq : w.inner.taken = start.taken ++ (sealing context key data).blocks.flatten
  failed_eq : w.failed = false

/-- A write of the writer has failed: it has passed on a front of what is sealed. -/
structure Stuck (context : Context) (key : KeySchedule) (start : Sink) (data : Bytes)
    (w : BodyWriter Sink) : Prop where
  taken_eq : ∃ given, given <+: (sealing context key data).blocks.flatten ∧
    w.inner.taken = start.taken ++ given
  failed_eq : w.failed = true

section Follows

variable {context : Context} {start : Sink} {data : Bytes} {w : BodyWriter Sink}

theorem Follows.blockSize_eq (h : Follows context key start data w) :
    w.context.blockSize = context.blockSize :=
  congrArg BlockCipher.blockSize h.cipher_eq

/-- What is sealed next, of the rest of the data and some more bytes. -/
theorem Follows.sealing_append (hsize : 0 < context.blockSize)
    (h : Follows context key start data w) {b batch : Bytes}
    (hbatch : blocks context.blockSize batch =
      blocks context.blockSize (rest context.blockSize data ++ b)) :
    sealing context key (data ++ b) =
      ⟨(sealing context key data).blocks ++ (sealing w.context key batch).blocks,
        (sealing w.context key batch).iv, (sealing w.context key batch).failure?⟩ := by
  have hnext : sealing w.context key batch = context.cipher.links key .encrypt
      (sealing context key data).iv (blocks context.blockSize (rest context.blockSize data ++ b)) := by
    rw [sealing, h.cipher_eq, h.blockSize_eq, h.iv_eq, hbatch]
  rw [hnext]
  exact Container.sealing_append hsize h.sealed_eq b

/-- What passing on the first `count` bytes of `pending` leads to, where that seals `b` behind the
    data: the encryption fails, or the raw stream breaks, or the batch is stored as a whole. -/
inductive PassedOn (context : Context) (key : KeySchedule) (start : Sink) (data : Bytes)
    (w : BodyWriter Sink) (b pending : Bytes) (count : Nat) : Except IoError Unit × BodyWriter Sink → Prop
  | refused {e : IoError} {w' : BodyWriter Sink} :
      (sealing context key (data ++ b)).failure? ≠ none → w'.inner = w.inner →
      Stuck context key start (data ++ b) w' →
      PassedOn context key start data w b pending count (.error e, w')
  | broken {e : IoError} {w' : BodyWriter Sink} {batch : Bytes} :
      (sealing context key (data ++ b)).failure? = none →
      w.inner.writeAll batch = (.error e, w'.inner) →
      Stuck context key start (data ++ b) w' →
      PassedOn context key start data w b pending count (.error e, w')
  | stored {w' : BodyWriter Sink} {batch : Bytes} :
      w.inner.writeAll batch = (.ok (), w'.inner) →
      batch.length = (pending.take count).length → w'.pending = batch ++ pending.drop count →
      Follows context key start (data ++ b)
        { w' with pending := rest context.blockSize (data ++ b) } →
      PassedOn context key start data w b pending count (.ok (), w')

/-- **Passing a batch on** seals the rest of the data and some more bytes: either the encryption fails
    and nothing is passed on, or the raw stream is given exactly what is sealed next. -/
theorem Follows.passOn (hsize : 0 < context.blockSize) (h : Follows context key start data w)
    {b pending : Bytes} {count : Nat} (hmod : (pending.take count).length % context.blockSize = 0)
    (hbatch : blocks context.blockSize (pending.take count) =
      blocks context.blockSize (rest context.blockSize data ++ b)) :
    PassedOn context key start data w b pending count
      (BodyWriter.passOn count { w with pending := pending }) := by
  have hmod' : (pending.take count).length % w.context.blockSize = 0 := by
    rw [h.blockSize_eq]
    exact hmod
  have happ := h.sealing_append hsize hbatch
  rcases hs : (sealing w.context key (pending.take count)).failure? with _ | e
  · -- The batch is encrypted; the raw stream takes all of it or a front.
    obtain ⟨batch, hb⟩ : ∃ batch, batch =
        (sealing w.context key (pending.take count)).blocks.flatten := ⟨_, rfl⟩
    obtain ⟨scratch, hpass⟩ := passOn_of_sealed
      (show ({ w with pending := pending } : BodyWriter Sink).context.encryptKey = some key from
        h.key_eq) hmod' hs
    have hsealed : (sealing context key (data ++ b)).blocks.flatten =
        (sealing context key data).blocks.flatten ++ batch := by
      rw [happ, List.flatten_append, hb]
    have hlen : batch.length = (pending.take count).length := by
      rw [hb, length_sealing hs, Nat.div_mul_cancel (Nat.dvd_of_mod_eq_zero hmod')]
    have hnone : (sealing context key (data ++ b)).failure? = none := by
      rw [happ]
      exact hs
    have hiv : (sealing context key (data ++ b)).iv =
        (sealing w.context key (pending.take count)).iv := by rw [happ]
    rw [hpass]
    show PassedOn _ _ _ _ _ _ _ _ ((w.inner.writeAll _).1,
      BodyWriter.mk (w.inner.writeAll _).2 _ _ (!(w.inner.writeAll _).1.isOk))
    rw [← hb]
    obtain ⟨given, hgiven, htaken, hall⟩ := Sink.writeAll_spec w.inner batch
    rw [h.taken_eq, List.append_assoc] at htaken
    rcases hw : w.inner.writeAll batch with ⟨e | ⟨⟩, inner⟩
    · rw [hw] at htaken
      refine .broken hnone hw ⟨⟨_, ?_, htaken⟩, rfl⟩
      rw [hsealed]
      exact (List.prefix_append_right_inj _).mpr hgiven
    · rw [hw] at htaken hall
      refine .stored hw hlen rfl ⟨?_, ?_, ?_, hnone, rfl, ?_, rfl⟩
      · exact (Context.moved_cipher ..).trans h.cipher_eq
      · exact (Context.moved_key? w.context .encrypt .encrypt _ scratch).trans h.key_eq
      · exact (Context.moved_iv w.context .encrypt _ scratch).trans hiv.symm
      · rw [hsealed, ← hall rfl]
        exact htaken
  · -- The backend refuses a block; the raw stream is not called.
    obtain ⟨context', pending', hpass⟩ := passOn_of_refused
      (show ({ w with pending := pending } : BodyWriter Sink).context.encryptKey = some key from
        h.key_eq) hmod' hs
    rw [hpass]
    refine .refused ?_ rfl ⟨⟨_, prefix_sealing_append hsize key data b, h.taken_eq⟩, rfl⟩
    rw [happ]
    show (sealing w.context key (pending.take count)).failure? ≠ none
    rw [hs]
    exact Option.some_ne_none e

/-- What one write leads to. -/
inductive Wrote (context : Context) (key : KeySchedule) (start : Sink) (data : Bytes)
    (w : BodyWriter Sink) (b : Bytes) : Except IoError Nat × BodyWriter Sink → Prop
  | taken {w' : BodyWriter Sink} :
      w'.inner = w.inner ∨ (∃ batch, w.inner.writeAll batch = (.ok (), w'.inner)) →
      Follows context key start (data ++ b) w' → Wrote context key start data w b (.ok b.length, w')
  | refused {e : IoError} {w' : BodyWriter Sink} :
      (sealing context key (data ++ b)).failure? ≠ none → w'.inner = w.inner →
      Stuck context key start (data ++ b) w' → Wrote context key start data w b (.error e, w')
  | broken {e : IoError} {w' : BodyWriter Sink} {batch : Bytes} :
      (sealing context key (data ++ b)).failure? = none →
      w.inner.writeAll batch = (.error e, w'.inner) →
      Stuck context key start (data ++ b) w' → Wrote context key start data w b (.error e, w')

/-- Bytes that do not fill a block stay behind, and nothing is sealed. -/
theorem Follows.append_short (hsize : 0 < context.blockSize) (h : Follows context key start data w)
    {b : Bytes} (hshort : (w.pending ++ b).length < context.blockSize) :
    Follows context key start (data ++ b) { w with pending := w.pending ++ b } := by
  have hnil : blocks context.blockSize (rest context.blockSize data ++ b) = [] := by
    rw [← h.pending_eq]
    exact blocks_eq_nil hshort
  have hsame : sealing context key (data ++ b) = sealing context key data := by
    rw [sealing, sealing, blocks_append_rest hsize, hnil, List.append_nil]
  refine ⟨h.cipher_eq, h.key_eq, ?_, ?_, ?_, ?_, h.failed_eq⟩
  · rw [hsame]
    exact h.iv_eq
  · rw [hsame]
    exact h.sealed_eq
  · rw [rest_append hsize, ← h.pending_eq, rest, Nat.div_eq_of_lt hshort, Nat.zero_mul, List.drop_zero]
  · rw [hsame]
    exact h.taken_eq

/-- **A write keeps following the data, or leaves the writer stuck.** -/
theorem Follows.write (hsize : 0 < context.blockSize) (h : Follows context key start data w)
    (b : Bytes) : Wrote context key start data w b (w.write b) := by
  obtain ⟨pending, hpending⟩ : ∃ pending, pending = w.pending ++ b := ⟨_, rfl⟩
  obtain ⟨whole, hwhole⟩ : ∃ whole, whole = pending.length / context.blockSize * context.blockSize :=
    ⟨_, rfl⟩
  have hle : whole ≤ pending.length := by
    rw [hwhole]
    exact Nat.div_mul_le_self _ _
  have hcount : (w.pending ++ b).length - (w.pending ++ b).length % w.context.blockSize = whole := by
    have hdiv := Nat.div_add_mod pending.length context.blockSize
    rw [Nat.mul_comm] at hdiv
    rw [← hpending, h.blockSize_eq]
    omega
  by_cases h0 : whole = 0
  · -- No block is full, and all of the bytes stay pending.
    rw [write_of_short h.failed_eq (hcount.trans h0)]
    have hq := (Nat.mul_eq_zero.mp (hwhole.symm.trans h0)).resolve_right (by omega)
    refine .taken (Or.inl rfl) (h.append_short hsize ?_)
    rw [← hpending]
    exact Nat.lt_of_div_eq_zero hsize hq
  · have htake : pending.take whole = (blocks context.blockSize pending).flatten := by
      rw [flatten_blocks, hwhole]
    have hmod : (pending.take whole).length % context.blockSize = 0 := by
      rw [htake]
      exact length_flatten_blocks_mod _ _
    have hbatch : blocks context.blockSize (pending.take whole) =
        blocks context.blockSize (rest context.blockSize data ++ b) := by
      rw [hwhole, blocks_take hsize, hpending, h.pending_eq]
    have hpassed := h.passOn hsize hmod hbatch
    rw [hpending] at hpassed
    rcases hp : BodyWriter.passOn whole { w with pending := w.pending ++ b } with ⟨answer, w'⟩
    rw [hp] at hpassed
    cases hpassed with
    | refused hno hinner hs =>
      rw [write_of_passOn_error h.failed_eq h0 hcount hp]
      exact .refused hno hinner hs
    | broken hnone hinner hs =>
      rw [write_of_passOn_error h.failed_eq h0 hcount hp]
      exact .broken hnone hinner hs
    | @stored _ batch hinner hlen hleft hf =>
      rw [write_of_passOn_ok h.failed_eq h0 hcount hp]
      have hdrop : w'.pending.drop whole = rest context.blockSize (data ++ b) := by
        rw [← hpending, List.length_take, Nat.min_eq_left hle] at hlen
        rw [hleft, ← hlen, List.drop_left, hlen, rest_append hsize, ← h.pending_eq, ← hpending, rest,
          hwhole]
      rw [hdrop]
      exact .taken (Or.inr ⟨batch, hinner⟩) hf

theorem finish_of_passOn_error {W : Type} [Output W] {w : BodyWriter W} (hf : w.failed = false)
    {e : IoError} {w' : BodyWriter W}
    (hpass : BodyWriter.passOn (pad w.context.blockSize w.pending).length
      { w with pending := pad w.context.blockSize w.pending } = (.error e, w')) :
    w.finish = (.error e, w'.inner) := by
  rw [finish, if_neg (by rw [hf]; exact Bool.false_ne_true)]
  simp only [blockSize, hpass]

theorem finish_of_passOn_ok {W : Type} [Output W] {w : BodyWriter W} (hf : w.failed = false)
    {w' : BodyWriter W}
    (hpass : BodyWriter.passOn (pad w.context.blockSize w.pending).length
      { w with pending := pad w.context.blockSize w.pending } = (.ok (), w')) :
    w.finish = Output.flush w'.inner := by
  rw [finish, if_neg (by rw [hf]; exact Bool.false_ne_true)]
  simp only [blockSize, hpass]

/-- What finishing leads to. -/
inductive Finished (context : Context) (key : KeySchedule) (start : Sink) (data : Bytes)
    (w : BodyWriter Sink) : Except IoError Unit × Sink → Prop
  | refused {e : IoError} : (sealing context key (pad context.blockSize data)).failure? ≠ none →
      Finished context key start data w (.error e, w.inner)
  | broken {e : IoError} {given batch : Bytes} {inner : Sink} :
      (sealing context key (pad context.blockSize data)).failure? = none →
      w.inner.writeAll batch = (.error e, inner) →
      given <+: (sealing context key (pad context.blockSize data)).blocks.flatten →
      inner.taken = start.taken ++ given → Finished context key start data w (.error e, inner)
  | stored {batch : Bytes} {inner : Sink} :
      (sealing context key (pad context.blockSize data)).failure? = none →
      w.inner.writeAll batch = (.ok (), inner) →
      inner.taken =
        start.taken ++ (sealing context key (pad context.blockSize data)).blocks.flatten →
      Finished context key start data w inner.flush

/-- **Finishing seals the padded data,** as far as the backend and the raw stream let it. -/
theorem Follows.finish (hsize : 0 < context.blockSize) (h : Follows context key start data w) :
    Finished context key start data w w.finish := by
  have hpending : pad w.context.blockSize w.pending = pad context.blockSize (rest context.blockSize data) := by
    rw [h.blockSize_eq, h.pending_eq]
  have htake : (pad w.context.blockSize w.pending).take (pad w.context.blockSize w.pending).length =
      pad context.blockSize (rest context.blockSize data) := by
    rw [List.take_length, hpending]
  have hmod : ((pad w.context.blockSize w.pending).take
      (pad w.context.blockSize w.pending).length).length % context.blockSize = 0 := by
    rw [htake]
    exact length_pad_mod hsize _
  have hbatch : blocks context.blockSize ((pad w.context.blockSize w.pending).take
      (pad w.context.blockSize w.pending).length) =
        blocks context.blockSize (rest context.blockSize data ++ List.replicate
          (padCount context.blockSize data.length)
          (UInt8.ofNat (padCount context.blockSize data.length))) := by
    rw [htake, rest_append_padding]
  have hpassed := h.passOn hsize hmod hbatch
  rcases hp : BodyWriter.passOn (pad w.context.blockSize w.pending).length
    { w with pending := pad w.context.blockSize w.pending } with ⟨answer, w'⟩
  rw [hp] at hpassed
  cases hpassed with
  | refused hno hinner hs =>
    rw [finish_of_passOn_error h.failed_eq hp, hinner]
    exact .refused hno
  | broken hnone hinner hs =>
    obtain ⟨given, hgiven, htaken⟩ := hs.taken_eq
    rw [finish_of_passOn_error h.failed_eq hp]
    exact .broken hnone hinner hgiven htaken
  | stored hinner _ _ hf =>
    rw [finish_of_passOn_ok h.failed_eq hp]
    exact .stored hf.sealed_eq hinner hf.taken_eq

/-- A finish leaves a front of the sealed data, all of it where it succeeds, and nothing more where
    the last encryption fails. -/
theorem Finished.spec {result : Except IoError Unit × Sink} (h : Follows context key start data w)
    (hsize : 0 < context.blockSize) (hfin : Finished context key start data w result) :
    (∃ given, result.2.taken = start.taken ++ given ∧
      given <+: (sealing context key (pad context.blockSize data)).blocks.flatten ∧
      (result.1 = .ok () → (sealing context key (pad context.blockSize data)).failure? = none ∧
        given = (sealing context key (pad context.blockSize data)).blocks.flatten)) ∧
    ((sealing context key (pad context.blockSize data)).failure? ≠ none →
      (∃ e, result.1 = .error e) ∧ result.2 = w.inner) := by
  cases hfin with
  | refused hno =>
    constructor
    · refine ⟨_, h.taken_eq, prefix_sealing_append hsize key data _, ?_⟩
      intro hok
      cases hok
    · intro _
      exact ⟨⟨_, rfl⟩, rfl⟩
  | broken hnone _ hgiven htaken =>
    constructor
    · refine ⟨_, htaken, hgiven, ?_⟩
      intro hok
      cases hok
    · intro hno
      exact absurd hnone hno
  | stored hnone _ htaken =>
    constructor
    · refine ⟨_, (Sink.taken_flush _).trans htaken, List.prefix_refl _, ?_⟩
      intro _
      exact ⟨hnone, rfl⟩
    · intro hno
      exact absurd hnone hno

end Follows

/-! ## Once a write has failed -/

section Stuck

variable {context : Context} {start : Sink} {data : Bytes} {w : BodyWriter Sink}

/-- More data makes no difference to a writer that is stuck. -/
theorem Stuck.append (hsize : 0 < context.blockSize) (h : Stuck context key start data w)
    (b : Bytes) : Stuck context key start (data ++ b) w := by
  obtain ⟨given, hgiven, htaken⟩ := h.taken_eq
  exact ⟨⟨given, hgiven.trans (prefix_sealing_append hsize key data b), htaken⟩, h.failed_eq⟩

theorem write_of_failed {W : Type} [Output W] {w : BodyWriter W} (hf : w.failed = true) (b : Bytes) :
    w.write b = (.error alreadyFailed, w) := by
  rw [write, if_pos hf]

theorem flush_of_failed {W : Type} [Output W] {w : BodyWriter W} (hf : w.failed = true) :
    w.flush = (.error alreadyFailed, w) := by
  rw [flush, if_pos hf]

theorem finish_of_failed {W : Type} [Output W] {w : BodyWriter W} (hf : w.failed = true) :
    w.finish = (.error alreadyFailed, w.inner) := by
  rw [finish, if_pos hf]

end Stuck

/-! ## Any number of calls -/

/-- A call on a writer before it is finished. -/
inductive Request
  | write (b : Bytes)
  | flush

/-- The data that some calls submit. -/
def submitted (requests : List Request) : Bytes :=
  requests.flatMap fun
    | .write b => b
    | .flush => []

/-- One call, and whether it succeeds. -/
def perform (w : BodyWriter W) : Request → Except IoError Unit × BodyWriter W
  | .write b => ((w.write b).1.map fun _ => (), (w.write b).2)
  | .flush => w.flush

/-- Calls one after the other. -/
def performAll : List Request → BodyWriter W → List (Except IoError Unit) × BodyWriter W
  | [], w => ([], w)
  | r :: later, w => ((w.perform r).1 :: (performAll later (w.perform r).2).1,
      (performAll later (w.perform r).2).2)

/-- None of the writes among some calls has failed. -/
def NoWriteFailed (requests : List Request) (answers : List (Except IoError Unit)) : Prop :=
  ∀ b answer, (Request.write b, answer) ∈ requests.zip answers → answer = .ok ()

theorem noWriteFailed_cons {r : Request} {answer : Except IoError Unit} {requests : List Request}
    {answers : List (Except IoError Unit)} :
    NoWriteFailed (r :: requests) (answer :: answers) ↔
      (∀ b, r = .write b → answer = .ok ()) ∧ NoWriteFailed requests answers := by
  constructor
  · intro h
    constructor
    · rintro b rfl
      exact h b answer List.mem_cons_self
    · intro b a hm
      exact h b a (List.mem_cons_of_mem _ hm)
  · rintro ⟨hfirst, hlater⟩ b a hm
    rcases List.mem_cons.mp hm with heq | hm
    · obtain ⟨hr, rfl⟩ := Prod.mk.inj heq
      exact hfirst b hr.symm
    · exact hlater b a hm

section Calls

variable {context : Context} {start : Sink} {data : Bytes} {w : BodyWriter Sink}

/-- A flush passes nothing on. -/
theorem Follows.flush (h : Follows context key start data w) :
    Follows context key start data w.flush.2 := by
  have hok : ¬ w.failed = true := by
    rw [h.failed_eq]
    exact Bool.false_ne_true
  rw [BodyWriter.flush, if_neg hok]
  exact { h with taken_eq := (Sink.taken_flush w.inner).trans h.taken_eq }

/-- **No call leads out of a failure:** each fails again, and the raw stream is left alone. -/
theorem performAll_of_failed (hf : w.failed = true) (requests : List Request) :
    w.performAll requests = (List.replicate requests.length (.error alreadyFailed), w) := by
  induction requests with
  | nil => rfl
  | cons r later ih =>
    have hstep : w.perform r = (.error alreadyFailed, w) := by
      cases r with
      | write b => rw [perform, write_of_failed hf]; rfl
      | flush => exact flush_of_failed hf
    rw [performAll, hstep, ih]
    rfl

/-- **Any calls either keep following the data or leave the writer stuck,** and it is stuck exactly
    when a write has failed. -/
theorem Follows.performAll (hsize : 0 < context.blockSize) (h : Follows context key start data w)
    (requests : List Request) :
    (NoWriteFailed requests (w.performAll requests).1 ∧
      Follows context key start (data ++ submitted requests) (w.performAll requests).2) ∨
    (¬ NoWriteFailed requests (w.performAll requests).1 ∧
      Stuck context key start (data ++ submitted requests) (w.performAll requests).2) := by
  induction requests generalizing data w with
  | nil =>
    left
    constructor
    · intro b a hm
      exact absurd hm List.not_mem_nil
    · rw [submitted, List.flatMap_nil, List.append_nil]
      exact h
  | cons r later ih =>
    rw [BodyWriter.performAll]
    cases r with
    | flush =>
      have hmore : data ++ submitted (.flush :: later) = data ++ submitted later := rfl
      rw [hmore, noWriteFailed_cons]
      -- A flush may fail, but it is no write: the writer follows on.
      have hr : ∀ b, Request.flush = .write b → (w.perform .flush).1 = .ok () := by
        intro b hb
        cases hb
      rcases ih h.flush with ⟨hall, hf⟩ | ⟨hnot, hs⟩
      · exact Or.inl ⟨⟨hr, hall⟩, hf⟩
      · exact Or.inr ⟨fun hboth => hnot hboth.2, hs⟩
    | write b =>
      have hmore : data ++ submitted (.write b :: later) = data ++ b ++ submitted later :=
        (List.append_assoc data b _).symm
      rw [hmore, noWriteFailed_cons]
      have hwrote := h.write hsize b
      rw [perform]
      rcases hw : w.write b with ⟨answer, w'⟩
      rw [hw] at hwrote
      cases hwrote with
      | taken _ hf =>
        rcases ih hf with ⟨hall, hf⟩ | ⟨hnot, hs⟩
        · exact Or.inl ⟨⟨fun _ _ => rfl, hall⟩, hf⟩
        · exact Or.inr ⟨fun hboth => hnot hboth.2, hs⟩
      | refused _ _ hs =>
        right
        constructor
        · intro hboth
          cases hboth.1 b rfl
        · rw [performAll_of_failed hs.failed_eq]
          exact hs.append hsize _
      | broken _ _ hs =>
        right
        constructor
        · intro hboth
          cases hboth.1 b rfl
        · rw [performAll_of_failed hs.failed_eq]
          exact hs.append hsize _

/-- What the calls made so far on a writer on top of `start` have come to, and what follows. -/
structure Seals (context : Context) (key : KeySchedule) (start : Sink) (requests : List Request)
    (answers : List (Except IoError Unit)) (w : BodyWriter Sink) : Prop where
  /-- What the raw stream has taken is a front of the sealed data. -/
  front : ∃ given, w.inner.taken = start.taken ++ given ∧
    given <+: (sealing context key (pad context.blockSize (submitted requests))).blocks.flatten
  /-- Until a write fails, it has taken exactly the whole blocks, and the rest is pending. -/
  exact : NoWriteFailed requests answers →
    (sealing context key (submitted requests)).failure? = none ∧
    w.inner.taken =
      start.taken ++ (sealing context key (submitted requests)).blocks.flatten ∧
    w.pending = rest context.blockSize (submitted requests) ∧
    w.pending.length < context.blockSize
  /-- Nothing of a batch whose encryption fails reaches the raw stream. -/
  refused : ∀ b, (sealing context key (submitted requests ++ b)).failure? ≠ none →
    (∃ e, (w.write b).1 = .error e) ∧ (w.write b).2.inner = w.inner
  finishRefused :
    (sealing context key (pad context.blockSize (submitted requests))).failure? ≠ none →
    (∃ e, w.finish.1 = .error e) ∧ w.finish.2 = w.inner
  /-- Finishing leaves a front again, and all of it where it succeeds. -/
  finished : ∃ given, w.finish.2.taken = start.taken ++ given ∧
    given <+: (sealing context key (pad context.blockSize (submitted requests))).blocks.flatten ∧
    (w.finish.1 = .ok () →
      (sealing context key (pad context.blockSize (submitted requests))).failure? = none ∧
      given = (sealing context key (pad context.blockSize (submitted requests))).blocks.flatten)
  /-- After a failed write every call fails, and the raw stream is left alone. -/
  stuck : ¬ NoWriteFailed requests answers →
    (∀ later, (∀ a ∈ (w.performAll later).1, ∃ e, a = .error e) ∧ (w.performAll later).2 = w) ∧
    ∃ e, w.finish = (.error e, w.inner)

theorem Follows.seals (hsize : 0 < context.blockSize) {requests : List Request}
    {answers : List (Except IoError Unit)} (hall : NoWriteFailed requests answers)
    (h : Follows context key start (submitted requests) w) :
    Seals context key start requests answers w := by
  obtain ⟨hfinished, hrefused⟩ := (h.finish hsize).spec h hsize
  refine ⟨⟨_, h.taken_eq, prefix_sealing_append hsize key _ _⟩, ?_, ?_, hrefused, hfinished, ?_⟩
  · intro _
    refine ⟨h.sealed_eq, h.taken_eq, h.pending_eq, ?_⟩
    rw [h.pending_eq]
    exact length_rest_lt hsize _
  · intro b hb
    have hwrote := h.write hsize b
    rcases hw : w.write b with ⟨answer, w'⟩
    rw [hw] at hwrote
    cases hwrote with
    | taken _ hf => exact absurd hf.sealed_eq hb
    | refused _ hinner _ => exact ⟨⟨_, rfl⟩, hinner⟩
    | broken hnone _ _ => exact absurd hnone hb
  · intro hnot
    exact absurd hall hnot

theorem Stuck.seals (hsize : 0 < context.blockSize) {requests : List Request}
    {answers : List (Except IoError Unit)} (hnot : ¬ NoWriteFailed requests answers)
    (h : Stuck context key start (submitted requests) w) :
    Seals context key start requests answers w := by
  obtain ⟨given, hgiven, htaken⟩ := h.taken_eq
  have hfront := hgiven.trans (prefix_sealing_append hsize key (submitted requests) (List.replicate
    (padCount context.blockSize (submitted requests).length)
    (UInt8.ofNat (padCount context.blockSize (submitted requests).length))))
  have hfinish := finish_of_failed h.failed_eq
  refine ⟨⟨given, htaken, hfront⟩, fun hall => absurd hall hnot, ?_, ?_, ?_, ?_⟩
  · intro b _
    rw [write_of_failed h.failed_eq]
    exact ⟨⟨_, rfl⟩, rfl⟩
  · intro _
    rw [hfinish]
    exact ⟨⟨_, rfl⟩, rfl⟩
  · rw [hfinish]
    refine ⟨given, htaken, hfront, ?_⟩
    intro hok
    cases hok
  · intro _
    refine ⟨?_, _, hfinish⟩
    intro later
    rw [performAll_of_failed h.failed_eq]
    refine ⟨?_, rfl⟩
    intro a ha
    exact ⟨_, List.eq_of_mem_replicate ha⟩

end Calls

theorem follows_onTop {context : Context} (hkey : context.encryptKey = some key) (start : Sink) :
    Follows context key start [] (onTop start context) := by
  have hnil : sealing context key [] = ⟨[], context.encryptIv, none⟩ := by
    rw [sealing, blocks_nil]
    rfl
  refine ⟨rfl, hkey, ?_, ?_, List.drop_nil.symm, ?_, rfl⟩
  · rw [hnil]
    rfl
  · rw [hnil]
  · rw [hnil]
    exact (List.append_nil _).symm

/-- Whatever the calls, they seal what they submit. -/
theorem seals_performAll {context : Context} (hkey : context.encryptKey = some key)
    (hsize : 0 < context.blockSize) (start : Sink) (requests : List Request) :
    Seals context key start requests ((onTop start context).performAll requests).1
      ((onTop start context).performAll requests).2 := by
  rcases (follows_onTop hkey start).performAll hsize requests with ⟨hall, hf⟩ | ⟨hnot, hs⟩
  · exact hf.seals hsize hall
  · exact hs.seals hsize hnot

/-! ## Over a raw stream that never fails -/

section ErrorFree

variable {context : Context} {E : Bytes → Bytes} {start : Sink} {data : Bytes} {w : BodyWriter Sink}

/-- A write succeeds where the backend refuses no block and the raw stream never fails. -/
theorem Wrote.of_errorFree (hkey : context.encryptKey = some key) (hE : context.Encrypts E)
    (hfree : w.inner.ErrorFree) {b : Bytes} {result : Except IoError Nat × BodyWriter Sink}
    (h : Wrote context key start data w b result) :
    ∃ w', result = (.ok b.length, w') ∧ w'.inner.ErrorFree ∧
      Follows context key start (data ++ b) w' := by
  cases h with
  | @taken w' hinner hf =>
    refine ⟨w', rfl, ?_, hf⟩
    rcases hinner with heq | ⟨batch, hall⟩
    · rw [heq]
      exact hfree
    · have hfree' := (hfree.writeAll batch).2
      rw [hall] at hfree'
      exact hfree'
  | refused hno _ _ =>
    rw [sealing_of_encrypts hkey hE] at hno
    exact absurd rfl hno
  | @broken _ _ batch _ hinner _ =>
    have hok := (hfree.writeAll batch).1
    rw [hinner] at hok
    cases hok

/-- So does finishing, and then the raw stream has taken the sealed text. -/
theorem Finished.of_errorFree (hkey : context.encryptKey = some key) (hE : context.Encrypts E)
    (hfree : w.inner.ErrorFree) {result : Except IoError Unit × Sink}
    (h : Finished context key start data w result) :
    result.1 = .ok () ∧ result.2.taken = start.taken ++ (Cipher.chain E context.encryptIv
      (blocks context.blockSize (pad context.blockSize data))).flatten := by
  cases h with
  | refused hno =>
    rw [sealing_of_encrypts hkey hE] at hno
    exact absurd rfl hno
  | @broken _ _ batch _ _ hinner _ _ =>
    have hok := (hfree.writeAll batch).1
    rw [hinner] at hok
    cases hok
  | @stored batch inner _ hinner htaken =>
    have hfree' := (hfree.writeAll batch).2
    rw [hinner] at hfree'
    rw [sealing_of_encrypts hkey hE] at htaken
    exact ⟨hfree'.flush.1, (Sink.taken_flush inner).trans htaken⟩

/-- **No call fails** where the backend refuses no block and the raw stream never fails. -/
theorem Follows.performAll_of_errorFree (hkey : context.encryptKey = some key)
    (hE : context.Encrypts E) (hsize : 0 < context.blockSize) (h : Follows context key start data w)
    (hfree : w.inner.ErrorFree) (requests : List Request) :
    (w.performAll requests).1 = List.replicate requests.length (.ok ()) := by
  induction requests generalizing data w with
  | nil => rfl
  | cons r later ih =>
    rw [BodyWriter.performAll, List.length_cons, List.replicate_succ]
    cases r with
    | flush =>
      have hflush : w.flush = ((w.inner.flush).1, { w with inner := w.inner.flush.2 }) := by
        rw [BodyWriter.flush, if_neg (by rw [h.failed_eq]; exact Bool.false_ne_true)]
        rfl
      have hnext := h.flush
      rw [perform, hflush]
      rw [hflush] at hnext
      rw [hfree.flush.1, ih hnext hfree.flush.2]
    | write b =>
      obtain ⟨w', hw, hfree', hf⟩ := (h.write hsize b).of_errorFree hkey hE hfree
      rw [perform, hw, ih hf hfree']
      rfl

end ErrorFree

/-! ## What any calls come to -/

/-- **Calls on a writer seal the data they submit, in order,** whatever the raw stream does with its
    bytes: what has been taken is always a front of the sealed data, exactly its whole blocks until a
    write fails, and all of it after a successful finish; once a write has failed nothing more is
    taken.  Where the backend refuses no block, sealing is chaining. -/
theorem calls_seal_the_data {context : Context} (hkey : context.encryptKey = some key)
    (hsize : 0 < context.blockSize) (start : Sink) (requests : List Request) :
    Seals context key start requests ((onTop start context).performAll requests).1
      ((onTop start context).performAll requests).2 ∧
    ∀ E, context.Encrypts E → ∀ data : Bytes,
      (sealing context key data).failure? = none ∧ (sealing context key data).blocks =
        Cipher.chain E context.encryptIv (blocks context.blockSize data) := by
  constructor
  · rcases (follows_onTop hkey start).performAll hsize requests with ⟨hall, hf⟩ | ⟨hnot, hs⟩
    · exact hf.seals hsize hall
    · exact hs.seals hsize hnot
  · rintro E hE data
    rw [sealing_of_encrypts hkey hE]
    exact ⟨rfl, rfl⟩

/-- On AES, over a raw stream that takes five bytes and then breaks. -/
theorem calls_seal_the_data_on_aes :
    ∃ (context : Context) (key : KeySchedule) (start : Sink) (requests : List Request),
      start = ⟨[], [.takes 5, .fails .brokenPipe], none, []⟩ ∧
      requests = [.write (List.replicate 20 1), .flush, .write [2]] ∧
      context.encryptKey = some key ∧ 0 < context.blockSize ∧
      Seals context key start requests ((onTop start context).performAll requests).1
        ((onTop start context).performAll requests).2 := by
  obtain ⟨context, E, D, hset, hinv⟩ := Cipher.Aes.keyed_inverts
    (show (Context.fresh Cipher.Aes.portable "log").cipher = _ from rfl)
    (show Cipher.Aes.IsKeyLength (List.replicate 32 7 : Bytes).length from Or.inr (Or.inr rfl))
  obtain ⟨key, hkey, -⟩ := hinv.encrypts
  have hsize : 0 < context.blockSize := by
    obtain ⟨-, -, ek, dk, -, -, rfl⟩ := Context.setKey_eq_ok_iff.mp hset
    exact Nat.succ_pos 15
  exact ⟨context, key, _, _, rfl, rfl, hkey, hsize, (calls_seal_the_data hkey hsize _ _).1⟩

end BodyWriter

end Coffer.Container
