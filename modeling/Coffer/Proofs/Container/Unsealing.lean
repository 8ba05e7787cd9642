import Coffer.Proofs.Container.Reader
/-
  Reading a body with a backend that may refuse blocks.

  `unsealing context key body` unchains the whole blocks of a body at once, up to the first that the
  backend refuses.  A body `Unseals` to some data when no block is refused and what comes out is the
  data with padding; where the backend computes a function, that is `Opens` (`unseals_iff_opens`).

  Nothing is assumed of the backend here, so `Holds` says of a reader what does not depend on the
  plaintext: what it has seen, what it holds back and where its chaining value stands.  A raw read
  with some bytes preserves it or breaks the reader (`Holds.refill_gave`).  A reader of a body that
  does not unseal comes to a failure in the end, and never to a clean end (`Midway.reads`).
-/
namespace Coffer.Container

open Cipher (Context KeySchedule Chained BlockCipher)
open Resource (ResolveError)

/-! ## Bodies that unseal -/

/-- The unchaining of the whole blocks of a body, where a context stands. -/
def unsealing (context : Context) (key : KeySchedule) (body : Bytes) : Chained :=
  context.cipher.links key .decrypt context.decryptIv (blocks context.blockSize body)

/-- A body of whole blocks, at least one, none of them refused, that come to `data` with padding. -/
def Unseals (context : Context) (key : KeySchedule) (body data : Bytes) : Prop :=
  body ≠ [] ∧ body.length % context.blockSize = 0 ∧ (unsealing context key body).failure? = none ∧
    Padded context.blockSize data (unsealing context key body).blocks.flatten

section Unsealing

variable {context other : Context} {key : KeySchedule} {a b body data : Bytes}

theorem unsealing_nil (context : Context) (key : KeySchedule) :
    unsealing context key [] = ⟨[], context.decryptIv, none⟩ := by
  rw [unsealing, blocks_nil]
  rfl

/-- Unsealing goes on behind whole blocks from the chaining value there, on any context that agrees
    with the first one. -/
theorem unsealing_append (hsize : 0 < context.blockSize) (ha : a.length % context.blockSize = 0)
    (h : (unsealing context key a).failure? = none) (hcipher : other.cipher = context.cipher)
    (hiv : other.decryptIv = (unsealing context key a).iv) (b : Bytes) :
    unsealing context key (a ++ b) =
      ⟨(unsealing context key a).blocks ++ (unsealing other key b).blocks,
        (unsealing other key b).iv, (unsealing other key b).failure?⟩ := by
  have hnext : unsealing other key b = context.cipher.links key .decrypt (unsealing context key a).iv
      (blocks context.blockSize b) := by
    rw [unsealing, Context.blockSize, hcipher, hiv]
    rfl
  rw [hnext, unsealing, blocks_append hsize ha]
  exact BlockCipher.links_append h _

/-- What comes out of whole blocks is as long as they are. -/
theorem length_unsealing (h : (unsealing context key a).failure? = none) :
    (unsealing context key a).blocks.flatten.length =
      a.length / context.blockSize * context.blockSize := by
  rw [unsealing] at h ⊢
  rw [length_flatten_of_length_eq
    (BlockCipher.length_of_mem_links fun _ hx => length_of_mem_blocks hx),
    BlockCipher.length_links h, length_blocks]

/-- Where the backend computes a function, unsealing is unchaining. -/
theorem unsealing_of_decrypts {D : Bytes → Bytes} (hkey : context.decryptKey = some key)
    (hD : context.Decrypts D) (body : Bytes) :
    unsealing context key body =
      ⟨Cipher.unchain D context.decryptIv (blocks context.blockSize body),
        (blocks context.blockSize body).getLastD context.decryptIv, none⟩ := by
  obtain ⟨key', hkey', hblock⟩ := hD
  have heq : key' = key := Option.some.inj (hkey'.symm.trans hkey)
  subst heq
  exact Context.links_decrypt hblock fun _ hx => length_of_mem_blocks hx

theorem unseals_iff_opens {D : Bytes → Bytes} (hkey : context.decryptKey = some key)
    (hD : context.Decrypts D) :
    Unseals context key body data ↔ Opens D context.blockSize context.decryptIv body data := by
  rw [Unseals, unsealing_of_decrypts hkey hD]
  constructor
  · rintro ⟨hne, hmod, -, hpadded⟩
    exact ⟨hne, hmod, hpadded⟩
  · rintro ⟨hne, hmod, hpadded⟩
    exact ⟨hne, hmod, rfl, hpadded⟩

/-- A call in place that no block stops. -/
theorem inPlace_of_unsealed (hkey : context.decryptKey = some key)
    (hmod : body.length % context.blockSize = 0) (h : (unsealing context key body).failure? = none) :
    ∃ scratch, context.inPlace .decrypt body =
      ⟨.ok (), (unsealing context key body).blocks.flatten,
        context.moved .decrypt (unsealing context key body).iv scratch⟩ := by
  obtain ⟨scratch, tail, hp, htail⟩ := Context.inPlace_eq (d := .decrypt) hkey hmod
  have htail : tail = [] := htail h
  refine ⟨scratch, ?_⟩
  rw [hp, htail, List.append_nil]
  show (⟨(unsealing context key body).outcome, _, _⟩ : Cipher.Processed) = _
  rw [Chained.outcome, h]
  rfl

/-- A call in place that a block stops. -/
theorem inPlace_of_refused (hkey : context.decryptKey = some key)
    (hmod : body.length % context.blockSize = 0) {e : Cipher.CipherError}
    (h : (unsealing context key body).failure? = some e) :
    (context.inPlace .decrypt body).outcome = .error e := by
  obtain ⟨scratch, tail, hp, -⟩ := Context.inPlace_eq (d := .decrypt) hkey hmod
  rw [hp]
  show (unsealing context key body).outcome = .error e
  rw [Chained.outcome, h]

end Unsealing

namespace BodyReader

variable {context : Context} {key : KeySchedule} {seen got body : Bytes} {r : BodyReader}
  {source : Source}

/-! ## What a raw read leads to -/

/-- What is settled of the pending bytes is decrypted, when no block of it is refused. -/
theorem decryptSome_of_unsealed (hkey : r.context.decryptKey = some key)
    (h : (unsealing r.context key (settled r.context.blockSize r.pending)).failure? = none) :
    ∃ scratch, r.decryptSome = (.ok (), { r with
      context := r.context.moved .decrypt
        (unsealing r.context key (settled r.context.blockSize r.pending)).iv scratch
      pending := unsettled r.context.blockSize r.pending
      ready := r.ready ++
        (unsealing r.context key (settled r.context.blockSize r.pending)).blocks.flatten }) := by
  by_cases h0 : r.decryptable = 0
  · -- The scratch buffer is left as it is.
    obtain ⟨hs, hu, hsome⟩ := decryptSome_of_nothing h0
    refine ⟨r.context.scratch, ?_⟩
    rw [hsome, hs, hu, unsealing_nil, List.flatten_nil, List.append_nil]
    rfl
  · obtain ⟨scratch, hp⟩ :=
      inPlace_of_unsealed hkey (length_settled_mod r.context.blockSize r.pending) h
    refine ⟨scratch, ?_⟩
    simp only [decryptSome, h0, if_false, take_decryptable, drop_decryptable, hp]

/-- A block of what is settled is refused: nothing gets ready. -/
theorem decryptSome_of_refused (hkey : r.context.decryptKey = some key) {e : Cipher.CipherError}
    (h : (unsealing r.context key (settled r.context.blockSize r.pending)).failure? = some e) :
    ∃ context pending, r.decryptSome = (.error (ResolveError.cipher e).toIo,
      { r with context := context, pending := pending }) := by
  have h0 : r.decryptable ≠ 0 := by
    intro h0
    rw [(decryptSome_of_nothing h0).1, unsealing_nil] at h
    cases h
  have hp := inPlace_of_refused hkey (length_settled_mod r.context.blockSize r.pending) h
  refine ⟨(r.context.inPlace .decrypt (settled r.context.blockSize r.pending)).context,
    (r.context.inPlace .decrypt (settled r.context.blockSize r.pending)).buffer ++
      r.pending.drop r.decryptable, ?_⟩
  simp only [decryptSome, h0, if_false, take_decryptable, hp]

/-- What a reader has at any time before the end of the source: it has decrypted what is settled of
    the bytes `seen`, and holds back the rest. -/
structure Holds (context : Context) (key : KeySchedule) (seen : Bytes) (r : BodyReader) : Prop where
  cipher_eq : r.context.cipher = context.cipher
  key_eq : r.context.decryptKey = some key
  iv_eq : r.context.decryptIv = (unsealing context key (settled context.blockSize seen)).iv
  sound : (unsealing context key (settled context.blockSize seen)).failure? = none
  pending_eq : r.pending = unsettled context.blockSize seen
  taken_le : r.taken ≤ r.ready.length
  done_eq : r.done = false
  failed_eq : r.failed = false

/-- A reader that has failed, with nothing left to hand out. -/
structure Broken (r : BodyReader) : Prop where
  failed_eq : r.failed = true
  nothing : r.ready.length ≤ r.taken

theorem Holds.blockSize_eq (h : Holds context key seen r) : r.context.blockSize = context.blockSize :=
  congrArg BlockCipher.blockSize h.cipher_eq

/-- What is decrypted next, of the bytes that are held back and some more. -/
theorem Holds.unsealing_append (hsize : 0 < context.blockSize) (h : Holds context key seen r)
    (b : Bytes) :
    unsealing context key (settled context.blockSize seen ++ b) =
      ⟨(unsealing context key (settled context.blockSize seen)).blocks ++
          (unsealing r.context key b).blocks,
        (unsealing r.context key b).iv, (unsealing r.context key b).failure?⟩ :=
  Container.unsealing_append hsize (length_settled_mod _ seen) h.sound h.cipher_eq h.iv_eq b

/-- What a raw read with the bytes `got` leads to. -/
inductive Gave (context : Context) (key : KeySchedule) (seen got : Bytes) (r : BodyReader)
    (source : Source) : Except IoError Unit × BodyReader → Prop
  | held {r' : BodyReader} : Holds context key (seen ++ got) r' → r'.source = source → r'.taken = 0 →
      r'.ready.length + r'.pending.length = r.pending.length + got.length →
      Gave context key seen got r source (.ok (), r')
  | refused {e : IoError} {r' : BodyReader} :
      (unsealing context key (settled context.blockSize (seen ++ got))).failure? ≠ none →
      e.kind = .invalidData → Broken r' → Gave context key seen got r source (.error e, r')

/-- **A raw read with some bytes** leaves a reader that holds them too, unless a block is refused. -/
theorem Holds.refill_gave (hsize : 0 < context.blockSize) (h : Holds context key seen r)
    (hread : r.source.readRetrying portion = (.ok got, source)) (hgot : got ≠ []) :
    Gave context key seen got r source r.refill := by
  obtain ⟨hset, hunset⟩ := settled_append_got hsize seen got
  have hsz : (r.receiving got source).context.blockSize = context.blockSize := h.blockSize_eq
  have hkey : (r.receiving got source).context.decryptKey = some key := h.key_eq
  have hpending : (r.receiving got source).pending = unsettled context.blockSize seen ++ got :=
    congrArg (· ++ got) h.pending_eq
  -- What was held back and the new bytes are cut anew; the front of them is unsealed next.
  have hnext := h.unsealing_append hsize
    (settled context.blockSize (unsettled context.blockSize seen ++ got))
  rw [← hset] at hnext
  rw [refill_of_bytes hread hgot]
  rcases hfailure : (unsealing r.context key
      (settled context.blockSize (unsettled context.blockSize seen ++ got))).failure? with _ | e
  · obtain ⟨scratch, hsome⟩ := decryptSome_of_unsealed hkey (by rw [hsz, hpending]; exact hfailure)
    rw [hsz, hpending] at hsome
    rw [hsome]
    refine .held ⟨?_, ?_, ?_, ?_, hunset.symm, Nat.zero_le _, h.done_eq, rfl⟩ rfl rfl ?_
    · exact (Context.moved_cipher ..).trans h.cipher_eq
    · exact (Context.moved_key? r.context .decrypt .decrypt _ scratch).trans h.key_eq
    · rw [hnext]
      exact Context.moved_iv r.context .decrypt _ scratch
    · rw [hnext]
      exact hfailure
    · -- What is decrypted is as long as what was settled.
      have hcut := congrArg List.length
        (settled_append_unsettled context.blockSize (unsettled context.blockSize seen ++ got))
      have hlength := length_unsealing hfailure
      rw [h.blockSize_eq, Nat.div_mul_cancel (Nat.dvd_of_mod_eq_zero (length_settled_mod _ _))] at hlength
      rw [List.length_append, List.length_append] at hcut
      show ([] ++ (unsealing r.context key _).blocks.flatten).length + (unsettled _ _).length = _
      rw [List.nil_append, hlength, h.pending_eq]
      exact hcut
  · obtain ⟨context', pending', hsome⟩ :=
      decryptSome_of_refused hkey (by rw [hsz, hpending]; exact hfailure)
    rw [hsome]
    refine .refused ?_ rfl ⟨rfl, Nat.le_refl _⟩
    rw [hnext, hfailure]
    exact Option.some_ne_none e

/-- The last block is decrypted and has padding, or the reader ends in a failure. -/
theorem decryptRest_of_last (hkey : r.context.decryptKey = some key)
    (h : r.pending.length = r.context.blockSize) (hsize : 0 < r.context.blockSize) :
    (∃ n scratch, (unsealing r.context key r.pending).failure? = none ∧
      unpaddedSize (unsealing r.context key r.pending).blocks.flatten = .ok n ∧
      r.decryptRest = (.ok (), { r with
        done := true
        context := r.context.moved .decrypt (unsealing r.context key r.pending).iv scratch
        pending := []
        ready := r.ready ++ (unsealing r.context key r.pending).blocks.flatten.take n })) ∨
    ∃ (e : IoError) (context : Context) (pending : Bytes), e.kind = .invalidData ∧
      r.decryptRest = (.error e, { r with done := true, context := context, pending := pending }) := by
  have hempty : r.pending.isEmpty = false := by
    rw [List.isEmpty_eq_false_iff]
    exact List.length_pos_iff.mp (by omega)
  have hmod : r.pending.length % r.context.blockSize = 0 := by rw [h, Nat.mod_self]
  rcases hfailure : (unsealing r.context key r.pending).failure? with _ | e
  · -- The block goes through, and its plaintext decides.
    obtain ⟨scratch, hp⟩ := inPlace_of_unsealed hkey hmod hfailure
    have hlen : (unsealing r.context key r.pending).blocks.flatten.length = r.context.blockSize := by
      rw [length_unsealing hfailure, h, Nat.div_self hsize, Nat.one_mul]
    rcases hu : unpaddedSize (unsealing r.context key r.pending).blocks.flatten with e | n
    · refine .inr ⟨e.toIo, (r.context.inPlace .decrypt r.pending).context,
        (unsealing r.context key r.pending).blocks.flatten, ?_, ?_⟩
      · rw [unpaddedSize_eq_error hu]
        rfl
      · simp only [decryptRest, hempty, hmod, blockSize, hp, ne_eq, not_true_eq_false, if_false,
          Context.moved_blockSize, hlen, Nat.sub_self, List.drop_zero, hu, Bool.false_eq_true]
    · refine .inl ⟨n, scratch, rfl, rfl, ?_⟩
      simp only [decryptRest, hempty, hmod, blockSize, hp, ne_eq, not_true_eq_false, if_false,
        Context.moved_blockSize, hlen, Nat.sub_self, List.drop_zero, Nat.zero_add, hu,
        Bool.false_eq_true]
  · have hp := inPlace_of_refused hkey hmod hfailure
    refine .inr ⟨(ResolveError.cipher e).toIo, (r.context.inPlace .decrypt r.pending).context,
      (r.context.inPlace .decrypt r.pending).buffer, rfl, ?_⟩
    simp only [decryptRest, hempty, hmod, blockSize, hp, ne_eq, not_true_eq_false, if_false,
      Bool.false_eq_true]

/-- What the raw read at the end of the body `seen` leads to. -/
inductive Closes (context : Context) (key : KeySchedule) (seen : Bytes) :
    Except IoError Unit × BodyReader → Prop
  | sound {data : Bytes} {r : BodyReader} : Unseals context key seen data →
      Closes context key seen (.ok (), r)
  | spoilt {e : IoError} {r : BodyReader} : e.kind = .invalidData → Broken r →
      Closes context key seen (.error e, r)

/-- **At the end of the source a reader finds that the body unseals, or breaks.** -/
theorem Holds.refill_ended (hsize : 0 < context.blockSize) (h : Holds context key seen r)
    (hread : r.source.readRetrying portion = (.ok [], source)) : Closes context key seen r.refill := by
  have hsz : (r.receiving [] source).context.blockSize = context.blockSize := h.blockSize_eq
  have hkey : (r.receiving [] source).context.decryptKey = some key := h.key_eq
  have hpending : (r.receiving [] source).pending = unsettled context.blockSize seen :=
    (List.append_nil r.pending).trans h.pending_eq
  have hmodeq := length_unsettled_mod context.blockSize seen
  rw [refill_of_end hread]
  by_cases hne : seen = []
  · have hnil : unsettled context.blockSize seen = [] := (unsettled_eq_nil_iff hsize).mpr hne
    rw [decryptRest_of_nil (hpending.trans hnil)]
    exact .spoilt rfl ⟨rfl, Nat.le_refl _⟩
  · by_cases hmod : seen.length % context.blockSize = 0
    · -- One block is left; it may be refused, or its padding may be bad.
      have hblock : (r.receiving [] source).pending.length = (r.receiving [] source).context.blockSize := by
        rw [hpending, hsz]
        exact length_unsettled_eq hsize hne hmod
      have hnext := h.unsealing_append hsize (unsettled context.blockSize seen)
      rw [settled_append_unsettled] at hnext
      rcases decryptRest_of_last hkey hblock (by rw [hsz]; exact hsize) with
        ⟨n, scratch, hsound, hunpadded, hrest⟩ | ⟨e, context', pending', hk, hrest⟩
      · have hlast := length_unsealing hsound
        rw [hblock, hsz, Nat.div_self hsize, Nat.one_mul] at hlast
        rw [hpending] at hsound hunpadded hlast
        obtain ⟨data, hpadded⟩ : ∃ data,
            Padded context.blockSize data (unsealing context key seen).blocks.flatten := by
          rw [hnext, List.flatten_append]
          exact ⟨_, (padded_append_iff hlast).mpr ⟨n, hunpadded, rfl⟩⟩
        rw [hrest]
        exact .sound ⟨hne, hmod, by rw [hnext]; exact hsound, hpadded⟩
      · rw [hrest]
        exact .spoilt hk ⟨rfl, Nat.le_refl _⟩
    · rw [decryptRest_of_partial (by rw [hsz, hpending, hmodeq]; exact hmod)]
      exact .spoilt rfl ⟨rfl, Nat.le_refl _⟩

/-! ## Reads of a body that does not unseal -/

/-- The reader has seen the front of `body`, and its source still has the rest. -/
structure Midway (context : Context) (key : KeySchedule) (body : Bytes) (r : BodyReader) : Prop where
  holds : ∃ seen, seen ++ r.source.delivered = body ∧ Holds context key seen r
  ending : r.source.ending = .finished

/-- How many more answers there can be before the end: every one brings a byte or a fault. -/
def budget (r : BodyReader) : Nat :=
  (r.ready.length - r.taken) + r.pending.length + r.source.delivered.length + r.source.faults.length

/-- The next stage behind a reader: it is further in the body, and `errors` were reported. -/
structure Later (context : Context) (key : KeySchedule) (body : Bytes) (r : BodyReader)
    (errors : List IoError) (r' : BodyReader) : Prop where
  midway : Midway context key body r'
  faults_eq : r.source.faults = errors ++ r'.source.faults
  budget_le : r'.budget + errors.length ≤ r.budget

/-- What a refill leads to. -/
inductive Proceeds (context : Context) (key : KeySchedule) (body : Bytes) (r : BodyReader) :
    Except IoError Unit × BodyReader → Prop
  | gave {r' : BodyReader} : Later context key body r [] r' → Proceeds context key body r (.ok (), r')
  | raised {e : IoError} {r' : BodyReader} : Later context key body r [e] r' →
      Proceeds context key body r (.error e, r')
  | broke {e : IoError} {r' : BodyReader} : e.kind = .invalidData → Broken r' →
      Proceeds context key body r (.error e, r')

/-- **A refill goes on with the body or breaks the reader.** -/
theorem Midway.refill (hsize : 0 < context.blockSize) (hno : ∀ data, ¬ Unseals context key body data)
    (h : Midway context key body r) (hall : r.ready.length ≤ r.taken) :
    Proceeds context key body r r.refill := by
  obtain ⟨seen, hbody, hholds⟩ := h.holds
  have hserves := Source.serves_readRetrying (by decide : 0 < portion) h.ending
  rcases hread : r.source.readRetrying portion with ⟨outcome, source⟩
  rw [hread] at hserves
  cases hserves with
  | ended hdelivered hfaults =>
    -- All of the body was seen, and it does not unseal.
    rw [hdelivered, List.append_nil] at hbody
    subst hbody
    have hcloses := hholds.refill_ended hsize hread
    generalize r.refill = result at hcloses ⊢
    cases hcloses with
    | sound hunseals => exact absurd hunseals (hno _)
    | spoilt hk hbroken => exact .broke hk hbroken
  | @gave got _ hgot _ hdelivered hfaults hending _ =>
    have hgave := hholds.refill_gave hsize hread hgot
    generalize r.refill = result at hgave ⊢
    cases hgave with
    | refused _ hk hbroken => exact .broke hk hbroken
    | @held r' hholds' hsource htaken hlength =>
      subst hsource
      refine .gave ⟨⟨⟨seen ++ got, ?_, hholds'⟩, hending⟩, hfaults, ?_⟩
      · rw [List.append_assoc, ← hdelivered]
        exact hbody
      · rw [budget, budget, hdelivered, hfaults, htaken, List.length_append, List.length_nil]
        omega
  | @failed e _ hdelivered hfaults hending _ =>
    -- A read that is tried again never fails with an interruption, so this failure is the next fault.
    have hreported := reported_of_not_interrupted [] (Source.readRetrying_not_interrupted hread)
    rw [hreported] at hfaults
    rw [refill_of_error hread]
    refine .raised ⟨⟨⟨seen, ?_, { hholds with }⟩, hending⟩, hfaults, ?_⟩
    · rw [← hbody, hdelivered]
    · show r.ready.length - r.taken + r.pending.length + source.delivered.length +
        source.faults.length + 1 ≤ r.budget
      rw [budget, hdelivered, hfaults, List.length_append, List.length_cons]
      omega

/-- What a read leads to: some bytes, a failure of the source, or a failure for good. -/
inductive Advances (context : Context) (key : KeySchedule) (body : Bytes) (r : BodyReader) :
    Except IoError Bytes × BodyReader → Prop
  | gave {b : Bytes} {r' : BodyReader} : b ≠ [] → Later context key body r [] r' →
      r'.budget < r.budget → Advances context key body r (.ok b, r')
  | raised {e : IoError} {r' : BodyReader} : Later context key body r [e] r' →
      Advances context key body r (.error e, r')
  | broke {e : IoError} {r' : BodyReader} : e.kind = .invalidData → Broken r' →
      Advances context key body r (.error e, r')

/-- What follows a refill that reported nothing follows the reader before it. -/
theorem Later.advances {r' : BodyReader} (h : Later context key body r [] r')
    {result : Except IoError Bytes × BodyReader} (hnext : Advances context key body r' result) :
    Advances context key body r result := by
  have hfaults : r.source.faults = r'.source.faults := h.faults_eq
  have hle : r'.budget ≤ r.budget := h.budget_le
  cases hnext with
  | gave hb hlater hlt =>
    exact .gave hb ⟨hlater.midway, hfaults.trans hlater.faults_eq, Nat.le_trans hlater.budget_le hle⟩
      (Nat.lt_of_lt_of_le hlt hle)
  | raised hlater =>
    exact .raised ⟨hlater.midway, hfaults.trans hlater.faults_eq, Nat.le_trans hlater.budget_le hle⟩
  | broke hk hbroken => exact .broke hk hbroken

/-- **One read goes on with the body or breaks the reader.** -/
theorem Midway.read (hsize : 0 < context.blockSize) (hno : ∀ data, ¬ Unseals context key body data)
    {n : Nat} (hn : 0 < n) (h : Midway context key body r) :
    Advances context key body r (r.read n) := by
  fun_induction BodyReader.read n r with
  | case1 r hz => omega
  | case2 r hz hlt b =>
    obtain ⟨seen, hbody, hholds⟩ := h.holds
    have hlen : 0 < b.length := by
      show 0 < ((r.ready.drop r.taken).take n).length
      rw [List.length_take, List.length_drop]
      omega
    have hle : r.taken + b.length ≤ r.ready.length := length_take_le r n hholds.taken_le
    have hbudget : ({ r with taken := r.taken + b.length } : BodyReader).budget < r.budget := by
      show r.ready.length - (r.taken + b.length) + r.pending.length + r.source.delivered.length +
        r.source.faults.length < r.budget
      rw [budget]
      omega
    exact .gave (List.length_pos_iff.mp hlen)
      ⟨⟨⟨seen, hbody, { hholds with taken_le := hle }⟩, h.ending⟩, rfl, Nat.le_of_lt hbudget⟩ hbudget
  | case3 r hz hnot hfailed =>
    obtain ⟨seen, -, hholds⟩ := h.holds
    rw [hholds.failed_eq] at hfailed
    cases hfailed
  | case4 r hz hnot hfailed hdone =>
    obtain ⟨seen, -, hholds⟩ := h.holds
    rw [hholds.done_eq] at hdone
    cases hdone
  | case5 r hz hnot hfailed hdone e r' hre =>
    have hstep := h.refill hsize hno (by omega)
    rw [hre] at hstep
    cases hstep with
    | raised hlater => exact .raised hlater
    | broke hk hbroken => exact .broke hk hbroken
  | case6 r hz hnot hfailed hdone r' hre ih =>
    have hstep := h.refill hsize hno (by omega)
    -- The refill may have settled nothing; the read goes on with what it led to.
    rw [hre] at hstep
    cases hstep with
    | gave hlater => exact hlater.advances (ih hlater.midway)

/-- A reader that has failed fails again, and stays as it is. -/
theorem Broken.read (h : Broken r) {n : Nat} (hn : 0 < n) :
    r.read n = (.error ⟨.invalidData, "decryption already failed"⟩, r) := by
  have hnothing := h.nothing
  rw [BodyReader.read, if_neg (by omega), if_neg (by omega), if_pos h.failed_eq]

theorem Broken.reads (h : Broken r) {sizes : List Nat} (hsizes : ∀ n ∈ sizes, 0 < n) :
    ∀ a ∈ (r.reads sizes).1, Verdict.spoilt.Allows a := by
  induction sizes with
  | nil => exact fun a ha => absurd ha List.not_mem_nil
  | cons n later ih =>
    rw [BodyReader.reads, h.read (hsizes n List.mem_cons_self)]
    intro a ha
    rcases List.mem_cons.mp ha with rfl | ha
    · exact ⟨_, rfl, rfl⟩
    · exact ih (fun m hm => hsizes m (List.mem_cons_of_mem n hm)) a ha

/-- The answers of a reader that comes to a failure: `live` are those before it, `rest` the failure
    and what is answered behind it. -/
structure Exposed (errors : List IoError) (bound : Nat) (live rest : List (Except IoError Bytes)) :
    Prop where
  /-- There is no clean end. -/
  nil_not_mem : .ok [] ∉ live
  failed : errorsOf live <+: errors
  /-- So many reads come to the failure. -/
  enough : live.length ≤ bound
  ended : ∀ a ∈ rest, Verdict.spoilt.Allows a

/-- **Any number of reads go on with the body, and then they fail for ever.** -/
theorem Midway.reads (hsize : 0 < context.blockSize) (hno : ∀ data, ¬ Unseals context key body data)
    {sizes : List Nat} (hsizes : ∀ n ∈ sizes, 0 < n) (h : Midway context key body r) :
    ∃ live rest, (r.reads sizes).1 = live ++ rest ∧
      Exposed r.source.faults r.budget live rest := by
  induction sizes generalizing r with
  | nil =>
    refine ⟨[], [], rfl, List.not_mem_nil, List.nil_prefix, Nat.zero_le _, ?_⟩
    exact fun a ha => absurd ha List.not_mem_nil
  | cons n later ih =>
    have hstep := h.read hsize hno (hsizes n List.mem_cons_self)
    have hlater : ∀ m ∈ later, 0 < m := by
      intro m hm
      exact hsizes m (List.mem_cons_of_mem n hm)
    rw [BodyReader.reads]
    rcases hread : r.read n with ⟨answer, r1⟩
    rw [hread] at hstep
    cases hstep with
    | @gave b _ hb hnext hlt =>
      obtain ⟨live, rest, heq, hex⟩ := ih hlater hnext.midway
      refine ⟨.ok b :: live, rest, ?_, ?_, ?_, ?_, hex.ended⟩
      · rw [heq, List.cons_append]
      · rw [List.mem_cons]
        rintro (hor | hor)
        · exact hb (Except.ok.inj hor).symm
        · exact hex.nil_not_mem hor
      · rw [errorsOf_ok, hnext.faults_eq]
        exact hex.failed
      · exact Nat.le_trans (Nat.succ_le_succ hex.enough) hlt
    | @raised e _ hnext =>
      obtain ⟨live, rest, heq, hex⟩ := ih hlater hnext.midway
      refine ⟨.error e :: live, rest, ?_, ?_, ?_, ?_, hex.ended⟩
      · rw [heq, List.cons_append]
      · rw [List.mem_cons]
        rintro (hor | hor)
        · cases hor
        · exact hex.nil_not_mem hor
      · rw [errorsOf_error, hnext.faults_eq, List.singleton_append]
        exact (List.prefix_cons_inj e).mpr hex.failed
      · exact Nat.le_trans (Nat.succ_le_succ hex.enough) hnext.budget_le
    | @broke e _ hk hbroken =>
      -- This answer is the failure, and all later ones are behind it.
      refine ⟨[], .error e :: (r1.reads later).1, rfl, List.not_mem_nil, List.nil_prefix,
        Nat.zero_le _, ?_⟩
      intro a ha
      rcases List.mem_cons.mp ha with rfl | ha
      · exact ⟨e, rfl, hk⟩
      · exact hbroken.reads hlater a ha

/-- A new reader has the whole body ahead. -/
theorem midway_ofSource {s : Source} (hkey : context.decryptKey = some key)
    (hs : s.ending = .finished) : Midway context key s.delivered (ofSource s context) := by
  have hset : settled context.blockSize [] = [] := List.take_nil
  refine ⟨⟨[], rfl, rfl, hkey, ?_, ?_, List.drop_nil.symm, Nat.le_refl 0, rfl, rfl⟩, hs⟩
  · rw [hset, unsealing_nil]
    rfl
  · rw [hset, unsealing_nil]

end BodyReader

end Coffer.Container
