import Coffer.Container.Reader
import Coffer.Proofs.Cipher.Aes
import Coffer.Proofs.Container.Body
import Coffer.Proofs.Stream.Source
/-
  Reading a body is decrypting it in one go.

  Of the ciphertext it has seen, a `BodyReader` has decrypted what is settled and holds back the rest.
  This is `BodyReader.Follows`, which a raw read with some bytes preserves (`Follows.refill_gave`) and
  from which the end of the source leads to the verdict on the whole body (`Follows.refill_ended`).
  `Reading` and `Ended` add what the raw source has done so far, `Stage` joins them; one read keeps to
  them (`Stage.read`), and so does any number of reads (`Stage.reads`).
-/
namespace Coffer.Container

open Cipher (Context unchain)
open Resource (ResolveError)

namespace BodyReader

variable {D : Bytes → Bytes} {size : Nat} {iv seen given : Bytes} {r : BodyReader}

/-! ## What a raw read leads to -/

/-- The reader has seen the ciphertext `seen` and handed out `given`; of what is settled, the rest is
    ready, and what is unsettled is pending. -/
structure Follows (D : Bytes → Bytes) (size : Nat) (iv seen given : Bytes) (r : BodyReader) :
    Prop where
  decrypts : r.context.Decrypts D
  size_eq : r.context.blockSize = size
  iv_eq : r.context.decryptIv = (blocks size (settled size seen)).getLastD iv
  pending_eq : r.pending = unsettled size seen
  given_eq : given ++ r.ready.drop r.taken = front D size iv seen
  taken_le : r.taken ≤ r.ready.length
  done_eq : r.done = false
  failed_eq : r.failed = false

theorem decryptable_eq (r : BodyReader) :
    r.decryptable = (r.pending.length / r.context.blockSize - 1) * r.context.blockSize := by
  have hdiv := Nat.div_add_mod r.pending.length r.context.blockSize
  rw [Nat.mul_comm] at hdiv
  rw [decryptable, blockSize, Nat.sub_one_mul]
  omega

theorem take_decryptable (r : BodyReader) :
    r.pending.take r.decryptable = settled r.context.blockSize r.pending := by
  rw [settled, ← decryptable_eq]

theorem drop_decryptable (r : BodyReader) :
    r.pending.drop r.decryptable = unsettled r.context.blockSize r.pending := by
  rw [unsettled, ← decryptable_eq]

/-- Where nothing is settled, decrypting does nothing. -/
theorem decryptSome_of_nothing (h0 : r.decryptable = 0) :
    settled r.context.blockSize r.pending = [] ∧
      unsettled r.context.blockSize r.pending = r.pending ∧ r.decryptSome = (.ok (), r) := by
  rw [← take_decryptable, ← drop_decryptable, h0]
  refine ⟨rfl, rfl, ?_⟩
  simp only [decryptSome, h0, if_pos]

/-- What is settled of the pending bytes is decrypted. -/
theorem decryptSome_eq (hD : r.context.Decrypts D) :
    ∃ scratch, r.decryptSome = (.ok (), { r with
      context := r.context.moved .decrypt ((blocks r.context.blockSize
        (settled r.context.blockSize r.pending)).getLastD r.context.decryptIv) scratch
      pending := unsettled r.context.blockSize r.pending
      ready := r.ready ++ plaintext D r.context.blockSize r.context.decryptIv
        (settled r.context.blockSize r.pending) }) := by
  by_cases h0 : r.decryptable = 0
  · -- The scratch buffer is left as it is.
    obtain ⟨hs, hu, hsome⟩ := decryptSome_of_nothing h0
    refine ⟨r.context.scratch, ?_⟩
    rw [hsome, hs, hu, plaintext, blocks_nil, unchain, List.flatten_nil, List.append_nil,
      List.getLastD_nil]
    rfl
  · obtain ⟨scratch, hp⟩ := hD.inPlace_eq (length_settled_mod r.context.blockSize r.pending)
    refine ⟨scratch, ?_⟩
    simp only [decryptSome, h0, if_false, take_decryptable, drop_decryptable, hp]
    rfl

/-- The reader with some more bytes pending and nothing left to hand out. -/
def receiving (r : BodyReader) (got : Bytes) (source : Source) : BodyReader :=
  { r with source := source, pending := r.pending ++ got, ready := [], taken := 0 }

theorem refill_of_error {e : IoError} {source : Source}
    (h : r.source.readRetrying portion = (.error e, source)) :
    r.refill = (.error e, { r with source := source }) := by
  simp only [refill, h]

theorem refill_of_bytes {got : Bytes} {source : Source}
    (h : r.source.readRetrying portion = (.ok got, source)) (hgot : got ≠ []) :
    r.refill = ((r.receiving got source).decryptSome.1,
      { (r.receiving got source).decryptSome.2 with
        failed := !(r.receiving got source).decryptSome.1.isOk }) := by
  have hempty : got.isEmpty = false := by simpa using hgot
  simp only [refill, h, hempty]
  rfl

theorem refill_of_end {source : Source} (h : r.source.readRetrying portion = (.ok [], source)) :
    r.refill = ((r.receiving [] source).decryptRest.1,
      { (r.receiving [] source).decryptRest.2 with
        failed := !(r.receiving [] source).decryptRest.1.isOk }) := by
  simp only [refill, h]
  rfl

/-- Everything ready is handed out when a raw read is made. -/
theorem Follows.given_eq_front (h : Follows D size iv seen given r)
    (hall : r.ready.length ≤ r.taken) : given = front D size iv seen := by
  have hg := h.given_eq
  rwa [List.drop_eq_nil_of_le hall, List.append_nil] at hg

/-- **A raw read with some bytes is followed.** -/
theorem Follows.refill_gave (hsize : 0 < size) (h : Follows D size iv seen given r)
    (hall : r.ready.length ≤ r.taken) {got : Bytes} {source : Source}
    (hread : r.source.readRetrying portion = (.ok got, source)) (hgot : got ≠ []) :
    ∃ r', r.refill = (.ok (), r') ∧ r'.source = source ∧ Follows D size iv (seen ++ got) given r' := by
  obtain ⟨hset, hunset⟩ := settled_append_got hsize seen got
  have hdec : (r.receiving got source).context.Decrypts D := h.decrypts
  have hsz : (r.receiving got source).context.blockSize = size := h.size_eq
  have hiv : (r.receiving got source).context.decryptIv = (blocks size (settled size seen)).getLastD iv :=
    h.iv_eq
  have hpending : (r.receiving got source).pending = unsettled size seen ++ got :=
    congrArg (· ++ got) h.pending_eq
  -- What was held back and the new bytes are cut anew; what was settled before stays settled.
  obtain ⟨scratch, hsome⟩ := decryptSome_eq hdec
  rw [hsz, hiv, hpending] at hsome
  rw [refill_of_bytes hread hgot, hsome]
  refine ⟨_, rfl, rfl, hdec.moved .decrypt _ scratch, ?_, ?_, ?_, ?_, Nat.zero_le _, h.done_eq, rfl⟩
  · exact (Context.moved_blockSize r.context .decrypt _ scratch).trans h.size_eq
  · show ((blocks size _).getLastD _) = _
    rw [hset, blocks_append hsize (length_settled_mod size seen), getLastD_append]
  · show unsettled size (unsettled size seen ++ got) = _
    exact hunset.symm
  · show given ++ ([] ++ plaintext D size _ _) = _
    rw [List.nil_append, h.given_eq_front hall, front_eq hsize, front_eq hsize, hset,
      plaintext_append hsize (length_settled_mod size seen)]

theorem decryptRest_of_nil (h : r.pending = []) :
    r.decryptRest = (.error (ResolveError.format .emptyBody).toIo, { r with done := true }) := by
  simp only [decryptRest, h, List.isEmpty_nil, if_true]

theorem decryptRest_of_partial (h : r.pending.length % r.context.blockSize ≠ 0) :
    r.decryptRest =
      (.error (ResolveError.format (.partialBlock (r.pending.length % r.context.blockSize))).toIo,
        { r with done := true }) := by
  have hempty : r.pending.isEmpty = false := by
    rw [List.isEmpty_eq_false_iff]
    rintro hnil
    rw [hnil, List.length_nil, Nat.zero_mod] at h
    exact h rfl
  simp only [decryptRest, hempty, blockSize, Bool.false_eq_true, if_false]
  exact if_pos h

/-- The last block is decrypted, and its plaintext decides. -/
theorem decryptRest_of_block (hD : r.context.Decrypts D) (hsize : 0 < r.context.blockSize)
    (h : r.pending.length = r.context.blockSize) :
    ∃ context, r.decryptRest =
      match unpaddedSize (plaintext D r.context.blockSize r.context.decryptIv r.pending) with
      | .error e => (.error e.toIo, { r with
          done := true
          context := context
          pending := plaintext D r.context.blockSize r.context.decryptIv r.pending })
      | .ok n => (.ok (), { r with
          done := true
          context := context
          pending := []
          ready := r.ready ++
            (plaintext D r.context.blockSize r.context.decryptIv r.pending).take n }) := by
  have hempty : r.pending.isEmpty = false := by
    rw [List.isEmpty_eq_false_iff]
    exact List.length_pos_iff.mp (by omega)
  have hmod : r.pending.length % r.context.blockSize = 0 := by rw [h, Nat.mod_self]
  have hlen : (plaintext D r.context.blockSize r.context.decryptIv r.pending).length =
      r.context.blockSize := by
    rw [length_plaintext (fun _ hb => hD.length_eq hb), h, Nat.div_self hsize, Nat.one_mul]
  obtain ⟨scratch, hp⟩ := hD.inPlace_eq hmod
  change _ = Cipher.Processed.mk _ (plaintext D _ _ _) _ at hp
  refine ⟨(r.context.inPlace .decrypt r.pending).context, ?_⟩
  rcases hu : unpaddedSize (plaintext D r.context.blockSize r.context.decryptIv r.pending) with e | n
  · simp only [decryptRest, hempty, hmod, blockSize, hp, ne_eq, not_true_eq_false, if_false,
      Context.moved_blockSize, hlen, Nat.sub_self, List.drop_zero, hu, Bool.false_eq_true]
  · simp only [decryptRest, hempty, hmod, blockSize, hp, ne_eq, not_true_eq_false, if_false,
      Context.moved_blockSize, hlen, Nat.sub_self, List.drop_zero, Nat.zero_add, hu, Bool.false_eq_true]

/-- The reader is at the end of the body and still hands out what `total` has behind `given`. -/
structure Closed (total : Bytes) (verdict : Verdict) (given : Bytes) (r : BodyReader) : Prop where
  given_eq : given ++ r.ready.drop r.taken = total
  taken_le : r.taken ≤ r.ready.length
  done_eq : r.done = true
  failed_eq : r.failed = decide (verdict = .spoilt)

/-- What the raw read at the end of the body `seen` leads to. -/
inductive Settles (D : Bytes → Bytes) (size : Nat) (iv seen given : Bytes) :
    Except IoError Unit × BodyReader → Prop
  | sound {data : Bytes} {r : BodyReader} : Opens D size iv seen data → Closed data .sound given r →
      Settles D size iv seen given (.ok (), r)
  | spoilt {e : IoError} {r : BodyReader} : (∀ data, ¬ Opens D size iv seen data) →
      e.kind = .invalidData → given = front D size iv seen → Closed given .spoilt given r →
      Settles D size iv seen given (.error e, r)

/-- **At the end of the source a reader finds what is to be told of the body.** -/
theorem Follows.refill_ended (hsize : 0 < size) (h : Follows D size iv seen given r)
    (hall : r.ready.length ≤ r.taken) {source : Source}
    (hread : r.source.readRetrying portion = (.ok [], source)) :
    Settles D size iv seen given r.refill ∧ r.refill.2.source = source := by
  have hgiven := h.given_eq_front hall
  have hD : ∀ b : Bytes, b.length = size → (D b).length = size := by
    intro b hb
    have hlen := h.decrypts.length_eq (hb.trans h.size_eq.symm)
    rwa [h.size_eq] at hlen
  have hdec : (r.receiving [] source).context.Decrypts D := h.decrypts
  have hsz : (r.receiving [] source).context.blockSize = size := h.size_eq
  have hiv : (r.receiving [] source).context.decryptIv = (blocks size (settled size seen)).getLastD iv :=
    h.iv_eq
  have hpending : (r.receiving [] source).pending = unsettled size seen :=
    (List.append_nil r.pending).trans h.pending_eq
  have hmodeq := length_unsettled_mod size seen
  have hclosed (context : Context) (pending : Bytes) : Closed given .spoilt given
      { r.receiving [] source with
        done := true, context := context, pending := pending, failed := true } :=
    ⟨List.append_nil given, Nat.zero_le _, rfl, rfl⟩
  rw [refill_of_end hread]
  by_cases hne : seen = []
  · have hnil : unsettled size seen = [] := (unsettled_eq_nil_iff hsize).mpr hne
    have hno : ∀ data, ¬ Opens D size iv seen data := by
      intro data ho
      exact ho.1 hne
    rw [decryptRest_of_nil (hpending.trans hnil)]
    exact ⟨.spoilt hno rfl hgiven (hclosed _ _), rfl⟩
  · by_cases hmod : seen.length % size = 0
    · -- One block is left; its plaintext decides.
      have hblock := length_unsettled_eq hsize hne hmod
      obtain ⟨context, hrest⟩ := decryptRest_of_block hdec (by rw [hsz]; exact hsize)
        (by rw [hsz, hpending]; exact hblock)
      rw [hsz, hiv, hpending] at hrest
      have hopens := fun data => @opens_iff D size iv seen data hsize hD hne hmod
      rcases hu : unpaddedSize (plaintext D size ((blocks size (settled size seen)).getLastD iv)
        (unsettled size seen)) with e | n
      · rw [hu] at hrest
        rw [hrest, unpaddedSize_eq_error hu]
        have hno : ∀ data, ¬ Opens D size iv seen data := by
          intro data ho
          obtain ⟨k, hk, -⟩ := (hopens data).mp ho
          rw [hu] at hk
          cases hk
        exact ⟨.spoilt hno rfl hgiven (hclosed _ _), rfl⟩
      · rw [hu] at hrest
        rw [hrest]
        refine ⟨.sound ((hopens _).mpr ⟨n, hu, rfl⟩) ⟨?_, Nat.zero_le _, rfl, rfl⟩, rfl⟩
        rw [hgiven]
        rfl
    · -- Bytes are left that make up no block, whatever they would decrypt to.
      have hno : ∀ data, ¬ Opens D size iv seen data := by
        intro data ho
        exact hmod ho.2.1
      rw [decryptRest_of_partial (by rw [hsz, hpending, hmodeq]; exact hmod)]
      exact ⟨.spoilt hno rfl hgiven (hclosed _ _), rfl⟩

/-! ## One read -/

/-- Before the end: raw calls gave the ciphertext that was seen and the failures `errors`. -/
structure Reading (s : Source) (D : Bytes → Bytes) (size : Nat) (iv given : Bytes)
    (errors : List IoError) (raw : List (Except IoError Bytes)) (r : BodyReader) : Prop where
  raw_eq : s.calls portion raw.length = (raw, r.source)
  nil_not_mem : .ok [] ∉ raw
  errors_eq : reported (errorsOf raw) = errors
  follows : Follows D size iv (handedOut raw) given r

/-- At the end: the last raw call was answered with nothing, and the reader has its verdict. -/
structure Ended (s : Source) (D : Bytes → Bytes) (size : Nat) (iv total : Bytes) (verdict : Verdict)
    (given : Bytes) (errors : List IoError) (raw : List (Except IoError Bytes)) (r : BodyReader) :
    Prop where
  raw_eq : s.calls portion (raw.length + 1) = (raw ++ [.ok []], r.source)
  nil_not_mem : .ok [] ∉ raw
  errors_eq : reported (errorsOf raw) = errors
  tells : Tells D size iv (handedOut raw) total verdict
  closed : Closed total verdict given r

/-- A reader of the source `s` that has handed out `given` and reported `errors`. -/
inductive Stage (s : Source) (D : Bytes → Bytes) (size : Nat) (iv given : Bytes)
    (errors : List IoError) (r : BodyReader) : Prop
  | reading (raw : List (Except IoError Bytes)) : Reading s D size iv given errors raw r →
      Stage s D size iv given errors r
  | ended (total : Bytes) (verdict : Verdict) (raw : List (Except IoError Bytes)) :
      Ended s D size iv total verdict given errors raw r → Stage s D size iv given errors r

/-- What a read leads to: some bytes, a failure of the source, or nothing more for ever. -/
inductive Progress (s : Source) (D : Bytes → Bytes) (size : Nat) (iv given : Bytes)
    (errors : List IoError) : Except IoError Bytes × BodyReader → Prop
  | gave {b : Bytes} {r : BodyReader} : b ≠ [] → Stage s D size iv (given ++ b) errors r →
      Progress s D size iv given errors (.ok b, r)
  | raised {e : IoError} {r : BodyReader} :
      Stage s D size iv given (errors ++ [e]) r → Progress s D size iv given errors (.error e, r)
  | stopped {answer : Except IoError Bytes} {verdict : Verdict} {raw : List (Except IoError Bytes)}
      {r : BodyReader} : Ended s D size iv given verdict given errors raw r → verdict.Allows answer →
      Progress s D size iv given errors (answer, r)

variable {s : Source} {n : Nat} {errors : List IoError} {raw : List (Except IoError Bytes)}

/-- Handing out moves bytes from what is ready to what is given. -/
theorem given_append_take (given : Bytes) (r : BodyReader) (n : Nat) :
    given ++ (r.ready.drop r.taken).take n ++
        r.ready.drop (r.taken + ((r.ready.drop r.taken).take n).length) =
      given ++ r.ready.drop r.taken := by
  rw [List.append_assoc, ← List.drop_drop, List.append_cancel_left_eq]
  have hlen := List.length_take (i := n) (l := r.ready.drop r.taken)
  rcases Nat.le_total n (r.ready.drop r.taken).length with hle | hle
  · rw [hlen, Nat.min_eq_left hle, List.take_append_drop]
  · rw [List.take_of_length_le hle, List.drop_length, List.append_nil]

theorem length_take_le (r : BodyReader) (n : Nat) (h : r.taken ≤ r.ready.length) :
    r.taken + ((r.ready.drop r.taken).take n).length ≤ r.ready.length := by
  rw [List.length_take, List.length_drop]
  omega

/-- Handing out some of what is ready keeps to the stage. -/
theorem Stage.hand (h : Stage s D size iv given errors r) (n : Nat) :
    Stage s D size iv (given ++ (r.ready.drop r.taken).take n) errors
      { r with taken := r.taken + ((r.ready.drop r.taken).take n).length } := by
  cases h with
  | reading raw h =>
    have hf := h.follows
    exact .reading raw ⟨h.raw_eq, h.nil_not_mem, h.errors_eq,
      { hf with
        given_eq := (given_append_take given r n).trans hf.given_eq
        taken_le := length_take_le r n hf.taken_le }⟩
  | ended total verdict raw h =>
    have hc := h.closed
    exact .ended total verdict raw ⟨h.raw_eq, h.nil_not_mem, h.errors_eq, h.tells,
      { hc with
        given_eq := (given_append_take given r n).trans hc.given_eq
        taken_le := length_take_le r n hc.taken_le }⟩

/-- Where everything is handed out, the total was given. -/
theorem Ended.exhausted {total : Bytes} {verdict : Verdict}
    (h : Ended s D size iv total verdict given errors raw r) (hall : r.ready.length ≤ r.taken) :
    Ended s D size iv given verdict given errors raw r := by
  have hg := h.closed.given_eq
  rw [List.drop_eq_nil_of_le hall, List.append_nil] at hg
  subst hg
  exact h

/-- The raw calls behind a read that is tried again. -/
theorem Reading.calls_eq (h : Reading s D size iv given errors raw r)
    {answer : Except IoError Bytes} {source : Source}
    (hread : r.source.readRetrying portion = (answer, source)) :
    ∃ waits, Source.Interruptions waits ∧
      s.calls portion ((raw ++ waits).length + 1) = (raw ++ waits ++ [answer], source) := by
  obtain ⟨waits, hw, hc⟩ := Source.readRetrying_eq_calls portion r.source
  refine ⟨waits, hw, ?_⟩
  rw [List.length_append, Nat.add_assoc, Source.calls_add, h.raw_eq, hc, hread, List.append_assoc]

/-- Interrupted calls add nothing. -/
theorem Reading.waits (h : Reading s D size iv given errors raw r)
    {waits : List (Except IoError Bytes)} (hw : Source.Interruptions waits) :
    handedOut (raw ++ waits) = handedOut raw ∧ reported (errorsOf (raw ++ waits)) = errors ∧
      .ok [] ∉ raw ++ waits := by
  obtain ⟨hb, hr, hm⟩ := hw.spec
  refine ⟨?_, ?_, ?_⟩
  · rw [handedOut_append, hb, List.append_nil]
  · rw [errorsOf_append, reported_append, hr, List.append_nil, h.errors_eq]
  · rw [List.mem_append]
    exact fun hor => hor.elim h.nil_not_mem hm

/-- What a refill leads to. -/
inductive Refilled (s : Source) (D : Bytes → Bytes) (size : Nat) (iv given : Bytes)
    (errors : List IoError) : Except IoError Unit × BodyReader → Prop
  | ok {r : BodyReader} : Stage s D size iv given errors r →
      Refilled s D size iv given errors (.ok (), r)
  | raised {e : IoError} {r : BodyReader} :
      Stage s D size iv given (errors ++ [e]) r → Refilled s D size iv given errors (.error e, r)
  | spoilt {e : IoError} {raw : List (Except IoError Bytes)} {r : BodyReader} :
      e.kind = .invalidData → Ended s D size iv given .spoilt given errors raw r →
      Refilled s D size iv given errors (.error e, r)

/-- **A refill leads to the next stage,** whatever the raw source answers. -/
theorem Reading.refill (hsize : 0 < size) (h : Reading s D size iv given errors raw r)
    (hall : r.ready.length ≤ r.taken) : Refilled s D size iv given errors r.refill := by
  rcases hread : r.source.readRetrying portion with ⟨e | got, source⟩
  · -- The raw read fails: only the source has moved.
    obtain ⟨waits, hw, hc⟩ := h.calls_eq hread
    obtain ⟨hb, hr, hm⟩ := h.waits hw
    have hk := Source.readRetrying_not_interrupted hread
    rw [refill_of_error hread]
    refine .raised (.reading (raw ++ waits ++ [.error e]) ⟨?_, ?_, ?_, ?_⟩)
    · rw [List.length_append, List.length_singleton, hc]
    · rw [List.mem_append, List.mem_singleton]
      rintro (hor | hor)
      · exact hm hor
      · cases hor
    · rw [errorsOf_append, reported_append, hr, errorsOf_error, errorsOf_nil,
        reported_of_not_interrupted [] hk]
      rfl
    · rw [handedOut_append, hb, handedOut_error, handedOut_nil, List.append_nil]
      exact { h.follows with }
  · obtain ⟨waits, hw, hc⟩ := h.calls_eq hread
    obtain ⟨hb, hr, hm⟩ := h.waits hw
    by_cases hgot : got = []
    · -- The raw read is at the end: what was seen is the whole body.
      subst hgot
      obtain ⟨hset, hsource⟩ := h.follows.refill_ended hsize hall hread
      rcases hre : r.refill with ⟨outcome, r'⟩
      rw [hre] at hset hsource
      have hsource : r'.source = source := hsource
      rw [← hsource] at hc
      cases hset with
      | sound ho hclosed =>
        refine .ok (.ended _ .sound (raw ++ waits) ⟨hc, hm, hr, ?_, hclosed⟩)
        rw [hb]
        exact .sound ho
      | spoilt hno hk hgiven hclosed =>
        refine .spoilt hk ⟨hc, hm, hr, ?_, hclosed⟩
        rw [hb, hgiven]
        exact .spoilt hno
    · -- The raw read gives more of the body.
      obtain ⟨r', hre, hsource, hf⟩ := h.follows.refill_gave hsize hall hread hgot
      rw [hre]
      rw [← hsource] at hc
      refine .ok (.reading (raw ++ waits ++ [.ok got]) ⟨?_, ?_, ?_, ?_⟩)
      · rw [List.length_append, List.length_singleton, hc]
      · rw [List.mem_append, List.mem_singleton]
        rintro (hor | hor)
        · exact hm hor
        · exact hgot (Except.ok.inj hor).symm
      · rw [errorsOf_append, errorsOf_ok, errorsOf_nil, List.append_nil]
        exact hr
      · rw [handedOut_append, hb, handedOut_ok, handedOut_nil, List.append_nil]
        exact hf

/-- **One read keeps to the stage and hands out what comes next.** -/
theorem Stage.read (hsize : 0 < size) (hn : 0 < n) (h : Stage s D size iv given errors r) :
    Progress s D size iv given errors (r.read n) := by
  fun_induction BodyReader.read n r with
  | case1 r hz => omega
  | case2 r hz hlt b =>
    refine .gave (List.length_pos_iff.mp ?_) (h.hand n)
    show 0 < ((r.ready.drop r.taken).take n).length
    rw [List.length_take, List.length_drop]
    omega
  | case3 r hz hnot hfailed =>
    cases h with
    | reading raw h => rw [h.follows.failed_eq] at hfailed; cases hfailed
    | ended total verdict raw h =>
      have hv : verdict = .spoilt := by
        have hf := h.closed.failed_eq
        rw [hfailed] at hf
        exact of_decide_eq_true hf.symm
      subst hv
      exact .stopped (h.exhausted (by omega)) ⟨_, rfl, rfl⟩
  | case4 r hz hnot hfailed hdone =>
    cases h with
    | reading raw h => rw [h.follows.done_eq] at hdone; cases hdone
    | ended total verdict raw h =>
      have hv : verdict = .sound := by
        cases verdict with
        | sound => rfl
        | spoilt => exact absurd h.closed.failed_eq hfailed
      subst hv
      exact .stopped (h.exhausted (by omega)) rfl
  | case5 r hz hnot hfailed hdone e r' hre =>
    cases h with
    | reading raw h =>
      have hstep := h.refill hsize (by omega)
      rw [hre] at hstep
      cases hstep with
      | raised hs => exact .raised hs
      | spoilt hk he => exact .stopped he ⟨e, rfl, hk⟩
    | ended total verdict raw h => exact absurd h.closed.done_eq hdone
  | case6 r hz hnot hfailed hdone r' hre ih =>
    -- The refill may have settled nothing; the read goes on with what it led to.
    cases h with
    | reading raw h =>
      have hstep := h.refill hsize (by omega)
      rw [hre] at hstep
      cases hstep with
      | ok hs => exact ih hs
    | ended total verdict raw h => exact absurd h.closed.done_eq hdone

/-! ## Any number of reads -/

/-- The answers to reads of these sizes, and the reader behind them. -/
def reads : (sizes : List Nat) → BodyReader → List (Except IoError Bytes) × BodyReader
  | [], r => ([], r)
  | n :: later, r => ((r.read n).1 :: (reads later (r.read n).2).1, (reads later (r.read n).2).2)

/-- Once everything is handed out, a read changes nothing. -/
theorem Ended.read {verdict : Verdict} (h : Ended s D size iv given verdict given errors raw r)
    (hn : 0 < n) : ∃ answer, r.read n = (answer, r) ∧ verdict.Allows answer := by
  have hdrop : r.ready.drop r.taken = [] := by
    have hg := h.closed.given_eq
    exact List.append_right_eq_self.mp hg
  have hall : ¬ r.taken < r.ready.length := by
    rw [List.drop_eq_nil_iff] at hdrop
    omega
  cases verdict with
  | sound =>
    have hf : ¬ r.failed = true := by rw [h.closed.failed_eq]; decide
    refine ⟨.ok [], ?_, rfl⟩
    rw [BodyReader.read, if_neg (by omega), if_neg hall, if_neg hf, dif_pos h.closed.done_eq]
  | spoilt =>
    have hf : r.failed = true := h.closed.failed_eq
    refine ⟨.error ⟨.invalidData, "decryption already failed"⟩, ?_, _, rfl, rfl⟩
    rw [BodyReader.read, if_neg (by omega), if_neg hall, if_pos hf]

/-- Once everything is handed out, reads change nothing. -/
theorem Ended.reads {verdict : Verdict} (h : Ended s D size iv given verdict given errors raw r)
    {sizes : List Nat} (hsizes : ∀ n ∈ sizes, 0 < n) :
    (∀ a ∈ (r.reads sizes).1, verdict.Allows a) ∧ (r.reads sizes).2 = r := by
  induction sizes with
  | nil => exact ⟨fun a ha => absurd ha List.not_mem_nil, rfl⟩
  | cons n later ih =>
    obtain ⟨answer, hread, hallows⟩ := h.read (hsizes n List.mem_cons_self)
    obtain ⟨hall, hr⟩ := ih fun m hm => hsizes m (List.mem_cons_of_mem n hm)
    rw [BodyReader.reads, hread]
    refine ⟨?_, hr⟩
    intro a ha
    rcases List.mem_cons.mp ha with rfl | ha
    · exact hallows
    · exact hall a ha

/-- **Any number of reads keep to the stage:** first they hand out what comes next and report the
    failures of the source, and once they have answered with anything else the end is reached. -/
theorem Stage.reads (hsize : 0 < size) (h : Stage s D size iv given errors r) {sizes : List Nat}
    (hsizes : ∀ n ∈ sizes, 0 < n) :
    ∃ live rest, (r.reads sizes).1 = live ++ rest ∧ .ok [] ∉ live ∧
      Stage s D size iv (given ++ handedOut live) (errors ++ errorsOf live) (r.reads sizes).2 ∧
      (rest ≠ [] → ∃ verdict raw, Ended s D size iv (given ++ handedOut live) verdict
        (given ++ handedOut live) (errors ++ errorsOf live) raw (r.reads sizes).2 ∧
        ∀ a ∈ rest, verdict.Allows a) := by
  induction sizes generalizing given errors r with
  | nil =>
    refine ⟨[], [], rfl, List.not_mem_nil, ?_, ?_⟩
    · rw [handedOut_nil, errorsOf_nil, List.append_nil, List.append_nil]
      exact h
    · intro hne
      exact absurd rfl hne
  | cons n later ih =>
    have hstep := h.read hsize (hsizes n List.mem_cons_self)
    have hlater : ∀ m ∈ later, 0 < m := by
      intro m hm
      exact hsizes m (List.mem_cons_of_mem n hm)
    rw [BodyReader.reads]
    rcases hread : r.read n with ⟨answer, r1⟩
    rw [hread] at hstep
    cases hstep with
    | @gave b _ hb hs =>
      obtain ⟨live, rest, heq, hnil, hstage, hend⟩ := ih hs hlater
      rw [List.append_assoc, ← handedOut_ok] at hstage hend
      rw [← errorsOf_ok live b] at hstage hend
      refine ⟨.ok b :: live, rest, ?_, ?_, hstage, hend⟩
      · rw [heq, List.cons_append]
      · rw [List.mem_cons]
        rintro (h | h)
        · exact hb (Except.ok.inj h).symm
        · exact hnil h
    | @raised e _ hs =>
      obtain ⟨live, rest, heq, hnil, hstage, hend⟩ := ih hs hlater
      rw [List.append_assoc errors, List.singleton_append, ← errorsOf_error] at hstage hend
      rw [← handedOut_error live e] at hstage hend
      refine ⟨.error e :: live, rest, ?_, ?_, hstage, hend⟩
      · rw [heq, List.cons_append]
      · rw [List.mem_cons]
        rintro (h | h)
        · cases h
        · exact hnil h
    | @stopped _ verdict raw _ hended hallows =>
      -- This answer and all later ones are behind the end, so none of them is live.
      obtain ⟨hall, hr⟩ := hended.reads hlater
      rw [hr]
      refine ⟨[], answer :: (r1.reads later).1, rfl, List.not_mem_nil, ?_, ?_⟩
      · rw [handedOut_nil, errorsOf_nil, List.append_nil, List.append_nil]
        exact .ended given verdict raw hended
      · intro _
        rw [handedOut_nil, errorsOf_nil, List.append_nil, List.append_nil]
        refine ⟨verdict, raw, hended, ?_⟩
        intro a ha
        rcases List.mem_cons.mp ha with rfl | ha
        · exact hallows
        · exact hall a ha

/-- No read hands out more than was asked for. -/
theorem length_le_of_read {b : Bytes} {r' : BodyReader} (h : r.read n = (.ok b, r')) :
    b.length ≤ n := by
  fun_induction BodyReader.read n r with
  | case1 => cases h; exact Nat.zero_le n
  | case2 r hz hlt given =>
    have hb : (r.ready.drop r.taken).take n = b := Except.ok.inj (Prod.mk.inj h).1
    rw [← hb]
    exact List.length_take_le _ _
  | case3 => cases h
  | case4 => cases h; exact Nat.zero_le n
  | case5 => cases h
  | case6 _ _ _ _ _ _ _ ih => exact ih h

theorem length_le_of_mem_reads {sizes : List Nat} {r : BodyReader} {m : Nat} {b : Bytes}
    (h : (m, .ok b) ∈ sizes.zip (r.reads sizes).1) : b.length ≤ m := by
  induction sizes generalizing r with
  | nil => exact absurd h List.not_mem_nil
  | cons n later ih =>
    rw [BodyReader.reads, List.zip_cons_cons] at h
    rcases List.mem_cons.mp h with h | h
    · obtain ⟨rfl, hb⟩ := Prod.mk.inj h
      exact length_le_of_read (Prod.ext hb.symm rfl)
    · exact ih h

/-! ## What reads come to -/

theorem stage_ofSource (s : Source) {context : Context} (hD : context.Decrypts D) :
    Stage s D context.blockSize context.decryptIv [] [] (ofSource s context) := by
  have hset : settled context.blockSize [] = [] := List.take_nil
  refine .reading [] ⟨rfl, List.not_mem_nil, rfl, hD, rfl, ?_, List.drop_nil.symm, ?_,
    Nat.le_refl 0, rfl, rfl⟩
  · rw [handedOut_nil, hset, blocks_nil]
    rfl
  · rw [handedOut_nil, front, blocks_nil]
    rfl

/-- Before the end, what was handed out is a part of the front, and what was reported a part of the
    faults. -/
theorem Reading.spec (hsize : 0 < size) (hs : s.ending = .finished)
    (h : Reading s D size iv given errors raw r) :
    given <+: front D size iv s.delivered ∧ errors <+: s.faults ∧ raw.length ≤ s.size := by
  have hfst : (s.calls portion raw.length).1 = raw := congrArg Prod.fst h.raw_eq
  obtain ⟨hdelivered, hfaults, -, hle⟩ := Source.calls_spec (by decide : 0 < portion) hs
    (by rw [hfst]; exact h.nil_not_mem)
  rw [hfst] at hdelivered hfaults
  refine ⟨?_, ?_, by omega⟩
  · rw [hdelivered]
    refine List.IsPrefix.trans ?_ (prefix_front_append hsize iv _ _)
    rw [← h.follows.given_eq]
    exact List.prefix_append _ _
  · rw [hfaults, h.errors_eq]
    exact List.prefix_append _ _

/-- At the end, the verdict is the one on everything delivered, and every fault was reported. -/
theorem Ended.spec {total : Bytes} {verdict : Verdict} (hs : s.ending = .finished)
    (h : Ended s D size iv total verdict given errors raw r) :
    Tells D size iv s.delivered total verdict ∧ errors = s.faults ∧ raw.length ≤ s.size := by
  obtain ⟨hdelivered, hfaults, hle⟩ :=
    Source.calls_ended (by decide : 0 < portion) hs h.raw_eq h.nil_not_mem
  rw [hdelivered, hfaults]
  exact ⟨h.tells, h.errors_eq.symm, hle⟩

/-- What the answers to some reads come to: `live` are those before the body was at its end, `rest`
    those behind it, and `left` is the raw source as it stands then. -/
structure Served (s : Source) (total : Bytes) (verdict : Verdict)
    (live rest : List (Except IoError Bytes)) (left : Source) : Prop where
  /-- Nothing before the end looks like the end: every answer brings a byte or a fault. -/
  nil_not_mem : .ok [] ∉ live
  handed : handedOut live <+: total
  failed : errorsOf live <+: s.faults
  /-- So there are no more answers before the end than bytes and faults together. -/
  enough : live.length ≤ total.length + s.faults.length
  complete : rest ≠ [] → handedOut live = total ∧ errorsOf live = s.faults
  ended : ∀ a ∈ rest, verdict.Allows a
  /-- The raw calls made are bounded, and their failures, interruptions left out, are reported. -/
  reached : ∃ raw, s.calls portion raw.length = (raw, left) ∧ raw.length ≤ s.size + 1 ∧
    errorsOf live = reported (errorsOf raw)

/-- **Reads come to what is to be told of the body.** -/
theorem reads_served {context : Context} {total : Bytes} {verdict : Verdict}
    (hsize : 0 < context.blockSize) (hD : context.Decrypts D) (hs : s.ending = .finished)
    (ht : Tells D context.blockSize context.decryptIv s.delivered total verdict) {sizes : List Nat}
    (hsizes : ∀ n ∈ sizes, 0 < n) :
    ∃ live rest, ((ofSource s context).reads sizes).1 = live ++ rest ∧
      Served s total verdict live rest ((ofSource s context).reads sizes).2.source := by
  obtain ⟨live, rest, heq, hnil, hstage, hend⟩ := (stage_ofSource s hD).reads hsize hsizes
  rw [List.nil_append, List.nil_append] at hstage hend
  have hlength := length_le_of_nil_not_mem live hnil
  have hpart : handedOut live <+: total ∧ errorsOf live <+: s.faults ∧
      ∃ raw, s.calls portion raw.length = (raw, ((ofSource s context).reads sizes).2.source) ∧
        raw.length ≤ s.size + 1 ∧ errorsOf live = reported (errorsOf raw) := by
    cases hstage with
    | reading raw h =>
      obtain ⟨hgiven, herrors, hle⟩ := h.spec hsize hs
      exact ⟨hgiven.trans (ht.prefix_total hsize fun _ hb => hD.length_eq hb), herrors, raw,
        h.raw_eq, by omega, h.errors_eq.symm⟩
    | ended total' verdict' raw h =>
      -- Only one thing can be told of a body, so the reader's verdict is the expected one.
      obtain ⟨htells, herrors, hle⟩ := h.spec hs
      obtain ⟨rfl, rfl⟩ := ht.unique htells
      refine ⟨?_, ?_, raw ++ [.ok []], ?_, ?_, ?_⟩
      · rw [← h.closed.given_eq]
        exact List.prefix_append _ _
      · exact ⟨[], (List.append_nil _).trans herrors⟩
      · rw [List.length_append]
        exact h.raw_eq
      · rw [List.length_append, List.length_singleton]
        omega
      · rw [errorsOf_append, errorsOf_ok, errorsOf_nil, List.append_nil, h.errors_eq]
  obtain ⟨hhanded, hfailed, hreached⟩ := hpart
  have hh := hhanded.length_le
  have hf := hfailed.length_le
  refine ⟨live, rest, heq, hnil, hhanded, hfailed, by omega, ?_, ?_, hreached⟩
  · intro hrest
    obtain ⟨verdict', raw, hended, -⟩ := hend hrest
    obtain ⟨htells, herrors, -⟩ := hended.spec hs
    exact ⟨(ht.unique htells).1.symm, herrors⟩
  · intro a ha
    obtain ⟨verdict', raw, hended, hall⟩ := hend (List.ne_nil_of_mem ha)
    obtain ⟨htells, -, -⟩ := hended.spec hs
    rw [(ht.unique htells).2]
    exact hall a ha

/-- Nothing that is to be told of a body is an interruption. -/
theorem Served.not_interrupted {total : Bytes} {verdict : Verdict}
    {live rest : List (Except IoError Bytes)} {left : Source}
    (h : Served s total verdict live rest left) {e : IoError} (he : .error e ∈ live ++ rest) :
    e.kind ≠ .interrupted := by
  rcases List.mem_append.mp he with hl | hr
  · obtain ⟨raw, -, -, hraw⟩ := h.reached
    have hmem : e ∈ errorsOf live := List.mem_filterMap.mpr ⟨_, hl, rfl⟩
    rw [hraw] at hmem
    exact not_interrupted_of_mem_reported _ hmem
  · have hallows := h.ended _ hr
    cases verdict with
    | sound => cases hallows
    | spoilt =>
      obtain ⟨e', heq, hk⟩ := hallows
      cases heq
      rw [hk]
      decide

/-- **Reading is decrypting in one go,** however the raw source cuts its bytes, whatever failures it
    puts in between, and whatever buffers are read into.  If the delivered body opens, the reads hand
    out its data and then nothing for ever; otherwise they hand out its front and then fail for ever.
    Before that they report each fault that is reached, once, and never an interruption. -/
theorem reads_tell_the_body {context : Context} (hsize : 0 < context.blockSize)
    (hD : context.Decrypts D) (hs : s.ending = .finished) {sizes : List Nat}
    (hsizes : ∀ n ∈ sizes, 0 < n) :
    (∀ data, Opens D context.blockSize context.decryptIv s.delivered data →
      ∃ live rest, ((ofSource s context).reads sizes).1 = live ++ rest ∧
        Served s data .sound live rest ((ofSource s context).reads sizes).2.source) ∧
    ((∀ data, ¬ Opens D context.blockSize context.decryptIv s.delivered data) →
      ∃ live rest, ((ofSource s context).reads sizes).1 = live ++ rest ∧
        Served s (front D context.blockSize context.decryptIv s.delivered) .spoilt live rest
          ((ofSource s context).reads sizes).2.source) ∧
    (∀ e, .error e ∈ ((ofSource s context).reads sizes).1 → e.kind ≠ .interrupted) ∧
    ∀ m b, (m, .ok b) ∈ sizes.zip ((ofSource s context).reads sizes).1 → b.length ≤ m := by
  have hsound : ∀ data, Opens D context.blockSize context.decryptIv s.delivered data →
      ∃ live rest, ((ofSource s context).reads sizes).1 = live ++ rest ∧
        Served s data .sound live rest ((ofSource s context).reads sizes).2.source := by
    intro data ho
    exact reads_served hsize hD hs (.sound ho) hsizes
  have hspoilt : (∀ data, ¬ Opens D context.blockSize context.decryptIv s.delivered data) →
      ∃ live rest, ((ofSource s context).reads sizes).1 = live ++ rest ∧
        Served s (front D context.blockSize context.decryptIv s.delivered) .spoilt live rest
          ((ofSource s context).reads sizes).2.source := by
    intro hno
    exact reads_served hsize hD hs (.spoilt hno) hsizes
  refine ⟨hsound, hspoilt, ?_, ?_⟩
  · intro e he
    by_cases hopens : ∃ data, Opens D context.blockSize context.decryptIv s.delivered data
    · obtain ⟨data, ho⟩ := hopens
      obtain ⟨live, rest, heq, hserved⟩ := hsound data ho
      exact hserved.not_interrupted (heq ▸ he)
    · obtain ⟨live, rest, heq, hserved⟩ := hspoilt fun data ho => hopens ⟨data, ho⟩
      exact hserved.not_interrupted (heq ▸ he)
  · intro m b hmem
    exact length_le_of_mem_reads hmem

/-- On AES, with a source that times out once and then gives five bytes at a time. -/
theorem reads_tell_the_body_on_aes :
    ∃ (context : Context) (D : Bytes → Bytes) (s : Source), 0 < context.blockSize ∧
      context.Decrypts D ∧ s.ending = .finished ∧
      Opens D context.blockSize context.decryptIv s.delivered [1, 2, 3] ∧
      ∃ live rest, ((ofSource s context).reads [2, 1, 4, 4]).1 = live ++ rest ∧
        Served s [1, 2, 3] .sound live rest ((ofSource s context).reads [2, 1, 4, 4]).2.source := by
  obtain ⟨context, E, D, hkey, hinv⟩ := Cipher.Aes.keyed_inverts
    (show (Context.fresh Cipher.Aes.portable "log").cipher = _ from rfl)
    (show Cipher.Aes.IsKeyLength (List.replicate 32 7 : Bytes).length from Or.inr (Or.inr rfl))
  have hsize : context.blockSize = 16 := by
    obtain ⟨-, -, ek, dk, -, -, rfl⟩ := Context.setKey_eq_ok_iff.mp hkey
    rfl
  obtain ⟨body, hopens⟩ : ∃ body, Opens D context.blockSize context.decryptIv body [1, 2, 3] :=
    ⟨_, opens_chain_pad (by omega) hinv context.decryptIv (by rw [hsize]; decide)⟩
  have hdelivered : (⟨[.failure ⟨.timedOut, "timed out"⟩, .bytes body], some 5, .finished⟩ :
      Source).delivered = body := by
    have hp : (ReadEvent.bytes body).pauses (some 5) = false := by
      simpa [ReadEvent.pauses] using hopens.1
    rw [Source.delivered, Source.ahead_of_not_pauses rfl rfl,
      Source.ahead_of_not_pauses rfl hp]
    exact List.append_nil body
  rw [← hdelivered] at hopens
  exact ⟨context, D, _, by omega, hinv.decrypts, rfl, hopens,
    (reads_tell_the_body (by omega) hinv.decrypts rfl (by decide)).1 _ hopens⟩

end BodyReader

end Coffer.Container
