import Coffer.Proofs.Cipher.Propagation
import Coffer.Proofs.Container.Unsealing
/-
  What a reader holds back.

      n / size * size - size        of n bytes of a body can be decrypted before its end is known

  A `BodyReader` moves on by handing out plaintext and by refills, and one read may need several
  refills.  `Reaches` are all the states it passes through, with the bytes it has consumed and the
  plaintext it has handed out.

  * `Reaches.reads`    — whatever is read, and into whatever buffers, the reader stays on these states;
  * `Keeps`            — the invariant before the end: what is settled of the consumed bytes is
                         deciphered, and what is unsettled is pending;
  * `Keeps.refill`     — the step: a refill keeps to it, ends the body or fails the reader;
  * `Reaches.standing` — the run, by induction on the states.

  No key is assumed, and the backend may refuse any block: a reader whose refills succeed has found a
  key as soon as there is something to decrypt.
-/
namespace Coffer.Container

open Cipher (Context KeySchedule BlockCipher)

/-! ## Deciphering -/

/-- How many of `len` bytes of a body can be decrypted before its end is known: the whole blocks but
    the last one. -/
def cut (size len : Nat) : Nat := len / size * size - size

theorem settled_eq_take (size : Nat) (body : Bytes) :
    settled size body = body.take (cut size body.length) := by
  rw [settled, cut, Nat.sub_one_mul]

theorem unsettled_eq_drop (size : Nat) (body : Bytes) :
    unsettled size body = body.drop (cut size body.length) := by
  rw [unsettled, cut, Nat.sub_one_mul]

theorem length_settled_eq_cut (size : Nat) (body : Bytes) :
    (settled size body).length = cut size body.length := by
  rw [length_settled, cut, Nat.sub_one_mul]

/-- The whole blocks `body` decrypt to `plain` where the context stands, none of them refused. -/
inductive Deciphers (context : Context) : (body plain : Bytes) → Prop
  /-- This takes no key. -/
  | nothing : Deciphers context [] []
  | unsealed {key : KeySchedule} {body : Bytes} : context.decryptKey = some key →
      body.length % context.blockSize = 0 → (unsealing context key body).failure? = none →
      Deciphers context body (unsealing context key body).blocks.flatten

section Deciphering

variable {context other : Context} {key : KeySchedule} {a b body plain p q : Bytes}

theorem Deciphers.length_eq (h : Deciphers context body plain) : plain.length = body.length := by
  cases h with
  | nothing => rfl
  | unsealed hkey hmod hsound =>
    rw [length_unsealing hsound, Nat.div_mul_cancel (Nat.dvd_of_mod_eq_zero hmod)]

theorem Deciphers.length_mod (h : Deciphers context body plain) :
    body.length % context.blockSize = 0 := by
  cases h with
  | nothing => exact Nat.zero_mod _
  | unsealed hkey hmod hsound => exact hmod

/-- Under the key of the context, what deciphers is what unseals. -/
theorem Deciphers.unsealing_eq (h : Deciphers context body plain)
    (hkey : context.decryptKey = some key) :
    (unsealing context key body).failure? = none ∧
      (unsealing context key body).blocks.flatten = plain := by
  cases h with
  | nothing =>
    rw [unsealing_nil]
    exact ⟨rfl, rfl⟩
  | @unsealed key' _ hkey' hmod hsound =>
    have heq : key' = key := Option.some.inj (hkey'.symm.trans hkey)
    subst heq
    exact ⟨hsound, rfl⟩

/-- When no block is refused, the chaining value is the last ciphertext block. -/
theorem iv_unsealing (h : (unsealing context key body).failure? = none) :
    (unsealing context key body).iv =
      (blocks context.blockSize body).getLastD context.decryptIv := by
  rw [unsealing, BlockCipher.links_of_opens (BlockCipher.opens_of_links h)]

/-- The context `other` stands behind the blocks of `body`: it is `context` with the chaining value moved
    on. -/
structure Behind (context : Context) (body : Bytes) (other : Context) : Prop where
  cipher_eq : other.cipher = context.cipher
  key_eq : other.decryptKey = context.decryptKey
  iv_eq : other.decryptIv = (blocks context.blockSize body).getLastD context.decryptIv

theorem Behind.blockSize_eq (h : Behind context body other) : other.blockSize = context.blockSize :=
  congrArg BlockCipher.blockSize h.cipher_eq

theorem Behind.moved (hsize : 0 < context.blockSize) (ha : a.length % context.blockSize = 0)
    (h : Behind context a other) (b scratch : Bytes) :
    Behind context (a ++ b) (other.moved .decrypt
      ((blocks context.blockSize b).getLastD other.decryptIv) scratch) := by
  refine ⟨(Context.moved_cipher ..).trans h.cipher_eq,
    (Context.moved_key? other .decrypt .decrypt _ scratch).trans h.key_eq, ?_⟩
  rw [blocks_append hsize ha, getLastD_append, ← h.iv_eq]
  exact Context.moved_iv other .decrypt _ scratch

/-- Unsealing goes on from a context behind what is deciphered. -/
theorem Deciphers.unsealing_append (hsize : 0 < context.blockSize) (ha : Deciphers context a p)
    (h : Behind context a other) (hkey : context.decryptKey = some key) (b : Bytes) :
    unsealing context key (a ++ b) =
      ⟨(unsealing context key a).blocks ++ (unsealing other key b).blocks,
        (unsealing other key b).iv, (unsealing other key b).failure?⟩ := by
  obtain ⟨hsound, -⟩ := ha.unsealing_eq hkey
  exact Container.unsealing_append hsize ha.length_mod hsound h.cipher_eq
    (h.iv_eq.trans (iv_unsealing hsound).symm) b

/-- **Deciphering goes on** from a context behind what is deciphered. -/
theorem Deciphers.append (hsize : 0 < context.blockSize) (ha : Deciphers context a p)
    (h : Behind context a other) (hb : Deciphers other b q) :
    Deciphers context (a ++ b) (p ++ q) := by
  cases hb with
  | nothing =>
    rw [List.append_nil, List.append_nil]
    exact ha
  | @unsealed key _ hkey hmod hsound =>
    have hkey := h.key_eq.symm.trans hkey
    have hboth := ha.unsealing_append hsize h hkey b
    have hall : Deciphers context (a ++ b) (unsealing context key (a ++ b)).blocks.flatten := by
      refine .unsealed hkey ?_ ?_
      · rw [List.length_append, Nat.add_mod, ha.length_mod, ← h.blockSize_eq, hmod, Nat.zero_mod]
      · rw [hboth]
        exact hsound
    rwa [hboth, List.flatten_append, (ha.unsealing_eq hkey).2] at hall

/-- **One more block with padding closes a body** in front of which all is deciphered. -/
theorem Deciphers.unseals_append (hsize : 0 < context.blockSize) (ha : Deciphers context a p)
    (h : Behind context a other) (hkey : context.decryptKey = some key)
    (hlength : b.length = context.blockSize) (hsound : (unsealing other key b).failure? = none)
    {n : Nat} (hn : unpaddedSize (unsealing other key b).blocks.flatten = .ok n) :
    Unseals context key (a ++ b) (p ++ (unsealing other key b).blocks.flatten.take n) := by
  have hboth := ha.unsealing_append hsize h hkey b
  have hlast := length_unsealing hsound
  rw [h.blockSize_eq, hlength, Nat.div_self hsize, Nat.one_mul] at hlast
  refine ⟨?_, ?_, ?_, ?_⟩
  · rw [← List.length_pos_iff, List.length_append]
    omega
  · rw [List.length_append, Nat.add_mod, ha.length_mod, hlength, Nat.mod_self, Nat.zero_mod]
  · rw [hboth]
    exact hsound
  · rw [hboth, List.flatten_append, (ha.unsealing_eq hkey).2]
    exact (padded_append_iff hlast).mpr ⟨n, hn, rfl⟩

end Deciphering

namespace BodyReader

variable {context : Context} {seen given : Bytes} {r : BodyReader} {s : Source}

/-! ## The states that a reader passes through -/

/-- The reader with at most `n` more of the ready bytes handed out. -/
def hand (r : BodyReader) (n : Nat) : BodyReader :=
  { r with taken := r.taken + ((r.ready.drop r.taken).take n).length }

/-- The raw bytes that a refill consumes. -/
def received (r : BodyReader) : Bytes := handedOut [(r.source.readRetrying portion).1]

theorem received_of_bytes {got : Bytes} {source : Source}
    (h : r.source.readRetrying portion = (.ok got, source)) : r.received = got := by
  rw [received, h, handedOut_ok, handedOut_nil, List.append_nil]

theorem received_of_error {e : IoError} {source : Source}
    (h : r.source.readRetrying portion = (.error e, source)) : r.received = [] := by
  rw [received, h, handedOut_error, handedOut_nil]

/-- The states that a reader of `s` passes through, with the raw bytes `seen` that it has consumed and
    the plaintext `given` that it has handed out. -/
inductive Reaches (s : Source) (context : Context) : (seen given : Bytes) → BodyReader → Prop
  | start : Reaches s context [] [] (ofSource s context)
  | hand {seen given : Bytes} {r : BodyReader} (n : Nat) : Reaches s context seen given r →
      Reaches s context seen (given ++ (r.ready.drop r.taken).take n) (r.hand n)
  | refill {seen given : Bytes} {r : BodyReader} : Reaches s context seen given r →
      r.ready.length ≤ r.taken → r.failed = false → r.done = false →
      Reaches s context (seen ++ r.received) given r.refill.2

/-- **One read stays on these states,** however many refills it takes. -/
theorem Reaches.read (h : Reaches s context seen given r) (n : Nat) :
    ∃ seen', Reaches s context seen' (given ++ handedOut [(r.read n).1]) (r.read n).2 := by
  fun_induction BodyReader.read n r generalizing seen with
  | case1 r hz =>
    rw [handedOut_ok, handedOut_nil, List.append_nil, List.append_nil]
    exact ⟨seen, h⟩
  | case2 r hz hlt =>
    rw [handedOut_ok, handedOut_nil, List.append_nil]
    exact ⟨seen, h.hand n⟩
  | case3 r hz hnot hfailed =>
    rw [handedOut_error, handedOut_nil, List.append_nil]
    exact ⟨seen, h⟩
  | case4 r hz hnot hfailed hdone =>
    rw [handedOut_ok, handedOut_nil, List.append_nil, List.append_nil]
    exact ⟨seen, h⟩
  | case5 r hz hnot hfailed hdone e r' hre =>
    have hnext := h.refill (by omega) (by simpa using hfailed) (by simpa using hdone)
    rw [hre] at hnext
    rw [handedOut_error, handedOut_nil, List.append_nil]
    exact ⟨_, hnext⟩
  | case6 r hz hnot hfailed hdone r' hre ih =>
    have hnext := h.refill (by omega) (by simpa using hfailed) (by simpa using hdone)
    rw [hre] at hnext
    exact ih hnext

theorem Reaches.reads (h : Reaches s context seen given r) (sizes : List Nat) :
    ∃ seen', Reaches s context seen' (given ++ handedOut (r.reads sizes).1) (r.reads sizes).2 := by
  induction sizes generalizing seen given r with
  | nil =>
    rw [BodyReader.reads, handedOut_nil, List.append_nil]
    exact ⟨seen, h⟩
  | cons n later ih =>
    obtain ⟨seen', hread⟩ := h.read n
    obtain ⟨seen'', hreads⟩ := ih hread
    refine ⟨seen'', ?_⟩
    rw [List.append_assoc, ← handedOut_append, List.singleton_append] at hreads
    exact hreads

/-- Decrypting leaves the source and what was handed out as they are. -/
theorem decryptSome_frame (r : BodyReader) :
    ∃ context pending ready, r.decryptSome.2 =
      { r with context := context, pending := pending, ready := ready } := by
  unfold decryptSome
  simp only
  split
  · exact ⟨_, _, _, rfl⟩
  · split <;> exact ⟨_, _, _, rfl⟩

theorem decryptRest_frame (r : BodyReader) :
    ∃ context pending ready, r.decryptRest.2 =
      { r with done := true, context := context, pending := pending, ready := ready } := by
  unfold decryptRest
  simp only
  split
  · exact ⟨_, _, _, rfl⟩
  · split
    · exact ⟨_, _, _, rfl⟩
    · split
      · exact ⟨_, _, _, rfl⟩
      · split <;> exact ⟨_, _, _, rfl⟩

theorem source_refill (r : BodyReader) : r.refill.2.source = (r.source.readRetrying portion).2 := by
  rcases hread : r.source.readRetrying portion with ⟨e | got, source⟩
  · rw [refill_of_error hread]
  · by_cases hgot : got = []
    · subst hgot
      obtain ⟨context, pending, ready, hrest⟩ := (r.receiving [] source).decryptRest_frame
      rw [refill_of_end hread, hrest]
      rfl
    · obtain ⟨context, pending, ready, hsome⟩ := (r.receiving got source).decryptSome_frame
      rw [refill_of_bytes hread hgot, hsome]
      rfl

/-- What a reader has consumed is what raw calls gave out, interrupted ones among them. -/
theorem Reaches.calls (h : Reaches s context seen given r) :
    ∃ raw, s.calls portion raw.length = (raw, r.source) ∧ handedOut raw = seen := by
  induction h with
  | start => exact ⟨[], rfl, rfl⟩
  | hand n _ ih => exact ih
  | @refill seen given r _ hall hfailed hdone ih =>
    obtain ⟨raw, hraw, hseen⟩ := ih
    obtain ⟨waits, hwaits, hcalls⟩ := Source.readRetrying_eq_calls portion r.source
    refine ⟨raw ++ (waits ++ [(r.source.readRetrying portion).1]), ?_, ?_⟩
    · rw [source_refill, List.length_append, List.length_append, List.length_singleton,
        Source.calls_add, hraw, hcalls]
    · rw [handedOut_append, handedOut_append, hwaits.spec.1, List.nil_append, hseen, received]

/-! ## What a refill leads to -/

/-- **What is settled of the pending bytes is deciphered,** or decrypting fails. -/
theorem decryptSome_eq_ok (h : r.decryptSome.1 = .ok ()) :
    ∃ scratch plain, Deciphers r.context (settled r.context.blockSize r.pending) plain ∧
      r.decryptSome = (.ok (), { r with
        context := r.context.moved .decrypt ((blocks r.context.blockSize
          (settled r.context.blockSize r.pending)).getLastD r.context.decryptIv) scratch
        pending := unsettled r.context.blockSize r.pending
        ready := r.ready ++ plain }) := by
  rcases hkey : r.context.decryptKey with _ | key
  · -- Without a key nothing can be settled, for the call on it would fail.
    have h0 : r.decryptable = 0 := by
      by_contra h0
      have hkey? : r.context.key? .decrypt = none := hkey
      simp only [decryptSome, h0, if_false, Context.inPlace, hkey?] at h
      cases h
    obtain ⟨hs, hu, hsome⟩ := decryptSome_of_nothing h0
    refine ⟨r.context.scratch, [], ?_, ?_⟩
    · rw [hs]
      exact .nothing
    · rw [hsome, hs, hu, blocks_nil, List.append_nil]
      rfl
  · rcases hfailure : (unsealing r.context key (settled r.context.blockSize r.pending)).failure?
      with _ | e
    · obtain ⟨scratch, hsome⟩ := decryptSome_of_unsealed hkey hfailure
      rw [iv_unsealing hfailure] at hsome
      exact ⟨scratch, _, .unsealed hkey (length_settled_mod _ _) hfailure, hsome⟩
    · obtain ⟨context', pending', hsome⟩ := decryptSome_of_refused hkey hfailure
      rw [hsome] at h
      cases h

/-- **At the end of the source one whole block is pending,** and it deciphers to padding, or decrypting
    fails. -/
theorem decryptRest_eq_ok (hsize : 0 < r.context.blockSize)
    (hlt : r.pending.length < 2 * r.context.blockSize) (h : r.decryptRest.1 = .ok ()) :
    r.pending.length = r.context.blockSize ∧ ∃ key n scratch, r.context.decryptKey = some key ∧
      (unsealing r.context key r.pending).failure? = none ∧
      unpaddedSize (unsealing r.context key r.pending).blocks.flatten = .ok n ∧
      r.decryptRest = (.ok (), { r with
        done := true
        context := r.context.moved .decrypt (unsealing r.context key r.pending).iv scratch
        pending := []
        ready := r.ready ++ (unsealing r.context key r.pending).blocks.flatten.take n }) := by
  have hne : r.pending ≠ [] := by
    intro hnil
    rw [decryptRest_of_nil hnil] at h
    cases h
  have hmod : r.pending.length % r.context.blockSize = 0 := by
    by_contra hmod
    rw [decryptRest_of_partial hmod] at h
    cases h
  have hblock : r.pending.length = r.context.blockSize := by
    -- A multiple of the block size between none and two of them.
    obtain ⟨m, hm⟩ := Nat.dvd_of_mod_eq_zero hmod
    have hpos := List.length_pos_iff.mpr hne
    rw [hm] at hlt hpos
    have hm1 : m < 2 := Nat.lt_of_mul_lt_mul_left (Nat.mul_comm 2 _ ▸ hlt)
    have hm0 : 0 < m := Nat.pos_of_mul_pos_left hpos
    rw [hm, show m = 1 from by omega, Nat.mul_one]
  refine ⟨hblock, ?_⟩
  rcases hkey : r.context.decryptKey with _ | key
  · have hkey? : r.context.key? .decrypt = none := hkey
    have hempty : r.pending.isEmpty = false := List.isEmpty_eq_false_iff.mpr hne
    simp only [decryptRest, hempty, hmod, blockSize, Context.inPlace, hkey?, ne_eq, not_true_eq_false,
      if_false, Bool.false_eq_true] at h
    cases h
  · rcases decryptRest_of_last hkey hblock hsize with
      ⟨n, scratch, hsound, hunpadded, hrest⟩ | ⟨e, context', pending', hk, hrest⟩
    · exact ⟨key, n, scratch, rfl, hsound, hunpadded, hrest⟩
    · rw [hrest] at h
      cases h

/-- What a reader has before the end of the source: what is settled of the bytes `seen` is deciphered,
    and part of that is `given`; the rest of them is pending. -/
structure Keeps (context : Context) (seen given : Bytes) (r : BodyReader) : Prop where
  behind : Behind context (settled context.blockSize seen) r.context
  pending_eq : r.pending = unsettled context.blockSize seen
  deciphers : Deciphers context (settled context.blockSize seen) (given ++ r.ready.drop r.taken)
  taken_le : r.taken ≤ r.ready.length
  done_eq : r.done = false
  failed_eq : r.failed = false

/-- What a reader has at the end of the source: all that it consumed was unsealed. -/
structure Finished (context : Context) (seen given : Bytes) (r : BodyReader) : Prop where
  /-- What was consumed are whole blocks: the one that was held back, and those in front of it. -/
  length_eq : seen.length = cut context.blockSize seen.length + context.blockSize
  pending_eq : r.pending = []
  iv_eq : r.context.decryptIv = (blocks context.blockSize seen).getLastD context.decryptIv
  unseals : ∃ key, context.decryptKey = some key ∧
    Unseals context key seen (given ++ r.ready.drop r.taken)
  taken_le : r.taken ≤ r.ready.length
  done_eq : r.done = true
  failed_eq : r.failed = false

/-- How a reader stands. -/
inductive Standing (context : Context) (seen given : Bytes) (r : BodyReader) : Prop
  | reading : Keeps context seen given r → Standing context seen given r
  | finished : Finished context seen given r → Standing context seen given r
  | failed : r.failed = true → r.taken ≤ r.ready.length → Standing context seen given r

/-- Where everything is handed out, what was given is what is settled, deciphered. -/
theorem Keeps.deciphers_given (h : Keeps context seen given r) (hall : r.ready.length ≤ r.taken) :
    Deciphers context (settled context.blockSize seen) given := by
  have hd := h.deciphers
  rwa [List.drop_eq_nil_of_le hall, List.append_nil] at hd

/-- **A raw read with some bytes keeps to the invariant,** or fails the reader. -/
theorem Keeps.refill_of_bytes (hsize : 0 < context.blockSize) (h : Keeps context seen given r)
    (hall : r.ready.length ≤ r.taken) {got : Bytes} {source : Source}
    (hread : r.source.readRetrying portion = (.ok got, source)) (hgot : got ≠ []) :
    Standing context (seen ++ got) given r.refill.2 := by
  obtain ⟨hset, hunset⟩ := settled_append_got hsize seen got
  have hsz : (r.receiving got source).context.blockSize = context.blockSize := h.behind.blockSize_eq
  have hpending : (r.receiving got source).pending = unsettled context.blockSize seen ++ got :=
    congrArg (· ++ got) h.pending_eq
  rw [BodyReader.refill_of_bytes hread hgot]
  rcases hok : (r.receiving got source).decryptSome.1 with e | ⟨⟩
  · obtain ⟨context', pending', ready', hframe⟩ := (r.receiving got source).decryptSome_frame
    rw [hframe]
    exact .failed rfl (Nat.zero_le _)
  · -- What was held back and the new bytes are cut anew; what was settled before stays settled.
    obtain ⟨scratch, plain, hplain, hsome⟩ := decryptSome_eq_ok hok
    rw [hsz, hpending] at hplain hsome
    rw [hsome]
    refine .reading ⟨?_, hunset.symm, ?_, Nat.zero_le _, h.done_eq, rfl⟩
    · rw [hset]
      exact h.behind.moved hsize (length_settled_mod _ seen) _ scratch
    · rw [hset]
      exact (h.deciphers_given hall).append hsize h.behind hplain

/-- **A raw read at the end of the source finds one block to unseal,** or fails the reader. -/
theorem Keeps.refill_of_end (hsize : 0 < context.blockSize) (h : Keeps context seen given r)
    (hall : r.ready.length ≤ r.taken) {source : Source}
    (hread : r.source.readRetrying portion = (.ok [], source)) :
    (r.refill.2.failed = false → r.pending.length = context.blockSize) ∧
      Standing context seen given r.refill.2 := by
  have hsz : (r.receiving [] source).context.blockSize = context.blockSize := h.behind.blockSize_eq
  have hpending : (r.receiving [] source).pending = unsettled context.blockSize seen :=
    (List.append_nil r.pending).trans h.pending_eq
  rw [BodyReader.refill_of_end hread]
  rcases hok : (r.receiving [] source).decryptRest.1 with e | ⟨⟩
  · obtain ⟨context', pending', ready', hframe⟩ := (r.receiving [] source).decryptRest_frame
    rw [hframe]
    refine ⟨?_, .failed rfl (Nat.zero_le _)⟩
    intro hf
    cases hf
  · obtain ⟨hblock, key, n, scratch, hkey, hsound, hunpadded, hrest⟩ :=
      decryptRest_eq_ok (by rw [hsz]; exact hsize)
        (by rw [hsz, hpending]; exact length_unsettled_lt hsize seen) hok
    rw [hsz, hpending] at hblock
    rw [hpending] at hsound hunpadded hrest
    have hkey : context.decryptKey = some key := h.behind.key_eq.symm.trans hkey
    -- The body is what was deciphered before and the one block that is unsealed now.
    have hunseals := (h.deciphers_given hall).unseals_append hsize h.behind hkey hblock hsound hunpadded
    have hboth := (h.deciphers_given hall).unsealing_append hsize h.behind hkey
      (unsettled context.blockSize seen)
    rw [settled_append_unsettled] at hunseals hboth
    have hlength := congrArg List.length (settled_append_unsettled context.blockSize seen)
    rw [List.length_append, length_settled_eq_cut, hblock] at hlength
    rw [hrest]
    refine ⟨fun _ => by rw [h.pending_eq, hblock], .finished ⟨hlength.symm, rfl, ?_,
      ⟨key, hkey, hunseals⟩, Nat.zero_le _, rfl, rfl⟩⟩
    rw [← iv_unsealing hunseals.2.2.1, hboth]
    exact Context.moved_iv r.context .decrypt _ scratch

/-- **A refill keeps to the invariant,** ends the body or fails the reader. -/
theorem Keeps.refill (hsize : 0 < context.blockSize) (h : Keeps context seen given r)
    (hall : r.ready.length ≤ r.taken) : Standing context (seen ++ r.received) given r.refill.2 := by
  rcases hread : r.source.readRetrying portion with ⟨e | got, source⟩
  · -- The raw read fails: only the source has moved.
    rw [received_of_error hread, List.append_nil, refill_of_error hread]
    exact .reading { h with }
  · rw [received_of_bytes hread]
    by_cases hgot : got = []
    · subst hgot
      rw [List.append_nil]
      exact (h.refill_of_end hsize hall hread).2
    · exact h.refill_of_bytes hsize hall hread hgot

/-- Handing out leaves a reader as it stands. -/
theorem Standing.hand (h : Standing context seen given r) (n : Nat) :
    Standing context seen (given ++ (r.ready.drop r.taken).take n) (r.hand n) := by
  cases h with
  | reading h =>
    refine .reading { h with deciphers := ?_, taken_le := length_take_le r n h.taken_le }
    exact (given_append_take given r n).symm ▸ h.deciphers
  | finished h =>
    refine .finished { h with unseals := ?_, taken_le := length_take_le r n h.taken_le }
    exact (given_append_take given r n).symm ▸ h.unseals
  | failed hfailed hle => exact .failed hfailed (length_take_le r n hle)

theorem keeps_ofSource (s : Source) (context : Context) :
    Keeps context [] [] (ofSource s context) := by
  have hset : settled context.blockSize [] = [] := List.take_nil
  refine ⟨⟨rfl, rfl, ?_⟩, List.drop_nil.symm, ?_, Nat.le_refl 0, rfl, rfl⟩
  · rw [hset, blocks_nil]
    rfl
  · rw [hset]
    exact .nothing

theorem Standing.taken_le (h : Standing context seen given r) : r.taken ≤ r.ready.length := by
  cases h with
  | reading hkeeps => exact hkeeps.taken_le
  | finished hfinished => exact hfinished.taken_le
  | failed _ hle => exact hle

/-- A reader that has neither failed nor come to the end is before it. -/
theorem Standing.keeps (h : Standing context seen given r) (hfailed : r.failed = false)
    (hdone : r.done = false) : Keeps context seen given r := by
  cases h with
  | reading hkeeps => exact hkeeps
  | finished hfinished => exact absurd (hdone.symm.trans hfinished.done_eq) Bool.false_ne_true
  | failed hfailed' _ => exact absurd (hfailed.symm.trans hfailed') Bool.false_ne_true

theorem Standing.finished_of_done (h : Standing context seen given r) (hfailed : r.failed = false)
    (hdone : r.done = true) : Finished context seen given r := by
  cases h with
  | reading hkeeps => exact absurd (hkeeps.done_eq.symm.trans hdone) Bool.false_ne_true
  | finished hfinished => exact hfinished
  | failed hfailed' _ => exact absurd (hfailed.symm.trans hfailed') Bool.false_ne_true

/-- **In every state that it passes through, a reader keeps to the invariant,** is at its end or has
    failed. -/
theorem Reaches.standing (hsize : 0 < context.blockSize) (h : Reaches s context seen given r) :
    Standing context seen given r := by
  induction h with
  | start => exact .reading (keeps_ofSource s context)
  | hand n _ ih => exact ih.hand n
  | refill _ hall hfailed hdone ih => exact (ih.keeps hfailed hdone).refill hsize hall

/-! ## What is held back -/

/-- Before the end of the source, with the bytes `seen` consumed: all whole blocks but the last one are
    decrypted, and `given` is the part of them that is handed out. -/
structure HoldsBack (context : Context) (seen given : Bytes) (r : BodyReader) : Prop where
  decrypted : given.length + (r.ready.length - r.taken) = cut context.blockSize seen.length
  deciphers : Deciphers context (seen.take (cut context.blockSize seen.length))
    (given ++ r.ready.drop r.taken)
  pending_eq : r.pending = seen.drop (cut context.blockSize seen.length)
  pending_lt : r.pending.length < 2 * context.blockSize
  /-- The chaining value is the last ciphertext block that was decrypted. -/
  iv_eq : r.context.decryptIv =
    (blocks context.blockSize (seen.take (cut context.blockSize seen.length))).getLastD
      context.decryptIv
  /-- There is never more than one whole block left to decrypt, … -/
  left_le : r.pending.length / context.blockSize ≤ 1
  /-- … and just that when the source ends, or the reader fails. -/
  left_at_end : (r.source.readRetrying portion).1 = .ok [] → r.ready.length ≤ r.taken →
    r.refill.2.failed = false → r.pending.length = context.blockSize

theorem Keeps.holdsBack (hsize : 0 < context.blockSize) (h : Keeps context seen given r) :
    HoldsBack context seen given r := by
  have hlt : r.pending.length < 2 * context.blockSize := by
    rw [h.pending_eq]
    exact length_unsettled_lt hsize seen
  refine ⟨?_, ?_, ?_, hlt, ?_, ?_, ?_⟩
  · have hlength := h.deciphers.length_eq
    rwa [List.length_append, List.length_drop, length_settled_eq_cut] at hlength
  · rw [← settled_eq_take]
    exact h.deciphers
  · rw [← unsettled_eq_drop]
    exact h.pending_eq
  · rw [← settled_eq_take]
    exact h.behind.iv_eq
  · exact Nat.le_of_lt_succ ((Nat.div_lt_iff_lt_mul hsize).mpr hlt)
  · intro hend hall
    exact (h.refill_of_end hsize hall (Prod.ext hend rfl)).1

/-- What is true of a reader of `s` that has consumed `seen` and handed out `given`. -/
structure Accounted (s : Source) (context : Context) (seen given : Bytes) (r : BodyReader) :
    Prop where
  consumed : ∃ raw, s.calls portion raw.length = (raw, r.source) ∧ handedOut raw = seen
  taken_le : r.taken ≤ r.ready.length
  before_end : r.failed = false → r.done = false → HoldsBack context seen given r
  at_end : r.failed = false → r.done = true → Finished context seen given r

/-- **A reader decrypts all but the last whole block of what it has consumed,** whatever the raw source
    gives at a time and whatever is read: this is so in every state that it passes through, between two
    refills of one read as well, until it fails.  When the source has ended, one block was left. -/
theorem all_but_the_last_block_is_decrypted (s : Source) (hsize : 0 < context.blockSize) :
    (∀ sizes, ∃ seen, Reaches s context seen (handedOut ((ofSource s context).reads sizes).1)
      ((ofSource s context).reads sizes).2) ∧
    ∀ {seen given : Bytes} {r : BodyReader}, Reaches s context seen given r →
      Accounted s context seen given r := by
  refine ⟨?_, ?_⟩
  · intro sizes
    have hstart : Reaches s context [] [] (ofSource s context) := .start
    exact hstart.reads sizes
  · intro seen given r h
    have hstanding := h.standing hsize
    refine ⟨h.calls, hstanding.taken_le, ?_, ?_⟩
    · intro hfailed hdone
      exact (hstanding.keeps hfailed hdone).holdsBack hsize
    · intro hfailed hdone
      exact hstanding.finished_of_done hfailed hdone

/-- On AES, of thirty-three bytes that come at once sixteen are decrypted and seventeen held back. -/
theorem all_but_the_last_block_is_decrypted_on_aes :
    ∃ (context : Context) (r : BodyReader), 0 < context.blockSize ∧
      Reaches (.ofBytes (List.replicate 33 0)) context (List.replicate 33 0) [] r ∧
      HoldsBack context (List.replicate 33 0) [] r ∧
      r.ready.length - r.taken = 16 ∧ r.pending.length = 17 := by
  obtain ⟨context, E, D, hkey, hinv⟩ := Cipher.Aes.keyed_inverts
    (show (Context.fresh Cipher.Aes.portable "log").cipher = _ from rfl)
    (show Cipher.Aes.IsKeyLength (List.replicate 32 7 : Bytes).length from Or.inr (Or.inr rfl))
  have hsize : context.blockSize = 16 := by
    obtain ⟨-, -, ek, dk, -, -, rfl⟩ := Context.setKey_eq_ok_iff.mp hkey
    rfl
  have hread : (Source.ofBytes (List.replicate 33 0)).readRetrying portion =
      (.ok (List.replicate 33 0), ⟨[], none, .finished⟩) := by
    rw [Source.readRetrying]
    rfl
  have hreach : Reaches (.ofBytes (List.replicate 33 0)) context (List.replicate 33 0) []
      (ofSource (.ofBytes (List.replicate 33 0)) context).refill.2 := by
    have hstart : Reaches (.ofBytes (List.replicate 33 0)) context [] []
      (ofSource (.ofBytes (List.replicate 33 0)) context) := .start
    have h := hstart.refill (Nat.le_refl 0) rfl rfl
    rw [received_of_bytes hread] at h
    exact h
  -- AES refuses no block, so the refill does not fail.
  obtain ⟨scratch, hsome⟩ := decryptSome_eq (r := (ofSource (.ofBytes (List.replicate 33 0))
    context).receiving (List.replicate 33 0) ⟨[], none, .finished⟩) hinv.decrypts
  have hrefill := BodyReader.refill_of_bytes (r := ofSource (.ofBytes (List.replicate 33 0)) context)
    hread (List.cons_ne_nil _ _)
  rw [hsome] at hrefill
  have hholds := ((all_but_the_last_block_is_decrypted (.ofBytes (List.replicate 33 0))
    (by omega)).2 hreach).before_end (by rw [hrefill]; rfl) (by rw [hrefill]; rfl)
  have hcut : cut context.blockSize (List.replicate 33 (0 : UInt8)).length = 16 := by
    rw [hsize]
    rfl
  refine ⟨context, _, by omega, hreach, hholds, ?_, ?_⟩
  · have hdecrypted := hholds.decrypted
    rwa [hcut, List.length_nil, Nat.zero_add] at hdecrypted
  · rw [hholds.pending_eq, hcut]
    rfl

end BodyReader

end Coffer.Container
