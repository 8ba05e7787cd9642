import Coffer.Proofs.Container.Unsealing
import Coffer.Proofs.Container.Writer
/-
  A body that was never finished.

  A writer that is dropped has stored the whole blocks of what was written, sealed, and no padding.
  Nothing tells such a body from a finished one but the end of its plaintext: where the whole blocks of
  the data happen to end as padding does, the body unseals, to the data without that end
  (`unseals_unfinished_iff`).  In every other case it is detected
  (`unfinished_body_fails_unless_it_ends_as_padding`).

  So `finish` cannot be left out, and leaving it out is not always noticed
  (`unfinished_body_reads_to_a_clean_end`).
-/
namespace Coffer.Container

open Cipher (Context KeySchedule)
open BodyReader BodyWriter

section Unfinished

variable {context : Context} {key : KeySchedule} {E D : Bytes → Bytes} {written data : Bytes}

/-- **What is sealed without padding unseals exactly where it ends as padding does.** -/
theorem unseals_unfinished_iff (hsize : 0 < context.blockSize) (hkey : context.decryptKey = some key)
    (hinv : context.Inverts E D) :
    Unseals context key
        (Cipher.chain E context.decryptIv (blocks context.blockSize written)).flatten data ↔
      Padded context.blockSize data (blocks context.blockSize written).flatten := by
  have hlength : ∀ x ∈ Cipher.chain E context.decryptIv (blocks context.blockSize written),
      x.length = context.blockSize :=
    Cipher.length_of_mem_chain (fun _ hb => hinv.encrypts.length_eq hb) _
      fun _ hx => length_of_mem_blocks hx
  have hplain : plaintext D context.blockSize context.decryptIv
      (Cipher.chain E context.decryptIv (blocks context.blockSize written)).flatten =
        (blocks context.blockSize written).flatten := by
    rw [plaintext, blocks_flatten hsize hlength,
      Cipher.unchain_chain hinv.inverse fun _ hx => length_of_mem_blocks hx]
  rw [unseals_iff_opens hkey hinv.decrypts, Opens, hplain]
  constructor
  · exact fun h => h.2.2
  · intro hpadded
    refine ⟨?_, ?_, hpadded⟩
    · -- There is a block at least, for padding is never empty.
      intro hnil
      rw [hnil, plaintext, blocks_nil] at hplain
      exact hpadded.ne_nil hplain.symm
    · rw [length_flatten_of_length_eq hlength, Nat.mul_mod_left]

/-- Reads of blocks that end as padding does hand out what is in front of that end. -/
theorem reads_of_padded (hsize : 0 < context.blockSize) (hkey : context.decryptKey = some key)
    (hinv : context.Inverts E D) {s : Source} (hs : s.ending = .finished)
    (hdelivered : s.delivered =
      (Cipher.chain E context.decryptIv (blocks context.blockSize written)).flatten)
    (hpadded : Padded context.blockSize data (blocks context.blockSize written).flatten)
    {sizes : List Nat} (hsizes : ∀ n ∈ sizes, 0 < n) :
    ∃ live rest, ((ofSource s context).reads sizes).1 = live ++ rest ∧
      Served s data .sound live rest ((ofSource s context).reads sizes).2.source := by
  have hunseals := (unseals_unfinished_iff hsize hkey hinv).mpr hpadded
  rw [← hdelivered, unseals_iff_opens hkey hinv.decrypts] at hunseals
  exact reads_served hsize hinv.decrypts hs (.sound hunseals) hsizes

/-- Writes to a raw stream that takes everything succeed. -/
theorem performAll_on_empty (hkey : context.encryptKey = some key) (hE : context.Encrypts E)
    (hsize : 0 < context.blockSize) (requests : List Request) :
    ((onTop Sink.empty context).performAll requests).1 = List.replicate requests.length (.ok ()) := by
  refine (follows_onTop hkey Sink.empty).performAll_of_errorFree hkey hE hsize ⟨?_, ?_, ?_⟩ requests
  · exact fun reply h => absurd h List.not_mem_nil
  · exact fun h => nomatch h
  · exact fun reply h => absurd h List.not_mem_nil

theorem noWriteFailed_on_empty (hkey : context.encryptKey = some key) (hE : context.Encrypts E)
    (hsize : 0 < context.blockSize) (requests : List Request) :
    NoWriteFailed requests ((onTop Sink.empty context).performAll requests).1 := by
  rw [performAll_on_empty hkey hE hsize]
  intro b answer hm
  exact List.eq_of_mem_replicate (List.of_mem_zip hm).2

end Unfinished

/-- A context on AES with a key and a chaining value of sixteen bytes each. -/
theorem exists_context_on_aes (b c : UInt8) :
    ∃ keyed context E D, (Context.fresh Cipher.Aes.portable "log").setKey (List.replicate 16 b) =
        .ok keyed ∧
      keyed.setIvs (List.replicate 16 c) = .ok context ∧ context.Inverts E D ∧
      context.blockSize = 16 ∧ context.decryptIv = context.encryptIv := by
  obtain ⟨keyed, E, D, hset, hinv⟩ := Cipher.Aes.keyed_inverts
    (show (Context.fresh Cipher.Aes.portable "log").cipher = _ from rfl)
    (show Cipher.Aes.IsKeyLength (List.replicate 16 b).length from Or.inl List.length_replicate)
  have hsize : keyed.blockSize = 16 := by
    obtain ⟨-, -, ek, dk, -, -, rfl⟩ := Context.setKey_eq_ok_iff.mp hset
    rfl
  have hiv : (List.replicate 16 c).length = keyed.blockSize := by
    rw [hsize, List.length_replicate]
  refine ⟨keyed, _, E, D, hset, Context.setIvs_of_length hiv, ?_, hsize, rfl⟩
  exact hinv.of_eq rfl fun d => by cases d <;> rfl

/-- **An unfinished body fails unless it ends as padding does.**  Calls are made on a writer, none of its
    writes fails, and it is dropped: what it has stored are the whole blocks, sealed.  Whatever the
    backend, and whatever the raw source does in between, reads of that come to a failure for ever and
    never to a clean end, unless the stored bytes unseal.  Where the block operations are inverse to
    each other, they do so exactly when the whole blocks of what was written end as padding does, and
    then the reads hand out what is in front of that end and nothing more. -/
theorem unfinished_body_fails_unless_it_ends_as_padding {context : Context} {key key' : KeySchedule}
    (hkey : context.encryptKey = some key) (hkey' : context.decryptKey = some key')
    (hiv : context.decryptIv = context.encryptIv) (hsize : 0 < context.blockSize) {start : Sink}
    {requests : List Request}
    (hwritten : NoWriteFailed requests ((onTop start context).performAll requests).1) {s : Source}
    (hs : s.ending = .finished)
    (hstored : ((onTop start context).performAll requests).2.inner.taken = start.taken ++ s.delivered)
    {sizes : List Nat} (hsizes : ∀ n ∈ sizes, 0 < n) :
    s.delivered = (sealing context key (submitted requests)).blocks.flatten ∧
    ((∀ data, ¬ Unseals context key' s.delivered data) →
      ∃ live rest, ((ofSource s context).reads sizes).1 = live ++ rest ∧
        Exposed s.faults (s.delivered.length + s.faults.length) live rest) ∧
    ∀ E D, context.Inverts E D → ∀ data,
      (Unseals context key' s.delivered data ↔
        Padded context.blockSize data (blocks context.blockSize (submitted requests)).flatten) ∧
      (Padded context.blockSize data (blocks context.blockSize (submitted requests)).flatten →
        ∃ live rest, ((ofSource s context).reads sizes).1 = live ++ rest ∧
          Served s data .sound live rest ((ofSource s context).reads sizes).2.source) := by
  have hsealed : s.delivered = (sealing context key (submitted requests)).blocks.flatten := by
    obtain ⟨-, htaken, -, -⟩ := (seals_performAll hkey hsize start requests).exact hwritten
    exact List.append_cancel_left (hstored.symm.trans htaken)
  refine ⟨hsealed, ?_, ?_⟩
  · intro hno
    have hbudget : (ofSource s context).budget = s.delivered.length + s.faults.length := by
      show 0 - 0 + 0 + s.delivered.length + s.faults.length = _
      omega
    rw [← hbudget]
    exact (midway_ofSource hkey' hs).reads hsize hno hsizes
  · intro E D hinv data
    have hdelivered : s.delivered =
        (Cipher.chain E context.decryptIv (blocks context.blockSize (submitted requests))).flatten := by
      rw [hsealed, sealing_of_encrypts hkey hinv.encrypts, hiv]
    constructor
    · rw [hdelivered]
      exact unseals_unfinished_iff hsize hkey' hinv
    · intro hpadded
      exact reads_of_padded hsize hkey' hinv hs hdelivered hpadded hsizes

/-- On AES, twenty zeroes are written and the writer is dropped: the sixteen bytes stored do not open. -/
theorem unfinished_body_fails_unless_it_ends_as_padding_on_zeroes :
    ∃ (context : Context) (s : Source) (live rest : List (Except IoError Bytes)),
      s.delivered =
        ((onTop Sink.empty context).performAll [.write (List.replicate 20 0)]).2.inner.taken ∧
      ((ofSource s context).reads [7, 1, 7]).1 = live ++ rest ∧
      Exposed s.faults (s.delivered.length + s.faults.length) live rest := by
  obtain ⟨-, context, E, D, -, -, hinv, hsize, hiv⟩ := exists_context_on_aes 7 1
  obtain ⟨key, hkey, -⟩ := hinv.encrypts
  obtain ⟨key', hkey', -⟩ := hinv.decrypts
  have hpos : 0 < context.blockSize := by omega
  have hwritten := noWriteFailed_on_empty hkey hinv.encrypts hpos [.write (List.replicate 20 0)]
  obtain ⟨hdelivered, -⟩ := Source.delivered_ofBytes
    ((onTop Sink.empty context).performAll [.write (List.replicate 20 0)]).2.inner.taken
  obtain ⟨-, hfails, hinverse⟩ := unfinished_body_fails_unless_it_ends_as_padding hkey hkey' hiv hpos
    hwritten (rfl : (Source.ofBytes _).ending = .finished) hdelivered.symm
    (by decide : ∀ n ∈ [7, 1, 7], 0 < n)
  have hno : ∀ data, ¬ Unseals context key' (Source.ofBytes
      ((onTop Sink.empty context).performAll [.write (List.replicate 20 0)]).2.inner.taken).delivered
        data := by
    intro data hunseals
    -- No padding ends in a zero.
    have hpadded := (hinverse E D hinv data).1.mp hunseals
    rw [hsize] at hpadded
    have hpadded : Padded 16 data ([] ++ List.replicate 16 0) := hpadded
    obtain ⟨k, hk, -⟩ := (padded_append_iff List.length_replicate).mp hpadded
    cases hk
  obtain ⟨live, rest, hreads, hexposed⟩ := hfails hno
  exact ⟨context, _, live, rest, hdelivered, hreads, hexposed⟩

/-- **An unfinished body can read to a clean end.**  On AES, under a key of zeroes, one block that holds
    sixteen sixteens is written and the writer is dropped: what was stored reads as no data at all. -/
theorem unfinished_body_reads_to_a_clean_end :
    ∃ keyed context, (Context.fresh Cipher.Aes.portable "log").setKey (List.replicate 16 0) =
        .ok keyed ∧
      keyed.setIvs (List.replicate 16 16) = .ok context ∧
      ((onTop Sink.empty context).performAll [.write (List.replicate 16 16)]).1 = [.ok ()] ∧
      ((ofSource (.ofBytes
        ((onTop Sink.empty context).performAll [.write (List.replicate 16 16)]).2.inner.taken)
          context).reads [16]).1 = [.ok []] := by
  obtain ⟨keyed, context, E, D, hset, hivs, hinv, hsize, hiv⟩ := exists_context_on_aes 0 16
  obtain ⟨key, hkey, -⟩ := hinv.encrypts
  obtain ⟨key', hkey', -⟩ := hinv.decrypts
  have hpos : 0 < context.blockSize := by omega
  have hanswers := performAll_on_empty hkey hinv.encrypts hpos [.write (List.replicate 16 16)]
  have hwritten := noWriteFailed_on_empty hkey hinv.encrypts hpos [.write (List.replicate 16 16)]
  refine ⟨keyed, context, hset, hivs, hanswers, ?_⟩
  -- What is stored unseals to sixteen sixteens, which are padding behind nothing.
  have hdelivered : (Source.ofBytes
      ((onTop Sink.empty context).performAll [.write (List.replicate 16 16)]).2.inner.taken).delivered =
        (Cipher.chain E context.decryptIv
          (blocks context.blockSize (submitted [.write (List.replicate 16 16)]))).flatten := by
    obtain ⟨-, htaken, -, -⟩ := (seals_performAll hkey hpos Sink.empty _).exact hwritten
    rw [(Source.delivered_ofBytes _).1, htaken, sealing_of_encrypts hkey hinv.encrypts, hiv]
    rfl
  have hpadded : Padded context.blockSize []
      (blocks context.blockSize (submitted [.write (List.replicate 16 16)])).flatten := by
    rw [hsize]
    exact ⟨16, by decide, by decide, by decide, rfl⟩
  obtain ⟨live, rest, hreads, hserved⟩ := reads_of_padded hpos hkey' hinv rfl hdelivered hpadded
    (by decide : ∀ n ∈ [16], 0 < n)
  -- There is nothing to hand out and no fault to report, so the one answer is behind the end.
  have hlive : live = [] := by
    have hle := hserved.enough
    rw [(Source.delivered_ofBytes _).2] at hle
    exact List.length_eq_zero_iff.mp (Nat.le_zero.mp hle)
  rw [hlive, List.nil_append] at hreads
  rw [hreads, List.eq_replicate_iff.mpr ⟨congrArg List.length hreads.symm, hserved.ended⟩]
  rfl

end Coffer.Container
