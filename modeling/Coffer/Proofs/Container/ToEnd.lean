import Coffer.Proofs.Container.Reader
/-
  Reading to the end.

  A raw stream on which nothing goes wrong is read to its end with all that it delivers
  (`Source.readToEndAfter_eq`).  A body on such a stream is read with all that can be told of it: its data
  if it opens, and otherwise its front and then a failure (`BodyReader.readToEnd_tells`).
-/
namespace Coffer

namespace Source

variable {s : Source}

/-- **Where nothing goes wrong, everything that is delivered is read.** -/
theorem readToEndAfter_eq (got : List Bytes) (hs : s.ending = .finished) (hf : s.faults = []) :
    ∃ later, s.readToEndAfter got = (.ok (), got.reverse.flatten ++ s.delivered, later) := by
  have hportion : 0 < portion := by decide
  fun_induction readToEndAfter got s with
  | case1 got s e s1 hr => exact absurd hr (readRetrying_ne_error hportion hs hf)
  | case2 got s s1 hr =>
    have hserves := serves_readRetrying hportion hs
    rw [hr] at hserves
    cases hserves with
    | ended hd _ => exact ⟨s1, by rw [hd, List.append_nil]⟩
    | gave hb _ _ _ _ _ => exact absurd rfl hb
  | case3 got s b s1 hr hb ih =>
    have hserves := serves_readRetrying hportion hs
    rw [hr] at hserves
    cases hserves with
    | ended _ _ => exact absurd rfl hb
    | gave _ _ hd hf' hs1 _ =>
      obtain ⟨later, hlater⟩ := ih hs1 (hf'.symm.trans hf)
      refine ⟨later, hlater.trans ?_⟩
      rw [hd, List.reverse_cons, List.flatten_append, List.flatten_singleton, List.append_assoc]

/-- Nothing is read from a directory. -/
theorem readToEnd_directory : directory.readToEnd = (.error .isDirectory, [], directory) := by
  have hretrying : directory.readRetrying portion = (.error .isDirectory, directory) := by
    rw [readRetrying]
    rfl
  rw [readToEnd, readToEndAfter]
  split
  · rename_i e s' h
    cases hretrying.symm.trans h
    rfl
  · rename_i b s' h
    cases hretrying.symm.trans h

end Source

namespace Container

/-- How reading to the end comes out. -/
def Verdict.Ends : Verdict → Except IoError Unit → Prop
  | sound, outcome => outcome = .ok ()
  | spoilt, outcome => ∃ e : IoError, outcome = .error e ∧ e.kind = .invalidData

namespace BodyReader

variable {D : Bytes → Bytes} {size : Nat} {iv given : Bytes} {s : Source} {r : BodyReader}
  {errors : List IoError}

/-- A reader has reported nothing that the source did not. -/
theorem Stage.errors_prefix (hs : s.ending = .finished) (h : Stage s D size iv given errors r)
    (hsize : 0 < size) : errors <+: s.faults := by
  cases h with
  | reading raw h => exact (h.spec hsize hs).2.1
  | ended total verdict raw h =>
    rewrite [(h.spec hs).2.1]
    exact List.prefix_refl _

/-- **From any stage on, reading to the end gives out the rest of what can be told of the body,** where
    nothing goes wrong below it. -/
theorem Stage.readToEndAfter (hsize : 0 < size) (hs : s.ending = .finished) (hf : s.faults = [])
    {got : List Bytes} (h : Stage s D size iv got.reverse.flatten [] r) :
    ∃ verdict, Tells D size iv s.delivered (r.readToEndAfter got).2.1 verdict ∧
      verdict.Ends (r.readToEndAfter got).1 := by
  have hportion : 0 < portion := by decide
  fun_induction BodyReader.readToEndAfter got r with
  | case1 got r e r' hr =>
    have hprogress := h.read hsize hportion
    rw [hr] at hprogress
    cases hprogress with
    | raised hstage =>
      have hnone := hstage.errors_prefix hs hsize
      rw [hf, List.nil_append, List.prefix_nil] at hnone
      cases hnone
    | @stopped _ verdict _ _ hended hallows =>
      obtain ⟨htells, -, -⟩ := hended.spec hs
      refine ⟨verdict, htells, ?_⟩
      cases verdict with
      | sound => cases hallows
      | spoilt =>
        obtain ⟨e', he, hkind⟩ := hallows
        cases he
        exact ⟨e, rfl, hkind⟩
  | case2 got r r' hr =>
    have hprogress := h.read hsize hportion
    rw [hr] at hprogress
    cases hprogress with
    | gave hb _ => exact absurd rfl hb
    | @stopped _ verdict _ _ hended hallows =>
      obtain ⟨htells, -, -⟩ := hended.spec hs
      refine ⟨verdict, htells, ?_⟩
      cases verdict with
      | sound => rfl
      | spoilt =>
        obtain ⟨e, he, -⟩ := hallows
        cases he
  | case3 got r b r' hr hb ih =>
    have hprogress := h.read hsize hportion
    rw [hr] at hprogress
    cases hprogress with
    | gave _ hstage =>
      refine ih ?_
      rw [List.reverse_cons, List.flatten_append, List.flatten_singleton]
      exact hstage
    | @stopped _ verdict _ _ hended hallows =>
      -- Behind the end there are no bytes.
      cases verdict with
      | sound => exact absurd (Except.ok.inj hallows) hb
      | spoilt =>
        obtain ⟨e, he, -⟩ := hallows
        cases he

/-- **A body is read to its end with all that can be told of it,** and reading fails exactly when the body
    does not open. -/
theorem readToEnd_tells {context : Cipher.Context} (hsize : 0 < context.blockSize)
    (hD : context.Decrypts D) (hs : s.ending = .finished) (hf : s.faults = []) :
    ∃ verdict, Tells D context.blockSize context.decryptIv s.delivered
        (ofSource s context).readToEnd.2.1 verdict ∧ verdict.Ends (ofSource s context).readToEnd.1 :=
  (stage_ofSource s hD).readToEndAfter hsize hs hf

/-- What is given out of a body that could not be read to its end. -/
theorem readToEnd_of_error {context : Cipher.Context} (hsize : 0 < context.blockSize)
    (hD : context.Decrypts D) (hs : s.ending = .finished) (hf : s.faults = []) {e : IoError}
    (h : (ofSource s context).readToEnd.1 = .error e) :
    (∀ data, ¬ Opens D context.blockSize context.decryptIv s.delivered data) ∧
      (ofSource s context).readToEnd.2.1 = front D context.blockSize context.decryptIv s.delivered := by
  obtain ⟨verdict, htells, hends⟩ := readToEnd_tells hsize hD hs hf
  rw [h] at hends
  generalize (ofSource s context).readToEnd.2.1 = total at htells ⊢
  cases htells with
  | sound _ => cases hends
  | spoilt hno => exact ⟨hno, rfl⟩

end BodyReader

end Container

end Coffer
