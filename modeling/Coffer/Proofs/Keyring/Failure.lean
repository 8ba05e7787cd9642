import Coffer.Proofs.Keyring.Store
/-
  What a client hears of the store's failures.

  A failure crosses the wire as its status, and the client makes a failure of that status.  A failure is
  `Echoed` when this gives one of its own kind.  Every failure of the store is (`Store.echoed_read`,
  `Store.echoed_write`); the kinds that share a status with another one never come from a store.
-/
namespace Coffer.Keyring

/-! ## Failures that come back -/

namespace SecretError

/-- Whether the failure that a client makes of this one's status is of the same kind. -/
def Echoed (e : SecretError) : Prop := ∀ location, (ofStatus location e.status).ctorIdx = e.ctorIdx

end SecretError

theorem Passphrase.echoed_ofBytes {e : SecretError} (h : ofBytes b = .error e) : e.Echoed := by
  unfold ofBytes at h
  split at h
  · rename_i fault hfault
    cases h
    unfold passphraseFault? at hfault
    split_ifs at hfault <;> cases hfault
    · exact fun _ => rfl
    · exact fun _ => rfl
    · exact fun _ => rfl
  · cases h

namespace Store

variable {s : Store} {location : String} {d : Disk} {e : SecretError}

theorem echoed_resolve (h : s.resolve location = .error e) : e.Echoed := by
  unfold resolve at h
  split_ifs at h <;> cases h
  · exact fun _ => rfl
  · exact fun _ => rfl

theorem echoed_secretOf (h : secretOf location b = .error e) : e.Echoed := by
  unfold secretOf at h
  dsimp only at h
  split_ifs at h
  · cases h
    exact fun _ => rfl
  · cases h
    exact fun _ => rfl
  · exact Passphrase.echoed_ofBytes h

/-- **A client hears of a failed reading as what it is.** -/
theorem echoed_read (h : s.read location d = .error e) : e.Echoed := by
  unfold read at h
  rcases hpath : s.resolve location with fault | path
  · rw [hpath] at h
    cases h
    exact echoed_resolve hpath
  · rw [hpath, ok_bind] at h
    split at h
    · split_ifs at h <;> cases h
      · exact fun _ => rfl
      · exact fun _ => rfl
    · exact echoed_secretOf h
    · cases h
      exact fun _ => rfl

end Store

/-- Whether a client hears of a write's failure, if it is one, as what it is. -/
def Stage.Echoed : Stage → Prop
  | cleanUp e => e.Echoed
  | done (.error e) => e.Echoed
  | unmeasured e => e.Echoed
  | _ => True

theorem Stage.Echoed.of_outcome {stage : Stage} {e : SecretError} (h : stage.Echoed)
    (hend : stage.outcome? = some (.error e)) : e.Echoed := by
  unfold outcome? at hend
  split at hend <;> cases hend <;> exact h

namespace Update

theorem echoed_incomplete (u : Update) (reason : String) : (u.incomplete reason).Echoed := fun _ => rfl

/-- What one step of a write preserves. -/
theorem echoed_advance {u : Update} (hu : u.stage.Echoed) (d : Disk) : (u.advance d).1.Echoed := by
  unfold advance
  -- Every stage fails with a write that is incomplete, but for a location that names no file.
  split <;> rename_i hstage
  · split
    · exact u.echoed_incomplete _
    · split
      · exact fun _ => rfl
      · trivial
  · split
    · exact u.echoed_incomplete _
    · trivial
  · split
    · exact u.echoed_incomplete _
    · trivial
  · split
    · exact u.echoed_incomplete _
    · trivial
  · split
    · exact u.echoed_incomplete _
    · trivial
  · split
    · exact u.echoed_incomplete _
    · trivial
  · split
    · exact u.echoed_incomplete _
    · simp only
      split
      · exact u.echoed_incomplete _
      · trivial
  all_goals
    rw [hstage] at hu
    exact hu

/-- What all remaining steps of a write preserve. -/
theorem echoed_finish {u : Update} {d : Disk} {e : SecretError} (hu : u.stage.Echoed)
    (h : (u.finish d).1 = .error e) : e.Echoed := by
  induction u, d using finish.induct with
  | case1 u d outcome hend =>
    have hfinish : u.finish d = (outcome, d) := by
      rw [finish]
      split
      · rename_i outcome' hend'
        cases hend.symm.trans hend'
        rfl
      · rename_i hend'
        cases hend.symm.trans hend'
    rw [hfinish] at h
    cases h
    exact hu.of_outcome hend
  | case2 u d hgoes ih =>
    refine ih (echoed_advance hu d) ?_
    rw [finish] at h
    split at h
    · rename_i outcome hend
      cases hgoes.symm.trans hend
    · exact h

end Update

/-- **A client hears of a failed write as what it is.** -/
theorem Store.echoed_write {s : Store} {location : String} {p : Passphrase} {d : Disk} {e : SecretError}
    (h : (s.write location p d).1 = .error e) : e.Echoed := by
  unfold write at h
  rcases hbegin : s.beginUpdate location p with fault | u
  · rw [hbegin] at h
    cases h
    unfold beginUpdate at hbegin
    rcases hpath : s.resolve location with fault' | path
    · rw [hpath] at hbegin
      cases hbegin
      exact echoed_resolve hpath
    · rw [hpath, ok_bind] at hbegin
      rcases hparent : Path.parent? path with _ | parent <;> rw [hparent] at hbegin <;> cases hbegin
      exact fun _ => rfl
  · obtain ⟨path, parent, -, -, rfl⟩ := beginUpdate_eq_ok hbegin
    rw [hbegin] at h
    exact Update.echoed_finish (u := ⟨location, p, path, parent, .prepare⟩) trivial h

end Coffer.Keyring
