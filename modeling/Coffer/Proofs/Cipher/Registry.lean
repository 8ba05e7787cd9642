import Coffer.Cipher.Registry
import Coffer.Proofs.Outcome
/-
  What a registry hands out has been vetted.

  `Registry.Vetted` is true of a new registry, and neither registering a constructor nor asking for a
  cipher ends it.  So a cipher that `get` gives speaks the contract and has a block (`Vetted.get_ok`),
  whatever the constructors do.
-/
namespace Coffer.Cipher

/-- What `vet` looks for. -/
theorem vet_eq_ok {a : Algorithm} {c : BlockCipher} (h : vet a c = .ok ()) :
    ensureSupported c = .ok () ∧ c.algorithm = a ∧ c.blockSize ≠ 0 ∧ c.keySize ≠ 0 := by
  obtain ⟨⟨⟩, hsupported, h⟩ := bind_eq_ok_iff.mp h
  by_cases halgorithm : c.algorithm = a
  · by_cases hsize : c.blockSize = 0 ∨ c.keySize = 0
    · simp only [halgorithm, hsize, ne_eq, not_true_eq_false, if_false, if_true] at h
      cases h
    · rw [not_or] at hsize
      exact ⟨hsupported, halgorithm, hsize⟩
  · simp only [ne_eq, halgorithm, not_false_eq_true, if_true] at h
    cases h

/-- A slot after a request that built nothing; only the calls of its constructor, if any, are counted. -/
def Slot.tried (s : Slot) : Slot := { s with calls := if s.factory.isSome then s.calls + 1 else s.calls }

/-- A slot after a request that built a cipher. -/
def Slot.built (s : Slot) (c : BlockCipher) : Slot :=
  { s with calls := s.calls + 1, cipher? := some c, constructions := s.constructions + 1 }

/-- A slot with another constructor. -/
def Slot.registered (s : Slot) (factory : Factory) : Slot := { s with factory := some factory, calls := 0 }

/-- What asking a slot comes to. -/
inductive Slot.Gives (a : Algorithm) (s : Slot) : Except GetFailure BlockCipher × Slot → Prop
  /-- The cipher that is there. -/
  | kept {c : BlockCipher} : s.cipher? = some c → Slot.Gives a s (.ok c, s)
  /-- A new cipher, which is kept from now on. -/
  | built {factory : Factory} {c : BlockCipher} : s.cipher? = none → s.factory = some factory →
      factory s.calls a = .cipher c → vet a c = .ok () → Slot.Gives a s (.ok c, s.built c)
  /-- No cipher, now as before. -/
  | refused (e : GetFailure) : s.cipher? = none → Slot.Gives a s (.error e, s.tried)

/-- **A slot hands out a vetted cipher or none.** -/
theorem Slot.gives (a : Algorithm) (s : Slot) : s.Gives a (s.get a) := by
  obtain ⟨_ | factory, calls, _ | c, constructions⟩ := s
  · exact .refused _ rfl
  · exact .kept rfl
  · simp only [Slot.get]
    -- Only a cipher that passes `vet` is kept; every other call of the constructor is merely counted.
    rcases hbuilt : factory calls a with c | e | _
    · simp only
      rcases hvet : vet a c with e | ⟨⟩
      · exact .refused _ rfl
      · exact .built rfl rfl hbuilt hvet
    · exact .refused _ rfl
    · exact .refused _ rfl
  · exact .kept rfl

namespace Registry

variable {r : Registry} {a b : Algorithm} {c : BlockCipher}

/-- Every cipher that the registry holds has passed `vet`. -/
def Vetted (r : Registry) : Prop := ∀ a c, (r.slot a).cipher? = some c → vet a c = .ok ()

theorem vetted_builtin (instructions : Bool) : Vetted (builtin instructions) := by
  intro a c h
  cases a <;> cases h

/-- A slot that is put in must hold a vetted cipher, if any. -/
theorem Vetted.withSlot (hr : r.Vetted) {s : Slot} (hs : ∀ c, s.cipher? = some c → vet a c = .ok ()) :
    (r.withSlot a s).Vetted := by
  intro b c h
  by_cases hb : b = a
  · subst hb
    rw [slot_withSlot] at h
    exact hs c h
  · rw [slot_withSlot_of_ne r s hb] at h
    exact hr b c h

theorem Vetted.register (hr : r.Vetted) {factory : Factory} {r' : Registry}
    (h : r.register a factory = .ok r') : r'.Vetted := by
  rw [Registry.register, Slot.register] at h
  split at h
  · cases h
  · cases h
    exact hr.withSlot fun c hc => hr a c hc

theorem Vetted.get (hr : r.Vetted) (a : Algorithm) : (r.get a).2.Vetted := by
  rw [Registry.get]
  rcases hget : (r.slot a).get a with ⟨got, s⟩
  have hgives := Slot.gives a (r.slot a)
  rw [hget] at hgives
  cases hgives with
  | kept hcipher => exact hr.withSlot (hr a)
  | built _ _ _ hvet =>
    refine hr.withSlot fun c hc => ?_
    cases hc
    exact hvet
  | refused e hcipher =>
    refine hr.withSlot fun c hc => ?_
    cases hcipher.symm.trans hc

/-- **A cipher that is handed out is supported and has a block.** -/
theorem Vetted.get_ok (hr : r.Vetted) (h : (r.get a).1 = .ok c) :
    ensureSupported c = .ok () ∧ c.algorithm = a ∧ c.blockSize ≠ 0 ∧ c.keySize ≠ 0 := by
  have h : ((r.slot a).get a).1 = .ok c := h
  have hgives := Slot.gives a (r.slot a)
  rcases hget : (r.slot a).get a with ⟨got, s⟩
  rw [hget] at hgives h
  cases h
  cases hgives with
  | kept hcipher => exact vet_eq_ok (hr a c hcipher)
  | built _ _ _ hvet => exact vet_eq_ok hvet

end Registry

end Coffer.Cipher
