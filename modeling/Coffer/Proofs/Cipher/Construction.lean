import Coffer.Proofs.Cipher.Custody
/-
  Registries build each cipher once.

  `Custody.Moves.slots` tells what a move can do to the slots: those of other registries and algorithms
  stay what they are, and so does a slot that holds a cipher.  So a cipher that was handed out is handed
  out from then on (`Sound.serves`), and a slot that built nothing is asked again
  (`Custody.registries_build_once`).
-/
namespace Coffer.Cipher

variable {p : Pool} {s : SharedRegistry} {r i : Nat} {a : Algorithm} {c : BlockCipher}

namespace Custody

variable {k k' : Custody} {target? : Option (Nat × Algorithm)}

/-! ## What a move does to the slots -/

/-- A slot with its instance stays as it is, unless it is empty and the move is about it. -/
def Stays (target? : Option (Nat × Algorithm)) (r : Nat) (s s' : SharedRegistry) : Prop :=
  ∀ a, s'.registry.slot a = s.registry.slot a ∧ s'.instance? a = s.instance? a ∨
    target? = some (r, a) ∧ s.instance? a = none

theorem stays_of_eq {s' : SharedRegistry} (hregistry : s'.registry = s.registry)
    (hinstance : s'.instance? = s.instance?) : Stays target? r s s' := by
  intro a
  rw [hregistry, hinstance]
  exact .inl ⟨rfl, rfl⟩

/-- What happens to registry `r` when registry `r'` is put in the place of another one. -/
theorem put_stays {r' : Nat} {t t' : SharedRegistry} (ht : p.registries[r']? = some t)
    (hput : Stays target? r' t t') (hs : p.registries[r]? = some s) :
    ∃ s', (p.put r' t').registries[r]? = some s' ∧ Stays target? r s s' := by
  by_cases hr : r = r'
  · subst hr
    cases ht.symm.trans hs
    exact ⟨t', Pool.registries_put hs t', hput⟩
  · exact ⟨s, by rw [Pool.registries_put_of_ne p hr, hs], stays_of_eq rfl rfl⟩

/-- A change to an empty slot that the move is about. -/
theorem stays_of_target {s' : SharedRegistry} (htarget : target? = some (r, a))
    (hempty : s.instance? a = none)
    (hothers : ∀ b, b ≠ a → s'.registry.slot b = s.registry.slot b ∧ s'.instance? b = s.instance? b) :
    Stays target? r s s' := by
  intro b
  by_cases hb : b = a
  · subst hb
    exact .inr ⟨htarget, hempty⟩
  · exact .inl (hothers b hb)

/-- **A move leaves the slots alone,** but for an empty one that it is about. -/
theorem Moves.slots (hmoves : k.Moves target? k') (hk : k.Sound) (hs : k.pool.registries[r]? = some s) :
    ∃ s', k'.pool.registries[r]? = some s' ∧ Stays target? r s s' := by
  cases hmoves with
  | idle => exact ⟨s, hs, stays_of_eq rfl rfl⟩
  | opened isShared hnone =>
    exact ⟨s, (List.getElem?_append_left (Pool.lt_of_registry hs)).trans hs, stays_of_eq rfl rfl⟩
  | joined hg =>
    obtain ⟨t, ht, -⟩ := hk.registry hg
    rw [Pool.retainRegistry_eq ht]
    exact put_stays ht (stays_of_eq rfl rfl) hs
  | left hperm =>
    obtain ⟨t, ht, -⟩ := hk.registry (hperm.mem_iff.mpr List.mem_cons_self)
    by_cases hlast : t.handles = 1
    · rw [Pool.releaseRegistry_eq_of_last ht hlast, Pool.registries_letGoAll]
      exact put_stays ht (stays_of_eq rfl rfl) hs
    · rw [Pool.releaseRegistry_eq ht hlast]
      exact put_stays ht (stays_of_eq rfl rfl) hs
  | tended ht hempty hcipher honce htarget =>
    refine put_stays ht (stays_of_target htarget hempty fun b hb => ⟨?_, rfl⟩) hs
    exact Registry.slot_withSlot_of_ne _ _ hb
  | built hg ht hempty hvet htarget =>
    refine put_stays ht (stays_of_target htarget hempty fun b hb => ⟨?_, if_neg hb⟩) hs
    exact Registry.slot_withSlot_of_ne _ _ hb
  | held hpos hperm => exact ⟨s, hs, stays_of_eq rfl rfl⟩
  | dropped hperm => exact ⟨s, hs, stays_of_eq rfl rfl⟩

/-- A slot that holds an instance holds it throughout every run. -/
theorem Sound.run_slots (hk : k.Sound) (hs : k.pool.registries[r]? = some s) (hi : s.instance? a = some i)
    (later : List Act) :
    ∃ s', (k.run later).pool.registries[r]? = some s' ∧
      s'.registry.slot a = s.registry.slot a ∧ s'.instance? a = some i := by
  induction later generalizing k s with
  | nil => exact ⟨s, hs, rfl, hi⟩
  | cons x later ih =>
    have hmoves := hk.moves x
    obtain ⟨t, ht, hstays⟩ := hmoves.slots hk hs
    -- Only an empty slot could change.
    rcases hstays a with ⟨hslot, hinstance⟩ | ⟨-, hempty⟩
    · rw [← hslot]
      exact ih (hmoves.sound hk) ht (hinstance.trans hi)
    · rw [hempty] at hi
      cases hi

/-! ## Handing out what is there -/

/-- The slot of an algorithm in registry `r`, which is `slot`, holds the instance of `ref`: asking for
    it gives that reference whatever the slot's constructor would do, and the constructor can no longer
    be replaced. -/
structure Serves (k : Custody) (r : Nat) (a : Algorithm) (ref : CipherRef) (slot : Slot) : Prop where
  there : k.pool.slot? r a = some slot
  given : (k.pool.get r a).1 = .ok ref
  uncalled : ∀ factory?, Slot.get a { slot with factory := factory? } =
    (.ok ref.cipher, { slot with factory := factory? })
  closed : ∀ factory,
    k.pool.register r a factory = (.error (.invalidArgument (.alreadyConstructed a)), k.pool)

theorem Sound.serves (hk : k.Sound) (hs : k.pool.registries[r]? = some s)
    (hcipher : (s.registry.slot a).cipher? = some c) (hi : s.instance? a = some i) :
    k.Serves r a ⟨i, c⟩ (s.registry.slot a) where
  there := Pool.slot?_eq hs a
  given := by
    have hgets := hk.pool.gets hs a
    generalize k.pool.get r a = got at hgets
    cases hgets with
    | kept hcipher' hi' =>
      cases hcipher.symm.trans hcipher'
      cases hi.symm.trans hi'
      rfl
    | built hempty => cases hi.symm.trans hempty
    | refused e hempty => cases hi.symm.trans hempty
  uncalled factory? := by
    rw [Slot.get]
    simp only [hcipher]
  closed factory := by
    have hconstructed : (s.registry.slot a).isConstructed = true := by
      rw [Slot.isConstructed, hcipher]
      rfl
    exact Pool.register_of_constructed hs hconstructed factory

/-- A slot that served somebody serves everybody from then on. -/
theorem Sound.serves_run (hk : k.Sound) (hs : k.pool.registries[r]? = some s)
    (hcipher : (s.registry.slot a).cipher? = some c) (hi : s.instance? a = some i) (later : List Act) :
    (k.run later).Serves r a ⟨i, c⟩ (s.registry.slot a) := by
  obtain ⟨s', hs', hslot, hi'⟩ := hk.run_slots hs hi later
  have hserves := (hk.run later).serves hs' (hslot ▸ hcipher) hi'
  rwa [hslot] at hserves

theorem major_of_supported (h : ensureSupported c = .ok ()) : c.version.major = 1 := by
  rw [ensureSupported] at h
  split at h
  · assumption
  · cases h

/-- What a vetted cipher is. -/
theorem vetted (h : vet a c = .ok ()) :
    c.version.major = 1 ∧ c.algorithm = a ∧ c.blockSize ≠ 0 ∧ c.keySize ≠ 0 := by
  obtain ⟨hsupported, hrest⟩ := vet_eq_ok h
  exact ⟨major_of_supported hsupported, hrest⟩

theorem act_get {h : Nat} {g : Handle} (hg : k.handles[h]? = some g) (a : Algorithm) :
    (k.act (.get h a)).pool = (k.pool.get g.registry a).2 := by
  simp only [act, hg]
  rcases k.pool.get g.registry a with ⟨e | ref, pool⟩ <;> rfl

/-- **A request that gives a cipher gives it for good.** -/
theorem Sound.get_ok (hk : k.Sound) {h : Nat} {g : Handle} (hg : k.handles[h]? = some g) {ref : CipherRef}
    (hget : (k.pool.get g.registry a).1 = .ok ref) :
    (ref.cipher.version.major = 1 ∧ ref.cipher.algorithm = a ∧
      ref.cipher.blockSize ≠ 0 ∧ ref.cipher.keySize ≠ 0) ∧
    ∃ slot, ∀ later, ((k.act (.get h a)).run later).Serves g.registry a ref slot := by
  obtain ⟨s, hs, -⟩ := hk.registry (List.mem_of_getElem? hg)
  have hsound := (hk.moves (.get h a)).sound hk
  have hpool := act_get hg a
  have hgets := hk.pool.gets hs a
  generalize k.pool.get g.registry a = got at hget hpool hgets
  cases hgets with
  | kept hcipher hi =>
    cases hget
    have hs' : (k.act (.get h a)).pool.registries[g.registry]? = some s := by rw [hpool]; exact hs
    exact ⟨vetted ((hk.pool.registry hs).vetted a _ hcipher), _, hsound.serves_run hs' hcipher hi⟩
  | built hempty hfactory hbuilt hvet =>
    cases hget
    refine ⟨vetted hvet, _, hsound.serves_run (by rw [hpool]; exact Pool.registries_put hs _) ?_ ?_⟩
    · exact congrArg Slot.cipher? (Registry.slot_withSlot _ _ _)
    · exact if_pos rfl
  | refused e hempty => cases hget

/-! ## Asking again -/

/-- A slot without a cipher asks its constructor. -/
theorem Sound.get_of_empty (hk : k.Sound) (hs : k.pool.registries[r]? = some s)
    (hempty : s.instance? a = none) (factory : Factory)
    (hfactory : (s.registry.slot a).factory = some factory)
    (hbuilt : factory (s.registry.slot a).calls a = .cipher c) (hvet : vet a c = .ok ()) :
    (k.pool.get r a).1 = .ok ⟨k.pool.instances.length, c⟩ := by
  have hcipher := (hk.pool.registry hs).cipher?_eq_none hempty
  have hget : (s.registry.get a).1 = .ok c := by
    show ((s.registry.slot a).get a).1 = .ok c
    simp only [Slot.get, hcipher, hfactory, hbuilt, hvet]
  rcases hregistry : s.registry.get a with ⟨got, registry⟩
  rw [hregistry] at hget
  subst hget
  simp only [Pool.get, hs, hregistry, hempty]

/-- **A request that gives no cipher leaves everything as it was,** so the next one tries again. -/
theorem Sound.get_error (hk : k.Sound) {h : Nat} {g : Handle} (hg : k.handles[h]? = some g)
    {e : GetFailure} (hget : (k.pool.get g.registry a).1 = .error e) :
    ∃ slot, k.pool.slot? g.registry a = some slot ∧ slot.cipher? = none ∧
      (k.act (.get h a)).pool.slot? g.registry a = some slot.tried ∧
      (k.act (.get h a)).handles = k.handles ∧
      (∀ factory, ((k.act (.get h a)).pool.register g.registry a factory).1 = .ok ()) ∧
      ∀ factory c, slot.factory = some factory → factory (slot.calls + 1) a = .cipher c →
        vet a c = .ok () → ∃ i, ((k.act (.get h a)).pool.get g.registry a).1 = .ok ⟨i, c⟩ := by
  obtain ⟨s, hs, -⟩ := hk.registry (List.mem_of_getElem? hg)
  have hsound := (hk.moves (.get h a)).sound hk
  have hpool := act_get hg a
  have hgets := hk.pool.gets hs a
  have hhandles : (k.act (.get h a)).handles = k.handles := by
    simp only [act, hg]
    rcases k.pool.get g.registry a with ⟨e | ref, pool⟩ <;> rfl
  generalize k.pool.get g.registry a = got at hget hpool hgets
  cases hgets with
  | kept hcipher hi => cases hget
  | built hempty hfactory hbuilt hvet => cases hget
  | refused e hempty =>
    have hs' : (k.act (.get h a)).pool.registries[g.registry]? =
        some (s.withSlot a (s.registry.slot a).tried) := by
      rw [hpool]
      exact Pool.registries_put hs _
    have hslot : ((s.withSlot a (s.registry.slot a).tried).registry.slot a) = (s.registry.slot a).tried :=
      Registry.slot_withSlot _ _ _
    have hcipher := (hk.pool.registry hs).cipher?_eq_none hempty
    refine ⟨s.registry.slot a, Pool.slot?_eq hs a, hcipher, ?_, hhandles, ?_, ?_⟩
    · rw [Pool.slot?_eq hs', hslot]
    · intro factory
      have hconstructed :
          ((s.withSlot a (s.registry.slot a).tried).registry.slot a).isConstructed = false := by
        rw [hslot, Slot.isConstructed]
        show (s.registry.slot a).cipher?.isSome = false
        rw [hcipher]
        rfl
      rw [Pool.register_of_empty hs' hconstructed]
    · intro factory c hfactory hbuilt hvet
      refine ⟨_, hsound.get_of_empty hs' hempty factory ?_ ?_ hvet⟩
      · rw [hslot]
        exact hfactory
      · rw [hslot, Slot.tried, hfactory]
        exact hbuilt

/-- **Registries build each cipher once.**  Whatever is made, given up, registered and asked for, a slot
    has built once if it holds a cipher and otherwise never, and an act changes no slot but the one it
    is about.  A request that gives a cipher gives a supported one, and the same instance from then on,
    without another call of any constructor.  A request that gives none leaves the slot's cipher,
    constructions and constructor as they were, and the next one calls the constructor again. -/
theorem registries_build_once (instructions : Bool) (acts : List Act) :
    let k := (start instructions).run acts
    (∀ r a slot, k.pool.slot? r a = some slot →
      slot.constructions = if slot.isConstructed then 1 else 0) ∧
    (∀ x r a slot, k.pool.slot? r a = some slot → x.target? k ≠ some (r, a) →
      (k.act x).pool.slot? r a = some slot) ∧
    (∀ h g a ref, k.handles[h]? = some g → (k.pool.get g.registry a).1 = .ok ref →
      (ref.cipher.version.major = 1 ∧ ref.cipher.algorithm = a ∧
        ref.cipher.blockSize ≠ 0 ∧ ref.cipher.keySize ≠ 0) ∧
      ∃ slot, ∀ later, ((k.act (.get h a)).run later).Serves g.registry a ref slot) ∧
    ∀ h g a e, k.handles[h]? = some g → (k.pool.get g.registry a).1 = .error e →
      ∃ slot, k.pool.slot? g.registry a = some slot ∧ slot.cipher? = none ∧
        (k.act (.get h a)).pool.slot? g.registry a = some slot.tried ∧
        (k.act (.get h a)).handles = k.handles ∧
        (∀ factory, ((k.act (.get h a)).pool.register g.registry a factory).1 = .ok ()) ∧
        ∀ factory c, slot.factory = some factory → factory (slot.calls + 1) a = .cipher c →
          vet a c = .ok () → ∃ i, ((k.act (.get h a)).pool.get g.registry a).1 = .ok ⟨i, c⟩ := by
  intro k
  have hk : k.Sound := (sound_start instructions).run acts
  refine ⟨?_, ?_, fun h g a ref hg hget => hk.get_ok hg hget, fun h g a e hg hget => hk.get_error hg hget⟩
  · intro r a slot hslot
    obtain ⟨s, hs, rfl⟩ := Pool.slot?_eq_some_iff.mp hslot
    exact (hk.pool.registry hs).once a
  · intro x r a slot hslot hx
    obtain ⟨s, hs, rfl⟩ := Pool.slot?_eq_some_iff.mp hslot
    obtain ⟨s', hs', hstays⟩ := (hk.moves x).slots hk hs
    rcases hstays a with ⟨hsame, -⟩ | ⟨htarget, -⟩
    · rw [Pool.slot?_eq hs', hsame]
    · exact absurd htarget hx

/-- A backend for the vendor's slot. -/
def vendorAes : BlockCipher := { Aes.portable with algorithm := .vendor }

/-- A constructor that crashes at its first call. -/
def flaky : Factory := fun call _ => if call = 0 then .crashed else .cipher vendorAes

/-- A crash is made good by the next request, and what that one gives stays. -/
theorem registries_build_once_of_flaky :
    let k := start.run [.make, .register 0 .vendor flaky]
    let tried := k.act (.get 0 .vendor)
    (k.act (.get 0 .aes)).pool.slot? 0 .vendor = some ⟨some flaky, 0, none, 0⟩ ∧
    (∃ i, (tried.pool.get 0 .vendor).1 = .ok ⟨i, vendorAes⟩) ∧
    (((tried.act (.get 0 .vendor)).run [.register 0 .vendor flaky, .release 0]).pool.get 0 .vendor).1 =
      .ok ⟨0, vendorAes⟩ := by
  obtain ⟨-, hothers, -, herror⟩ := registries_build_once true [.make, .register 0 .vendor flaky]
  obtain ⟨-, -, hok, -⟩ := registries_build_once true
    [.make, .register 0 .vendor flaky, .get 0 .vendor]
  refine ⟨hothers (.get 0 .aes) 0 .vendor _ rfl (by decide), ?_, ?_⟩
  · obtain ⟨slot, hslot, -, -, -, -, hretry⟩ := herror 0 ⟨0, false⟩ .vendor .crashed rfl rfl
    cases hslot
    exact hretry flaky vendorAes rfl rfl rfl
  · obtain ⟨-, slot, hserves⟩ := hok 0 ⟨0, false⟩ .vendor ⟨0, vendorAes⟩ rfl rfl
    exact (hserves [.register 0 .vendor flaky, .release 0]).given

end Custody

end Coffer.Cipher
