import Coffer.Proofs.Cipher.Custody
/-
  Registries and ciphers live as long as somebody holds them.

  `Custody.Sound` says that the pool's counts are right.  Here it is read off for one registry and one
  instance: no instance stands in two slots (`Pool.Sound.slot_unique`), so a registry that has a handle
  holds each of its instances once; the last handle takes that hold with it; and an instance that
  nobody holds never comes back (`Custody.lifetimes_are_accounted`).
-/
namespace Coffer.Cipher

variable {p : Pool} {s : SharedRegistry} {r r' i : Nat} {a b : Algorithm}

/-! ## One slot for each instance -/

namespace Pool

/-- A registry without instances, to be put in the place of another one. -/
def vacant : SharedRegistry := ⟨.builtin, 0, fun _ => none⟩

/-- The instances of a registry, and those of the others. -/
theorem count_placed (hs : p.registries[r]? = some s) (i : Nat) :
    p.placed.count i = (p.put r vacant).placed.count i + s.instances.count i :=
  (count_placed_put hs vacant i).symm

theorem Sound.count_instances (hp : p.Sound) (hs : p.registries[r]? = some s)
    (hi : s.instance? a = some i) : s.instances.count i = 1 := by
  have hmem := List.count_pos_iff.mpr (SharedRegistry.mem_instances.mpr ⟨a, hi⟩)
  have hall := count_placed hs i
  have hapart := hp.apart i
  omega

/-- **No instance stands in two slots.** -/
theorem Sound.slot_unique (hp : p.Sound) (hi : p.instance? r a = some i)
    (hi' : p.instance? r' b = some i) : r = r' ∧ a = b := by
  obtain ⟨s, hs, hi⟩ := instance?_eq_some_iff.mp hi
  obtain ⟨s', hs', hi'⟩ := instance?_eq_some_iff.mp hi'
  have hr : r = r' := by
    -- Two registries with the instance would count it twice.
    by_contra hne
    have hothers : (p.put r vacant).registries[r']? = some s' := by
      rw [registries_put_of_ne p (Ne.symm hne), hs']
    have hall := count_placed hs i
    have hrest := count_placed hothers i
    have hapart := hp.apart i
    have hone := List.count_pos_iff.mpr (SharedRegistry.mem_instances.mpr ⟨a, hi⟩)
    have hother := List.count_pos_iff.mpr (SharedRegistry.mem_instances.mpr ⟨b, hi'⟩)
    omega
  subst hr
  cases hs.symm.trans hs'
  refine ⟨rfl, ?_⟩
  have hcount := hp.count_instances hs hi
  have ha : (s.instance? a).toList.count i = 1 := by
    rw [hi, SharedRegistry.count_toList_some, if_pos rfl]
  have hb : (s.instance? b).toList.count i = 1 := by
    rw [hi', SharedRegistry.count_toList_some, if_pos rfl]
  rw [SharedRegistry.count_instances] at hcount
  cases a <;> cases b <;> first | rfl | omega

/-- What is held stands in a slot. -/
theorem count_held_le (p : Pool) (i : Nat) : p.held.count i ≤ p.placed.count i := by
  rw [held, placed]
  induction p.registries with
  | nil => exact Nat.le_refl 0
  | cons s l ih =>
    have hhead : s.held.count i ≤ s.instances.count i := by
      rw [SharedRegistry.held]
      split
      · exact Nat.le_refl _
      · exact Nat.zero_le _
    simp only [List.flatMap_cons, List.count_append]
    omega

/-- A registry that has a handle holds each of its instances once, and no other one holds them. -/
theorem Sound.count_held (hp : p.Sound) (hs : p.registries[r]? = some s) (hpos : 0 < s.handles)
    (hi : s.instance? a = some i) : p.held.count i = 1 := by
  have hone := hp.count_instances hs hi
  have hheld : s.held = s.instances := if_pos hpos
  have hall := count_held_put hs vacant i
  have hothers := count_held_le (p.put r vacant) i
  have hplaced := count_placed hs i
  have hapart := hp.apart i
  rw [hheld, show vacant.held = [] from rfl, List.count_nil] at hall
  omega

theorem mem_held_iff : i ∈ p.held ↔
    ∃ (r : Nat) (s : SharedRegistry) (a : Algorithm),
      p.registries[r]? = some s ∧ 0 < s.handles ∧ s.instance? a = some i := by
  rw [held, List.mem_flatMap]
  constructor
  · rintro ⟨s, hs, hi⟩
    obtain ⟨r, hr⟩ := List.mem_iff_getElem?.mp hs
    rw [SharedRegistry.held] at hi
    split at hi
    · rename_i hpos
      obtain ⟨a, ha⟩ := SharedRegistry.mem_instances.mp hi
      exact ⟨r, s, a, hr, hpos, ha⟩
    · cases hi
  · rintro ⟨r, s, a, hr, hpos, ha⟩
    refine ⟨s, List.mem_of_getElem? hr, ?_⟩
    rw [SharedRegistry.held, if_pos hpos]
    exact SharedRegistry.mem_instances.mpr ⟨a, ha⟩

theorem holders_put (p : Pool) (r : Nat) (s : SharedRegistry) (i : Nat) :
    (p.put r s).holders i = p.holders i := rfl

end Pool

namespace Custody

variable {k k' : Custody} {g : Handle} {h : Nat} {target? : Option (Nat × Algorithm)}

/-! ## Counts -/

theorem count_loose (k : Custody) (i : Nat) :
    k.loose.count i = k.refs.countP (·.number = i) + k.contexts.countP (·.1 = i) := by
  rw [loose, List.count_append]
  simp only [List.count_eq_countP, List.countP_map]
  rfl

/-- **The holders of a slot's cipher** are its registry, the references and the contexts. -/
theorem Sound.slotHolders (hk : k.Sound) (hg : g ∈ k.handles) (a : Algorithm) :
    k.pool.slotHolders g.registry a = match k.pool.instance? g.registry a with
      | some i => 1 + k.refs.countP (·.number = i) + k.contexts.countP (·.1 = i)
      | none => 0 := by
  -- The registry is alive, so of all that registries hold the instance is held once.
  obtain ⟨s, hs, hpos⟩ := hk.registry hg
  rw [Pool.slotHolders, Pool.instance?, hs, Option.bind_some]
  rcases hi : s.instance? a with _ | i
  · rfl
  · have hheld := hk.pool.count_held hs hpos hi
    rw [Option.map_some, Option.getD_some, hk.holders, hheld, count_loose]
    exact (Nat.add_assoc _ _ _).symm

/-- **An instance is there as long as anybody holds it.** -/
theorem Sound.holders_pos_iff (hk : k.Sound) : 0 < k.pool.holders i ↔
    (∃ g ∈ k.handles, ∃ a, k.pool.instance? g.registry a = some i) ∨
      (∃ ref ∈ k.refs, ref.number = i) ∨ ∃ ctx ∈ k.contexts, ctx.1 = i := by
  have hheld : i ∈ k.pool.held ↔ ∃ g ∈ k.handles, ∃ a, k.pool.instance? g.registry a = some i := by
    rw [Pool.mem_held_iff]
    constructor
    · rintro ⟨r, s, a, hs, hpos, hi⟩
      rw [hk.handles_of_registry hs, List.countP_pos_iff] at hpos
      obtain ⟨g, hg, hr⟩ := hpos
      have hr : g.registry = r := by simpa using hr
      exact ⟨g, hg, a, Pool.instance?_eq_some_iff.mpr ⟨s, hr ▸ hs, hi⟩⟩
    · rintro ⟨g, hg, a, hi⟩
      obtain ⟨s, hs, hpos⟩ := hk.registry hg
      rw [Pool.instance?, hs] at hi
      exact ⟨_, s, a, hs, hpos, hi⟩
  have hloose : i ∈ k.loose ↔ (∃ ref ∈ k.refs, ref.number = i) ∨ ∃ ctx ∈ k.contexts, ctx.1 = i := by
    rw [loose, List.mem_append, List.mem_map, List.mem_map]
  rw [← hheld, ← hloose, hk.holders, Nat.add_pos_iff_pos_or_pos, List.count_pos_iff, List.count_pos_iff]

/-! ## The last handle -/

/-- **The last handle of a registry takes its hold on its instances with it,** and no other hold. -/
theorem Sound.release (hk : k.Sound) (hg : k.handles[h]? = some g) (i : Nat) :
    (k.handles.countP (·.registry = g.registry) = 1 →
      ∀ a, k.pool.instance? g.registry a = some i →
        (k.act (.release h)).pool.holders i + 1 = k.pool.holders i) ∧
    (k.handles.countP (·.registry = g.registry) ≠ 1 ∨
        (∀ a, k.pool.instance? g.registry a ≠ some i) →
      (k.act (.release h)).pool.holders i = k.pool.holders i) := by
  obtain ⟨s, hs, hpos⟩ := hk.registry (List.mem_of_getElem? hg)
  have hhandles := hk.handles_of_registry hs
  have hact : (k.act (.release h)).pool = k.pool.releaseRegistry g.registry := by simp only [act, hg]
  have hinstance : ∀ a, k.pool.instance? g.registry a = s.instance? a := by
    intro a
    rw [Pool.instance?, hs]
    rfl
  rw [hact, ← hhandles]
  by_cases hlast : s.handles = 1
  · rw [Pool.releaseRegistry_eq_of_last hs hlast, Pool.holders_letGoAll, Pool.holders_put]
    constructor
    · intro _ a hi
      rw [hinstance] at hi
      have hone := hk.pool.count_instances hs hi
      have hthere := hk.holders_pos_of_instance hs hpos hi
      omega
    · rintro (hmore | hnone)
      · exact absurd hlast hmore
      · have hzero : s.instances.count i = 0 := by
          rw [List.count_eq_zero, SharedRegistry.mem_instances]
          rintro ⟨a, ha⟩
          exact hnone a ((hinstance a).trans ha)
        rw [hzero, Nat.sub_zero]
  · rw [Pool.releaseRegistry_eq hs hlast, Pool.holders_put]
    exact ⟨fun h => absurd h hlast, fun _ => rfl⟩

/-! ## Instances that are gone -/

/-- Nobody takes hold of an instance that nobody holds. -/
theorem Moves.holders_eq_zero (hmoves : k.Moves target? k') (hk : k.Sound)
    (hi : i < k.pool.instances.length) (hzero : k.pool.holders i = 0) :
    i < k'.pool.instances.length ∧ k'.pool.holders i = 0 := by
  cases hmoves with
  | idle => exact ⟨hi, hzero⟩
  | opened isShared hnone => exact ⟨hi, hzero⟩
  | joined hg => exact ⟨hi, hzero⟩
  | left hperm =>
    obtain ⟨s, hs, -⟩ := hk.registry (hperm.mem_iff.mpr List.mem_cons_self)
    by_cases hlast : s.handles = 1
    · rw [Pool.releaseRegistry_eq_of_last hs hlast, Pool.length_letGoAll, Pool.holders_letGoAll,
        Pool.holders_put, hzero, Nat.zero_sub]
      exact ⟨hi, rfl⟩
    · rw [Pool.releaseRegistry_eq hs hlast]
      exact ⟨hi, hzero⟩
  | tended hs hempty hcipher honce => exact ⟨hi, hzero⟩
  | built hg hs hempty hvet =>
    rw [Pool.holders_append, if_neg (by omega), List.length_append]
    exact ⟨Nat.lt_add_right _ hi, hzero⟩
  | @held j refs contexts hpos hperm =>
    have hne : j ≠ i := by
      rintro rfl
      omega
    rw [Pool.holders_retain hpos, if_neg hne]
    exact ⟨Nat.lt_of_lt_of_eq hi (k.pool.length_recount j (· + 1)).symm, hzero⟩
  | @dropped j refs contexts hperm =>
    rw [Pool.holders_letGo, hzero, Nat.zero_sub]
    exact ⟨Nat.lt_of_lt_of_eq hi (k.pool.length_recount j (· - 1)).symm, rfl⟩

theorem Sound.run_holders_eq_zero (hk : k.Sound) (hi : i < k.pool.instances.length)
    (hzero : k.pool.holders i = 0) (later : List Act) : (k.run later).pool.holders i = 0 := by
  induction later generalizing k with
  | nil => exact hzero
  | cons x later ih =>
    have hmoves := hk.moves x
    obtain ⟨hi', hzero'⟩ := hmoves.holders_eq_zero hk hi hzero
    exact ih (hmoves.sound hk) hi' hzero'

/-! ## The registry that everybody shares -/

/-- **The handles to the shared registry lead to one registry,** to which the next one leads too. -/
theorem Sound.share (hk : k.Sound) (hg : g ∈ k.handles) (hflag : g.isShared = true) :
    k.pool.shared.1 = g.registry ∧ ∀ g' ∈ k.handles, g'.isShared = true → g'.registry = g.registry := by
  refine ⟨by rw [hk.shared_of_mem hg hflag], fun g' hg' hflag' => ?_⟩
  have hr := (hk.shared g hg).mp hflag
  have hr' := (hk.shared g' hg').mp hflag'
  exact Option.some.inj (hr'.symm.trans hr)

/-- **Registries and ciphers live as long as somebody holds them.**  Whatever is made, taken hold of and
    given up, a registry counts its handles, and a slot's cipher the registry, the references and the
    contexts that hold it; no other slot holds the same instance.  The last handle of a registry takes
    just one hold off each of its instances.  An instance is there as long as anybody holds it, and
    never comes back.  The handles to the shared registry lead to one registry, and once they are given
    up, the next one leads to a new registry that has built nothing. -/
theorem lifetimes_are_accounted (instructions : Bool) (acts : List Act) :
    let k := (start instructions).run acts
    (∀ r, k.pool.handles r = k.handles.countP (·.registry = r)) ∧
    (∀ g ∈ k.handles, ∀ a, k.pool.slotHolders g.registry a = match k.pool.instance? g.registry a with
      | some i => 1 + k.refs.countP (·.number = i) + k.contexts.countP (·.1 = i)
      | none => 0) ∧
    (∀ r a slot, k.pool.slot? r a = some slot → slot.isConstructed = (k.pool.instance? r a).isSome) ∧
    (∀ r a r' b i, k.pool.instance? r a = some i → k.pool.instance? r' b = some i → r = r' ∧ a = b) ∧
    (∀ h g, k.handles[h]? = some g → ∀ i,
      (k.handles.countP (·.registry = g.registry) = 1 → ∀ a, k.pool.instance? g.registry a = some i →
        (k.act (.release h)).pool.holders i + 1 = k.pool.holders i) ∧
      (k.handles.countP (·.registry = g.registry) ≠ 1 ∨ (∀ a, k.pool.instance? g.registry a ≠ some i) →
        (k.act (.release h)).pool.holders i = k.pool.holders i)) ∧
    (∀ i, 0 < k.pool.holders i ↔ (∃ g ∈ k.handles, ∃ a, k.pool.instance? g.registry a = some i) ∨
      (∃ ref ∈ k.refs, ref.number = i) ∨ ∃ ctx ∈ k.contexts, ctx.1 = i) ∧
    (∀ i later, i < k.pool.instances.length → k.pool.holders i = 0 →
      (k.run later).pool.holders i = 0) ∧
    (∀ g ∈ k.handles, g.isShared = true → k.pool.shared.1 = g.registry ∧
      ∀ g' ∈ k.handles, g'.isShared = true → g'.registry = g.registry) ∧
    ((∀ g ∈ k.handles, g.isShared = false) →
      k.pool.shared.1 = k.pool.registries.length ∧
      k.pool.shared.2.registries[k.pool.registries.length]? =
        some ⟨.builtin instructions, 1, fun _ => none⟩) := by
  intro k
  have hk : k.Sound := (sound_start instructions).run acts
  refine ⟨hk.handles, fun g hg a => hk.slotHolders hg a, ?_, fun r a r' b i => hk.pool.slot_unique,
    fun h g hg i => hk.release hg i, fun i => hk.holders_pos_iff,
    fun i later hi hzero => hk.run_holders_eq_zero hi hzero later,
    fun g hg hflag => hk.share hg hflag, ?_⟩
  · intro r a slot hslot
    obtain ⟨s, hs, rfl⟩ := Pool.slot?_eq_some_iff.mp hslot
    rw [(hk.pool.registry hs).isConstructed_iff, Pool.instance?, hs]
    rfl
  · intro hnone
    have hbuilt : k.pool.instructions = instructions := (sound_start instructions).instructions_run acts
    rw [hk.shared_of_none hnone]
    refine ⟨rfl, ?_⟩
    rw [← hbuilt]
    exact List.getElem?_concat_length

/-- Two handles to the shared registry, of which one is left, with a reference, a context and its fork. -/
def fourHolders : List Act := [.share, .share, .get 1 .aes, .bind 0 "a", .fork 0, .release 0]

/-- The last handle goes, then the others, and then somebody asks for the shared registry again. -/
theorem lifetimes_are_accounted_of_four :
    let k := start.run fourHolders
    let deserted := k.act (.release 0)
    let gone := start.run (fourHolders ++ [.release 0, .drop 0, .dropContext 0, .dropContext 0])
    k.pool.handles 0 = 1 ∧ k.pool.slotHolders 0 .aes = 4 ∧ k.pool.shared.1 = 0 ∧
    deserted.pool.holders 0 + 1 = k.pool.holders 0 ∧
    (gone.run [.share, .get 0 .aes]).pool.holders 0 = 0 ∧
    gone.pool.shared.2.registries[1]? = some ⟨.builtin, 1, fun _ => none⟩ := by
  obtain ⟨hhandles, hslots, -, -, hrelease, -, -, hshare, -⟩ := lifetimes_are_accounted true fourHolders
  obtain ⟨-, -, -, -, -, -, hgone, -, hrenew⟩ := lifetimes_are_accounted true
    (fourHolders ++ [.release 0, .drop 0, .dropContext 0, .dropContext 0])
  have hleft : (⟨0, true⟩ : Handle) ∈ (start.run fourHolders).handles := List.mem_cons_self
  refine ⟨hhandles 0, hslots _ hleft .aes, (hshare _ hleft rfl).1, ?_, hgone 0 _ (by decide) rfl, ?_⟩
  · exact (hrelease 0 ⟨0, true⟩ rfl 0).1 rfl .aes rfl
  · exact (hrenew fun g hg => nomatch hg).2

end Custody

end Coffer.Cipher
