import Coffer.Proofs.Cipher.Pool
/-
  Everybody who holds something of a pool.

  A `Custody` is a pool with all handles, references and contexts that are alive, and `Custody.run` lets
  them be made and given up in any order.

  * `Custody.Moves`       — what one act can come to (`Sound.moves`);
  * `Custody.Sound`       — the pool's counts are the numbers of those who hold something.  Every move
                            preserves it (`Moves.sound`), and so every run (`Sound.run`).
-/
namespace Coffer.Cipher

/-! ## Holders and their acts -/

/-- A handle to a registry. -/
structure Handle where
  registry : Nat
  /-- Whether it comes from the registry that everybody shares. -/
  isShared : Bool
  deriving DecidableEq

/-- A pool with everybody who holds something of it, the latest ones first. -/
structure Custody where
  pool : Pool
  handles : List Handle
  refs : List CipherRef
  /-- The contexts, each with the number of its instance. -/
  contexts : List (Nat × Context)

/-- What can be done; each number is the place of the handle, reference or context that does it. -/
inductive Act
  /-- Make a registry of one's own. -/
  | make
  /-- Take a handle to the registry that everybody shares. -/
  | share
  | clone (handle : Nat)
  | release (handle : Nat)
  | register (handle : Nat) (a : Algorithm) (factory : Factory)
  | get (handle : Nat) (a : Algorithm)
  | drop (ref : Nat)
  | bind (ref : Nat) (name : String)
  | fork (context : Nat)
  | dropContext (context : Nat)

namespace Custody

/-- Nothing made yet. -/
def start (instructions : Bool := true) : Custody := ⟨.empty instructions, [], [], []⟩

/-- The custody after an act; one that nobody is there for does nothing. -/
def act (k : Custody) : Act → Custody
  | .make =>
    let (r, pool) := k.pool.newRegistry
    { k with pool := pool, handles := ⟨r, false⟩ :: k.handles }
  | .share =>
    let (r, pool) := k.pool.shared
    { k with pool := pool, handles := ⟨r, true⟩ :: k.handles }
  | .clone h =>
    match k.handles[h]? with
    | none => k
    | some g => { k with pool := k.pool.retainRegistry g.registry, handles := g :: k.handles }
  | .release h =>
    match k.handles[h]? with
    | none => k
    | some g =>
      { k with pool := k.pool.releaseRegistry g.registry, handles := k.handles.eraseIdx h }
  | .register h a factory =>
    match k.handles[h]? with
    | none => k
    | some g => { k with pool := (k.pool.register g.registry a factory).2 }
  | .get h a =>
    match k.handles[h]? with
    | none => k
    | some g =>
      match k.pool.get g.registry a with
      | (.ok ref, pool) => { k with pool := pool, refs := ref :: k.refs }
      | (.error _, pool) => { k with pool := pool }
  | .drop n =>
    match k.refs[n]? with
    | none => k
    | some ref => { k with pool := k.pool.letGo ref.number, refs := k.refs.eraseIdx n }
  | .bind n name =>
    match k.refs[n]? with
    | none => k
    | some ref =>
      match k.pool.bind ref name with
      | (.ok ctx, pool) => { k with pool := pool, contexts := (ref.number, ctx) :: k.contexts }
      | (.error _, pool) => { k with pool := pool }
  | .fork n =>
    match k.contexts[n]? with
    | none => k
    | some (i, ctx) =>
      match k.pool.fork i ctx with
      | (.ok forked, pool) => { k with pool := pool, contexts := (i, forked) :: k.contexts }
      | (.error _, pool) => { k with pool := pool }
  | .dropContext n =>
    match k.contexts[n]? with
    | none => k
    | some (i, _) => { k with pool := k.pool.letGo i, contexts := k.contexts.eraseIdx n }

/-- Acts one after the other. -/
def run (k : Custody) (acts : List Act) : Custody := acts.foldl act k

/-- The instances that references and contexts hold, once for each of them. -/
def loose (k : Custody) : List Nat := k.refs.map (·.number) ++ k.contexts.map (·.1)

end Custody

/-- The registry and the slot that an act is about. -/
def Act.target? (k : Custody) : Act → Option (Nat × Algorithm)
  | .register h a _ | .get h a => k.handles[h]?.map fun g => (g.registry, a)
  | _ => none

namespace Custody

variable {k k' : Custody} {g : Handle} {i r : Nat} {target? : Option (Nat × Algorithm)}

/-! ## What is kept up -/

/-- Everybody who holds something is counted, and nobody else. -/
structure Sound (k : Custody) : Prop where
  pool : k.pool.Sound
  handles : ∀ r, k.pool.handles r = k.handles.countP (·.registry = r)
  holders : ∀ i, k.pool.holders i = k.pool.held.count i + k.loose.count i
  /-- The handles to the registry that everybody shares are the handles to one registry. -/
  shared : ∀ g ∈ k.handles, g.isShared = true ↔ k.pool.shared? = some g.registry
  sharedKnown : ∀ r, k.pool.shared? = some r → r < k.pool.registries.length

theorem sound_start (instructions : Bool) : Sound (start instructions) where
  pool := Pool.sound_empty instructions
  handles _ := rfl
  holders _ := rfl
  shared _ hg := nomatch hg
  sharedKnown _ h := nomatch h

/-- What an act can come to; `target?` is the slot that it is about. -/
inductive Moves (k : Custody) (target? : Option (Nat × Algorithm)) : Custody → Prop
  | idle : Moves k target? k
  /-- A new registry; a new one for everybody is made only when nobody has a handle to the old one. -/
  | opened (isShared : Bool) : (isShared = true → ∀ g ∈ k.handles, g.isShared = false) →
      Moves k target? { k with
        pool := k.pool.opened (if isShared then some k.pool.registries.length else k.pool.shared?)
        handles := ⟨k.pool.registries.length, isShared⟩ :: k.handles }
  /-- One more handle. -/
  | joined {g : Handle} : g ∈ k.handles →
      Moves k target? { k with pool := k.pool.retainRegistry g.registry, handles := g :: k.handles }
  /-- One handle less. -/
  | left {g : Handle} {handles : List Handle} : k.handles.Perm (g :: handles) →
      Moves k target? { k with pool := k.pool.releaseRegistry g.registry, handles := handles }
  /-- An empty slot stays empty, with another constructor or after another attempt. -/
  | tended {r : Nat} {s : SharedRegistry} {a : Algorithm} {slot : Slot} :
      k.pool.registries[r]? = some s → s.instance? a = none →
      slot.cipher? = (s.registry.slot a).cipher? →
      slot.constructions = (s.registry.slot a).constructions → target? = some (r, a) →
      Moves k target? { k with pool := k.pool.put r (s.withSlot a slot) }
  /-- An empty slot builds its cipher. -/
  | built {g : Handle} {s : SharedRegistry} {a : Algorithm} {c : BlockCipher} : g ∈ k.handles →
      k.pool.registries[g.registry]? = some s → s.instance? a = none → vet a c = .ok () →
      target? = some (g.registry, a) →
      Moves k target? { k with
        pool := { k.pool with
          registries := k.pool.registries.set g.registry
            (s.withInstance a ((s.registry.slot a).built c) k.pool.instances.length)
          instances := k.pool.instances ++ [⟨c, 2⟩] }
        refs := ⟨k.pool.instances.length, c⟩ :: k.refs }
  /-- One more reference to an instance that is there, or one more context. -/
  | held {i : Nat} {refs : List CipherRef} {contexts : List (Nat × Context)} :
      0 < k.pool.holders i →
      (loose ⟨k.pool, k.handles, refs, contexts⟩).Perm (i :: k.loose) →
      Moves k target? ⟨k.pool.retain i, k.handles, refs, contexts⟩
  /-- One reference less, or one context less. -/
  | dropped {i : Nat} {refs : List CipherRef} {contexts : List (Nat × Context)} :
      k.loose.Perm (i :: loose ⟨k.pool, k.handles, refs, contexts⟩) →
      Moves k target? ⟨k.pool.letGo i, k.handles, refs, contexts⟩

/-! ## Every act is a move -/

/-- A handle that is alive leads to a registry, which counts it. -/
theorem Sound.registry (hk : k.Sound) (hg : g ∈ k.handles) :
    ∃ s, k.pool.registries[g.registry]? = some s ∧ 0 < s.handles := by
  have hpos : 0 < k.pool.handles g.registry := by
    rw [hk.handles, List.countP_pos_iff]
    exact ⟨g, hg, by simp⟩
  rw [Pool.handles] at hpos
  rcases hs : k.pool.registries[g.registry]? with _ | s
  · rw [hs] at hpos
    exact absurd hpos (Nat.lt_irrefl 0)
  · rw [hs] at hpos
    exact ⟨s, rfl, hpos⟩

/-- An instance that a reference or a context holds is there. -/
theorem Sound.holders_pos (hk : k.Sound) (h : i ∈ k.loose) : 0 < k.pool.holders i := by
  have hcount := List.count_pos_iff.mpr h
  rw [hk.holders]
  omega

/-- An instance in a slot of a registry that has a handle is there. -/
theorem Sound.holders_pos_of_instance (hk : k.Sound) {s : SharedRegistry} {a : Algorithm}
    (hs : k.pool.registries[r]? = some s) (hpos : 0 < s.handles) (hi : s.instance? a = some i) :
    0 < k.pool.holders i := by
  have hheld : i ∈ k.pool.held := by
    rw [Pool.held, List.mem_flatMap]
    refine ⟨s, List.mem_of_getElem? hs, ?_⟩
    rw [SharedRegistry.held, if_pos hpos]
    exact SharedRegistry.mem_instances.mpr ⟨a, hi⟩
  have hcount := List.count_pos_iff.mpr hheld
  rw [hk.holders]
  omega

theorem perm_eraseIdx {α : Type} {l : List α} {n : Nat} {x : α} (h : l[n]? = some x) :
    l.Perm (x :: l.eraseIdx n) := by
  obtain ⟨hlt, rfl⟩ := List.getElem?_eq_some_iff.mp h
  exact (List.getElem_cons_eraseIdx_perm hlt).symm

/-- While somebody has a handle to the shared registry, so does everybody who asks. -/
theorem Sound.shared_of_mem (hk : k.Sound) (hg : g ∈ k.handles) (hflag : g.isShared = true) :
    k.pool.shared = (g.registry, k.pool.retainRegistry g.registry) := by
  have hshared := (hk.shared g hg).mp hflag
  obtain ⟨s, hs, hpos⟩ := hk.registry hg
  have hhandles : 0 < k.pool.handles g.registry := by
    rw [Pool.handles, hs]
    exact hpos
  simp only [Pool.shared, hshared, if_pos hhandles]

/-- When nobody has one, a new registry is made. -/
theorem Sound.shared_of_none (hk : k.Sound) (hnone : ∀ g ∈ k.handles, g.isShared = false) :
    k.pool.shared = Pool.shared.renew k.pool := by
  rcases hshared : k.pool.shared? with _ | r
  · rw [Pool.shared, hshared]
  · have hhandles : ¬ 0 < k.pool.handles r := by
      rw [hk.handles, List.countP_pos_iff]
      rintro ⟨g, hg, hr⟩
      have hr : g.registry = r := by simpa using hr
      have hflag := (hk.shared g hg).mpr (by rw [hshared, hr])
      rw [hnone g hg] at hflag
      cases hflag
    simp only [Pool.shared, hshared, if_neg hhandles]

theorem Sound.moves_share (hk : k.Sound) : k.Moves target? (k.act .share) := by
  by_cases hsome : ∃ g ∈ k.handles, g.isShared = true
  · obtain ⟨g, hg, hflag⟩ := hsome
    have hsame : (⟨g.registry, true⟩ : Handle) = g := by rw [← hflag]
    simp only [act, hk.shared_of_mem hg hflag, hsame]
    exact .joined hg
  · have hnone : ∀ g ∈ k.handles, g.isShared = false := by
      intro g hg
      rcases hflag : g.isShared with _ | _
      · rfl
      · exact absurd ⟨g, hg, hflag⟩ hsome
    simp only [act, hk.shared_of_none hnone]
    exact .opened true fun _ => hnone

theorem Sound.moves_register (hk : k.Sound) (h : Nat) (a : Algorithm) (factory : Factory) :
    k.Moves ((Act.register h a factory).target? k) (k.act (.register h a factory)) := by
  rcases hg : k.handles[h]? with _ | g
  · simp only [act, hg]
    exact .idle
  · have hmem := List.mem_of_getElem? hg
    obtain ⟨s, hs, -⟩ := hk.registry hmem
    have hsound := hk.pool.registry hs
    simp only [act, hg]
    rcases hconstructed : (s.registry.slot a).isConstructed with _ | _
    · have hempty : s.instance? a = none := by
        rw [hsound.isConstructed_iff] at hconstructed
        exact Option.not_isSome_iff_eq_none.mp (by rw [hconstructed]; exact Bool.false_ne_true)
      rw [Pool.register_of_empty hs hconstructed]
      exact .tended hs hempty rfl rfl (by rw [Act.target?, hg]; rfl)
    · rw [Pool.register_of_constructed hs hconstructed]
      exact .idle

theorem Sound.moves_get (hk : k.Sound) (h : Nat) (a : Algorithm) :
    k.Moves ((Act.get h a).target? k) (k.act (.get h a)) := by
  rcases hg : k.handles[h]? with _ | g
  · simp only [act, hg]
    exact .idle
  · have hmem := List.mem_of_getElem? hg
    have htarget : (Act.get h a).target? k = some (g.registry, a) := by rw [Act.target?, hg]; rfl
    obtain ⟨s, hs, hpos⟩ := hk.registry hmem
    have hgets := hk.pool.gets hs a
    simp only [act, hg]
    generalize k.pool.get g.registry a = got at hgets
    cases hgets with
    | kept hcipher hi => exact .held (hk.holders_pos_of_instance hs hpos hi) (List.Perm.refl _)
    | built hempty hfactory hbuilt hvet => exact .built hmem hs hempty hvet htarget
    | refused e hempty => exact .tended hs hempty rfl rfl htarget

/-- **Every act is a move.** -/
theorem Sound.moves (hk : k.Sound) (x : Act) : k.Moves (x.target? k) (k.act x) := by
  cases x with
  | make => exact .opened false fun h => nomatch h
  | share => exact hk.moves_share
  | clone h =>
    rcases hg : k.handles[h]? with _ | g <;> simp only [act, hg]
    · exact .idle
    · exact .joined (List.mem_of_getElem? hg)
  | release h =>
    rcases hg : k.handles[h]? with _ | g <;> simp only [act, hg]
    · exact .idle
    · exact .left (perm_eraseIdx hg)
  | register h a factory => exact hk.moves_register h a factory
  | get h a => exact hk.moves_get h a
  | drop n =>
    rcases hn : k.refs[n]? with _ | ref <;> simp only [act, hn]
    · exact .idle
    · exact .dropped (((perm_eraseIdx hn).map (·.number)).append_right _)
  | bind n name =>
    rcases hn : k.refs[n]? with _ | ref <;> simp only [act, hn]
    · exact .idle
    · have hpos : 0 < k.pool.holders ref.number :=
        hk.holders_pos (List.mem_append_left _ (List.mem_map_of_mem (List.mem_of_getElem? hn)))
      rw [Pool.bind]
      rcases Context.bind ref.cipher name with e | ctx
      · exact .idle
      · exact .held hpos List.perm_middle
  | fork n =>
    rcases hn : k.contexts[n]? with _ | ⟨i, ctx⟩ <;> simp only [act, hn]
    · exact .idle
    · have hpos : 0 < k.pool.holders i :=
        hk.holders_pos (List.mem_append_right _ (List.mem_map_of_mem (List.mem_of_getElem? hn)))
      rw [Pool.fork]
      rcases ctx.fork with e | forked
      · exact .idle
      · exact .held hpos List.perm_middle
  | dropContext n =>
    rcases hn : k.contexts[n]? with _ | ⟨i, ctx⟩ <;> simp only [act, hn]
    · exact .idle
    · exact .dropped ((((perm_eraseIdx hn).map (·.1)).append_left _).trans List.perm_middle)

/-! ## Every move keeps the counts -/

theorem Sound.not_mem_of_le (hk : k.Sound) (hr : k.pool.registries.length ≤ r) :
    ∀ g ∈ k.handles, g.registry ≠ r := by
  rintro g hg rfl
  obtain ⟨s, hs, -⟩ := hk.registry hg
  have hlt := Pool.lt_of_registry hs
  omega

theorem Sound.opened (hk : k.Sound) {isShared : Bool}
    (hnone : isShared = true → ∀ g ∈ k.handles, g.isShared = false) :
    Sound { k with
      pool := k.pool.opened (if isShared then some k.pool.registries.length else k.pool.shared?)
      handles := ⟨k.pool.registries.length, isShared⟩ :: k.handles } where
  pool := hk.pool.opened _
  handles r := by
    have hbefore := hk.handles r
    rw [Pool.handles_opened, List.countP_cons, ← hbefore]
    by_cases hr : r = k.pool.registries.length
    · have hzero : k.pool.handles r = 0 := by
        rw [Pool.handles, List.getElem?_eq_none (by omega)]
        rfl
      rw [if_pos hr, hzero, if_pos (by simp [hr])]
    · rw [if_neg hr, if_neg (by simp [Ne.symm hr]), Nat.add_zero]
  holders i := by
    show k.pool.holders i = _
    rw [Pool.count_held_opened]
    exact hk.holders i
  shared g hg := by
    have hold : ∀ g ∈ k.handles, g.registry ≠ k.pool.registries.length := hk.not_mem_of_le (Nat.le_refl _)
    rcases List.mem_cons.mp hg with rfl | hmem
    · cases isShared with
      | true => simp [Pool.opened]
      | false =>
        -- The registry that everybody shares is an older one.
        refine ⟨fun h => absurd h Bool.false_ne_true, fun h => ?_⟩
        have hlt := hk.sharedKnown _ h
        exact absurd hlt (Nat.lt_irrefl _)
    · cases isShared with
      | true =>
        -- Nobody has a handle to the shared registry that is now replaced.
        have hflag := hnone rfl g hmem
        have hne := hold g hmem
        simp [Pool.opened, hflag, Ne.symm hne]
      | false => exact hk.shared g hmem
  sharedKnown r hr := by
    show r < (k.pool.registries ++ [_]).length
    rw [List.length_append, List.length_singleton]
    cases isShared with
    | true =>
      cases hr
      omega
    | false =>
      have hlt := hk.sharedKnown r hr
      omega

/-- A registry may change as long as its handles keep being counted, and those of its instances that
    it holds. -/
theorem Sound.put (hk : k.Sound) {s : SharedRegistry} (s' : SharedRegistry)
    (hs : k.pool.registries[r]? = some s) (hsound : s'.Sound k.pool.ciphers) (hinstances : s'.instances = s.instances)
    (hheld : s'.held = s.held) {handles : List Handle} (hsub : ∀ g ∈ handles, g ∈ k.handles)
    (hhandles : s'.handles = handles.countP (·.registry = r))
    (hothers : ∀ r', r' ≠ r →
      handles.countP (·.registry = r') = k.handles.countP (·.registry = r')) :
    Sound { k with pool := k.pool.put r s', handles := handles } where
  pool := hk.pool.put hs hsound hinstances
  handles r' := by
    rw [Pool.handles_put hs]
    split
    · subst r'
      exact hhandles
    · rename_i hne
      rw [hothers r' hne]
      exact hk.handles r'
  holders i := by
    have hcount := Pool.count_held_put hs s' i
    have hbefore := hk.holders i
    rw [hheld] at hcount
    show k.pool.holders i = (k.pool.put r s').held.count i + k.loose.count i
    omega
  shared g hg := hk.shared g (hsub g hg)
  sharedKnown r' hr' := by
    show r' < (k.pool.registries.set r s').length
    rw [List.length_set]
    exact hk.sharedKnown r' hr'

theorem Sound.handles_of_registry (hk : k.Sound) {s : SharedRegistry}
    (hs : k.pool.registries[r]? = some s) : s.handles = k.handles.countP (·.registry = r) := by
  rw [← hk.handles, Pool.handles, hs]
  rfl

theorem Sound.joined (hk : k.Sound) (hg : g ∈ k.handles) :
    Sound { k with pool := k.pool.retainRegistry g.registry, handles := g :: k.handles } := by
  obtain ⟨s, hs, hpos⟩ := hk.registry hg
  have hhandles := hk.handles_of_registry hs
  rw [Pool.retainRegistry_eq hs]
  refine hk.put { s with handles := s.handles + 1 } hs ((hk.pool.registry hs).withHandles _) rfl ?_ ?_ ?_ ?_
  · rw [SharedRegistry.held, SharedRegistry.held, if_pos hpos, if_pos (Nat.succ_pos _)]
    rfl
  · intro g' hg'
    rcases List.mem_cons.mp hg' with rfl | hg'
    · exact hg
    · exact hg'
  · rw [List.countP_cons, hhandles]
    simp
  · intro r' hne
    rw [List.countP_cons]
    simp [Ne.symm hne]

/-- With its last handle a registry lets go of its instances, and they are counted less. -/
theorem Sound.deserted (hk : k.Sound) {s : SharedRegistry} (hs : k.pool.registries[r]? = some s)
    (hpos : 0 < s.handles) {handles : List Handle} (hsub : ∀ g ∈ handles, g ∈ k.handles)
    (hnone : handles.countP (·.registry = r) = 0)
    (hothers : ∀ r', r' ≠ r →
      handles.countP (·.registry = r') = k.handles.countP (·.registry = r')) :
    Sound { k with
      pool := s.instances.foldl Pool.letGo (k.pool.put r { s with handles := 0 })
      handles := handles } where
  pool := by
    have hput := hk.pool.put hs ((hk.pool.registry hs).withHandles 0) rfl
    exact hput.letGoAll _
  handles r' := by
    rw [Pool.handles, Pool.registries_letGoAll, ← Pool.handles, Pool.handles_put hs]
    split
    · subst r'
      exact hnone.symm
    · rename_i hne
      rw [hk.handles, ← hothers r' hne]
  holders i := by
    have hbefore := hk.holders i
    have hcount := Pool.count_held_put hs { s with handles := 0 } i
    have hheld : s.held = s.instances := if_pos hpos
    have hleft : SharedRegistry.held { s with handles := 0 } = [] := rfl
    rw [hheld, hleft, List.count_nil] at hcount
    rw [Pool.holders_letGoAll, Pool.held, Pool.registries_letGoAll, ← Pool.held]
    show k.pool.holders i - s.instances.count i = _ + k.loose.count i
    omega
  shared g hg := by
    rw [Pool.shared?_letGoAll]
    exact hk.shared g (hsub g hg)
  sharedKnown r' hr' := by
    rw [Pool.shared?_letGoAll] at hr'
    rw [Pool.registries_letGoAll, Pool.put, List.length_set]
    exact hk.sharedKnown r' hr'

theorem Sound.left (hk : k.Sound) {handles : List Handle} (hperm : k.handles.Perm (g :: handles)) :
    Sound { k with pool := k.pool.releaseRegistry g.registry, handles := handles } := by
  obtain ⟨s, hs, hpos⟩ := hk.registry (hperm.mem_iff.mpr List.mem_cons_self)
  have hsub : ∀ g' ∈ handles, g' ∈ k.handles := by
    intro g' hg'
    exact hperm.mem_iff.mpr (List.mem_cons_of_mem _ hg')
  have hcounts : ∀ r, k.handles.countP (·.registry = r) =
      handles.countP (·.registry = r) + if g.registry = r then 1 else 0 := by
    intro r
    rw [hperm.countP_eq, List.countP_cons]
    simp only [decide_eq_true_eq]
  have hhandles := hk.handles_of_registry hs
  rw [hcounts, if_pos rfl] at hhandles
  have hothers : ∀ r', r' ≠ g.registry →
      handles.countP (·.registry = r') = k.handles.countP (·.registry = r') := by
    intro r' hne
    rw [hcounts, if_neg (Ne.symm hne), Nat.add_zero]
  by_cases hlast : s.handles = 1
  · rw [Pool.releaseRegistry_eq_of_last hs hlast]
    exact hk.deserted hs hpos hsub (by omega) hothers
  · rw [Pool.releaseRegistry_eq hs hlast]
    refine hk.put { s with handles := s.handles - 1 } hs ((hk.pool.registry hs).withHandles _) rfl ?_
      hsub ?_ hothers
    · rw [SharedRegistry.held, SharedRegistry.held, if_pos hpos, if_pos (by show 0 < s.handles - 1; omega)]
      rfl
    · show s.handles - 1 = _
      omega

theorem Sound.tended (hk : k.Sound) {s : SharedRegistry} {a : Algorithm} {slot : Slot}
    (hs : k.pool.registries[r]? = some s)
    (hcipher : slot.cipher? = (s.registry.slot a).cipher?)
    (honce : slot.constructions = (s.registry.slot a).constructions) :
    Sound { k with pool := k.pool.put r (s.withSlot a slot) } := by
  have hsound := (hk.pool.registry hs).withSlot hcipher honce
  have hhandles := hk.handles_of_registry hs
  exact hk.put (s.withSlot a slot) hs hsound rfl rfl (fun _ hg => hg) hhandles fun _ _ => rfl

theorem Sound.built (hk : k.Sound) (hg : g ∈ k.handles) {s : SharedRegistry} {a : Algorithm}
    {c : BlockCipher} (hs : k.pool.registries[g.registry]? = some s) (hempty : s.instance? a = none)
    (hvet : vet a c = .ok ()) :
    Sound { k with
      pool := { k.pool with
        registries := k.pool.registries.set g.registry
          (s.withInstance a ((s.registry.slot a).built c) k.pool.instances.length)
        instances := k.pool.instances ++ [⟨c, 2⟩] }
      refs := ⟨k.pool.instances.length, c⟩ :: k.refs } where
  pool := hk.pool.built hs hempty hvet 2
  handles r := by
    have hput := Pool.handles_put hs
      (s.withInstance a ((s.registry.slot a).built c) k.pool.instances.length) r
    show (k.pool.put g.registry _).handles r = _
    rw [hput, ← hk.handles]
    split
    · subst r
      rw [Pool.handles, hs]
      rfl
    · rfl
  holders i := by
    obtain ⟨s', hs', hpos⟩ := hk.registry hg
    cases hs.symm.trans hs'
    have hbefore := hk.holders i
    have hcount := Pool.count_held_put hs
      (s.withInstance a ((s.registry.slot a).built c) k.pool.instances.length) i
    have hold : s.held = s.instances := if_pos hpos
    have hnew : ∀ slot i, (s.withInstance a slot i).held = (s.withInstance a slot i).instances :=
      fun slot i => if_pos hpos
    rw [hold, hnew, SharedRegistry.count_instances_withInstance hempty] at hcount
    show _ = (k.pool.put g.registry _).held.count i + (k.pool.instances.length :: k.loose).count i
    rw [Pool.holders_append, List.count_cons]
    simp only [beq_iff_eq]
    -- The registry and the new reference are the first to hold the new instance.
    by_cases hnew : k.pool.instances.length = i
    · rw [if_pos hnew] at hcount
      rw [if_pos hnew, if_pos hnew]
      omega
    · rw [if_neg hnew] at hcount
      rw [if_neg hnew, if_neg hnew]
      omega
  shared := hk.shared
  sharedKnown r' hr' := by
    show r' < (k.pool.registries.set g.registry _).length
    rw [List.length_set]
    exact hk.sharedKnown r' hr'

theorem Sound.held (hk : k.Sound) {refs : List CipherRef} {contexts : List (Nat × Context)}
    (hpos : 0 < k.pool.holders i)
    (hperm : (loose ⟨k.pool, k.handles, refs, contexts⟩).Perm (i :: k.loose)) :
    Sound ⟨k.pool.retain i, k.handles, refs, contexts⟩ where
  pool := hk.pool.recount i (· + 1)
  handles := hk.handles
  holders j := by
    have hcount := hperm.count_eq j
    have hbefore := hk.holders j
    rw [List.count_cons] at hcount
    rw [Pool.holders_retain hpos, hbefore]
    show _ = k.pool.held.count j + (loose ⟨k.pool, k.handles, refs, contexts⟩).count j
    simp only [beq_iff_eq] at hcount
    omega
  shared := hk.shared
  sharedKnown := hk.sharedKnown

theorem Sound.dropped (hk : k.Sound) {refs : List CipherRef} {contexts : List (Nat × Context)}
    (hperm : k.loose.Perm (i :: loose ⟨k.pool, k.handles, refs, contexts⟩)) :
    Sound ⟨k.pool.letGo i, k.handles, refs, contexts⟩ where
  pool := hk.pool.recount i (· - 1)
  handles := hk.handles
  holders j := by
    have hcount := hperm.count_eq j
    have hbefore := hk.holders j
    rw [List.count_cons] at hcount
    rw [Pool.holders_letGo, hbefore]
    show _ = k.pool.held.count j + (loose ⟨k.pool, k.handles, refs, contexts⟩).count j
    simp only [beq_iff_eq] at hcount
    omega
  shared := hk.shared
  sharedKnown := hk.sharedKnown

/-- **What one move preserves.** -/
theorem Moves.sound (hmoves : k.Moves target? k') (hk : k.Sound) : k'.Sound := by
  cases hmoves with
  | idle => exact hk
  | opened isShared hnone => exact hk.opened hnone
  | joined hg => exact hk.joined hg
  | left hperm => exact hk.left hperm
  | tended hs hempty hcipher honce => exact hk.tended hs hcipher honce
  | built hg hs hempty hvet => exact hk.built hg hs hempty hvet
  | held hpos hperm => exact hk.held hpos hperm
  | dropped hperm => exact hk.dropped hperm

/-- What a run preserves. -/
theorem Sound.run (hk : k.Sound) (acts : List Act) : (k.run acts).Sound := by
  induction acts generalizing k with
  | nil => exact hk
  | cons x acts ih => exact ih ((hk.moves x).sound hk)

/-- The processor stays what it is. -/
theorem Moves.instructions_eq (h : k.Moves target? k') : k'.pool.instructions = k.pool.instructions := by
  cases h with
  | left _ => exact Pool.instructions_releaseRegistry _ _
  | _ => rfl

theorem Sound.instructions_run (hk : k.Sound) (acts : List Act) :
    (k.run acts).pool.instructions = k.pool.instructions := by
  induction acts generalizing k with
  | nil => rfl
  | cons x acts ih => exact (ih ((hk.moves x).sound hk)).trans (hk.moves x).instructions_eq

end Custody

end Coffer.Cipher
