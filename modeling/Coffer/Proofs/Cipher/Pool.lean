import Coffer.Cipher.Pool
import Coffer.Proofs.Cipher.Registry
import Mathlib.Data.List.Perm.Basic
/-
  What a pool keeps track of.

  Two things are followed through every operation on a pool.

  * Which instance stands in which slot.  A registry is `Sound` when its slots have built at most once,
    hold vetted ciphers only, and agree with the instances that the pool has on record.
  * Who holds an instance.  `Pool.placed` lists the instances in all slots, `Pool.held` those in the
    slots of registries that still have a handle.

  Every operation changes at most one registry (`Pool.put`) and one instance.  `Pool.gets` is the whole
  of what asking for a cipher can come to.
-/
namespace Coffer.Cipher

variable {p : Pool} {s s' : SharedRegistry} {r i j : Nat} {a b : Algorithm} {c : BlockCipher}

/-! ## Lists of lists -/

/-- Putting another list in one place changes a count by what the two lists count. -/
theorem count_flatMap_set {α : Type} {f : α → List Nat} {l : List α} {x : α} (hx : l[r]? = some x)
    (y : α) (i : Nat) :
    ((l.set r y).flatMap f).count i + (f x).count i = (l.flatMap f).count i + (f y).count i := by
  induction l generalizing r with
  | nil => cases hx
  | cons z l ih =>
    cases r with
    | zero =>
      cases hx
      simp only [List.set_cons_zero, List.flatMap_cons, List.count_append]
      omega
    | succ r =>
      have hrest := ih (r := r) hx
      simp only [List.set_cons_succ, List.flatMap_cons, List.count_append]
      omega

/-! ## Registries and the instances on record -/

namespace SharedRegistry

/-- The slots of a registry, when the pool has these ciphers on record. -/
structure Sound (s : SharedRegistry) (ciphers : List BlockCipher) : Prop where
  /-- A slot has built once if it holds a cipher, and otherwise never. -/
  once : ∀ a, (s.registry.slot a).constructions = if (s.registry.slot a).isConstructed then 1 else 0
  vetted : s.registry.Vetted
  /-- The cipher in a slot is the one on record. -/
  agrees : ∀ a, (s.registry.slot a).cipher? = (s.instance? a).bind fun i => ciphers[i]?
  known : ∀ a i, s.instance? a = some i → i < ciphers.length

variable {ciphers : List BlockCipher}

theorem sound_new (instructions : Bool) (ciphers : List BlockCipher) :
    Sound ⟨.builtin instructions, 1, fun _ => none⟩ ciphers where
  once a := by cases a <;> rfl
  vetted := Registry.vetted_builtin instructions
  agrees a := by cases a <;> rfl
  known a i h := nomatch h

/-- A slot without an instance has no cipher. -/
theorem Sound.cipher?_eq_none (hs : s.Sound ciphers) (h : s.instance? a = none) :
    (s.registry.slot a).cipher? = none := by
  rw [hs.agrees, h]
  rfl

theorem Sound.isConstructed_iff (hs : s.Sound ciphers) :
    (s.registry.slot a).isConstructed = (s.instance? a).isSome := by
  rw [Slot.isConstructed, hs.agrees]
  rcases h : s.instance? a with _ | i
  · rfl
  · have hlt := hs.known a i h
    rw [Option.bind_some, List.getElem?_eq_getElem hlt]
    rfl

theorem Sound.instance?_eq_none (hs : s.Sound ciphers) (h : (s.registry.slot a).cipher? = none) :
    s.instance? a = none := by
  have hsome := hs.isConstructed_iff (a := a)
  rw [Slot.isConstructed, h] at hsome
  exact Option.isNone_iff_eq_none.mp (by simpa using hsome.symm)

/-- A cipher that is built later is put on record behind the others. -/
theorem Sound.append (hs : s.Sound ciphers) (c : BlockCipher) : s.Sound (ciphers ++ [c]) where
  once := hs.once
  vetted := hs.vetted
  agrees a := by
    rw [hs.agrees]
    rcases h : s.instance? a with _ | i
    · rfl
    · have hlt := hs.known a i h
      rw [Option.bind_some, Option.bind_some, List.getElem?_append_left hlt]
  known a i h := by
    have hlt := hs.known a i h
    rw [List.length_append]
    omega

/-- How many hold a registry makes no difference to its slots. -/
theorem Sound.withHandles (hs : s.Sound ciphers) (handles : Nat) :
    Sound { s with handles := handles } ciphers := ⟨hs.once, hs.vetted, hs.agrees, hs.known⟩

/-- The registry with another slot. -/
def withSlot (s : SharedRegistry) (a : Algorithm) (slot : Slot) : SharedRegistry :=
  { s with registry := s.registry.withSlot a slot }

/-- The registry with instance `i` in a slot. -/
def withInstance (s : SharedRegistry) (a : Algorithm) (slot : Slot) (i : Nat) : SharedRegistry :=
  { s.withSlot a slot with instance? := fun b => if b = a then some i else s.instance? b }

/-- A slot may change as long as its cipher does not. -/
theorem Sound.withSlot (hs : s.Sound ciphers) {slot : Slot}
    (hcipher : slot.cipher? = (s.registry.slot a).cipher?)
    (honce : slot.constructions = (s.registry.slot a).constructions) :
    (s.withSlot a slot).Sound ciphers where
  once b := by
    have h := hs.once b
    by_cases hb : b = a
    · subst hb
      rw [SharedRegistry.withSlot, Registry.slot_withSlot, honce, Slot.isConstructed, hcipher]
      exact h
    · rw [SharedRegistry.withSlot, Registry.slot_withSlot_of_ne _ _ hb]
      exact h
  vetted := hs.vetted.withSlot fun c hc => hs.vetted a c (hcipher ▸ hc)
  agrees b := by
    have h := hs.agrees b
    by_cases hb : b = a
    · subst hb
      rw [SharedRegistry.withSlot, Registry.slot_withSlot, hcipher]
      exact h
    · rw [SharedRegistry.withSlot, Registry.slot_withSlot_of_ne _ _ hb]
      exact h
  known := hs.known

/-- An empty slot may take the cipher that is put on record next. -/
theorem Sound.withInstance (hs : s.Sound ciphers) (hempty : s.instance? a = none)
    (hvet : vet a c = .ok ()) :
    (s.withInstance a ((s.registry.slot a).built c) ciphers.length).Sound (ciphers ++ [c]) where
  once b := by
    have h := hs.once b
    by_cases hb : b = a
    · subst hb
      have hconstructed := hs.isConstructed_iff (a := b)
      rw [hempty] at hconstructed
      rw [hconstructed] at h
      simp only [SharedRegistry.withInstance, SharedRegistry.withSlot, Registry.slot_withSlot,
        Slot.built, h]
      rfl
    · simp only [SharedRegistry.withInstance, SharedRegistry.withSlot,
        Registry.slot_withSlot_of_ne _ _ hb]
      exact h
  vetted := hs.vetted.withSlot fun c' hc => by
    cases hc
    exact hvet
  agrees b := by
    by_cases hb : b = a
    · subst hb
      simp only [SharedRegistry.withInstance, SharedRegistry.withSlot, Registry.slot_withSlot, if_true,
        Option.bind_some, List.getElem?_concat_length]
      rfl
    · simp only [SharedRegistry.withInstance, SharedRegistry.withSlot,
        Registry.slot_withSlot_of_ne _ _ hb, hb, if_false]
      exact (hs.append c).agrees b
  known b i h := by
    rw [List.length_append, List.length_singleton]
    by_cases hb : b = a
    · simp only [SharedRegistry.withInstance, hb, if_true] at h
      cases h
      omega
    · simp only [SharedRegistry.withInstance, hb, if_false] at h
      have hlt := hs.known b i h
      omega

/-- The instances in the slots, as long as anybody has a handle. -/
def held (s : SharedRegistry) : List Nat := if 0 < s.handles then s.instances else []

theorem mem_instances : i ∈ s.instances ↔ ∃ a, s.instance? a = some i := by
  rw [instances, List.mem_filterMap]
  constructor
  · rintro ⟨a, -, h⟩
    exact ⟨a, h⟩
  · rintro ⟨a, h⟩
    exact ⟨a, by cases a <;> decide, h⟩

/-- Each slot counts by itself. -/
theorem count_instances (s : SharedRegistry) (i : Nat) : s.instances.count i =
    (s.instance? .aes).toList.count i + (s.instance? .aesAccel).toList.count i +
      (s.instance? .vendor).toList.count i := by
  simp only [instances, Algorithm.all, List.filterMap_eq_flatMap_toList, List.flatMap_cons,
    List.flatMap_nil, List.count_append, List.count_nil]
  omega

theorem count_toList_some (i j : Nat) : (some i).toList.count j = if i = j then 1 else 0 := by
  rw [Option.toList_some, List.count_singleton]
  simp only [beq_iff_eq]

/-- An instance that is put into an empty slot is one more. -/
theorem count_instances_withInstance (hempty : s.instance? a = none) (slot : Slot) (i j : Nat) :
    (s.withInstance a slot i).instances.count j = s.instances.count j + if i = j then 1 else 0 := by
  rw [count_instances, count_instances]
  cases a <;> simp only [withInstance, hempty, if_true, reduceCtorEq, if_false, count_toList_some,
    Option.toList_none, List.count_nil] <;> omega

end SharedRegistry

/-! ## Pools -/

namespace Pool

/-- The slot of an algorithm in registry `r`. -/
def slot? (p : Pool) (r : Nat) (a : Algorithm) : Option Slot :=
  p.registries[r]?.map (·.registry.slot a)

theorem slot?_eq (hs : p.registries[r]? = some s) (a : Algorithm) :
    p.slot? r a = some (s.registry.slot a) := by
  rw [slot?, hs]
  rfl

theorem slot?_eq_some_iff {slot : Slot} :
    p.slot? r a = some slot ↔ ∃ s, p.registries[r]? = some s ∧ s.registry.slot a = slot := by
  rw [slot?, Option.map_eq_some_iff]

/-- The number of the instance in a slot of registry `r`. -/
def instance? (p : Pool) (r : Nat) (a : Algorithm) : Option Nat := p.registries[r]?.bind (·.instance? a)

theorem instance?_eq_some_iff :
    p.instance? r a = some i ↔ ∃ s, p.registries[r]? = some s ∧ s.instance? a = some i :=
  Option.bind_eq_some_iff

/-- The ciphers of all instances on record. -/
def ciphers (p : Pool) : List BlockCipher := p.instances.map (·.cipher)

/-- The instances in the slots of all registries. -/
def placed (p : Pool) : List Nat := p.registries.flatMap (·.instances)

/-- The instances that registries with a handle hold. -/
def held (p : Pool) : List Nat := p.registries.flatMap (·.held)

/-- All registries are sound, and no instance stands in two slots. -/
structure Sound (p : Pool) : Prop where
  registries : ∀ s ∈ p.registries, s.Sound p.ciphers
  apart : ∀ i, p.placed.count i ≤ 1

theorem sound_empty (instructions : Bool) : Sound (empty instructions) where
  registries _ hs := nomatch hs
  apart _ := Nat.zero_le _

theorem Sound.registry (hp : p.Sound) (hs : p.registries[r]? = some s) : s.Sound p.ciphers :=
  hp.registries s (List.mem_of_getElem? hs)

/-! ### One instance -/

/-- The pool with another number of holders of instance `i`. -/
def recount (p : Pool) (i : Nat) (f : Nat → Nat) : Pool :=
  { p with instances := p.instances.modify i fun n => { n with holders := f n.holders } }

theorem ciphers_recount (p : Pool) (i : Nat) (f : Nat → Nat) : (p.recount i f).ciphers = p.ciphers := by
  apply List.ext_getElem?
  intro j
  rw [ciphers, ciphers, recount, List.getElem?_map, List.getElem?_map, List.getElem?_modify]
  rcases p.instances[j]? with _ | n
  · rfl
  · by_cases h : i = j <;> simp [h]

theorem Sound.recount (hp : p.Sound) (i : Nat) (f : Nat → Nat) : (p.recount i f).Sound where
  registries s hs := by
    rw [ciphers_recount]
    exact hp.registries s hs
  apart := hp.apart

theorem holders_recount (p : Pool) (i j : Nat) {f : Nat → Nat} (hf : f 0 = 0 ∨ 0 < p.holders i) :
    (p.recount i f).holders j = if i = j then f (p.holders j) else p.holders j := by
  rw [holders, holders, Pool.recount, List.getElem?_modify]
  by_cases h : i = j
  · subst h
    rcases hi : p.instances[i]? with _ | n
    · rcases hf with hf | hf
      · simp [hf]
      · simp [holders, hi] at hf
    · simp
  · simp [h]

theorem holders_retain (h : 0 < p.holders i) (j : Nat) :
    (p.retain i).holders j = p.holders j + if i = j then 1 else 0 := by
  have hcount := holders_recount p i j (f := (· + 1)) (.inr h)
  rw [show p.retain i = p.recount i (· + 1) from rfl, hcount]
  split <;> rfl

theorem holders_letGo (p : Pool) (i j : Nat) :
    (p.letGo i).holders j = p.holders j - if i = j then 1 else 0 := by
  have hcount := holders_recount p i j (f := (· - 1)) (.inl rfl)
  rw [show p.letGo i = p.recount i (· - 1) from rfl, hcount]
  split <;> rfl

theorem holders_letGoAll (p : Pool) (l : List Nat) (j : Nat) :
    (l.foldl letGo p).holders j = p.holders j - l.count j := by
  induction l generalizing p with
  | nil => rfl
  | cons i l ih =>
    rw [List.foldl_cons, ih, holders_letGo, List.count_cons]
    simp only [beq_iff_eq]
    omega

theorem length_recount (p : Pool) (i : Nat) (f : Nat → Nat) :
    (p.recount i f).instances.length = p.instances.length := List.length_modify _ _ _

theorem length_letGoAll (p : Pool) (l : List Nat) :
    (l.foldl letGo p).instances.length = p.instances.length := by
  induction l generalizing p with
  | nil => rfl
  | cons i l ih => exact (ih (p.letGo i)).trans (p.length_recount i (· - 1))

theorem registries_letGoAll (p : Pool) (l : List Nat) : (l.foldl letGo p).registries = p.registries := by
  induction l generalizing p with
  | nil => rfl
  | cons i l ih => exact ih (p.letGo i)

theorem shared?_letGoAll (p : Pool) (l : List Nat) : (l.foldl letGo p).shared? = p.shared? := by
  induction l generalizing p with
  | nil => rfl
  | cons i l ih => exact ih (p.letGo i)

theorem instructions_letGoAll (p : Pool) (l : List Nat) :
    (l.foldl letGo p).instructions = p.instructions := by
  induction l generalizing p with
  | nil => rfl
  | cons i l ih => exact ih (p.letGo i)

theorem instructions_releaseRegistry (p : Pool) (r : Nat) :
    (p.releaseRegistry r).instructions = p.instructions := by
  rw [releaseRegistry]
  rcases p.registries[r]? with _ | s
  · rfl
  · simp only
    split_ifs
    · exact instructions_letGoAll _ _
    · rfl

theorem Sound.letGoAll (hp : p.Sound) (l : List Nat) : (l.foldl letGo p).Sound := by
  induction l generalizing p with
  | nil => exact hp
  | cons i l ih => exact ih (hp.recount i (· - 1))

/-- A new instance has its first holders, and no other has more of them. -/
theorem holders_append (p : Pool) (registries : List SharedRegistry) (n : Instance) (i : Nat) :
    holders { p with registries := registries, instances := p.instances ++ [n] } i =
      p.holders i + if p.instances.length = i then n.holders else 0 := by
  rw [holders, holders]
  rcases Nat.lt_trichotomy i p.instances.length with hlt | rfl | hlt
  · rw [List.getElem?_append_left hlt, if_neg (by omega), Nat.add_zero]
  · rw [List.getElem?_concat_length, List.getElem?_eq_none (Nat.le_refl _), if_pos rfl]
    exact (Nat.zero_add _).symm
  · rw [List.getElem?_eq_none (by rw [List.length_append, List.length_singleton]; omega),
      List.getElem?_eq_none (by omega), if_neg (by omega), Nat.add_zero]

/-! ### One registry -/

/-- The pool with another registry at `r`. -/
def put (p : Pool) (r : Nat) (s : SharedRegistry) : Pool := { p with registries := p.registries.set r s }

theorem lt_of_registry (hs : p.registries[r]? = some s) : r < p.registries.length :=
  (List.getElem?_eq_some_iff.mp hs).1

theorem registries_put (hs : p.registries[r]? = some s) (s' : SharedRegistry) :
    (p.put r s').registries[r]? = some s' := List.getElem?_set_self (lt_of_registry hs)

theorem registries_put_of_ne (p : Pool) {r r' : Nat} (h : r' ≠ r) (s' : SharedRegistry) :
    (p.put r s').registries[r']? = p.registries[r']? := List.getElem?_set_ne h.symm

theorem count_placed_put (hs : p.registries[r]? = some s) (s' : SharedRegistry) (i : Nat) :
    (p.put r s').placed.count i + s.instances.count i = p.placed.count i + s'.instances.count i :=
  count_flatMap_set hs s' i

theorem count_held_put (hs : p.registries[r]? = some s) (s' : SharedRegistry) (i : Nat) :
    (p.put r s').held.count i + s.held.count i = p.held.count i + s'.held.count i :=
  count_flatMap_set hs s' i

theorem handles_put (hs : p.registries[r]? = some s) (s' : SharedRegistry) (r' : Nat) :
    (p.put r s').handles r' = if r' = r then s'.handles else p.handles r' := by
  by_cases h : r' = r
  · rw [h, handles, registries_put hs, if_pos rfl]
    rfl
  · rw [handles, registries_put_of_ne p h, if_neg h]
    rfl

theorem Sound.put (hp : p.Sound) (hs : p.registries[r]? = some s) (hs' : s'.Sound p.ciphers)
    (hsame : s'.instances = s.instances) : (p.put r s').Sound where
  registries t ht := by
    rcases List.mem_or_eq_of_mem_set ht with ht | rfl
    · exact hp.registries t ht
    · exact hs'
  apart i := by
    have hcount := count_placed_put hs s' i
    have hbefore := hp.apart i
    rw [hsame] at hcount
    omega

/-! ### Handles -/

theorem retainRegistry_eq (hs : p.registries[r]? = some s) :
    p.retainRegistry r = p.put r { s with handles := s.handles + 1 } := by
  rw [retainRegistry, put, List.modify_eq_set_getElem?, hs]
  rfl

/-- A registry that keeps a handle keeps its instances. -/
theorem releaseRegistry_eq (hs : p.registries[r]? = some s) (h : s.handles ≠ 1) :
    p.releaseRegistry r = p.put r { s with handles := s.handles - 1 } := by
  simp only [releaseRegistry, hs, if_neg h]
  rw [put, List.modify_eq_set_getElem?, hs]
  rfl

/-- The last handle takes the registry's hold on its instances with it. -/
theorem releaseRegistry_eq_of_last (hs : p.registries[r]? = some s) (h : s.handles = 1) :
    p.releaseRegistry r = s.instances.foldl letGo (p.put r { s with handles := 0 }) := by
  have hput : p.put r { s with handles := 0 } =
      { p with registries := p.registries.modify r fun s => { s with handles := s.handles - 1 } } := by
    rw [put, List.modify_eq_set_getElem?, hs]
    simp [h]
  simp only [releaseRegistry, hs, if_pos h]
  rw [hput]

/-- The pool with a new registry, which is or is not the one that everybody shares. -/
def opened (p : Pool) (shared? : Option Nat) : Pool :=
  { p with
    registries := p.registries ++ [⟨.builtin p.instructions, 1, fun _ => none⟩]
    shared? := shared? }

theorem Sound.opened (hp : p.Sound) (shared? : Option Nat) : (p.opened shared?).Sound where
  registries s hs := by
    rcases List.mem_append.mp hs with hs | hs
    · exact hp.registries s hs
    · cases List.mem_singleton.mp hs
      exact SharedRegistry.sound_new _ _
  apart i := by
    have hbefore := hp.apart i
    simp only [placed, Pool.opened, List.flatMap_append, List.count_append]
    exact hbefore

theorem count_held_opened (p : Pool) (shared? : Option Nat) (i : Nat) :
    (p.opened shared?).held.count i = p.held.count i := by
  simp only [held, Pool.opened, List.flatMap_append, List.count_append]
  rfl

theorem handles_opened (p : Pool) (shared? : Option Nat) (r : Nat) :
    (p.opened shared?).handles r = if r = p.registries.length then 1 else p.handles r := by
  rw [handles, handles, Pool.opened]
  rcases Nat.lt_trichotomy r p.registries.length with hlt | rfl | hlt
  · rw [List.getElem?_append_left hlt, if_neg (by omega)]
  · rw [List.getElem?_concat_length, if_pos rfl]
    rfl
  · rw [List.getElem?_eq_none (by rw [List.length_append, List.length_singleton]; omega),
      List.getElem?_eq_none (by omega), if_neg (by omega)]

/-! ### Asking for a cipher -/

/-- What asking registry `r`, which is `s`, for a cipher comes to. -/
inductive Gets (p : Pool) (r : Nat) (s : SharedRegistry) (a : Algorithm) :
    Except GetFailure CipherRef × Pool → Prop
  /-- A reference to the instance that is there. -/
  | kept {c : BlockCipher} {i : Nat} : (s.registry.slot a).cipher? = some c → s.instance? a = some i →
      Gets p r s a (.ok ⟨i, c⟩, p.retain i)
  /-- A reference to a new instance. -/
  | built {factory : Factory} {c : BlockCipher} : s.instance? a = none →
      (s.registry.slot a).factory = some factory →
      factory (s.registry.slot a).calls a = .cipher c → vet a c = .ok () →
      Gets p r s a (.ok ⟨p.instances.length, c⟩,
        { p with
          registries := p.registries.set r (s.withInstance a ((s.registry.slot a).built c) p.instances.length)
          instances := p.instances ++ [⟨c, 2⟩] })
  /-- No cipher, now as before. -/
  | refused (e : GetFailure) : s.instance? a = none →
      Gets p r s a (.error e, p.put r (s.withSlot a (s.registry.slot a).tried))

theorem Sound.gets (hp : p.Sound) (hs : p.registries[r]? = some s) (a : Algorithm) :
    p.Gets r s a (p.get r a) := by
  have hsound := hp.registry hs
  have hgives := Slot.gives a (s.registry.slot a)
  have hget : s.registry.get a = (((s.registry.slot a).get a).1,
      s.registry.withSlot a ((s.registry.slot a).get a).2) := rfl
  rw [Pool.get, hs]
  simp only [hget]
  generalize (s.registry.slot a).get a = got at hgives
  cases hgives with
  | kept hcipher =>
    -- A cipher without an instance would not be on record.
    rcases hi : s.instance? a with _ | i
    · rw [hsound.cipher?_eq_none hi] at hcipher
      cases hcipher
    · exact .kept hcipher hi
  | built hcipher hfactory hbuilt hvet =>
    have hempty := hsound.instance?_eq_none hcipher
    simp only [hempty]
    exact .built hempty hfactory hbuilt hvet
  | refused e hcipher => exact .refused e (hsound.instance?_eq_none hcipher)

theorem length_ciphers (p : Pool) : p.ciphers.length = p.instances.length := List.length_map _

/-- An instance that is not on record stands in no slot. -/
theorem Sound.count_placed_eq_zero (hp : p.Sound) (h : p.instances.length ≤ i) : p.placed.count i = 0 := by
  rw [List.count_eq_zero, placed, List.mem_flatMap]
  rintro ⟨s, hs, hi⟩
  obtain ⟨a, ha⟩ := SharedRegistry.mem_instances.mp hi
  have hlt := (hp.registries s hs).known a i ha
  rw [length_ciphers] at hlt
  omega

theorem Sound.built (hp : p.Sound) (hs : p.registries[r]? = some s) (hempty : s.instance? a = none)
    (hvet : vet a c = .ok ()) (holders : Nat) :
    Sound { p with
      registries := p.registries.set r (s.withInstance a ((s.registry.slot a).built c) p.instances.length)
      instances := p.instances ++ [⟨c, holders⟩] } where
  registries t ht := by
    have hciphers : (p.instances ++ [Instance.mk c holders]).map (·.cipher) = p.ciphers ++ [c] :=
      List.map_append
    rw [ciphers, hciphers]
    rcases List.mem_or_eq_of_mem_set ht with ht | rfl
    · exact (hp.registries t ht).append c
    · have hsound := (hp.registry hs).withInstance hempty hvet
      rwa [length_ciphers] at hsound
  apart i := by
    have hcount := count_placed_put hs
      (s.withInstance a ((s.registry.slot a).built c) p.instances.length) i
    have hbefore := hp.apart i
    have hfresh := hp.count_placed_eq_zero (Nat.le_refl p.instances.length)
    rw [SharedRegistry.count_instances_withInstance hempty] at hcount
    show ((p.put r _).placed).count i ≤ 1
    split at hcount
    · subst i
      omega
    · omega

/-! ### Registering a constructor -/

theorem register_of_constructed (hs : p.registries[r]? = some s)
    (h : (s.registry.slot a).isConstructed = true) (factory : Factory) :
    p.register r a factory = (.error (.invalidArgument (.alreadyConstructed a)), p) := by
  simp only [Pool.register, hs, Registry.register, Slot.register, if_pos h]
  rfl

theorem register_of_empty (hs : p.registries[r]? = some s)
    (h : (s.registry.slot a).isConstructed = false) (factory : Factory) :
    p.register r a factory =
      (.ok (), p.put r (s.withSlot a ((s.registry.slot a).registered factory))) := by
  have hempty : ¬ (s.registry.slot a).isConstructed = true := by
    rw [h]
    exact Bool.false_ne_true
  simp only [Pool.register, hs, Registry.register, Slot.register, if_neg hempty]
  rfl

end Pool

end Coffer.Cipher
