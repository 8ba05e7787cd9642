import Coffer.Cipher.Context
import Coffer.Cipher.Registry
/-
  Shared registries and the lifetime of ciphers.

  A `Pool` holds every registry and every cipher instance that was ever made, each with the number
  of its holders.  A registry is held by its handles; an instance is held by the registry that built
  it, by each reference handed out and by each context bound to it.  The counts are kept by the
  operations themselves:

  * `newRegistry`, `shared`, `retainRegistry`, `releaseRegistry` — handles.  When the last handle
    of a registry goes, the registry lets go of each of its instances once;
  * `get`             — hands out a reference to a slot's instance;
  * `retain`, `letGo` — one more holder of an instance, one less.

  The registry that `shared` names lives as long as it has a handle; after that the next `shared`
  makes a new one.
-/
namespace Coffer.Cipher

/-- A cipher that was built, and how many hold it; none do once it is gone. -/
structure Instance where
  cipher : BlockCipher
  holders : Nat

/-- A registry with its handles and the instance in each slot. -/
structure SharedRegistry where
  registry : Registry
  handles : Nat
  /-- The number of the instance a slot holds. -/
  instance? : Algorithm → Option Nat

/-- The instances in the slots of a registry. -/
def SharedRegistry.instances (s : SharedRegistry) : List Nat := Algorithm.all.filterMap s.instance?

/-- A reference to an instance: its number and the cipher it is. -/
structure CipherRef where
  number : Nat
  cipher : BlockCipher

/-- All registries and instances, each known by its place. -/
structure Pool where
  registries : List SharedRegistry
  instances : List Instance
  /-- The registry that was last made for everybody. -/
  shared? : Option Nat
  /-- The processor has instructions for AES. -/
  instructions : Bool

namespace Pool

/-- Nothing made yet. -/
def empty (instructions : Bool := true) : Pool := ⟨[], [], none, instructions⟩

/-! ## Holders of an instance -/

/-- One more holder of instance `i`. -/
def retain (p : Pool) (i : Nat) : Pool :=
  { p with instances := p.instances.modify i fun n => { n with holders := n.holders + 1 } }

/-- One holder less of instance `i`. -/
def letGo (p : Pool) (i : Nat) : Pool :=
  { p with instances := p.instances.modify i fun n => { n with holders := n.holders - 1 } }

/-- The number of holders of instance `i`. -/
def holders (p : Pool) (i : Nat) : Nat := (p.instances[i]?.map (·.holders)).getD 0

/-! ## Registries -/

/-- A registry of its own, with one handle. -/
def newRegistry (p : Pool) : Nat × Pool :=
  (p.registries.length,
    { p with registries := p.registries ++ [⟨.builtin p.instructions, 1, fun _ => none⟩] })

/-- One more handle to registry `r`. -/
def retainRegistry (p : Pool) (r : Nat) : Pool :=
  { p with registries := p.registries.modify r fun s => { s with handles := s.handles + 1 } }

/-- The number of handles to registry `r`. -/
def handles (p : Pool) (r : Nat) : Nat := (p.registries[r]?.map (·.handles)).getD 0

/-- A handle to the registry everybody shares. -/
def shared (p : Pool) : Nat × Pool :=
  match p.shared? with
  | some r => if 0 < p.handles r then (r, p.retainRegistry r) else renew
  | none => renew
where
  renew : Nat × Pool :=
    let (r, p') := p.newRegistry
    (r, { p' with shared? := some r })

/-- One handle less to registry `r`; with the last one its instances are let go. -/
def releaseRegistry (p : Pool) (r : Nat) : Pool :=
  let p' := { p with
    registries := p.registries.modify r fun s => { s with handles := s.handles - 1 } }
  match p.registries[r]? with
  | some s => if s.handles = 1 then s.instances.foldl letGo p' else p'
  | none => p'

/-- Register a constructor with registry `r`. -/
def register (p : Pool) (r : Nat) (a : Algorithm) (factory : Factory) :
    Except CipherError Unit × Pool :=
  match p.registries[r]? with
  | none => (.ok (), p)
  | some s =>
    match s.registry.register a factory with
    | .error e => (.error e, p)
    | .ok registry =>
      (.ok (), { p with registries := p.registries.set r { s with registry := registry } })

/-- A reference to the cipher of an algorithm in registry `r`.  A registry that was never made has
    no constructors. -/
def get (p : Pool) (r : Nat) (a : Algorithm) : Except GetFailure CipherRef × Pool :=
  match p.registries[r]? with
  | none => (.error (.failed (.constructionFailed a .unregistered)), p)
  | some s =>
    match s.registry.get a, s.instance? a with
    | (.error e, registry), _ =>
      (.error e, { p with registries := p.registries.set r { s with registry := registry } })
    | (.ok c, _), some i => (.ok ⟨i, c⟩, p.retain i)
    | (.ok c, registry), none =>
      let i := p.instances.length
      let s' : SharedRegistry := { s with
        registry := registry
        instance? := fun b => if b = a then some i else s.instance? b }
      (.ok ⟨i, c⟩,
        { p with registries := p.registries.set r s', instances := p.instances ++ [⟨c, 2⟩] })

/-- The number of holders of the cipher in a slot of registry `r`; none for an empty slot. -/
def slotHolders (p : Pool) (r : Nat) (a : Algorithm) : Nat :=
  ((p.registries[r]?.bind (·.instance? a)).map p.holders).getD 0

/-- A context bound to the instance of a reference, which it holds from then on. -/
def bind (p : Pool) (ref : CipherRef) (name : String) : Except CipherError Context × Pool :=
  match Context.bind ref.cipher name with
  | .error e => (.error e, p)
  | .ok ctx => (.ok ctx, p.retain ref.number)

/-- A fork of a context on instance `i`, which holds the instance too. -/
def fork (p : Pool) (i : Nat) (ctx : Context) : Except CipherError Context × Pool :=
  match ctx.fork with
  | .error e => (.error e, p)
  | .ok forked => (.ok forked, p.retain i)

end Pool

end Coffer.Cipher
