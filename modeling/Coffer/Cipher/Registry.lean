import Coffer.Cipher.Aes
/-
  A registry of cipher backends.

  A `Registry` has one `Slot` for each algorithm.  A slot builds its cipher at the first request,
  with the constructor registered for it, and keeps it from then on.  `Slot.get` is the whole rule:

  1. a cipher that is there is handed out, and nothing changes;
  2. otherwise the constructor is called, and what it built is kept if `vet` finds nothing wrong;
  3. a failed or crashed construction leaves the slot without a cipher, so a later request tries
     again.  Only the number of calls made remembers it.

  Constructors may behave differently from call to call; a `Factory` is therefore a function of the
  number of calls made before.
-/
namespace Coffer.Cipher

/-! ## Constructors -/

/-- What calling a constructor comes to. -/
inductive Built
  | cipher (c : BlockCipher)
  | failed (e : CipherError)
  /-- The constructor did not return. -/
  | crashed

/-- A constructor: what it gives at its `call`-th call, counted from 0. -/
abbrev Factory := (call : Nat) → Algorithm → Built

/-- Why a registry hands out no cipher. -/
inductive GetFailure
  | failed (e : CipherError)
  | crashed
  deriving DecidableEq, Repr

/-- The constructor an algorithm has from the start, on a processor with `instructions` for AES or
    without; the vendor slot has none. -/
def builtinFactory (instructions : Bool) : Algorithm → Option Factory
  | .aes => some fun _ _ => .cipher Aes.portable
  | .aesAccel => some fun _ _ =>
    if instructions then .cipher Aes.accelerated
    else .failed (.constructionFailed .aesAccel .noInstructions)
  | .vendor => none

/-! ## Slots -/

/-- The state of one algorithm's slot. -/
structure Slot where
  factory : Option Factory
  /-- Calls made to the present constructor. -/
  calls : Nat
  cipher? : Option BlockCipher
  /-- How often a cipher was built and kept. -/
  constructions : Nat

/-- Whether a built cipher may serve an algorithm: it speaks this contract, implements that
    algorithm and has sizes that are not zero. -/
def vet (algorithm : Algorithm) (c : BlockCipher) : Except CipherError Unit := do
  ensureSupported c
  if c.algorithm ≠ algorithm then
    throw (.constructionFailed algorithm (.implementsOther c.name c.algorithm))
  if c.blockSize = 0 ∨ c.keySize = 0 then throw (.constructionFailed algorithm (.zeroSize c.name))

namespace Slot

/-- A slot that has built nothing. -/
def fresh (factory : Option Factory) : Slot := ⟨factory, 0, none, 0⟩

/-- Whether the slot holds a cipher. -/
def isConstructed (s : Slot) : Bool := s.cipher?.isSome

/-- Put another constructor into a slot that holds no cipher. -/
def register (algorithm : Algorithm) (factory : Factory) (s : Slot) : Except CipherError Slot :=
  if s.isConstructed then .error (.invalidArgument (.alreadyConstructed algorithm))
  else .ok { s with factory := some factory, calls := 0 }

/-- The cipher of a slot, built at the first request. -/
def get (algorithm : Algorithm) (s : Slot) : Except GetFailure BlockCipher × Slot :=
  match s.cipher? with
  | some c => (.ok c, s)
  | none =>
    match s.factory with
    | none => (.error (.failed (.constructionFailed algorithm .unregistered)), s)
    | some factory =>
      let called := { s with calls := s.calls + 1 }
      match factory s.calls algorithm with
      | .crashed => (.error .crashed, called)
      | .failed e => (.error (.failed e), called)
      | .cipher c =>
        match vet algorithm c with
        | .error e => (.error (.failed e), called)
        | .ok () =>
          (.ok c, { called with cipher? := some c, constructions := s.constructions + 1 })

end Slot

/-! ## Registries -/

/-- One slot for each algorithm. -/
structure Registry where
  aes : Slot
  aesAccel : Slot
  vendor : Slot

namespace Registry

/-- A registry with the built-in constructors. -/
def builtin (instructions : Bool := true) : Registry :=
  ⟨.fresh (builtinFactory instructions .aes), .fresh (builtinFactory instructions .aesAccel),
    .fresh (builtinFactory instructions .vendor)⟩

/-- The slot of an algorithm. -/
def slot (r : Registry) : Algorithm → Slot
  | .aes => r.aes
  | .aesAccel => r.aesAccel
  | .vendor => r.vendor

/-- The registry with another slot for an algorithm. -/
def withSlot (r : Registry) (a : Algorithm) (s : Slot) : Registry :=
  match a with
  | .aes => { r with aes := s }
  | .aesAccel => { r with aesAccel := s }
  | .vendor => { r with vendor := s }

@[simp] theorem slot_withSlot (r : Registry) (a : Algorithm) (s : Slot) :
    (r.withSlot a s).slot a = s := by cases a <;> rfl

theorem slot_withSlot_of_ne (r : Registry) {a b : Algorithm} (s : Slot) (h : b ≠ a) :
    (r.withSlot a s).slot b = r.slot b := by
  cases a <;> cases b <;> first | rfl | exact absurd rfl h

/-- Register a constructor for an algorithm. -/
def register (r : Registry) (a : Algorithm) (factory : Factory) : Except CipherError Registry :=
  (r.slot a |>.register a factory).map (r.withSlot a)

/-- The cipher of an algorithm, built at the first request. -/
def get (r : Registry) (a : Algorithm) : Except GetFailure BlockCipher × Registry :=
  let (got, s) := (r.slot a).get a
  (got, r.withSlot a s)

/-- The algorithms whose slot holds a cipher, in slot order. -/
def constructed (r : Registry) : List Algorithm :=
  Algorithm.all.filter fun a => (r.slot a).isConstructed

/-- The diagnostic rendering of a registry that `handles` holders share. -/
def debug (r : Registry) (handles : Nat) : String :=
  Text.record "CipherRegistry"
    [("handles", toString handles),
     ("constructed", "[" ++ ", ".intercalate (r.constructed.map (·.debug)) ++ "]")]

end Registry

end Coffer.Cipher
