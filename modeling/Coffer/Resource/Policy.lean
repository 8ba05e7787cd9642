import Coffer.Resource.Path
/-
  Which resources are encrypted, and how.

  A `file` is always taken as it is.  The other schemes are encrypted when a flag says so: `enc`, or
  `encrypted` when there is no `enc`.  `pwfile` names the secret and `cipher` the algorithm; either
  of them without a flag is refused, for it is not clear what was meant.
-/
namespace Coffer.Resource

/-- How a scheme treats the parameters of encryption. -/
inductive SchemeKind
  /-- They mean nothing. -/
  | plain
  /-- They are honoured. -/
  | parameterized
  deriving DecidableEq, Repr

/-- The kind of a scheme. -/
def SchemeKind.of (scheme : String) : Except ResolveError SchemeKind :=
  if scheme = "file" then .ok .plain
  else if scheme = "vfile" ∨ scheme = "acc" ∨ scheme = "http" ∨ scheme = "https" then
    .ok .parameterized
  else .error (.unsupportedScheme scheme)

/-- How one resource is encrypted. -/
structure EncryptionParams where
  /-- The algorithm the resource names. -/
  algorithm : Option Algorithm
  /-- The secret the resource names. -/
  location : Option String
  deriving DecidableEq, Repr

/-- The truth value of a flag, in any letter case; a bare flag is true. -/
def flagValue (name value : String) : Except ResolveError Bool :=
  match Text.lower value with
  | "" | "1" | "true" | "yes" => .ok true
  | "0" | "false" | "no" => .ok false
  | other => .error (.invalidParameter name s!"expected a boolean, got '{other}'")

/-- The flag that decides: its name and its value. -/
def Handle.flag? (h : Handle) : Option (String × String) :=
  match h.param "enc", h.param "encrypted" with
  | some v, _ => some ("enc", v)
  | none, some v => some ("encrypted", v)
  | none, none => none

/-- How a resource is encrypted; `none` when it is not. -/
def Handle.encryption (h : Handle) : Except ResolveError (Option EncryptionParams) := do
  if (← SchemeKind.of h.scheme) = .plain then return none
  let encrypted ← match h.flag? with
    | some (name, value) => flagValue name value
    | none => pure false
  let location := h.param "pwfile"
  let cipher := h.param "cipher"
  if !encrypted then
    if h.flag?.isNone ∧ (location.isSome ∨ cipher.isSome) then
      let name := if location.isSome then "pwfile" else "cipher"
      throw (.invalidParameter name "given without 'enc'")
    return none
  let algorithm ← match cipher with
    | none => pure none
    | some name => match Algorithm.parse name with
      | .ok a => pure (some a)
      | .error _ => throw (.invalidParameter "cipher" s!"unknown algorithm '{name}'")
  if location = some "" then throw (.invalidParameter "pwfile" "empty secret location")
  return some ⟨algorithm, location⟩

end Coffer.Resource
