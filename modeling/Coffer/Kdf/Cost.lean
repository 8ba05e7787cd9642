/-
  The cost of a key derivation.

  A `Cost` is the three numbers an Argon2id derivation is asked for: memory in KiB, passes over it
  and lanes.  `Cost.fault?` says which costs the function itself refuses, and why; the first fault
  in the order memory, passes, lanes is the one reported.
-/
namespace Coffer.Kdf

/-- What an Argon2id derivation may spend. -/
structure Cost where
  /-- Memory in KiB. -/
  memory : UInt32
  /-- Passes over the memory. -/
  passes : UInt32
  /-- Lanes the memory is split into. -/
  lanes : UInt32
  deriving DecidableEq, Repr, Inhabited

namespace Cost

/-- The cost used where nobody names one: 64 MiB, three passes, four lanes. -/
def standard : Cost := ⟨65536, 3, 4⟩

/-- Why Argon2id refuses a cost. -/
inductive Fault
  | memoryTooSmall
  | timeTooSmall
  | tooFewLanes
  | tooManyLanes
  deriving DecidableEq, Repr

/-- The text of a fault. -/
def Fault.message : Fault → String
  | memoryTooSmall => "memory cost is too small"
  | timeTooSmall => "time cost is too small"
  | tooFewLanes => "not enough threads"
  | tooManyLanes => "too many threads"

/-- The fault of a cost, if it has one.  A lane needs 8 KiB; the product is a 32-bit word, so a
    huge lane count passes this test and is refused by the last one. -/
def fault? (c : Cost) : Option Fault :=
  if c.memory < 8 then some .memoryTooSmall
  else if c.memory < c.lanes * 8 then some .memoryTooSmall
  else if c.passes < 1 then some .timeTooSmall
  else if c.lanes < 1 then some .tooFewLanes
  else if 0xFFFFFF < c.lanes then some .tooManyLanes
  else none

end Cost

end Coffer.Kdf
