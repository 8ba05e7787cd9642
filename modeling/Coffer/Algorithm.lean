import Coffer.Text.Blank
/-
  Cipher algorithms and the direction of a cipher operation.

  An `Algorithm` names one slot of a cipher registry.  Its `index` is the number of that slot and
  also the tag byte of a container, so the order of the three is fixed for ever; `ofIndex?_index`
  and `index_of_ofIndex?` say that the numbering loses nothing.
-/
namespace Coffer

/-! ## Algorithms -/

/-- The block cipher algorithms a container can be written with. -/
inductive Algorithm
  /-- AES in plain arithmetic; works on every machine. -/
  | aes
  /-- AES on the instructions of the processor. -/
  | aesAccel
  /-- A slot for a backend from outside. -/
  | vendor
  deriving DecidableEq, Repr, Inhabited

namespace Algorithm

/-- Every algorithm, in slot order. -/
def all : List Algorithm := [aes, aesAccel, vendor]

/-- The slot of an algorithm, which is also its tag byte in a container. -/
def index : Algorithm → Nat
  | aes => 0
  | aesAccel => 1
  | vendor => 2

/-- The algorithm in slot `i`. -/
def ofIndex? (i : Nat) : Option Algorithm := all[i]?

@[simp] theorem ofIndex?_index (a : Algorithm) : ofIndex? a.index = some a := by
  cases a <;> rfl

theorem index_of_ofIndex? {i : Nat} {a : Algorithm} (h : ofIndex? i = some a) : a.index = i := by
  match i with
  | 0 | 1 | 2 => simp [ofIndex?, all] at h; subst h; rfl
  | _ + 3 => simp [ofIndex?, all] at h

theorem index_lt (a : Algorithm) : a.index < 3 := by cases a <;> decide

/-- Every number below three is a slot. -/
theorem exists_of_lt {i : Nat} (h : i < 3) : ∃ a, ofIndex? i = some a := by
  match i, h with
  | 0, _ => exact ⟨aes, rfl⟩
  | 1, _ => exact ⟨aesAccel, rfl⟩
  | 2, _ => exact ⟨vendor, rfl⟩

/-- The name an algorithm is written with. -/
def name : Algorithm → String
  | aes => "aes"
  | aesAccel => "aes-accel"
  | vendor => "vendor"

/-- The name of an algorithm in a diagnostic rendering. -/
def debug : Algorithm → String
  | aes => "Aes"
  | aesAccel => "AesAccel"
  | vendor => "Vendor"

/-- The algorithm written exactly `s`; the spelling of configuration files. -/
def ofName? (s : String) : Option Algorithm := all.find? (·.name == s)

/-- A name that no algorithm has, trimmed and in lower case. -/
structure Unknown where
  name : String
  deriving DecidableEq, Repr

/-- The text of the failure. -/
def Unknown.message (u : Unknown) : String := s!"unknown algorithm: {u.name}"

/-- The algorithm that a user names with `s`: blanks around it and letter case do not count, and
    the accelerated one has two more names. -/
def parse (s : String) : Except Unknown Algorithm :=
  match Text.lower (Text.trim s) with
  | "aes" => .ok aes
  | "aes-accel" | "aesni" | "aes-ni" => .ok aesAccel
  | "vendor" => .ok vendor
  | other => .error ⟨other⟩

end Algorithm

/-! ## Directions -/

/-- The direction of a cipher operation. -/
inductive Direction
  | encrypt
  | decrypt
  deriving DecidableEq, Repr, Inhabited

namespace Direction

/-- The name a direction is written with. -/
def name : Direction → String
  | encrypt => "encrypt"
  | decrypt => "decrypt"

/-- The name of a direction in a diagnostic rendering. -/
def debug : Direction → String
  | encrypt => "Encrypt"
  | decrypt => "Decrypt"

/-- The other direction. -/
def flip : Direction → Direction
  | encrypt => decrypt
  | decrypt => encrypt

end Direction

end Coffer
