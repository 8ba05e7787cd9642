import Coffer.Bytes
import Coffer.Command.Arguments
import Coffer.Config
import Coffer.Resource.Error
/-
  What a command leaves behind.

  A command ends with an `Outcome`: its exit code, what it printed, and a `Report` if it failed.  A
  report says what was being done and why that failed, the nearest cause first:

      Error: opening vfile:/srv/notes?enc

      Caused by:
          0: secret: no secret configured at 'default'
          1: no secret configured at 'default'

  A single cause has no number.
-/
namespace Coffer

/-! ## Causes -/

/-- A failure and what caused it. -/
def Keyring.SecretError.causes (e : Keyring.SecretError) : List String :=
  e.message :: match e with
    | .io inner => [inner.message]
    | _ => []

/-- A failure and what caused it. -/
def Resource.ResolveError.causes (e : Resource.ResolveError) : List String :=
  e.message :: match e with
    | .secret inner => inner.causes
    | .cipher inner => [inner.message]
    | .io inner => [inner.message]
    | _ => []

namespace Command

/-! ## Reports -/

/-- A failure as it is told. -/
structure Report where
  /-- What was being done. -/
  doing : String
  /-- Why it failed, the nearest cause first. -/
  causes : List String
  deriving DecidableEq, Repr

/-- A text whose lines but the first are moved to the right. -/
def indent (blanks : Nat) (s : String) : String :=
  ("\n" ++ String.ofList (List.replicate blanks ' ')).intercalate
    ((Text.splitOn '\n' s.toList).map String.ofList)

/-- A text moved to the right so far that it ends in a column. -/
def alignRight (width : Nat) (s : String) : String :=
  String.ofList (List.replicate (width - s.length) ' ') ++ s

/-- A text with blanks behind it up to a column. -/
def alignLeft (width : Nat) (s : String) : String :=
  s ++ String.ofList (List.replicate (width - s.length) ' ')

namespace Report

/-- The causes of a report as they are told. -/
def causeText : List String → String
  | [] => ""
  | [cause] => s!"\n\nCaused by:\n    {indent 4 cause}"
  | causes =>
    "\n\nCaused by:" ++ String.join (causes.zipIdx.map fun (cause, n) =>
      s!"\n{alignRight 5 (toString n)}: {indent 7 cause}")

/-- The text of a report. -/
def text (r : Report) : String := s!"Error: {r.doing}{causeText r.causes}\n"

/-- A failed command on a resource. -/
def ofResolve (doing : String) (e : Resource.ResolveError) : Report := ⟨doing, e.causes⟩

/-- A failed request to the holder of secrets. -/
def ofSecret (doing : String) (e : Keyring.SecretError) : Report := ⟨doing, e.causes⟩

/-- Failed input or output. -/
def ofIo (doing : String) (e : IoError) : Report := ⟨doing, [e.message]⟩

/-- A configuration that cannot be used. -/
def ofFault (f : Config.Fault) : Report := ⟨f.message, []⟩

end Report

/-! ## Outcomes -/

/-- How a command ended. -/
structure Outcome where
  code : Nat
  printed : Bytes
  report : Option Report
  deriving DecidableEq, Repr

namespace Outcome

/-- Success, with what was printed. -/
def success (text : String) : Outcome := ⟨0, utf8 text, none⟩

/-- Failure, with nothing printed. -/
def failure (r : Report) : Outcome := ⟨1, [], some r⟩

/-- The program has stopped short, and tells nothing that is a report. -/
def stopped : Outcome := ⟨101, [], none⟩

/-- A failed request to the holder of secrets. -/
def ofSecret (doing : String) : Keyring.SecretError → Outcome
  | .overflowed => .stopped
  | e => .failure (.ofSecret doing e)

/-- A failed command on a resource. -/
def ofResolve (doing : String) : Resource.ResolveError → Outcome
  | .secret .overflowed => .stopped
  | e => .failure (.ofResolve doing e)

/-- A command line that is not carried out; `title` names the program and its version. -/
def ofRefusal (title : String) : Refusal → Outcome
  | .usage => ⟨2, [], none⟩
  | .help => ⟨0, [], none⟩
  | .version => .success s!"{title}\n"

end Outcome

end Command

end Coffer
