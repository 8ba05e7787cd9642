import Coffer.Text.Split
/-
  Command lines.

  A `Form` says what a command takes: options, and then either operands or one of several commands
  below it.  Options stand before what follows them:

      --name VALUE     --name=VALUE     -n VALUE     -nVALUE     -n=VALUE

  The argument `--` ends the options, so that everything behind it is an operand.  An option may be
  given once.  One that is left out is taken from its environment variable.

  `Form.read` reads a whole command line.  It gives what was given, or why nothing is to be done:
  the line does not have the form, or it asks for help, or for the version, which only the outermost
  command tells.
-/
namespace Coffer.Command

/-! ## Forms -/

/-- What a value may be. -/
inductive ValueKind
  | text
  /-- A text that is not empty. -/
  | path
  | oneOf (names : List String)
  deriving DecidableEq, Repr

/-- Whether a text is a value of a kind. -/
def ValueKind.accepts : ValueKind → String → Bool
  | text, _ => true
  | path, s => !s.isEmpty
  | oneOf names, s => names.contains s

/-- An option. -/
structure OptionForm where
  name : String
  /-- Its short name. -/
  letter : Option Char
  kind : ValueKind
  /-- The environment variable that stands in for it. -/
  fallback : Option String
  deriving DecidableEq, Repr

/-- What a command takes. -/
inductive Form
  | operands (options : List OptionForm) (kinds : List ValueKind)
  | commands (options : List OptionForm) (below : List (String × Form))

namespace Form

/-- The options of a command. -/
def options : Form → List OptionForm
  | operands options _ => options
  | commands options _ => options

/-- The operands of a command. -/
def kinds : Form → List ValueKind
  | operands _ kinds => kinds
  | commands _ _ => []

/-- Whether commands stand below a command. -/
def isGroup : Form → Bool
  | operands _ _ => false
  | commands _ _ => true

/-- The command of a name below a command. -/
def below? (f : Form) (name : String) : Option Form :=
  match f with
  | operands _ _ => none
  | commands _ below => below.lookup name

/-- Whether there is help about a path of commands; about `help` itself, too. -/
def describes (f : Form) : List String → Bool
  | [] => true
  | name :: rest =>
    match f.below? name with
    | some g => g.describes rest
    | none => f.isGroup && name == "help" && rest.isEmpty

end Form

/-! ## What was given -/

/-- What a command line gives. -/
structure Given where
  /-- The commands it names, from the outermost inwards. -/
  commands : List String
  /-- Options by name. -/
  options : List (String × String)
  operands : List String
  deriving DecidableEq, Repr

/-- The value of an option. -/
def Given.option? (g : Given) (name : String) : Option String := g.options.lookup name

/-- Why a command line is not carried out. -/
inductive Refusal
  /-- It does not have the form. -/
  | usage
  | help
  | version
  deriving DecidableEq, Repr

/-! ## Reading -/

/-- What has been read of one command. -/
structure Progress where
  options : List (String × String)
  operands : List String
  /-- An option that waits for its value. -/
  waiting : Option OptionForm
  /-- Only operands follow. -/
  plain : Bool

namespace Progress

/-- Nothing has been read. -/
def start : Progress := ⟨[], [], none, false⟩

/-- Take the value of an option. -/
def give (s : Progress) (o : OptionForm) (value : String) : Except Refusal Progress :=
  if o.kind.accepts value ∧ s.options.lookup o.name = none then
    .ok { s with options := s.options ++ [(o.name, value)], waiting := none }
  else .error .usage

/-- Take an operand. -/
def operand (s : Progress) (f : Form) (value : String) : Except Refusal Progress :=
  match f.kinds[s.operands.length]? with
  | some kind =>
    if kind.accepts value then .ok { s with operands := s.operands ++ [value] } else .error .usage
  | none => .error .usage

/-- Take an option that is named by its long name, with the value behind `=` if there is one. -/
def long (s : Progress) (f : Form) (top : Bool) (cs : List Char) : Except Refusal Progress :=
  let (name, value) := match Text.splitOnce '=' cs with
    | some (name, value) => (String.ofList name, some (String.ofList value))
    | none => (String.ofList cs, none)
  match f.options.find? (·.name == name), value with
  | some o, some value => s.give o value
  | some o, none => .ok { s with waiting := some o }
  | none, some _ => .error .usage
  | none, none =>
    if name = "help" then .error .help
    else if top ∧ name = "version" then .error .version
    else .error .usage

/-- Take an option that is named by a letter, with the value that follows it at once, if there is
    one. -/
def short (s : Progress) (f : Form) (top : Bool) (letter : Char) (more : List Char) :
    Except Refusal Progress :=
  match f.options.find? (·.letter == some letter), more with
  | some o, [] => .ok { s with waiting := some o }
  | some o, '=' :: value => s.give o (String.ofList value)
  | some o, value => s.give o (String.ofList value)
  | none, _ =>
    if letter = 'h' then .error .help
    else if top ∧ letter = 'V' then .error .version
    else .error .usage

/-- Take an argument that names no command. -/
def take (s : Progress) (f : Form) (top : Bool) (arg : String) : Except Refusal Progress :=
  match s.waiting, s.plain, arg.toList with
  | some _, _, '-' :: _ :: _ => .error .usage
  | some o, _, _ => s.give o arg
  | none, true, _ => s.operand f arg
  | none, false, ['-', '-'] => .ok { s with plain := true }
  | none, false, '-' :: '-' :: cs => s.long f top cs
  | none, false, '-' :: letter :: more => s.short f top letter more
  | none, false, _ => s.operand f arg

/-- The options with those that only the environment gives. -/
def fill (s : Progress) (env : String → Option String) :
    List OptionForm → Except Refusal (List (String × String))
  | [] => .ok s.options
  | o :: rest => do
    let options ← s.fill env rest
    match s.options.lookup o.name, o.fallback.bind env with
    | none, some value =>
      if o.kind.accepts value then .ok ((o.name, value) :: options) else .error .usage
    | _, _ => .ok options

/-- Whether a command may stand at this place. -/
def mayDescend (s : Progress) : Bool := s.waiting.isNone && !s.plain

end Progress

namespace Form

/-- Read the rest of a command's arguments. -/
def readFrom (f : Form) (top : Bool) (env : String → Option String) (s : Progress) :
    List String → Except Refusal Given
  | [] => do
    if s.waiting.isSome || f.isGroup || s.operands.length < f.kinds.length then throw .usage
    return ⟨[], ← s.fill env f.options, s.operands⟩
  | arg :: rest =>
    match if s.mayDescend then f.below? arg else none with
    | some g => do
      let below ← g.readFrom false env .start rest
      let options ← s.fill env f.options
      return ⟨arg :: below.commands, options ++ below.options, below.operands⟩
    | none =>
      if s.mayDescend && f.isGroup && arg == "help" then
        .error (if f.describes rest then .help else .usage)
      else do
        let s ← s.take f top arg
        f.readFrom top env s rest

/-- Read a command line, given the environment's variables. -/
def read (f : Form) (env : String → Option String) (args : List String) : Except Refusal Given :=
  f.readFrom true env .start args

end Form

end Coffer.Command
