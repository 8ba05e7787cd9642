import Coffer.Resource.Error
import Coffer.Text.Blank
import Coffer.Text.Percent
import Coffer.Text.Split
/-
  Resource paths.

      scheme:[//host]path[?name=value&flag&...]

  A text without a scheme is a path of the scheme `file`; a scheme has at least two characters, for
  a single letter before a colon is a drive.  Host, path, names and values are written with percent
  escapes.  `ResourcePath.parse` reads such a text and `ResourcePath.text` writes one.

  Everything else sees a resource only as a `Handle`: its scheme, its path and its parameters.
-/
namespace Coffer.Resource

open Text (splitOnce splitOn)

/-! ## Handles -/

/-- What opening a resource depends on. -/
structure Handle where
  scheme : String
  path : String
  /-- The value of a parameter; a bare flag has the empty one. -/
  param : String → Option String

/-- The value of the first parameter of a name. -/
def firstParam (params : List (String × String)) (name : String) : Option String :=
  (params.find? (·.1 == name)).map (·.2)

/-! ## Paths and their parts -/

/-- A resource path, its parts unescaped. -/
structure ResourcePath where
  scheme : String
  host : Option String
  path : String
  /-- Names are distinct; the order is that of first mention. -/
  params : List (String × String)
  deriving DecidableEq, Repr

namespace ResourcePath

/-- A path without host and parameters. -/
def new (scheme path : String) : ResourcePath := ⟨Text.lower scheme, none, path, []⟩

/-- The path with a host. -/
def withHost (r : ResourcePath) (host : String) : ResourcePath := { r with host := some host }

/-- A list of parameters with `name` set: in its place when it is there, else at the end. -/
def setParam (name value : String) : List (String × String) → List (String × String)
  | [] => [(name, value)]
  | p :: rest => if p.1 = name then (name, value) :: rest else p :: setParam name value rest

/-- The path with a parameter set. -/
def withParam (r : ResourcePath) (name value : String) : ResourcePath :=
  { r with params := setParam name value r.params }

/-- The value of a parameter. -/
def param (r : ResourcePath) (name : String) : Option String := firstParam r.params name

/-- The path as a handle. -/
def handle (r : ResourcePath) : Handle := ⟨r.scheme, r.path, r.param⟩

/-! ## Writing -/

/-- A parameter as it is written. -/
def paramText (p : String × String) : String :=
  Text.Percent.encode p.1 ++ if p.2.isEmpty then "" else "=" ++ Text.Percent.encode p.2

/-- The text of a path. -/
def text (r : ResourcePath) : String :=
  r.scheme ++ ":" ++
    (match r.host with | some h => "//" ++ Text.Percent.encode h | none => "") ++
    Text.Percent.encode r.path ++
    (if r.params.isEmpty then "" else "?" ++ "&".intercalate (r.params.map paramText))

/-! ## Reading -/

/-- Why a text is no resource path. -/
inductive Fault
  | empty
  | noPath
  | namelessParam
  | escape (fault : Text.Percent.Fault)
  deriving DecidableEq, Repr

/-- The text of a fault. -/
def Fault.message : Fault → String
  | empty => "empty"
  | noPath => "no path"
  | namelessParam => "parameter without a name"
  | escape fault => fault.message

/-- Whether `c` may stand in a scheme after the first character. -/
def isSchemeChar (c : Char) : Bool :=
  Text.isLetter c || Text.isDigit c || c == '+' || c == '-' || c == '.'

/-- Whether `cs` is a scheme. -/
def isScheme : List Char → Bool
  | first :: second :: rest => Text.isLetter first && (second :: rest).all isSchemeChar
  | _ => false

/-- The scheme and the rest of a text; without a scheme it is `file` and the whole text. -/
def splitScheme (cs : List Char) : String × List Char :=
  match splitOnce ':' cs with
  | some (scheme, rest) =>
    if isScheme scheme then (Text.lower (String.ofList scheme), rest) else ("file", cs)
  | none => ("file", cs)

/-- The host and the path of a locator, still escaped.  An empty host is none. -/
def splitHost : List Char → Option (List Char) × List Char
  | '/' :: '/' :: authority =>
    let host := authority.takeWhile (· != '/')
    (if host.isEmpty then none else some host, authority.dropWhile (· != '/'))
  | locator => (none, locator)

/-- Unescape a part. -/
def unescape (cs : List Char) : Except Fault String :=
  match Text.Percent.decode (String.ofList cs) with
  | .ok s => .ok s
  | .error fault => .error (.escape fault)

/-- The name and the value of one parameter. -/
def readParam (piece : List Char) : Except Fault (String × String) := do
  let (name, value) := (splitOnce '=' piece).getD (piece, [])
  let name ← unescape name
  let value ← unescape value
  if name.isEmpty then throw .namelessParam
  return (name, value)

/-- Set the parameters of a query one after the other; empty pieces mean nothing. -/
def readParams (r : ResourcePath) (query : List Char) : Except Fault ResourcePath :=
  ((splitOn '&' query).filter (!·.isEmpty)).foldlM
    (fun r piece => do
      let (name, value) ← readParam piece
      return r.withParam name value) r

/-- The path that the characters of a trimmed text spell. -/
def read (raw : List Char) : Except Fault ResourcePath := do
  if raw.isEmpty then throw .empty
  let (scheme, rest) := splitScheme raw
  let (locator, query) := (splitOnce '?' rest).getD (rest, [])
  let (host, path) := splitHost locator
  let host ← match host with
    | some h => some <$> unescape h
    | none => pure none
  let path ← unescape path
  if path.isEmpty && host.isNone then throw .noPath
  readParams ⟨scheme, host, path, []⟩ query

/-- The path that a text spells; blanks around it do not count. -/
def parse (input : String) : Except ResolveError ResourcePath :=
  let raw := Text.trim input
  match read raw.toList with
  | .ok r => .ok r
  | .error fault => .error (.invalidPath raw fault.message)

end ResourcePath

end Coffer.Resource
