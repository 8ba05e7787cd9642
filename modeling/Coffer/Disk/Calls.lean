import Coffer.Disk.Tree
import Coffer.Stream.Source
/-
  What can be done to a disk.

  Each function here is one indivisible step, so that programs which share a disk can be interleaved
  between any two of them.  A step gives its outcome and the disk afterwards.  A step that is refused
  leaves the disk as it was; where the device fails, as much is done as the `Fault` says.
-/
namespace Coffer

/-- A file open for writing. -/
structure OpenFile where
  inode : Nat
  /-- Where the next byte goes. -/
  offset : Nat
  deriving DecidableEq, Repr

namespace Disk

/-! ## Files -/

/-- Open a file for writing: an existing one is emptied and keeps its mode, a missing one is made
    with the given mode. -/
def create (path : String) (mode : Nat) (d : Disk) : Except IoError OpenFile × Disk :=
  let opened : Except IoError (OpenFile × Disk) := do
    let s ← d.seat path
    let some name := s.name? | throw .isDirectory
    if s.slash then throw .isDirectory
    match ← d.child s.dir name with
    | some (.directory _) => throw .isDirectory
    | some (.socket _ _) => throw .noDevice
    | some (.file i) => return (⟨i, 0⟩, d.setData i [])
    | none =>
      let (i, d) := d.newInode mode []
      return (⟨i, 0⟩, d.setEntry (s.dir ++ [name]) (.file i))
  match opened with
  | .ok (f, d') => (.ok f, d')
  | .error e => (.error e, d)

/-- `data` with `b` written over it from `offset` on; a gap is filled with zeros. -/
def overwrite (data : Bytes) (offset : Nat) (b : Bytes) : Bytes :=
  data.take offset ++ List.replicate (offset - data.length) 0 ++ b ++ data.drop (offset + b.length)

/-- Write to an open file. -/
def write (f : OpenFile) (b : Bytes) (d : Disk) : OpenFile × Disk :=
  (⟨f.inode, f.offset + b.length⟩, d.setData f.inode (overwrite (d.inode f.inode).data f.offset b))

/-- What a failing device does to a call: so much of it is done, and then it fails.  Of a write so many
    bytes reach the file, and of the directories on a way so many are made; any other call does
    nothing. -/
structure Fault where
  extent : Nat
  error : IoError
  deriving DecidableEq, Repr

/-- A call that does everything or nothing, on a device that may fail. -/
def attempt {α : Type} (fault? : Option Fault) (call : Disk → Except IoError α × Disk) (d : Disk) :
    Except IoError α × Disk :=
  match fault? with
  | none => call d
  | some fault => (.error fault.error, d)

/-- Write all of the bytes to an open file, or those that a failing device lets through. -/
def writeAll (f : OpenFile) (b : Bytes) (fault? : Option Fault) (d : Disk) :
    Except IoError OpenFile × Disk :=
  match fault? with
  | none => let (f, d) := d.write f b; (.ok f, d)
  | some fault => (.error fault.error, (d.write f (b.take fault.extent)).2)

/-- Make the bytes of a file durable, which changes nothing that can be seen. -/
def sync (fault? : Option Fault) : Except IoError Unit :=
  match fault? with
  | none => .ok ()
  | some fault => .error fault.error

/-- The bytes and the mode of a file. -/
def stat (path : String) (d : Disk) : Except IoError Entry := (·.2) <$> d.find path

/-- What opening a path for reading gives. -/
inductive Opened
  | file (inode : Nat)
  | directory
  deriving DecidableEq, Repr

/-- Open a path for reading. -/
def openRead (path : String) (d : Disk) : Except IoError Opened := do
  match ← d.stat path with
  | .file i => return .file i
  | .directory _ => return .directory
  | .socket _ _ => throw .noDevice

/-- The rest of an opened file, `offset` bytes of which were read, as a source. -/
def sourceFrom (d : Disk) (offset : Nat) : Opened → Source
  | .file i => .ofBytes ((d.inode i).data.drop offset)
  | .directory => .directory

/-- All bytes of a file. -/
def readFile (path : String) (d : Disk) : Except IoError Bytes := do
  match ← d.openRead path with
  | .file i => return (d.inode i).data
  | .directory => throw .isDirectory

/-! ## Names -/

/-- Take a file's name away. -/
def unlink (path : String) (d : Disk) : Except IoError Unit × Disk :=
  let removed : Except IoError Disk := do
    let s ← d.seat path
    let some name := s.name? | throw .isDirectory
    match ← d.child s.dir name with
    | none => throw .noEntry
    | some (.directory _) => throw .isDirectory
    | some _ =>
      if s.slash then throw .notDirectory
      return d.clearEntry (s.dir ++ [name])
  match removed with
  | .ok d' => (.ok (), d')
  | .error e => (.error e, d)

/-- Give the file at `old` the name `new` instead, in place of a file that may be there.  When both are
    names of one file, nothing is done. -/
def rename (old new : String) (d : Disk) : Except IoError Unit × Disk :=
  let moved : Except IoError Disk := do
    let s ← d.seat old
    let t ← d.seat new
    let (some name, some name') := (s.name?, t.name?) | throw .busy
    match ← d.child s.dir name with
    | none => throw .noEntry
    | some (.directory _) => throw .isDirectory
    | some e =>
      let target ← d.child t.dir name'
      if s.slash || t.slash then throw .notDirectory
      let d' := (d.clearEntry (s.dir ++ [name])).setEntry (t.dir ++ [name']) e
      match target with
      | some (.directory _) => throw .isDirectory
      | some (.file i) => return if e = .file i then d else d'
      | _ => return d'
  match moved with
  | .ok d' => (.ok (), d')
  | .error e => (.error e, d)

/-! ## Directories -/

/-- Make one directory. -/
def makeDirectory (path : String) (mode : Nat) (d : Disk) : Except IoError Unit × Disk :=
  let made : Except IoError Disk := do
    let s ← d.seat path
    let some name := s.name? | throw .fileExists
    match ← d.child s.dir name with
    | some _ => throw .fileExists
    | none => return d.setEntry (s.dir ++ [name]) (.directory mode)
  match made with
  | .ok d' => (.ok (), d')
  | .error e => (.error e, d)

/-- A path and those above it, from the path upwards. -/
def ancestors (path : String) : List String :=
  go (Path.pieces path).length path
where
  /-- At most so many parents. -/
  go : Nat → String → List String
    | 0, p => [p]
    | n + 1, p =>
      match Path.parent? p with
      | some up => if up.isEmpty then [p] else p :: go n up
      | none => [p]

/-- Make the directories of a list, the last one first; those that are there already are skipped. -/
def makeEach (mode : Nat) (d : Disk) : List String → Except IoError Unit × Disk
  | [] => (.ok (), d)
  | p :: above =>
    match d.makeDirectory p mode with
    | (.ok (), d') => (.ok (), d')
    | (.error e, _) =>
      if e.kind = .notFound then
        match makeEach mode d above with
        | (.error e', d') => (.error e', d')
        | (.ok (), d') =>
          if above.isEmpty then (.error e, d')
          else
            match d'.makeDirectory p mode with
            | (.ok (), d'') => (.ok (), d'')
            | (.error e', _) => if d'.isDirectory p then (.ok (), d') else (.error e', d')
      else if d.isDirectory p then (.ok (), d)
      else (.error e, d)

/-- Make a directory and the missing ones above it, or the topmost of them that a failing device lets
    through. -/
def makeDirectories (path : String) (mode : Nat) (d : Disk) (fault? : Option Fault := none) :
    Except IoError Unit × Disk :=
  if path.isEmpty then (.ok (), d)
  else
    let way := ancestors path
    match fault? with
    | none => makeEach mode d way
    | some fault =>
      match makeEach mode d (way.drop (way.length - fault.extent)) with
      | (.error e, d) => (.error e, d)
      | (.ok (), d) => (.error fault.error, d)

/-! ## Sockets -/

/-- The longest path of a socket, in bytes. -/
def maxSocketPath : Nat := 107

/-- The name of a socket that is on no disk: what follows a zero byte in front. -/
def detachedName? (path : String) : Option (List Char) :=
  match path.toList with
  | '\x00' :: name => some name
  | _ => none

/-- Whether the name of a socket that is on no disk fits into its address. -/
def checkDetached (name : List Char) : Except IoError Unit :=
  if maxSocketPath < (String.ofList name).utf8ByteSize then .error .socketNameTooLong else .ok ()

/-- Put a socket of mode 600 at a free place; its number is the answer.  A socket that is on no disk
    has no mode that could be set. -/
def makeSocket (path : String) (d : Disk) : Except IoError Nat × Disk :=
  let made : Except IoError Disk := do
    if let some name := detachedName? path then
      checkDetached name
      throw .zeroInPath
    if path.toList.contains '\x00' then throw .zeroInSocketPath
    if maxSocketPath < path.utf8ByteSize then throw .socketPathTooLong
    let s ← d.seat path
    let some name := s.name? | throw .addressInUse
    match ← d.child s.dir name with
    | some _ => throw .addressInUse
    | none =>
      if s.slash then throw .noEntry
      let d' := { d with sockets := d.sockets + 1 }
      return d'.setEntry (s.dir ++ [name]) (.socket 0o600 d.sockets)
  match made with
  | .ok d' => (.ok d.sockets, d')
  | .error e => (.error e, d)

end Disk

end Coffer
