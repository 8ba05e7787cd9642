import Coffer.Bytes
import Coffer.Disk.Path
import Coffer.Stream.Error
/-
  A disk: names, and the files behind them.

  A `Disk` maps places to entries.  A regular file is an entry that points to an inode, and the
  inode holds the bytes; a file that is open is known by its inode, so it stays what it is when its
  name is taken away or given to another file.  A file may have several names, though nothing here gives
  it a second one.  No name stands for a path.

  `Disk.find` and `Disk.seat` are the two ways a path is looked up: as something that exists, and as
  a name in a directory that exists.  They fail as the system does, in the same order.
-/
namespace Coffer

/-- A place in the tree: the names that lead to it from the root. -/
abbrev Place := List String

/-- What a name stands for. -/
inductive Entry
  | directory (mode : Nat)
  | file (inode : Nat)
  /-- A socket, known by its number to those who listen at it. -/
  | socket (mode number : Nat)
  deriving DecidableEq, Repr

/-- A regular file. -/
structure Inode where
  mode : Nat
  data : Bytes
  deriving DecidableEq, Repr

/-- The state of a file system. -/
structure Disk where
  /-- The current directory, from which relative paths start. -/
  current : Place
  /-- Every place but the root, which is always a directory. -/
  entries : List (Place × Entry)
  /-- Every file there ever was, by number. -/
  inodes : List Inode
  /-- The number of the next socket. -/
  sockets : Nat

namespace Disk

/-! ## Places -/

/-- What is at a place. -/
def entryAt? (d : Disk) (p : Place) : Option Entry :=
  if p.isEmpty then some (.directory 0o755) else d.entries.lookup p

/-- The disk with `e` at a place. -/
def setEntry (d : Disk) (p : Place) (e : Entry) : Disk :=
  { d with entries := (p, e) :: d.entries.filter (·.1 ≠ p) }

/-- The disk with nothing at a place. -/
def clearEntry (d : Disk) (p : Place) : Disk :=
  { d with entries := d.entries.filter (·.1 ≠ p) }

/-- The file with a number. -/
def inode (d : Disk) (i : Nat) : Inode := d.inodes.getD i ⟨0, []⟩

/-- The disk with other bytes in a file. -/
def setData (d : Disk) (i : Nat) (b : Bytes) : Disk :=
  { d with inodes := d.inodes.modify i fun n => { n with data := b } }

/-- A disk with a new file, and the number of the file. -/
def newInode (d : Disk) (mode : Nat) (b : Bytes) : Nat × Disk :=
  (d.inodes.length, { d with inodes := d.inodes ++ [⟨mode, b⟩] })

/-! ## Looking paths up -/

/-- The longest name, in bytes. -/
def maxName : Nat := 255

/-- Paths must have fewer bytes than this. -/
def maxPath : Nat := 4096

/-- Whether a piece of a path names the directory it stands in or the one above. -/
def isDots (piece : String) : Bool := piece == "." || piece == ".."

/-- The entry of a name in a directory. -/
def child (d : Disk) (dir : Place) (name : String) : Except IoError (Option Entry) :=
  if maxName < name.utf8ByteSize then .error .nameTooLong else .ok (d.entryAt? (dir ++ [name]))

/-- Go from a directory into the directory that a piece names. -/
def enter (d : Disk) (dir : Place) (piece : String) : Except IoError Place :=
  if piece = "." then .ok dir
  else if piece = ".." then .ok dir.dropLast
  else do
    match ← d.child dir piece with
    | none => throw .noEntry
    | some (.directory _) => return dir ++ [piece]
    | some _ => throw .notDirectory

/-- Where a path ends: a directory that exists, and the last piece in it.  The path of the root
    has no last piece. -/
structure Seat where
  dir : Place
  last : Option String
  /-- A slash follows the last piece. -/
  slash : Bool

/-- Follow a path up to its last piece. -/
def seat (d : Disk) (path : String) : Except IoError Seat := do
  if path.toList.contains '\x00' then throw .zeroInPath
  if path.isEmpty then throw .noEntry
  if maxPath ≤ path.utf8ByteSize then throw .nameTooLong
  let start := if Path.isAbsolute path then [] else d.current
  let names := (Path.pieces path).filter (!·.isEmpty)
  let dir ← names.dropLast.foldlM d.enter start
  return ⟨dir, names.getLast?, path.toList.getLast? == some '/'⟩

/-- A seat whose last piece is a name, as the place of that name. -/
def Seat.name? (s : Seat) : Option String :=
  match s.last with
  | some n => if isDots n then none else some n
  | none => none

/-- What a path leads to. -/
def find (d : Disk) (path : String) : Except IoError (Place × Entry) := do
  let s ← d.seat path
  match s.last with
  | none => return ([], .directory 0o755)
  | some last =>
    if isDots last then
      let p ← d.enter s.dir last
      return (p, (d.entryAt? p).getD (.directory 0o755))
    match ← d.child s.dir last with
    | none => throw .noEntry
    | some e =>
      match e, s.slash with
      | .directory _, _ | _, false => return (s.dir ++ [last], e)
      | _, true => throw .notDirectory

/-- Everything below a directory, with its path from there, in the order of the paths' bytes. -/
def below (base : Place) (d : Disk) : List (String × Entry) :=
  let named := d.entries.filterMap fun (p, e) =>
    if base.isPrefixOf p ∧ base.length < p.length then
      some ("/".intercalate (p.drop base.length), e)
    else none
  named.mergeSort fun a b => a.1 ≤ b.1

/-- Whether a path leads to anything. -/
def pathExists (d : Disk) (path : String) : Bool := (d.find path).isOk

/-- Whether a path leads to a directory. -/
def isDirectory (d : Disk) (path : String) : Bool :=
  match d.find path with
  | .ok (_, .directory _) => true
  | _ => false

end Disk

end Coffer
