import Coffer.Disk.Calls
import Coffer.Stream.Sink
/-
  Files written beside their destination.

  A `StagedFile` collects what is written in a temporary file in the destination's directory.
  `commit` gives it the destination's name in one step; `discard` takes its own name away and leaves
  the destination alone.

  A `Staging` is a staged file as an output stream.  Its device may take fewer bytes than it is
  given, or fail; the bytes that it takes are the bytes in the file.
-/
namespace Coffer

/-- A file on its way to a destination. -/
structure StagedFile where
  file : OpenFile
  /-- The path of the temporary file. -/
  temporary : String
  destination : String
  deriving DecidableEq, Repr

namespace StagedFile

/-- The path of the temporary file for a destination. -/
def temporaryPath? (destination : String) : Option String :=
  (Path.fileName? destination).map fun name =>
    let dir := match Path.parent? destination with
      | some p => if p.isEmpty then "." else p
      | none => "."
    Path.join dir (Path.temporaryName name)

/-- Start a file for a destination, on a device that may fail. -/
def create (destination : String) (d : Disk) (fault? : Option Disk.Fault := none) :
    Except IoError StagedFile × Disk :=
  match temporaryPath? destination with
  | none => (.error ⟨.invalidInput, s!"{destination} names no file"⟩, d)
  | some temporary =>
    match d.attempt fault? (Disk.create temporary 0o644) with
    | (.error e, d) => (.error e, d)
    | (.ok file, d) => (.ok ⟨file, temporary, destination⟩, d)

/-- Write to the file. -/
def write (s : StagedFile) (b : Bytes) (d : Disk) : StagedFile × Disk :=
  let (file, d) := d.write s.file b
  ({ s with file := file }, d)

/-- Take the temporary file's name away. -/
def discard (s : StagedFile) (d : Disk) : Disk := (d.unlink s.temporary).2

/-- Give the file its destination's name, in place of what was there, once its bytes are durable;
    if either fails it is discarded.  The device may fail at both. -/
def commit (s : StagedFile) (d : Disk) (durable : Except IoError Unit := .ok ())
    (fault? : Option Disk.Fault := none) : Except IoError Unit × Disk :=
  match durable with
  | .error e => (.error e, s.discard d)
  | .ok () =>
    match d.attempt fault? (Disk.rename s.temporary s.destination) with
    | (.ok (), d) => (.ok (), d)
    | (.error e, d) => (.error e, s.discard d)

end StagedFile

/-- A staged file together with the disk it is on. -/
structure Staging where
  file : StagedFile
  disk : Disk
  /-- What takes the bytes of the file, and makes them durable when it is flushed. -/
  device : Sink := .empty

namespace Staging

/-- The staging once its device has come this far: the bytes taken since are in the file. -/
def follow (s : Staging) (device : Sink) : Staging :=
  let (file, disk) := s.file.write (device.taken.drop s.device.taken.length) s.disk
  ⟨file, disk, device⟩

/-- Put the file in place of its destination, on a device that may fail at the renaming, too. -/
def commit (s : Staging) (fault? : Option Disk.Fault := none) : Except IoError Unit × Disk :=
  s.file.commit s.disk s.device.flush.1 fault?

/-- Give the file up. -/
def discard (s : Staging) : Disk := s.file.discard s.disk

end Staging

instance : Output Staging where
  write s b :=
    let (n, device) := s.device.write b
    (n, s.follow device)
  writeAll s b :=
    let (outcome, device) := s.device.writeAll b
    (outcome, s.follow device)
  flush s :=
    let (outcome, device) := s.device.flush
    (outcome, s.follow device)

end Coffer
