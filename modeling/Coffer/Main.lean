import Coffer.Command.Daemon
/-
  The program.

  `main` carries out a client's command line on real files.  The files that the command can touch
  are read onto a `Disk`, the command is carried out there, and the files that are different
  afterwards are written back.  Nobody else is asked for secrets: at the configured socket the
  program's own holder serves the configured store.
-/
namespace Coffer.Command

open Container (sixteenOf)
open Keyring (Store)
open Resource (ResourcePath)

/-! ## What a command can touch -/

/-- The path of the resource that a text names, and the location of its secret. -/
def resourceOf (c : Config) (uri : String) : List String × List String :=
  match ResourcePath.parse uri with
  | .error _ => ([], [])
  | .ok r => ([r.path], [(r.param "pwfile").getD c.store.defaultLocation])

/-- The files of a task, and the locations it asks for. -/
def Task.reach (c : Config) : Task → List String × List String
  | .encrypt input uri =>
    let (files, locations) := resourceOf c uri
    (input :: files, locations)
  | .decrypt uri output =>
    let (files, locations) := resourceOf c uri
    (output.toList ++ files, locations)
  | .checkPassphrase location => ([], [location])
  | _ => ([], [])

/-- The files behind locations of a store. -/
def secretFiles (s : Store) (locations : List String) : List String :=
  locations.filterMap fun l => (s.resolve l).toOption

/-! ## Files -/

/-- Whether something at a path can be opened. -/
def isThere (path : String) : IO Bool := do
  try
    let _ ← IO.FS.Handle.mk path .read
    return true
  catch _ => return false

/-- Put what is at a path, and the directory it is in, onto the disk. -/
def fetch (d : Disk) (path : String) : IO Disk := do
  let parent := (Path.parent? path).getD ""
  let d := if ← isThere parent then (d.makeDirectories parent 0o755).2 else d
  unless ← isThere path do return d
  try
    let b ← IO.FS.readBinFile path
    match d.create path 0o644 with
    | (.ok f, d) => return (d.write f b.toList).2
    | (.error _, d) => return d
  catch _ => return (d.makeDirectories path 0o755).2

/-- Write the file at a path if the disk has other bytes in it than before. -/
def writeBack (before after : Disk) (path : String) : IO Unit := do
  match before.readFile path, after.readFile path with
  | .ok old, .ok new => if old ≠ new then IO.FS.writeBinFile path ⟨new.toArray⟩
  | .error _, .ok new => IO.FS.writeBinFile path ⟨new.toArray⟩
  | _, _ => return

/-! ## Running -/

/-- The environment's variables that commands look at. -/
def variableNames : List String := ["HOME", "VFC_CONFIG", "VFC_KEYRING_SOCKET", "VFC_LOG"]

/-- Carry out a command line; the exit code is the answer. -/
def carryOut (args : List String) : IO UInt32 := do
  let values ← variableNames.mapM fun name => IO.getEnv name
  let random ← IO.getRandomBytes 32
  let around : Surroundings :=
    ⟨fun name => ((variableNames.zip values).lookup name).join,
     ⟨sixteenOf random.toList, sixteenOf (random.toList.drop 16)⟩⟩
  let place := (Path.pieces (toString (← IO.currentDir))).filter (!·.isEmpty)
  let empty : Disk := (Disk.makeDirectories (toString (← IO.currentDir)) 0o755 ⟨place, [], [], 0⟩).2
  let mut before := empty
  let mut files : List String := []
  let mut listening : Option (String × Store) := none
  match Client.form.read around.environment args with
  | .error _ => pure ()
  | .ok given =>
    before ← fetch before given.configPath
    match Config.load given.configPath before, Client.task? given with
    | .ok c, some task =>
      let c := Client.configure c given
      let store : Store := ⟨Path.expandTilde around.home c.store.dir⟩
      let (touched, locations) := task.reach c
      for path in touched ++ secretFiles store locations do
        before ← fetch before path
      files := touched
      listening := some ((c.keyring.channelConfig around.home).socket, store)
    | _, _ => pure ()
  let machine := match listening with
    | some (socket, store) => ((Machine.ofDisk before).listen socket (.serving store)).2
    | none => .ofDisk before
  let (outcome, after) := Client.run args around machine
  for path in files do
    writeBack before after.disk path
  (← IO.getStdout).write ⟨outcome.printed.toArray⟩
  if let some r := outcome.report then
    (← IO.getStderr).putStr r.text
  return outcome.code.toUInt32

end Coffer.Command

/-- The client's command line. -/
def main (args : List String) : IO UInt32 := Coffer.Command.carryOut args
