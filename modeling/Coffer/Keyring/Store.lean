import Coffer.Disk.Calls
import Coffer.Keyring.Passphrase
/-
  The store of secrets: one file for each secret.

  A location is a path below the root of the store, or an absolute path taken as it is.  The file
  holds the secret and one line ending.

  * `Store.resolve` — the file of a location;
  * `Store.read`    — the secret in it, never cut short;
  * `Store.write`   — puts another secret there: a temporary file is written and then renamed.

  A write is a sequence of steps on the disk, and other programs may act between any two of them.
  `Update` is a write in progress and `Update.step` its next step, at which the device may fail.  A write
  does not notice when its temporary file cannot be removed, and it fails when the length of the file
  that it has put in place cannot be read, though the secret is there.  `Store.write` takes the steps one
  after the other on a device that does not fail.
-/
namespace Coffer.Keyring

/-- A directory of secrets. -/
structure Store where
  root : String
  deriving DecidableEq, Repr

namespace Store

/-- The file of a location. -/
def resolve (s : Store) (location : String) : Except SecretError String :=
  if location.isEmpty then .error (.badRequest "empty secret location")
  else if Path.leadsUp location then
    .error (.badRequest s!"location '{location}' escapes the store")
  else .ok (Path.join s.root location)

/-! ## Reading -/

/-- The content of a file without one line feed at its end, or a carriage return and a line feed. -/
def stripLineEnding (b : Bytes) : Bytes :=
  match b.reverse with
  | 10 :: 13 :: rest => rest.reverse
  | 10 :: rest => rest.reverse
  | _ => b

/-- The largest file that can hold a secret: the longest one and a line ending of two bytes. -/
def maxFile : Nat := maxPassphrase + 2

/-- The secret that the content of a file spells. -/
def secretOf (location : String) (content : Bytes) : Except SecretError Passphrase :=
  if maxFile < content.length then .error .tooLarge
  else
    let secret := stripLineEnding content
    if secret.isEmpty then .error (.notConfigured location) else Passphrase.ofBytes secret

/-- The secret at a location. -/
def read (s : Store) (location : String) (d : Disk) : Except SecretError Passphrase := do
  let path ← s.resolve location
  match d.stat path with
  | .error e =>
    if e.kind = .notFound then throw (.notConfigured location)
    else throw (.storeUnreadable location e.message)
  | .ok (.file i) => secretOf location (d.inode i).data
  | .ok _ => throw (.storeUnreadable location "not a regular file")

end Store

/-! ## Writing -/

/-- How far a write has come. -/
inductive Stage
  /-- The directory is to be made. -/
  | prepare
  /-- The temporary file is to be opened. -/
  | openTemporary
  | writeSecret (f : OpenFile)
  | writeNewline (f : OpenFile)
  /-- The bytes are to reach the device. -/
  | sync
  | rename
  /-- The length of the file is to be compared. -/
  | measure
  /-- The temporary file is to be removed, the write having failed. -/
  | cleanUp (e : SecretError)
  | done (outcome : Except SecretError Unit)
  /-- The write has failed after its file was put in place: the length of it could not be read. -/
  | unmeasured (e : SecretError)

/-- The number of steps that a stage is away from the end, at most. -/
def Stage.remaining : Stage → Nat
  | prepare => 8
  | openTemporary => 7
  | writeSecret _ => 6
  | writeNewline _ => 5
  | sync => 4
  | rename => 3
  | measure => 2
  | cleanUp _ => 1
  | done _ | unmeasured _ => 0

/-- How a write ended, once it has. -/
def Stage.outcome? : Stage → Option (Except SecretError Unit)
  | done outcome => some outcome
  | unmeasured e => some (.error e)
  | _ => none

theorem Stage.remaining_pos {s : Stage} (h : s.outcome? = none) : 0 < s.remaining := by
  cases s <;> first | (simp [remaining]; done) | cases h

/-- A write in progress. -/
structure Update where
  location : String
  secret : Passphrase
  /-- The file of the location. -/
  path : String
  /-- The directory of that file. -/
  parent : String
  stage : Stage

namespace Update

/-- The failure of a write that was not completed. -/
def incomplete (u : Update) (reason : String) : SecretError := .writeIncomplete u.location reason

/-- The path of the temporary file, when the location names a file. -/
def temporary? (u : Update) : Option String :=
  (Path.fileName? u.path).map fun name => Path.join u.parent (Path.temporaryName name)

/-- Make the directory, readable to its owner only, when it is not there. -/
def makePrivate (parent : String) (d : Disk) (fault? : Option Disk.Fault := none) :
    Except IoError Unit × Disk :=
  if d.isDirectory parent then d.attempt fault? fun d => (.ok (), d)
  else d.makeDirectories parent 0o700 fault?

/-- The length of the file at a path; a directory has some length that no secret has. -/
def fileLength (path : String) (d : Disk) : Except IoError Nat := do
  match ← d.stat path with
  | .file i => return (d.inode i).data.length
  | _ => return 0

/-- The next step of a write, at which the device may fail: its stage afterwards, and the disk. -/
def advance (u : Update) (d : Disk) (fault? : Option Disk.Fault := none) : Stage × Disk :=
  match u.stage with
  | .prepare =>
    match makePrivate u.parent d fault? with
    | (.error e, d) => (.done (.error (u.incomplete s!"creating {u.parent}: {e.message}")), d)
    | (.ok (), d) =>
      if u.temporary?.isNone then
        (.done (.error (.badRequest s!"location '{u.location}' names no file")), d)
      else (.openTemporary, d)
  | .openTemporary =>
    match d.attempt fault? (Disk.create (u.temporary?.getD "") 0o600) with
    | (.error e, d) => (.cleanUp (u.incomplete e.message), d)
    | (.ok f, d) => (.writeSecret f, d)
  | .writeSecret f =>
    match d.writeAll f u.secret.bytes fault? with
    | (.error e, d) => (.cleanUp (u.incomplete e.message), d)
    | (.ok f, d) => (.writeNewline f, d)
  | .writeNewline f =>
    match d.writeAll f [10] fault? with
    | (.error e, d) => (.cleanUp (u.incomplete e.message), d)
    | (.ok _, d) => (.sync, d)
  | .sync =>
    match Disk.sync fault? with
    | .error e => (.cleanUp (u.incomplete e.message), d)
    | .ok () => (.rename, d)
  | .rename =>
    match d.attempt fault? (Disk.rename (u.temporary?.getD "") u.path) with
    | (.error e, d) => (.cleanUp (u.incomplete s!"rename: {e.message}"), d)
    | (.ok (), d) => (.measure, d)
  | .measure =>
    match d.attempt fault? fun d => (fileLength u.path d, d) with
    | (.error e, d) => (.unmeasured (u.incomplete e.message), d)
    | (.ok n, d) =>
      let expected := u.secret.size + 1
      if n ≠ expected then
        (.done (.error (u.incomplete s!"wrote {n} bytes, expected {expected}")), d)
      else (.done (.ok ()), d)
  | .cleanUp e => (.done (.error e), (d.attempt fault? (Disk.unlink (u.temporary?.getD ""))).2)
  | .done outcome => (.done outcome, d)
  | .unmeasured e => (.unmeasured e, d)

/-- The next step of a write. -/
def step (u : Update) (d : Disk) (fault? : Option Disk.Fault := none) : Update × Disk :=
  let (stage, d) := u.advance d fault?
  ({ u with stage := stage }, d)

/-- **Every step brings a write closer to its end.** -/
theorem remaining_advance_lt (u : Update) (d : Disk) (fault? : Option Disk.Fault)
    (h : 0 < u.stage.remaining) : (u.advance d fault?).1.remaining < u.stage.remaining := by
  unfold advance
  split <;> rename_i hs <;> rw [hs] at h ⊢
  · split
    · simp [Stage.remaining]
    · split <;> simp [Stage.remaining]
  · split <;> simp [Stage.remaining]
  · split <;> simp [Stage.remaining]
  · split <;> simp [Stage.remaining]
  · split <;> simp [Stage.remaining]
  · split <;> simp [Stage.remaining]
  · split
    · simp [Stage.remaining]
    · simp only
      split <;> simp [Stage.remaining]
  · simp [Stage.remaining]
  · simp [Stage.remaining] at h
  · simp [Stage.remaining] at h

/-- All remaining steps of a write. -/
def finish (u : Update) (d : Disk) : Except SecretError Unit × Disk :=
  match _hgoes : u.stage.outcome? with
  | some outcome => (outcome, d)
  | none => finish (u.step d).1 (u.step d).2
termination_by u.stage.remaining
decreasing_by exact remaining_advance_lt u d none (Stage.remaining_pos ‹_›)

end Update

namespace Store

/-- A write that has not begun. -/
def beginUpdate (s : Store) (location : String) (secret : Passphrase) :
    Except SecretError Update := do
  let path ← s.resolve location
  match Path.parent? path with
  | none => throw (.badRequest s!"location '{location}' has no parent")
  | some parent => return ⟨location, secret, path, parent, .prepare⟩

/-- Put another secret at a location. -/
def write (s : Store) (location : String) (secret : Passphrase) (d : Disk) :
    Except SecretError Unit × Disk :=
  match s.beginUpdate location secret with
  | .error e => (.error e, d)
  | .ok u => u.finish d

end Store

end Coffer.Keyring
