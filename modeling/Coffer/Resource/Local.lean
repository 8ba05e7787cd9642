import Coffer.Disk.Staged
import Coffer.Resource.Opening
/-
  Resources on the local disk.

  Only `file` and `vfile` name local files.  A resource is written into a staged file beside its
  destination, so that nothing is seen of it before `Created.commit`; a resource that cannot be
  begun leaves no staged file.
-/
namespace Coffer.Resource

open Keyring (SecretSource)

/-- The file of a local resource. -/
def Handle.localPath (h : Handle) : Except ResolveError String :=
  if h.scheme = "file" ∨ h.scheme = "vfile" then .ok h.path
  else
    match SchemeKind.of h.scheme with
    | .error e => .error e
    | .ok _ => .error (.notLocal h.scheme)

namespace Opener

variable {S : Type} [SecretSource S]

/-- Open a local resource for reading. -/
def openPath (o : Opener S) (h : Handle) (d : Disk) : Except ResolveError Opened × Opener S :=
  let file : Except ResolveError Source := do
    let path ← h.localPath
    let opened ← (d.openRead path).mapError .io
    return d.sourceFrom 0 opened
  match file with
  | .error e => (.error e, o)
  | .ok raw =>
    let (opened, o, _) := o.openRead h raw
    (opened, o)

/-- Create a local resource, on a device that takes its bytes and may fail before it as the file is
    opened.  When it succeeds the disk is below the created resource, too. -/
def createPath (o : Opener S) (h : Handle) (nonces : Nonces) (d : Disk) (device : Sink := .empty)
    (fault? : Option Disk.Fault := none) :
    Except ResolveError (Created Staging) × Opener S × Disk :=
  match h.localPath with
  | .error e => (.error e, o, d)
  | .ok path =>
    match o.prepareWrite h nonces with
    | (.error e, o) => (.error e, o, d)
    | (.ok prepared, o) =>
      match StagedFile.create path d fault? with
      | (.error e, d) => (.error (.io e), o, d)
      | (.ok staged, d) =>
        match beginWrite (Staging.mk staged d device) prepared with
        | (.error e, s) => (.error e, o, s.discard)
        | (.ok created, s) => (.ok created, o, s.disk)

end Opener

/-- Write what is still missing, and put the resource in place of its destination; if that fails the
    destination stays as it was. -/
def Created.commit (c : Created Staging) (fault? : Option Disk.Fault := none) :
    Except IoError Unit × Disk :=
  match c.finish with
  | (.error e, s) => (.error e, s.discard)
  | (.ok (), s) => s.commit fault?

/-- Give the resource up; the destination stays as it was. -/
def Created.discard (c : Created Staging) : Disk := c.inner.discard

end Coffer.Resource
