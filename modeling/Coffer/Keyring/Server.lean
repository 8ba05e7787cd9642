import Coffer.Keyring.Response
import Coffer.Keyring.Store
/-
  The secret holder.

  A holder answers requests from its store.  It answers the requests of a connection one after the
  other, each with one response; after the first frame that is no request it reports the failure and
  hangs up, for nothing behind such a frame can be trusted.

  * `Store.answer`    — one request;
  * `Store.serve`     — all requests that were received;
  * `Attended`        — a connection between the arrivals of bytes, and `Attended.receive` one such
                        arrival;
  * `Store.attend`    — a connection from its beginning to its end;
  * `Disk.bindSocket` — the socket a holder listens at.
-/
namespace Coffer.Keyring

/-- The answer to a request, and what it does to the disk. -/
def Store.answer (s : Store) (r : Request) (d : Disk) : Response × Disk :=
  match r with
  | .ping => (.done, d)
  | .read location =>
    match s.read location d with
    | .ok secret => (.ofSecret secret, d)
    | .error e => (.failed e.status, d)
  | .update location secret =>
    match s.write location secret d with
    | (.ok (), d) => (.done, d)
    | (.error e, d) => (.failed e.status, d)

/-- What became of the bytes received on a connection. -/
structure Served where
  /-- The responses, one behind the other. -/
  answer : Bytes
  /-- Bytes of a request that is not complete yet. -/
  received : Bytes
  /-- The holder goes on with the connection. -/
  isOpen : Bool
  disk : Disk

/-- Answer every request of the bytes `received`. -/
def Store.serve (s : Store) (received : Bytes) (d : Disk) : Served :=
  match _hdecode : Request.decode received with
  | .incomplete => ⟨[], received, true, d⟩
  | .failed e rest => ⟨(Response.failed e.status).encode, rest, false, d⟩
  | .frame r rest =>
    let (response, d) := s.answer r d
    let later := s.serve rest d
    { later with answer := response.encode ++ later.answer }
termination_by received.length
decreasing_by exact Request.length_rest_decode _hdecode

/-- A connection as its holder sees it. -/
structure Attended where
  store : Store
  /-- Bytes of a request that is not complete yet. -/
  received : Bytes
  isOpen : Bool

namespace Attended

/-- A new connection. -/
def accept (s : Store) : Attended := ⟨s, [], true⟩

/-- Bytes arrive: the answer to them, and the connection and the disk afterwards. -/
def receive (c : Attended) (b : Bytes) (d : Disk) : Bytes × Attended × Disk :=
  if c.isOpen then
    let served := c.store.serve (c.received ++ b) d
    (served.answer, ⟨c.store, served.received, served.isOpen⟩, served.disk)
  else ([], c, d)

/-- No more bytes will arrive: how the connection ends for its holder. -/
def finish (c : Attended) : Except SecretError Unit :=
  if c.isOpen then ((Request.decode c.received).atEnd c.received).map fun _ => () else .ok ()

end Attended

/-- What a connection came to. -/
structure Attendance where
  /-- Everything that was answered. -/
  answer : Bytes
  outcome : Except SecretError Unit
  disk : Disk

/-- What is still to come of a connection: some pieces arrive, and then no more. -/
def Attended.attend (c : Attended) : List Bytes → Disk → Attendance
  | [], d => ⟨[], c.finish, d⟩
  | piece :: pieces, d =>
    let (answer, c, d) := c.receive piece d
    let later := c.attend pieces d
    { later with answer := answer ++ later.answer }

/-- A connection on which these pieces arrive. -/
def Store.attend (s : Store) (pieces : List Bytes) (d : Disk) : Attendance :=
  (Attended.accept s).attend pieces d

end Coffer.Keyring

namespace Coffer

/-- Make the socket that a holder listens at, together with the directories above it, in place of
    whatever file is there; its number is the answer. -/
def Disk.bindSocket (path : String) (d : Disk) : Except IoError Nat × Disk :=
  let (prepared, d) := match Path.parent? path with
    | some parent => d.makeDirectories parent 0o755
    | none => (.ok (), d)
  match prepared with
  | .error e => (.error e, d)
  | .ok () =>
    let (cleared, d) := if d.pathExists path then d.unlink path else (.ok (), d)
    match cleared with
    | .error e => (.error e, d)
    | .ok () => d.makeSocket path

end Coffer
