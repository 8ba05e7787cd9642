import Coffer.Keyring.Channel
import Coffer.Keyring.Server
/-
  A machine: a disk, and those who answer at the sockets on it.

  A `Machine` is a `Network`, on which programs stop when a sum overflows.  Everything on it happens at
  once: whoever is at the other end of a connection acts as soon as bytes arrive, and its answer is there
  when the sender looks for it.

  Two sorts of holders can listen at a socket: one that serves a store, and one that gives prepared
  replies, whatever it is asked.
-/
namespace Coffer

open Keyring

/-! ## Holders -/

/-- A prepared reply to one request. -/
inductive Reply
  | bytes (b : Bytes)
  /-- No reply; the connection stays open. -/
  | hold
  deriving Repr

/-- Who listens at a socket. -/
inductive Holder
  | serving (s : Store)
  /-- The replies on each connection that is still to come. -/
  | prepared (connections : List (List Reply))

/-- The other end of a connection. -/
inductive Peer
  | serving (c : Attended)
  /-- The socket, the bytes of a request that is not complete yet, and the replies that are left. -/
  | prepared (socket : Nat) (received : Bytes) (replies : List Reply)
  /-- It takes bytes and does nothing. -/
  | silent
  | gone

/-- A connection: who is at the other end, and what it sent that was not looked at. -/
structure Line where
  peer : Peer
  arrived : Bytes

/-- A disk, and those who answer at the sockets on it. -/
structure Machine where
  disk : Disk
  /-- The holders, by the number of their socket. -/
  holders : List (Nat × Holder)
  /-- Every connection there ever was, by number. -/
  lines : List Line
  /-- The processor has instructions for AES. -/
  instructions : Bool

namespace Machine

/-- A machine with nobody at its sockets. -/
def ofDisk (d : Disk) (instructions : Bool := true) : Machine := ⟨d, [], [], instructions⟩

/-- Somebody listens at a socket, or nobody any more. -/
def setHolder (m : Machine) (socket : Nat) (h : Option Holder) : Machine :=
  let others := m.holders.filter (·.1 ≠ socket)
  { m with holders := match h with | some h => (socket, h) :: others | none => others }

/-- The other end of a line changes, and sends some bytes. -/
def setPeer (m : Machine) (line : Nat) (peer : Peer) (sent : Bytes) : Machine :=
  { m with lines := m.lines.modify line fun l => ⟨peer, l.arrived ++ sent⟩ }

/-- Who is at the other end of a line. -/
def peer? (m : Machine) (line : Nat) : Option Peer := m.lines[line]?.map (·.peer)

/-- Listen at a path; the number of the socket is the answer. -/
def listen (m : Machine) (path : String) (h : Holder) : Except IoError Nat × Machine :=
  match m.disk.bindSocket path with
  | (.error e, d) => (.error e, { m with disk := d })
  | (.ok socket, d) => (.ok socket, { m with disk := d }.setHolder socket (some h))

/-! ## Connecting -/

/-- The socket behind a path that is fit for one.  Nobody listens at sockets that are on no disk. -/
def socketAt (m : Machine) (path : String) : Except IoError Nat := do
  if let some name := Disk.detachedName? path then
    Disk.checkDetached name
    if name.isEmpty then throw .invalidArgument
    throw .connectionRefused
  if path.toList.contains '\x00' then throw .zeroInSocketPath
  if Disk.maxSocketPath < path.utf8ByteSize then throw .socketPathTooLong
  if path.isEmpty then throw .invalidArgument
  match ← m.disk.stat path with
  | .socket _ socket => return socket
  | _ => throw .connectionRefused

/-- A new line. -/
def addLine (m : Machine) (peer : Peer) : Attempt × Machine :=
  (.connected m.lines.length, { m with lines := m.lines ++ [⟨peer, []⟩] })

/-- Connect to the socket at a path. -/
def connect (path : String) (m : Machine) : Attempt × Machine :=
  match m.socketAt path with
  | .error e => (.refused e, m)
  | .ok socket =>
    match m.holders.lookup socket with
    | none => (.refused .connectionRefused, m)
    | some (.serving s) => m.addLine (.serving (.accept s))
    | some (.prepared []) => m.addLine .silent
    | some (.prepared (replies :: later)) =>
      if replies.isEmpty then
        (m.setHolder socket (if later.isEmpty then none else some (.prepared later))).addLine .gone
      else (m.setHolder socket (some (.prepared later))).addLine (.prepared socket [] replies)

/-! ## Exchanging bytes -/

/-- What a holder with prepared replies makes of the bytes received: the peer afterwards and the
    bytes it sends. -/
def rehearse (socket : Nat) (received : Bytes) : List Reply → Peer × Bytes
  | [] => (.gone, [])
  | reply :: later =>
    match Request.decode received with
    | .incomplete => (.prepared socket received (reply :: later), [])
    | .failed _ _ => (.gone, [])
    | .frame _ rest =>
      match reply with
      | .hold => (.silent, [])
      | .bytes b =>
        let (peer, sent) := rehearse socket rest later
        (peer, b ++ sent)

/-- A holder with prepared replies stops listening when none of its connections is left. -/
def retire (m : Machine) (socket : Nat) : Peer → Machine
  | .prepared _ _ _ => m
  | _ =>
    match m.holders.lookup socket with
    | some (.prepared []) => m.setHolder socket none
    | _ => m

/-- Send bytes on a line. -/
def send (line : Nat) (b : Bytes) (m : Machine) : Sending × Machine :=
  match m.peer? line with
  | none | some .gone => (.failed .brokenPipe, m)
  | some .silent => (.sent, m)
  | some (.serving c) =>
    let (answer, c, d) := c.receive b m.disk
    (.sent, { m with disk := d }.setPeer line (if c.isOpen then .serving c else .gone) answer)
  | some (.prepared socket received replies) =>
    let (peer, sent) := rehearse socket (received ++ b) replies
    (.sent, (m.setPeer line peer sent).retire socket peer)

/-- Receive what has arrived on a line. -/
def receive (line : Nat) (m : Machine) : Arrival × Machine :=
  match m.lines[line]? with
  | none => (.bytes [], m)
  | some l =>
    if l.arrived.isEmpty then
      match l.peer with
      | .gone => (.bytes [], m)
      | _ => (.silence, m)
    else (.bytes l.arrived, { m with lines := m.lines.set line ⟨l.peer, []⟩ })

/-- Close a line. -/
def hangUp (line : Nat) (m : Machine) : Machine :=
  match m.peer? line with
  | some (.prepared socket _ _) => (m.setPeer line .gone []).retire socket .gone
  | some _ => m.setPeer line .gone []
  | none => m

instance : Network Machine where
  overflow := .stops
  connect := connect
  send := send
  receive := receive
  hangUp := hangUp
  pause _ m := m

/-- Send bytes to a socket and nothing more, and collect the answer. -/
def ask (path : String) (b : Bytes) (m : Machine) : Except IoError Bytes × Machine :=
  match m.connect path with
  | (.refused e, m) => (.error e, m)
  | (.timedOut, m) => (.error .connectionRefused, m)
  | (.connected line, m) =>
    match if b.isEmpty then (.sent, m) else m.send line b with
    | (.failed e, m) => (.error e, m.hangUp line)
    | (_, m) => (.ok ((m.lines[line]?.map (·.arrived)).getD []), m.hangUp line)

end Machine

end Coffer
