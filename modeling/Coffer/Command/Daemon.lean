import Coffer.Command.Client
/-
  The secret holder's command line.

  `Daemon.start` carries out a command line: the holder listens at a socket and serves a store, and
  says so with `Daemon.notice`.  It goes on until `Daemon.stop`, which takes the socket away.
-/
namespace Coffer.Command

/-- A holder that is serving. -/
structure Daemon where
  /-- The number of its socket. -/
  socket : Nat
  /-- Where its socket was put. -/
  path : String
  deriving DecidableEq, Repr

namespace Daemon

/-- The name of the program and its version. -/
def title : String := "vfc-keyringd 0.5.0"

/-- The form of the holder's command line. -/
def form : Form :=
  .operands
    [configOption, socketOption, ⟨"store", none, .path, none⟩, logOption,
     ⟨"log-format", none, .oneOf ["json", "text"], some "VFC_LOG_FORMAT"⟩] []

/-- What a holder sends to whoever supervises it, as soon as it is serving. -/
def notice : String := "READY=1\n"

/-- The configuration with what a command line sets. -/
def configure (c : Config) (g : Given) : Config :=
  let c := match g.option? "socket" with
    | some path => { c with daemon.socket := path }
    | none => c
  match g.option? "store" with
  | some dir => { c with store.dir := dir }
  | none => c

/-- Listen at the configured socket. -/
def listen (c : Config) (s : Surroundings) (m : Machine) : Except Report Daemon × Machine :=
  let path := Path.expandTilde s.home c.daemon.socket
  match m.listen path (.serving ⟨Path.expandTilde s.home c.store.dir⟩) with
  | (.error e, m) => (.error (.ofIo s!"binding keyring socket {path}" e), m)
  | (.ok socket, m) => (.ok ⟨socket, path⟩, m)

/-- Carry out a command line up to where the holder is serving, if it comes so far. -/
def start (args : List String) (s : Surroundings) (m : Machine) :
    Except Outcome Daemon × Machine :=
  match form.read s.environment args with
  | .error r => (.error (.ofRefusal title r), m)
  | .ok given =>
    match Config.load given.configPath m.disk with
    | .error f => (.error (.failure (.ofFault f)), m)
    | .ok c =>
      let (started, m) := listen (configure c given) s m
      (started.mapError .failure, m)

/-- Stop serving, and take the socket away. -/
def stop (d : Daemon) (m : Machine) : Outcome × Machine :=
  let m := m.setHolder d.socket none
  (.success "", { m with disk := (m.disk.unlink d.path).2 })

end Daemon

end Coffer.Command
