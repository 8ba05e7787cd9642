import Coffer.Command.Report
import Coffer.Machine
import Coffer.Resource.Local
/-
  The client's command line.

      encrypt INPUT OUTPUT-URI      write a file as a resource
      decrypt URI [-o FILE]         read a resource
      passphrase set LOCATION       store a passphrase, which a terminal has to give
      passphrase check LOCATION     see whether a passphrase is configured
      ping                          see whether the holder of secrets is there
      ciphers                       list the backends
      config show                   print the configuration

  `Client.run` carries out a command line on a machine.  The configuration is loaded before anything
  else is done, whatever the command is.

  Encrypting is all or nothing: the destination changes at the very end, in one step.  Decrypting
  into a file is not: the file is emptied before the first byte is read, and keeps what was read
  before a failure.
-/
namespace Coffer.Command

open Keyring (Channel)
open Resource (Created Nonces Opened Opener ResourcePath)

/-- What a command finds around it. -/
structure Surroundings where
  /-- The environment's variables. -/
  environment : String → Option String
  /-- What is drawn at random for a resource that the command writes. -/
  nonces : Nonces

/-- The home directory. -/
def Surroundings.home (s : Surroundings) : Option String := s.environment "HOME"

/-! ## Forms -/

/-- The option that names the configuration file. -/
def configOption : OptionForm := ⟨"config", some 'c', .path, some "VFC_CONFIG"⟩

/-- The option that names the holder's socket. -/
def socketOption : OptionForm := ⟨"socket", none, .path, some "VFC_KEYRING_SOCKET"⟩

/-- The option that names the least level of messages. -/
def logOption : OptionForm := ⟨"log", none, .text, some "VFC_LOG"⟩

/-- The configuration file of a command line. -/
def Given.configPath (g : Given) : String := (g.option? "config").getD "/etc/vfcrypt/config.toml"

/-- What the client is asked to do. -/
inductive Task
  | encrypt (input uri : String)
  | decrypt (uri : String) (output : Option String)
  | setPassphrase (location : String)
  | checkPassphrase (location : String)
  | ping
  | ciphers
  | showConfig
  deriving DecidableEq, Repr

namespace Client

/-- The name of the program and its version. -/
def title : String := "vfc 0.5.0"

/-- The form of the client's command line. -/
def form : Form :=
  .commands [configOption, socketOption, logOption]
    [("encrypt", .operands [] [.path, .text]),
     ("decrypt", .operands [⟨"output", some 'o', .path, none⟩] [.text]),
     ("passphrase", .commands [] [("set", .operands [] [.text]), ("check", .operands [] [.text])]),
     ("ping", .operands [] []),
     ("ciphers", .operands [] []),
     ("config", .commands [] [("show", .operands [] [])])]

/-- The task of a command line that has the form. -/
def task? (g : Given) : Option Task :=
  match g.commands, g.operands with
  | ["encrypt"], [input, uri] => some (.encrypt input uri)
  | ["decrypt"], [uri] => some (.decrypt uri (g.option? "output"))
  | ["passphrase", "set"], [location] => some (.setPassphrase location)
  | ["passphrase", "check"], [location] => some (.checkPassphrase location)
  | ["ping"], [] => some .ping
  | ["ciphers"], [] => some .ciphers
  | ["config", "show"], [] => some .showConfig
  | _, _ => none

/-- The opener of a configuration, whose secrets come over its channel. -/
def opener (c : Config) (s : Surroundings) (m : Machine) : Opener (Channel × Machine) :=
  ⟨(c.keyring.channel s.home, m), .builtin m.instructions, c.options⟩

/-- The machine after an opener was used, with the disk as the command left it.  A holder that is
    asked for secrets changes nothing on the disk. -/
def settle (o : Opener (Channel × Machine)) (d : Disk) : Machine :=
  let (_, m) := o.secrets.1.close o.secrets.2
  { m with disk := d }

/-! ## Encrypting -/

/-- Copy what is in an opened file into a resource, and put the resource in its place; the number
    of bytes is the answer. -/
def store (source : Disk.Opened) (created : Created Staging) : Except Report Nat × Disk :=
  let (ending, data, _) := (created.inner.disk.sourceFrom 0 source).readToEnd
  let (outcome, created) := created.writeAll data
  match ending, outcome with
  | .error e, _ | .ok (), .error e => (.error (.ofIo "writing resource" e), created.discard)
  | .ok (), .ok () =>
    match created.commit with
    | (.error e, d) => (.error (.ofIo "finishing resource" e), d)
    | (.ok (), d) => (.ok data.length, d)

/-- Write a file as a resource. -/
def encrypt (c : Config) (s : Surroundings) (input uri : String) (m : Machine) :
    Outcome × Machine :=
  match ResourcePath.parse uri with
  | .error e => (.failure (.ofResolve "parsing output URI" e), m)
  | .ok target =>
    match m.disk.openRead input with
    | .error e => (.failure (.ofIo s!"opening {input}" e), m)
    | .ok source =>
      match (opener c s m).createPath target.handle s.nonces m.disk with
      | (.error e, o, d) => (.ofResolve s!"creating {target.text}" e, settle o d)
      | (.ok created, o, _) =>
        let kind := if created.isEncrypted then ", encrypted" else ""
        match store source created with
        | (.error r, d) => (.failure r, settle o d)
        | (.ok count, d) =>
          (.success s!"{input} → {target.text} ({count} bytes{kind})\n", settle o d)

/-! ## Decrypting -/

/-- Copy what is in a resource into a file, which is emptied first; a resource that is in that very
    file has nothing left to give. -/
def extract (opened : Opened) (source : Except IoError Disk.Opened) (path : String) (d : Disk) :
    Except Report Unit × Disk :=
  match d.create path 0o644 with
  | (.error e, d) => (.error (.ofIo s!"creating {path}" e), d)
  | (.ok file, d) =>
    let opened := match source with
      | .ok (.file i) => if i = file.inode then opened.emptied else opened
      | _ => opened
    let (ending, data, _) := opened.readToEnd
    let (_, d) := d.write file data
    (ending.mapError (.ofIo "reading resource"), d)

/-- Read a resource, into a file or to be printed.  What was read before a failure is kept. -/
def decrypt (c : Config) (s : Surroundings) (uri : String) (output : Option String) (m : Machine) :
    Outcome × Machine :=
  match ResourcePath.parse uri with
  | .error e => (.failure (.ofResolve "parsing resource URI" e), m)
  | .ok source =>
    match (opener c s m).openPath source.handle m.disk with
    | (.error e, o) => (.ofResolve s!"opening {source.text}" e, settle o m.disk)
    | (.ok opened, o) =>
      match output with
      | some path =>
        match extract opened (m.disk.openRead source.path) path m.disk with
        | (.error r, d) => (.failure r, settle o d)
        | (.ok (), d) => (.success "", settle o d)
      | none =>
        let (ending, data, _) := opened.readToEnd
        match ending with
        | .error e => (⟨1, data, some (.ofIo "reading resource" e)⟩, settle o m.disk)
        | .ok () => (⟨0, data, none⟩, settle o m.disk)

/-! ## The other tasks -/

/-- See whether a passphrase is configured. -/
def checkPassphrase (c : Config) (s : Surroundings) (location : String) (m : Machine) :
    Outcome × Machine :=
  let (answer, channel, m) := (c.keyring.channel s.home).read location m
  let (_, m) := channel.close m
  match answer with
  | .error e => (.ofSecret s!"reading passphrase at '{location}'" e, m)
  | .ok secret => (.success s!"'{location}': configured ({secret.size} bytes)\n", m)

/-- See whether the holder of secrets is there. -/
def ping (c : Config) (s : Surroundings) (m : Machine) : Outcome × Machine :=
  let channel := c.keyring.channel s.home
  let (answer, used, m) := channel.ping m
  let (_, m) := used.close m
  match answer with
  | .error e => (.ofSecret "vfc-keyringd not reachable" e, m)
  | .ok () => (.success s!"vfc-keyringd: serving at {channel.config.socket}\n", m)

/-- A row of the table of backends. -/
def row (name backend block key status : String) : String :=
  s!"{name} {alignLeft 14 backend} {alignRight 6 block} {alignRight 6 key}  {status}\n"

/-- The row of an algorithm. -/
def rowOf (instructions : Bool) (a : Algorithm) : String :=
  match ((Cipher.Registry.builtin instructions).get a).1 with
  | .ok c =>
    row a.name c.name (toString c.blockSize) (toString c.keySize)
      s!"ok (interface {c.version.text})"
  | .error (.failed e) => row a.name "-" "-" "-" s!"unavailable: {e.message}"
  | .error .crashed => ""

/-- The table of backends. -/
def ciphers (instructions : Bool) : String :=
  let hardware := if instructions then "yes" else "no"
  s!"hardware AES: {hardware}\n\n" ++ row (alignLeft 10 "ALGORITHM") "BACKEND" "BLOCK" "KEY" "STATUS" ++
    String.join (Algorithm.all.map (rowOf instructions))

/-- The configuration, and where it comes from. -/
def showConfig (c : Config) (path : String) (d : Disk) : String :=
  let origin := if d.pathExists path then s!" from: {path}" else s!": defaults (no file at {path})"
  s!"# Configuration{origin}\n\n{c.toToml}"

/-! ## Running -/

/-- Carry out a task. -/
def perform (c : Config) (path : String) (s : Surroundings) (m : Machine) :
    Task → Outcome × Machine
  | .encrypt input uri => encrypt c s input uri m
  | .decrypt uri output => decrypt c s uri output m
  | .setPassphrase _ => (.failure (.ofIo "reading passphrase" .noDevice), m)
  | .checkPassphrase location => checkPassphrase c s location m
  | .ping => ping c s m
  | .ciphers => (.success (ciphers m.instructions), m)
  | .showConfig => (.success (showConfig c path m.disk), m)

/-- The configuration with what a command line sets. -/
def configure (c : Config) (g : Given) : Config :=
  match g.option? "socket" with
  | some path => { c with keyring.socket := path }
  | none => c

/-- Carry out a command line. -/
def run (args : List String) (s : Surroundings) (m : Machine) : Outcome × Machine :=
  match form.read s.environment args with
  | .error r => (.ofRefusal title r, m)
  | .ok given =>
    match Config.load given.configPath m.disk, task? given with
    | .error f, _ => (.failure (.ofFault f), m)
    | .ok _, none => (.ofRefusal title .usage, m)
    | .ok c, some task => perform (configure c given) given.configPath s m task

end Client

end Coffer.Command
