import Coffer.Disk.Calls
import Coffer.Keyring.Channel
import Coffer.Resource.Opening
import Coffer.Toml.Decode
import Coffer.Toml.Document
import Coffer.Toml.Printer
/-
  Configuration.

  A `Config` has four sections and one setting of its own.  It is read from a TOML file, in which
  everything may be left out and unknown names mean nothing; a file that is not there counts as one
  that was not checked.  A section may also be written as an array of its settings in their order.

  * `Config.ofToml`, `Config.toToml` — reading and printing;
  * `Config.load`                    — the configuration in a file;
  * `Config.options`, `KeyringConfig.channel` — what openers and channels take from it.
-/
namespace Coffer

open Toml (Decoder Setting)

/-! ## Settings -/

/-- Settings of the secret holder. -/
structure DaemonConfig where
  /-- The socket it listens at. -/
  socket : String := "/run/vfcrypt/keyring.sock"
  logLevel : String := "info"
  logFormat : String := "text"
  deriving DecidableEq, Repr

/-- Settings of a client's channel. -/
structure KeyringConfig where
  socket : String := "/run/vfcrypt/keyring.sock"
  /-- Attempts to connect beyond the first one. -/
  connectRetries : UInt32 := 3
  /-- Milliseconds between attempts. -/
  retryBackoff : UInt64 := 200
  /-- Milliseconds that a request may take. -/
  ioTimeout : UInt64 := 5000
  readOnly : Bool := true
  deriving DecidableEq, Repr

/-- Settings of the store of secrets. -/
structure StoreConfig where
  dir : String := "~/.config/vfcrypt/secrets"
  /-- The secret of resources that name none. -/
  defaultLocation : String := "default"
  deriving DecidableEq, Repr

/-- Settings of ciphers and key derivation. -/
structure CryptoConfig where
  defaultAlgorithm : Algorithm := .aes
  cost : Kdf.Cost := .standard
  deriving DecidableEq, Repr

/-- The whole configuration. -/
structure Config where
  daemon : DaemonConfig := {}
  keyring : KeyringConfig := {}
  store : StoreConfig := {}
  crypto : CryptoConfig := {}
  /-- Warn when everybody can read the file. -/
  checkFileMode : Bool
  deriving DecidableEq, Repr

/-! ## Reading -/

/-- The settings of the daemon's section. -/
def DaemonConfig.settings : List (Setting DaemonConfig) :=
  [.of "socket" (Decoder.text "path string") fun s d => { d with socket := s },
   .of "log_level" (Decoder.text "a string") fun s d => { d with logLevel := s },
   .of "log_format" (Decoder.text "a string") fun s d => { d with logFormat := s }]

/-- The settings of the channel's section. -/
def KeyringConfig.settings : List (Setting KeyringConfig) :=
  [.of "socket" (Decoder.text "path string") fun s k => { k with socket := s },
   .of "connect_retries" (Decoder.natural 32) fun n k => { k with connectRetries := .ofNat n },
   .of "retry_backoff_ms" (Decoder.natural 64) fun n k => { k with retryBackoff := .ofNat n },
   .of "io_timeout_ms" (Decoder.natural 64) fun n k => { k with ioTimeout := .ofNat n },
   .of "read_only" Decoder.boolean fun b k => { k with readOnly := b }]

/-- The settings of the store's section. -/
def StoreConfig.settings : List (Setting StoreConfig) :=
  [.of "dir" (Decoder.text "path string") fun s c => { c with dir := s },
   .of "default_location" (Decoder.text "a string") fun s c => { c with defaultLocation := s }]

/-- The settings of the ciphers' section. -/
def CryptoConfig.settings : List (Setting CryptoConfig) :=
  [.of "default_algorithm" (Decoder.choice (Algorithm.all.map fun a => (a.name, a)))
     fun a c => { c with defaultAlgorithm := a },
   .of "argon2_mem_cost_kib" (Decoder.natural 32)
     fun n c => { c with cost := { c.cost with memory := .ofNat n } },
   .of "argon2_time_cost" (Decoder.natural 32)
     fun n c => { c with cost := { c.cost with passes := .ofNat n } },
   .of "argon2_parallelism" (Decoder.natural 32)
     fun n c => { c with cost := { c.cost with lanes := .ofNat n } }]

namespace Config

/-- The settings of a document. -/
def settings : List (Setting Config) :=
  [.of "daemon" (Decoder.record "struct DaemonConfig" DaemonConfig.settings {})
     fun d c => { c with daemon := d },
   .of "keyring" (Decoder.record "struct KeyringConfig" KeyringConfig.settings {})
     fun k c => { c with keyring := k },
   .of "store" (Decoder.record "struct StoreConfig" StoreConfig.settings {})
     fun s c => { c with store := s },
   .of "crypto" (Decoder.record "struct CryptoConfig" CryptoConfig.settings {})
     fun s c => { c with crypto := s },
   .of "config_file_mode_check" Decoder.boolean fun b c => { c with checkFileMode := b }]

/-- The configuration when there is no file. -/
def standard : Config := { checkFileMode := false }

/-- The configuration in the text of a document. -/
def ofToml (text : String) : Except Toml.Finding Config := do
  Decoder.assignNamed settings (← Toml.read text) { checkFileMode := true }

/-! ## Printing -/

/-- The document of a configuration. -/
def toToml (c : Config) : String :=
  let text := Toml.printText
  "\n".intercalate
    [Toml.printEntry "config_file_mode_check" (Toml.printBool c.checkFileMode),
     Toml.printTable "daemon"
       [("socket", text c.daemon.socket), ("log_level", text c.daemon.logLevel),
        ("log_format", text c.daemon.logFormat)],
     Toml.printTable "keyring"
       [("socket", text c.keyring.socket),
        ("connect_retries", toString c.keyring.connectRetries.toNat),
        ("retry_backoff_ms", toString c.keyring.retryBackoff.toNat),
        ("io_timeout_ms", toString c.keyring.ioTimeout.toNat),
        ("read_only", Toml.printBool c.keyring.readOnly)],
     Toml.printTable "store"
       [("dir", text c.store.dir), ("default_location", text c.store.defaultLocation)],
     Toml.printTable "crypto"
       [("default_algorithm", text c.crypto.defaultAlgorithm.name),
        ("argon2_mem_cost_kib", toString c.crypto.cost.memory.toNat),
        ("argon2_time_cost", toString c.crypto.cost.passes.toNat),
        ("argon2_parallelism", toString c.crypto.cost.lanes.toNat)]]

/-! ## Files -/

/-- Why a file gives no configuration. -/
inductive Fault
  | unreadable (path : String) (reason : String)
  /-- The report says where the document is wrong, and why. -/
  | malformed (path : String) (report : String)
  deriving DecidableEq, Repr

/-- The text of a fault. -/
def Fault.message : Fault → String
  | unreadable path reason => s!"config error: reading config {path}: {reason}"
  | malformed path report => s!"config error: parsing config {path}: {report}"

/-- The configuration in a file, or the standard one if there is none. -/
def load (path : String) (d : Disk) : Except Fault Config :=
  if !d.pathExists path then .ok standard
  else
    match d.readFile path with
    | .error e => .error (.unreadable path e.message)
    | .ok b =>
      match ofUtf8? b with
      | none => .error (.unreadable path "stream did not contain valid UTF-8")
      | some text =>
        match ofToml text with
        | .error finding => .error (.malformed path (finding.report text))
        | .ok c => .ok c

/-! ## Use -/

/-- What openers take from a configuration. -/
def options (c : Config) : Resource.Options :=
  ⟨c.store.defaultLocation, c.crypto.defaultAlgorithm, c.crypto.cost⟩

end Config

namespace KeyringConfig

/-- How a channel connects, given the home directory. -/
def channelConfig (k : KeyringConfig) (home : Option String) : Keyring.ChannelConfig :=
  ⟨Path.expandTilde home k.socket, k.connectRetries, k.retryBackoff.toNat, k.ioTimeout.toNat⟩

/-- What a channel may ask for. -/
def mode (k : KeyringConfig) : Keyring.AccessMode := if k.readOnly then .readOnly else .readWrite

/-- The channel of a configuration. -/
def channel (k : KeyringConfig) (home : Option String) : Keyring.Channel :=
  .new (k.channelConfig home) k.mode

end KeyringConfig

end Coffer
