import Coffer.Algorithm
import Coffer.Bytes
import Coffer.Cipher.Aes
import Coffer.Cipher.Aes.Key
import Coffer.Cipher.Aes.SBox
import Coffer.Cipher.Aes.State
import Coffer.Cipher.Backend
import Coffer.Cipher.Context
import Coffer.Cipher.Error
import Coffer.Cipher.Pool
import Coffer.Cipher.Registry
import Coffer.Command.Arguments
import Coffer.Command.Client
import Coffer.Command.Daemon
import Coffer.Command.Report
import Coffer.Config
import Coffer.Container.Header
import Coffer.Container.Padding
import Coffer.Container.Reader
import Coffer.Container.Writer
import Coffer.Digest.Blake2b
import Coffer.Digest.Blake3
import Coffer.Digest.Words
import Coffer.Disk.Calls
import Coffer.Disk.Path
import Coffer.Disk.Staged
import Coffer.Disk.Tree
import Coffer.Kdf.Argon2
import Coffer.Kdf.Cost
import Coffer.Kdf.Key
import Coffer.Keyring.Channel
import Coffer.Keyring.Error
import Coffer.Keyring.Passphrase
import Coffer.Keyring.Request
import Coffer.Keyring.Response
import Coffer.Keyring.SecretSource
import Coffer.Keyring.Server
import Coffer.Keyring.Store
import Coffer.Keyring.Wire
import Coffer.Machine
import Coffer.Main
import Coffer.Proofs.Bytes
import Coffer.Proofs.Cipher.Aes
import Coffer.Proofs.Cipher.Calls
import Coffer.Proofs.Cipher.Chaining
import Coffer.Proofs.Cipher.Construction
import Coffer.Proofs.Cipher.Context
import Coffer.Proofs.Cipher.Custody
import Coffer.Proofs.Cipher.Failure
import Coffer.Proofs.Cipher.Lifetime
import Coffer.Proofs.Cipher.Pool
import Coffer.Proofs.Cipher.Propagation
import Coffer.Proofs.Cipher.Registry
import Coffer.Proofs.Cipher.Representation
import Coffer.Proofs.Cipher.Schedule
import Coffer.Proofs.Cipher.Separation
import Coffer.Proofs.Command.Extracted
import Coffer.Proofs.Container.Body
import Coffer.Proofs.Container.Header
import Coffer.Proofs.Container.HoldBack
import Coffer.Proofs.Container.Layers
import Coffer.Proofs.Container.Layout
import Coffer.Proofs.Container.Padding
import Coffer.Proofs.Container.Reader
import Coffer.Proofs.Container.ToEnd
import Coffer.Proofs.Container.Unfinished
import Coffer.Proofs.Container.Unsealing
import Coffer.Proofs.Container.Writer
import Coffer.Proofs.Disk.Calls
import Coffer.Proofs.Disk.Desk
import Coffer.Proofs.Disk.Directories
import Coffer.Proofs.Disk.Parent
import Coffer.Proofs.Disk.Path
import Coffer.Proofs.Disk.Place
import Coffer.Proofs.Disk.Seen
import Coffer.Proofs.Disk.Staged
import Coffer.Proofs.Disk.Tree
import Coffer.Proofs.Kdf.Key
import Coffer.Proofs.Keyring.Confined
import Coffer.Proofs.Keyring.Connecting
import Coffer.Proofs.Keyring.Conversation
import Coffer.Proofs.Keyring.Failure
import Coffer.Proofs.Keyring.Freshness
import Coffer.Proofs.Keyring.Link
import Coffer.Proofs.Keyring.Neighbours
import Coffer.Proofs.Keyring.Passphrase
import Coffer.Proofs.Keyring.Received
import Coffer.Proofs.Keyring.Request
import Coffer.Proofs.Keyring.Responded
import Coffer.Proofs.Keyring.Response
import Coffer.Proofs.Keyring.Session
import Coffer.Proofs.Keyring.Shared
import Coffer.Proofs.Keyring.Store
import Coffer.Proofs.Keyring.Stored
import Coffer.Proofs.Keyring.Watched
import Coffer.Proofs.Keyring.Wire
import Coffer.Proofs.Outcome
import Coffer.Proofs.Resource.Escaped
import Coffer.Proofs.Resource.Local
import Coffer.Proofs.Resource.Opening
import Coffer.Proofs.Resource.Path
import Coffer.Proofs.Resource.Printed
import Coffer.Proofs.Resource.Requested
import Coffer.Proofs.Resource.RoundTrip
import Coffer.Proofs.Stream.Sink
import Coffer.Proofs.Stream.Source
import Coffer.Proofs.Text.Blank
import Coffer.Proofs.Text.Escape
import Coffer.Proofs.Text.Percent
import Coffer.Proofs.Text.Split
import Coffer.Resource.Error
import Coffer.Resource.Local
import Coffer.Resource.Opening
import Coffer.Resource.Path
import Coffer.Resource.Policy
import Coffer.Stream.Error
import Coffer.Stream.Sink
import Coffer.Stream.Source
import Coffer.Text.Blank
import Coffer.Text.Double
import Coffer.Text.Percent
import Coffer.Text.Quoted
import Coffer.Text.Span
import Coffer.Text.Split
import Coffer.Text.Unprinted
import Coffer.Toml.Blank
import Coffer.Toml.Date
import Coffer.Toml.Decode
import Coffer.Toml.Document
import Coffer.Toml.Finding
import Coffer.Toml.Number
import Coffer.Toml.Printer
import Coffer.Toml.Reader
import Coffer.Toml.Tables
import Coffer.Toml.Text
import Coffer.Toml.Value
