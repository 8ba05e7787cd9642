/-
  Failures of input and output.

  An `IoError` has a kind, by which programs decide what to do, and a text for people.  Failures
  that the operating system reports carry its number in their text.
-/
namespace Coffer

/-- What sort of failure it was. -/
inductive IoErrorKind
  | notFound
  | connectionRefused
  | connectionReset
  | brokenPipe
  | alreadyExists
  | addrInUse
  | resourceBusy
  | wouldBlock
  | notADirectory
  | isADirectory
  | invalidInput
  | invalidData
  | invalidFilename
  | timedOut
  | writeZero
  | interrupted
  | unexpectedEof
  | other
  /-- A failure without a class of its own. -/
  | uncategorized
  deriving DecidableEq, Repr

/-- A failure of input or output. -/
structure IoError where
  kind : IoErrorKind
  message : String
  deriving DecidableEq, Repr

namespace IoError

/-- No such file or directory. -/
def noEntry : IoError := ⟨.notFound, "No such file or directory (os error 2)"⟩

/-- A file that cannot be opened for reading and writing. -/
def noDevice : IoError := ⟨.uncategorized, "No such device or address (os error 6)"⟩

/-- A name that the system keeps for itself, such as `.` or `..`. -/
def busy : IoError := ⟨.resourceBusy, "Device or resource busy (os error 16)"⟩

/-- A file is where none may be. -/
def fileExists : IoError := ⟨.alreadyExists, "File exists (os error 17)"⟩

/-- A path leads through something that is no directory. -/
def notDirectory : IoError := ⟨.notADirectory, "Not a directory (os error 20)"⟩

/-- A directory is where a file is needed. -/
def isDirectory : IoError := ⟨.isADirectory, "Is a directory (os error 21)"⟩

/-- The other side of a connection is gone. -/
def brokenPipe : IoError := ⟨.brokenPipe, "Broken pipe (os error 32)"⟩

/-- A path that names nothing where a name is needed. -/
def invalidArgument : IoError := ⟨.invalidInput, "Invalid argument (os error 22)"⟩

/-- A path or a name in it is too long. -/
def nameTooLong : IoError := ⟨.invalidFilename, "File name too long (os error 36)"⟩

/-- A file is where a socket was to be put. -/
def addressInUse : IoError := ⟨.addrInUse, "Address already in use (os error 98)"⟩

/-- The other side dropped a connection with data unread. -/
def connectionReset : IoError := ⟨.connectionReset, "Connection reset by peer (os error 104)"⟩

/-- Nobody listens at a socket. -/
def connectionRefused : IoError := ⟨.connectionRefused, "Connection refused (os error 111)"⟩

/-- A path with a zero byte, which no system call takes. -/
def zeroInPath : IoError := ⟨.invalidInput, "file name contained an unexpected NUL byte"⟩

/-- A socket's path with a zero byte. -/
def zeroInSocketPath : IoError := ⟨.invalidInput, "paths must not contain interior null bytes"⟩

/-- A path that is too long for a socket. -/
def socketPathTooLong : IoError := ⟨.invalidInput, "path must be shorter than SUN_LEN"⟩

/-- A name that is too long for a socket outside the disk. -/
def socketNameTooLong : IoError :=
  ⟨.invalidInput, "abstract socket name must be shorter than SUN_LEN"⟩

/-- Bytes were to be written and none were taken. -/
def wroteNothing : IoError := ⟨.writeZero, "failed to write whole buffer"⟩

/-- A stream ended before a buffer was full. -/
def endedEarly : IoError := ⟨.unexpectedEof, "failed to fill whole buffer"⟩

end IoError

end Coffer
