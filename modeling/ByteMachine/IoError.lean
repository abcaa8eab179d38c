import ByteMachine.Text.Numeral

/-!
# Input and output errors

What reading a file or writing output can fail with: a kind, which a program may
act on, and a text, which a person reads. The two are independent; an error of
the operating system takes both from its error number.
-/

namespace ByteMachine

namespace IoError

/-- What a failure comes down to. -/
inductive Kind
  | notFound
  | permissionDenied
  | connectionRefused
  | connectionReset
  | hostUnreachable
  | networkUnreachable
  | connectionAborted
  | notConnected
  | addrInUse
  | addrNotAvailable
  | networkDown
  | brokenPipe
  | alreadyExists
  | wouldBlock
  | notADirectory
  | isADirectory
  | directoryNotEmpty
  | readOnlyFilesystem
  | filesystemLoop
  | staleNetworkFileHandle
  | invalidInput
  | invalidData
  | timedOut
  | writeZero
  | storageFull
  | notSeekable
  | quotaExceeded
  | fileTooLarge
  | resourceBusy
  | executableFileBusy
  | deadlock
  | crossesDevices
  | tooManyLinks
  | invalidFilename
  | argumentListTooLong
  | interrupted
  | unsupported
  | unexpectedEof
  | outOfMemory
  | inProgress
  | other
  /-- A failure that belongs to no other kind. -/
  | uncategorized
deriving DecidableEq, Repr

def Kind.description : Kind → String
  | .notFound => "entity not found"
  | .permissionDenied => "permission denied"
  | .connectionRefused => "connection refused"
  | .connectionReset => "connection reset"
  | .hostUnreachable => "host unreachable"
  | .networkUnreachable => "network unreachable"
  | .connectionAborted => "connection aborted"
  | .notConnected => "not connected"
  | .addrInUse => "address in use"
  | .addrNotAvailable => "address not available"
  | .networkDown => "network down"
  | .brokenPipe => "broken pipe"
  | .alreadyExists => "entity already exists"
  | .wouldBlock => "operation would block"
  | .notADirectory => "not a directory"
  | .isADirectory => "is a directory"
  | .directoryNotEmpty => "directory not empty"
  | .readOnlyFilesystem => "read-only filesystem or storage medium"
  | .filesystemLoop => "filesystem loop or indirection limit (e.g. symlink loop)"
  | .staleNetworkFileHandle => "stale network file handle"
  | .invalidInput => "invalid input parameter"
  | .invalidData => "invalid data"
  | .timedOut => "timed out"
  | .writeZero => "write zero"
  | .storageFull => "no storage space"
  | .notSeekable => "seek on unseekable file"
  | .quotaExceeded => "quota exceeded"
  | .fileTooLarge => "file too large"
  | .resourceBusy => "resource busy"
  | .executableFileBusy => "executable file busy"
  | .deadlock => "deadlock"
  | .crossesDevices => "cross-device link or rename"
  | .tooManyLinks => "too many links"
  | .invalidFilename => "invalid filename"
  | .argumentListTooLong => "argument list too long"
  | .interrupted => "operation interrupted"
  | .unsupported => "unsupported"
  | .unexpectedEof => "unexpected end of file"
  | .outOfMemory => "out of memory"
  | .inProgress => "in progress"
  | .other => "other error"
  | .uncategorized => "uncategorized error"

end IoError

structure IoError where
  kind : IoError.Kind
  text : String
deriving DecidableEq, Repr

namespace IoError

/-- An error with nothing to say beyond its kind. -/
def ofKind (kind : Kind) : IoError :=
  ⟨kind, kind.description⟩

/-! ## Errors of the operating system -/

/-- The failures that a call to the operating system reports by number. -/
inductive Errno
  | noSuchFile
  | tryAgain
  | accessDenied
  | notADirectory
  | isADirectory
  | noSpaceLeft
  | brokenPipe
  | nameTooLong
deriving DecidableEq, Repr

namespace Errno

def all : List Errno :=
  [noSuchFile, tryAgain, accessDenied, notADirectory, isADirectory, noSpaceLeft, brokenPipe,
   nameTooLong]

def number : Errno → Nat
  | noSuchFile => 2
  | tryAgain => 11
  | accessDenied => 13
  | notADirectory => 20
  | isADirectory => 21
  | noSpaceLeft => 28
  | brokenPipe => 32
  | nameTooLong => 36

def ofNumber? (n : Nat) : Option Errno :=
  all.find? fun errno => errno.number == n

def kind : Errno → Kind
  | noSuchFile => .notFound
  | tryAgain => .wouldBlock
  | accessDenied => .permissionDenied
  | notADirectory => .notADirectory
  | isADirectory => .isADirectory
  | noSpaceLeft => .storageFull
  | brokenPipe => .brokenPipe
  | nameTooLong => .invalidFilename

def wording : Errno → String
  | noSuchFile => "No such file or directory"
  | tryAgain => "Resource temporarily unavailable"
  | accessDenied => "Permission denied"
  | notADirectory => "Not a directory"
  | isADirectory => "Is a directory"
  | noSpaceLeft => "No space left on device"
  | brokenPipe => "Broken pipe"
  | nameTooLong => "File name too long"

end Errno

def ofErrno (errno : Errno) : IoError :=
  ⟨errno.kind, errno.wording ++ " (os error " ++ Numeral.decimal errno.number ++ ")"⟩

/-! ## Errors raised here -/

/-- A file name cannot hold the character that ends it. -/
def nulInName : IoError := ⟨.invalidInput, "file name contained an unexpected NUL byte"⟩

def notUtf8 : IoError := ⟨.invalidData, "stream did not contain valid UTF-8"⟩

/-- A write call took nothing of what was offered. -/
def nothingWritten : IoError := ⟨.writeZero, "failed to write whole buffer"⟩

end IoError

end ByteMachine
