import Collate.Bytes

/-!
# Failures of input and output

A failure has a kind and a text that names the cause.
-/

namespace Collate

/-- What kind of obstacle reading or writing met. An interruption is none of them:
whoever is interrupted tries again. -/
inductive FailureKind
  | notFound
  | permissionDenied
  | alreadyExists
  | directoryNotEmpty
  | notADirectory
  | isADirectory
  | filesystemLoop
  | invalidFilename
  | invalidInput
  | invalidData
  | timedOut
  | writeZero
  | storageFull
  | brokenPipe
  | unexpectedEof
  | other
  deriving DecidableEq, Repr

/-- An obstacle to reading or writing, with a text that names the cause. -/
structure Failure where
  kind : FailureKind
  text : Bytes
  deriving DecidableEq

namespace Failure

/-- A line is not a sequence of whole characters. -/
def notText : Failure :=
  ⟨.invalidData, Bytes.ofText "stream did not contain valid UTF-8"⟩

/-- No file stands at the path. -/
def notFound : Failure :=
  ⟨.notFound, Bytes.ofText "No such file or directory (os error 2)"⟩

/-- The path leads through something that is no directory. -/
def notADirectory : Failure :=
  ⟨.notADirectory, Bytes.ofText "Not a directory (os error 20)"⟩

/-- A directory stands where a file is wanted. -/
def isADirectory : Failure :=
  ⟨.isADirectory, Bytes.ofText "Is a directory (os error 21)"⟩

/-- Something stands where nothing may stand yet. -/
def alreadyExists : Failure :=
  ⟨.alreadyExists, Bytes.ofText "File exists (os error 17)"⟩

/-- Something stands below a directory that would be replaced. -/
def directoryNotEmpty : Failure :=
  ⟨.directoryNotEmpty, Bytes.ofText "Directory not empty (os error 39)"⟩

/-- A directory would come to stand inside itself. -/
def invalidArgument : Failure :=
  ⟨.invalidInput, Bytes.ofText "Invalid argument (os error 22)"⟩

/-- The path leads through too many links. -/
def filesystemLoop : Failure :=
  ⟨.filesystemLoop, Bytes.ofText "Too many levels of symbolic links (os error 40)"⟩

/-- A name in the path, or the whole path, is too long. -/
def nameTooLong : Failure :=
  ⟨.invalidFilename, Bytes.ofText "File name too long (os error 36)"⟩

/-- The path holds a zero octet. -/
def zeroOctet : Failure :=
  ⟨.invalidInput, Bytes.ofText "file name contained an unexpected NUL byte"⟩

/-- A writer took nothing of what it was given. -/
def nothingTaken : Failure :=
  ⟨.writeZero, Bytes.ofText "failed to write whole buffer"⟩

/-- A writer took nothing of what was held back from it. -/
def heldBack : Failure :=
  ⟨.writeZero, Bytes.ofText "failed to write the buffered data"⟩

/-- The device has no room left. -/
def storageFull : Failure :=
  ⟨.storageFull, Bytes.ofText "No space left on device (os error 28)"⟩

/-- Nobody reads the pipe any more. -/
def brokenPipe : Failure :=
  ⟨.brokenPipe, Bytes.ofText "Broken pipe (os error 32)"⟩

end Failure
end Collate
