import Collate.Program

/-!
# The command

Reads the files that the arguments name, runs the program on what they hold,
and passes its output, its complaints and its exit status on.
-/

namespace Collate
namespace Command

/-- The variable that holds the log setting. -/
def logVariable : String := "RUST_LOG"

/-- Octets in the form in which they are written. -/
def packed (bytes : Bytes) : ByteArray := ⟨bytes.toArray⟩

/-- The number by which the system names an error, whatever its sign. -/
def codeOf (error : IO.Error) : Nat :=
  let code :=
    match error with
    | .noFileOrDirectory _ code _ => code
    | .invalidArgument _ code _ => code
    | .permissionDenied _ code _ => code
    | .resourceExhausted _ code _ => code
    | .inappropriateType _ code _ => code
    | .resourceVanished code _ => code
    | _ => 0
  code.toInt32.toInt.natAbs

/-- The failure that an error of the system stands for. -/
def failureOf (error : IO.Error) : Failure :=
  match codeOf error with
  | 2 => .notFound
  | 13 => ⟨.permissionDenied, Bytes.ofText "Permission denied (os error 13)"⟩
  | 20 => .notADirectory
  | 21 => .isADirectory
  | 28 => .storageFull
  | 32 => .brokenPipe
  | 36 => .nameTooLong
  | 40 => .filesystemLoop
  | _ => ⟨.other, Bytes.ofText error.toString⟩

/-- Read the file at a path that is text. -/
def readText (path : String) : IO Stream := do
  try
    return { body := (← IO.FS.readBinFile path).data.toList }
  catch error =>
    return .failing (failureOf error)

/-- Read the file at a path. -/
def readFile (path : Bytes) : IO Stream :=
  match String.fromUTF8? (packed path) with
  | some text => readText text
  | none => return .failing .notFound

/-- The files that arguments ask for. -/
def asked (arguments : List Bytes) : List Bytes :=
  match Invocation.ofArguments arguments with
  | .ok invocation => invocation.files
  | .error _ => []

/-- Read the files that arguments ask for. -/
def readFiles (arguments : List Bytes) : IO Storage := do
  let files ← (asked arguments).mapM fun path => return (path, ← readFile path)
  return fun path => (files.lookup path).getD (.failing .notFound)

/-- Write an output, and tell where it went. -/
def writeOutput (output : Bytes) : IO Destination := do
  try
    let device ← IO.getStdout
    device.write (packed output)
    device.flush
    return .accepting
  catch error =>
    return if (failureOf error).kind = .storageFull then .full else .closed

/-- Write complaints. Those about wrong usage lack their line feed. -/
def writeComplaints (outcome : Outcome) : IO Unit := do
  let device ← IO.getStderr
  device.write (packed outcome.complaints)
  if outcome.status = .usage then device.write (packed [Bytes.lineFeed])

/-- Run the program on the files of the system, and give its exit status. -/
def run (arguments : List Bytes) : IO UInt32 := do
  let storage ← readFiles arguments
  let setting := (← IO.getEnv logVariable).map Bytes.ofText
  let outcomeFor := fun destination =>
    Program.run storage destination setting arguments
  let destination ← writeOutput (outcomeFor .accepting).output
  let outcome := outcomeFor destination
  writeComplaints outcome
  return outcome.status.code.toUInt32

end Command
end Collate

/-- The command. -/
def main (arguments : List String) : IO UInt32 :=
  Collate.Command.run (arguments.map Collate.Bytes.ofText)
