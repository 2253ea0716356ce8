import Collate.Failure
import Collate.Utf8

/-!
# Errors and how they are told

Reading a result file fails because the file cannot be read or because a line
does not hold a key and a value. An error is told by a message and, where
something else caused it, by that cause.
-/

namespace Collate

/-- A message and the text of what caused it, if anything did. -/
structure Diagnosis where
  message : Bytes
  cause : Option Bytes
  deriving DecidableEq

namespace Diagnosis

/-- Set every line of a text in by four spaces, empty lines included. -/
def indent (text : Bytes) : Bytes :=
  List.intercalate [Bytes.lineFeed]
    ((Bytes.splitOn Bytes.lineFeed text).map (Bytes.ofText "    " ++ ·))

/-- The message and its cause on one line, as far as they hold no line feed. -/
def chain (diagnosis : Diagnosis) : Bytes :=
  match diagnosis.cause with
  | none => diagnosis.message
  | some cause => diagnosis.message ++ Bytes.ofText ": " ++ cause

/-- The message, and below it the cause, set in. -/
def report (diagnosis : Diagnosis) : Bytes :=
  match diagnosis.cause with
  | none => diagnosis.message
  | some cause =>
      diagnosis.message ++ Bytes.ofText "\n\nCaused by:\n" ++ indent cause

end Diagnosis

/-- Why a result file has no entries to give. -/
inductive ReadError
  /-- The file cannot be opened, or reading it fails midway. -/
  | unreadable (path : Bytes) (failure : Failure)
  /-- A line, counted from one, has neither no field nor two. -/
  | malformed (path : Bytes) (line fieldCount : Nat)
  deriving DecidableEq

namespace ReadError

/-- What went wrong, with the path shown as text. -/
def message : ReadError -> Bytes
  | unreadable path _ => Bytes.ofText "cannot read " ++ Utf8.repair path
  | malformed path line fieldCount =>
      Utf8.repair path ++ Bytes.ofText ":" ++ Bytes.decimal line ++
        Bytes.ofText ": expected `<key> <value>`, found " ++
        Bytes.decimal fieldCount ++ Bytes.ofText " field(s)"

/-- The text of the failure behind the error. -/
def cause : ReadError -> Option Bytes
  | unreadable _ failure => some failure.text
  | malformed .. => none

/-- The error as it is told. -/
def diagnosis (error : ReadError) : Diagnosis :=
  ⟨error.message, error.cause⟩

end ReadError
end Collate
