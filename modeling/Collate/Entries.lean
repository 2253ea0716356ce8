import Collate.Fields
import Collate.ReadError
import Collate.Stream
import Std.Data.ExtTreeMap

/-!
# Entries of a result file

A result file holds lines of a key and a value, parted by blanks. Lines without
a field are passed over, and the last value of a key counts. The first line
that is not text, or that has another number of fields, is the error; a failure
of the stream is the error only when all lines before it are sound.
-/

namespace Collate

/-- The values of a result file by key. Equal look-ups make equal entries. -/
abbrev Entries := Std.ExtTreeMap Bytes Bytes

/-- Why a line is not sound. -/
inductive LineFault
  /-- The line is not a sequence of whole characters. -/
  | notText
  /-- The line has this number of fields, neither none nor two. -/
  | fieldCount (count : Nat)
  deriving DecidableEq

namespace LineFault

/-- The error for a fault on the line with this number. -/
def toError (path : Bytes) (number : Nat) : LineFault -> ReadError
  | notText => .unreadable path .notText
  | fieldCount count => .malformed path number count

end LineFault

namespace Entries

/-- The key and the value of a line, or nothing for a line without a field. -/
def ofLine (line : Bytes) : Except LineFault (Option (Bytes × Bytes)) :=
  if Utf8.Valid line then
    match Fields.ofBytes line with
    | [] => .ok none
    | [key, value] => .ok (some (key, value))
    | fields => .error (.fieldCount fields.length)
  else .error .notText

/-- Add lines to entries, where the first line has the given number. -/
def addLines
    (path : Bytes) : Nat -> Entries -> List Bytes -> Except ReadError Entries
  | _, entries, [] => .ok entries
  | number, entries, line :: rest =>
      match ofLine line with
      | .error fault => .error (fault.toError path number)
      | .ok none => addLines path (number + 1) entries rest
      | .ok (some (key, value)) =>
          addLines path (number + 1) (entries.insert key value) rest

/-- The entries that a stream delivers. The path only names it in errors. -/
def ofStream (path : Bytes) (stream : Stream) : Except ReadError Entries :=
  match addLines path 1 ∅ stream.lines, stream.failure with
  | .error error, _ => .error error
  | .ok _, some failure => .error (.unreadable path failure)
  | .ok entries, none => .ok entries

/-- Entries with pairs put in one after another, a later value replacing an
earlier one. -/
def insertAll (entries : Entries) (pairs : List (Bytes × Bytes)) : Entries :=
  pairs.foldl (fun entries (key, value) => entries.insert key value) entries

/-- The entries that hold just some pairs. -/
def ofPairs (pairs : List (Bytes × Bytes)) : Entries :=
  insertAll ∅ pairs

end Entries
end Collate
