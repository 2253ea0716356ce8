import Collate.Entries
import Std.Data.ExtTreeSet

/-!
# Tables

A table has a column for each result file and a row for each key that any of
them holds. Rows ascend by key. A row is the key and then each column's value
after a tab; where a column lacks the key its cell is `0`. Nothing is escaped.
-/

namespace Collate

/-- A result file: where it was read, and what it holds. -/
structure Column where
  path : Bytes
  entries : Entries

namespace Column

/-- Read the result file at a path. -/
def read (storage : Storage) (path : Bytes) : Except ReadError Column :=
  (Entries.ofStream path (storage path)).map (Column.mk path)

/-- The cell of a column that lacks the row's key. -/
def missing : Bytes := Bytes.ofText "0"

/-- The cell of a column in a key's row. -/
def cell (column : Column) (key : Bytes) : Bytes :=
  column.entries.getD key missing

end Column

/-- The columns read before the first failure, and that failure, if any. -/
structure Reading where
  columns : List Column
  error : Option ReadError

namespace Reading

/-- Read paths in order, up to the first that fails. -/
def ofPaths (storage : Storage) : List Bytes -> Reading
  | [] => ⟨[], none⟩
  | path :: rest =>
      match Column.read storage path with
      | .error error => ⟨[], some error⟩
      | .ok column =>
          let others := ofPaths storage rest
          ⟨column :: others.columns, others.error⟩

end Reading

/-- The columns of a table from left to right. -/
structure Table where
  columns : List Column

namespace Table

/-- A table without columns. -/
def empty : Table := ⟨[]⟩

/-- The table of the result files at some paths, or the first error. -/
def load (storage : Storage) (paths : List Bytes) : Except ReadError Table :=
  let reading := Reading.ofPaths storage paths
  match reading.error with
  | none => .ok ⟨reading.columns⟩
  | some error => .error error

/-- The keys that any column holds, ascending. -/
def keys (table : Table) : List Bytes :=
  (Std.ExtTreeSet.ofList (table.columns.flatMap (·.entries.keys))).toList

/-- The pieces in which a row is written. -/
def rowPieces (table : Table) (key : Bytes) : List Bytes :=
  key :: table.columns.flatMap (fun column => [[Bytes.tab], column.cell key]) ++
    [[Bytes.lineFeed]]

/-- The pieces in which the table is written. -/
def pieces (table : Table) : List Bytes :=
  table.keys.flatMap table.rowPieces

/-- The table as it is written. -/
def render (table : Table) : Bytes :=
  table.pieces.flatten

end Table
end Collate
