import Collate.Proofs.Runs
import Collate.Proofs.TableRows
import Mathlib.Algebra.GroupWithZero.Nat

/-!
# The log agrees with the table

A run counts three times: the keys of each file when it is read, the keys of the
table when all are read, and it ends each row that it writes with a line feed.
The counts fit together. A table has one key for every row, and its keys are
those of its columns, each of them once, however many columns hold it; and no
cell holds a line feed, so that the line feeds of the output count the rows.
-/

namespace Collate

open Bytes (lineFeed)

namespace Table

/-! ## Rows and line feeds -/

theorem count_lineFeed_rows
    {rows : List Bytes}
    (unbroken : ∀ row ∈ rows, lineFeed ∉ row) :
    (rows.flatMap (· ++ [lineFeed])).count lineFeed = rows.length := by
  induction rows with
  | nil => rfl
  | cons row rows hypothesis =>
      obtain ⟨rowUnbroken, othersUnbroken⟩ := List.forall_mem_cons.mp unbroken
      rw [List.flatMap_cons, List.count_append, List.count_append,
        List.count_eq_zero.mpr rowUnbroken, hypothesis othersUnbroken, List.length_cons]
      simp [Nat.add_comm]

/-- The line feeds of a table whose cells are enclosed count its keys. -/
theorem count_lineFeed_render
    {table : Table}
    (enclosed : ∀ key ∈ table.keys, ∀ cell ∈ table.cells key, Enclosed cell) :
    table.render.count lineFeed = table.keys.length := by
  rw [render_eq, count_lineFeed_rows, List.length_map]
  intro row member
  obtain ⟨key, keyMember, rfl⟩ := List.mem_map.mp member
  exact lineFeed_not_mem_row (enclosed key keyMember)

/-! ## Keys of a table and of its columns -/

theorem nodup_keys (table : Table) : table.keys.Nodup := by
  apply table.keys_ascending.imp
  intro left right ascending equal
  rw [equal] at ascending
  exact List.lt_irrefl right ascending

theorem size_le_length_keys
    {table : Table}
    {column : Column}
    (member : column ∈ table.columns) :
    column.entries.size ≤ table.keys.length := by
  rw [← Std.ExtTreeMap.length_keys]
  apply Std.ExtTreeMap.nodup_keys.length_le_of_subset
  intro key present
  exact mem_keys_iff.mpr ⟨column, member, Std.ExtTreeMap.mem_keys.mp present⟩

theorem length_keys_le_sum_sizes (table : Table) :
    table.keys.length ≤ (table.columns.map (·.entries.size)).sum := by
  have gathered : table.keys.length ≤ (table.columns.flatMap (·.entries.keys)).length := by
    apply table.nodup_keys.length_le_of_subset
    intro key present
    obtain ⟨column, member, held⟩ := mem_keys_iff.mp present
    exact List.mem_flatMap.mpr ⟨column, member, Std.ExtTreeMap.mem_keys.mpr held⟩
  have sizes : table.columns.map (·.entries.keys.length) =
      table.columns.map (·.entries.size) := by
    apply List.map_congr_left
    intro column _
    exact Std.ExtTreeMap.length_keys
  rwa [List.length_flatMap, sizes] at gathered

end Table

namespace Entries

/-- Only a stream that ends is accepted. -/
theorem stream_eq_of_ofStream_eq_ok
    {path : Bytes}
    {stream : Stream}
    {entries : Entries}
    (accepted : ofStream path stream = .ok entries) :
    stream = { body := stream.body } := by
  obtain ⟨body, failure⟩ := stream
  cases failure with
  | none => rfl
  | some failure =>
      unfold ofStream at accepted
      cases added : addLines path 1 ∅ (Stream.lines ⟨body, some failure⟩) <;>
        simp [added] at accepted

end Entries

namespace Reading.Complete

variable
  {storage : Storage}
  {paths : List Bytes}
  {columns : List Column}

/-- What can be read is what the bodies hold. -/
theorem accepted (complete : Complete storage paths columns) :
    Table.Accepted (paths.map fun path => (storage path).body) columns := by
  induction complete with
  | nil => exact .nil
  | cons first _ hypothesis =>
      obtain ⟨rfl, read⟩ := first
      rw [Entries.stream_eq_of_ofStream_eq_ok read] at read
      exact .cons read hypothesis

theorem keyCounts (complete : Complete storage paths columns) :
    List.Forall₂ (fun path count => Entries.KeyCount (storage path).body count)
      paths (columns.map (·.entries.size)) := by
  rw [List.forall₂_map_right_iff]
  apply List.Forall₂.imp _ complete
  rintro path column ⟨rfl, read⟩
  rw [Entries.stream_eq_of_ofStream_eq_ok read] at read
  exact Entries.keyCount_size read

end Reading.Complete

namespace Program

/-! ## Counts that a run logs -/

/-- Where log lines are shown and every file can be read, a run tells the number
of different keys of each file, in order, and then the number of rows, which the
line feeds of the output count, and of columns. No file has more keys than there
are rows, and there are no more rows than keys of all files together. -/
theorem log_counts_keys_and_rows
    (storage : Storage)
    (setting : Option Bytes)
    (arguments : List Bytes)
    (invocation : Invocation)
    (accepted : Invocation.ofArguments arguments = .ok invocation)
    (readable : ∀ path ∈ invocation.files,
      ∃ entries, Entries.ofStream path (storage path) = .ok entries)
    (shown : (LogFilter.ofDirectives (LogFilter.stated setting)
      invocation.verbose).shows Event.target = true) :
    let files := invocation.files
    let outcome := run storage .accepting setting arguments
    let rows := outcome.output.count lineFeed
    ∃ (names : List Bytes) (pairs : List Nat),
      List.Forall₂
        (fun path name =>
          Utf8.ShownAs path name ∧ ∀ text, path = Bytes.ofText text -> name = path)
        files names ∧
      List.Forall₂ (fun path count => Entries.KeyCount (storage path).body count)
        files pairs ∧
      outcome.complaints = fileLines names pairs ++ tableLine rows files.length ∧
      (∀ count ∈ pairs, count ≤ rows) ∧
      rows ≤ pairs.sum := by
  intro files outcome rows
  obtain ⟨columns, complete⟩ := Reading.exists_complete_iff.mpr readable
  obtain ⟨names, shows, lines⟩ := exists_names complete
  have ran : outcome =
      ⟨.success, (Table.mk columns).render,
        fileLines names (columns.map (·.entries.size)) ++
          tableLine (Table.mk columns).keys.length columns.length⟩ := by
    change run storage .accepting setting arguments = _
    rw [run_of_accepted accepted, shown, merge_of_complete complete, deliver_of_accepting,
      log_complete, if_pos rfl, lines]
  have counted : rows = (Table.mk columns).keys.length := by
    change outcome.output.count lineFeed = _
    rw [ran]
    exact Table.count_lineFeed_render complete.accepted.enclosed_cells
  refine ⟨names, columns.map (·.entries.size), ?_, complete.keyCounts, ?_, ?_, ?_⟩
  · apply List.Forall₂.imp _ shows
    intro path name showsPath
    refine ⟨showsPath, fun text spelled => ?_⟩
    have valid : Utf8.Valid path := Utf8.valid_iff_exists_text.mpr ⟨text, spelled⟩
    exact showsPath.unique (Utf8.shownAs_of_valid valid)
  · rw [ran, counted, complete.length_eq]
  · intro count member
    obtain ⟨column, columnMember, rfl⟩ := List.mem_map.mp member
    rw [counted]
    exact Table.size_le_length_keys columnMember
  · rw [counted]
    exact Table.length_keys_le_sum_sizes ⟨columns⟩

/-- Two files of two keys each, one of them in both and given twice in the first,
make three rows. The path of the second is no text, and is shown as one. -/
theorem shared_key_has_one_row :
    let storage : Storage := fun path =>
      if path = Bytes.ofText "a" then ⟨Bytes.ofText "k 1\nb 3\nk 2\n", none⟩
      else ⟨Bytes.ofText "k 9\n\nc 4", none⟩
    let files := [Bytes.ofText "a", [0x62, 0xC3]]
    let arguments := Bytes.ofText "--verbose" :: files
    let outcome := run storage .accepting none arguments
    Invocation.ofArguments arguments = .ok ⟨files, true⟩ ∧
      (∀ path ∈ files,
        ∃ entries, Entries.ofStream path (storage path) = .ok entries) ∧
      outcome.output = Bytes.ofText "b\t3\t0\nc\t0\t4\nk\t2\t9\n" ∧
      outcome.complaints =
        Bytes.ofText "DEBUG kvmerge::merge: read result file path=a pairs=2\n" ++
        Bytes.ofText "DEBUG kvmerge::merge: read result file path=b\uFFFD pairs=2\n" ++
        Bytes.ofText "DEBUG kvmerge::merge: merged result files rows=3 columns=2\n" ∧
      ∃ pairs : List Nat,
        List.Forall₂ (fun path count => Entries.KeyCount (storage path).body count)
          files pairs ∧
        (∀ count ∈ pairs, count ≤ 3) ∧ 3 ≤ pairs.sum := by
  intro storage files arguments outcome
  have accepted : Invocation.ofArguments arguments = .ok ⟨files, true⟩ := rfl
  have readable : ∀ path ∈ files,
      ∃ entries, Entries.ofStream path (storage path) = .ok entries := by
    intro path member
    rcases List.mem_cons.mp member with rfl | member
    · exact ⟨_, rfl⟩
    · rw [List.mem_singleton.mp member]
      exact ⟨_, rfl⟩
  have output : outcome.output = Bytes.ofText "b\t3\t0\nc\t0\t4\nk\t2\t9\n" := by
    decide +kernel
  have rows : outcome.output.count lineFeed = 3 := by
    rw [output]
    rfl
  obtain ⟨_, pairs, _, counts, _, bounded, total⟩ :=
    log_counts_keys_and_rows storage none arguments ⟨files, true⟩ accepted readable rfl
  rw [rows] at bounded total
  exact ⟨accepted, readable, output, by decide +kernel, pairs, counts, bounded, total⟩

end Program
end Collate
