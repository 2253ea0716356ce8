import Collate.Proofs.ParsedEntries
import Collate.Table
import Mathlib.Data.List.Forall2

/-!
# A table read back from its text

Nothing in a table is escaped, so its text can be cut back into cells only if
no cell holds a tab or a line feed. Cells that come from fields hold neither,
and neither does the cell of a missing value. Cut at line feeds and tabs, the
text of a table of accepted bodies therefore gives one row per key, ascending,
and in it the last value that each body has for the key.
-/

namespace Collate

open Bytes (tab lineFeed)

theorem Bytes.compare_eq_lt_iff {left right : Bytes} :
    compare left right = .lt ↔ left < right := by
  induction left generalizing right with
  | nil =>
      cases right with
      | nil => simp
      | cons octet rest => simp [List.compare_nil_cons]
  | cons octet rest hypothesis =>
      cases right with
      | nil => simp [List.compare_cons_nil]
      | cons other others =>
          rw [List.compare_cons_cons, Ordering.then_eq_lt, hypothesis,
            List.cons_lt_cons_iff, Std.LawfulEqCmp.compare_eq_iff_eq,
            Std.compare_eq_lt]

/-- What is related to an item stands at the same index. -/
theorem exists_right_of_forall₂
    {related : α -> β -> Prop}
    {lefts : List α}
    {rights : List β}
    (allRelated : List.Forall₂ related lefts rights)
    {index : Nat}
    {left : α}
    (found : lefts[index]? = some left) :
    ∃ right, rights[index]? = some right ∧ related left right := by
  induction allRelated generalizing index with
  | nil => simp at found
  | cons first _ hypothesis =>
      cases index with
      | zero =>
          cases found
          exact ⟨_, rfl, first⟩
      | succ index => exact hypothesis found

namespace Table

/-! ## Keys -/

theorem keys_ascending (table : Table) :
    table.keys.Pairwise (· < ·) := by
  have ordered : table.keys.Pairwise
      (fun left right => compare left right = .lt) :=
    Std.ExtTreeSet.ordered_toList
  exact ordered.imp Bytes.compare_eq_lt_iff.mp

theorem mem_keys_iff {table : Table} {key : Bytes} :
    key ∈ table.keys ↔ ∃ column ∈ table.columns, key ∈ column.entries := by
  rw [keys, Std.ExtTreeSet.mem_toList, Std.ExtTreeSet.mem_ofList]
  simp

/-! ## Rows -/

/-- The cells of a key's row, of which the first is the key. -/
def cells (table : Table) (key : Bytes) : List Bytes :=
  key :: table.columns.map (·.cell key)

theorem intercalate_tab (first : Bytes) (others : List Bytes) :
    [tab].intercalate (first :: others) =
      first ++ others.flatMap (fun cell => tab :: cell) := by
  induction others generalizing first with
  | nil => simp
  | cons second others hypothesis =>
      rw [List.intercalate_cons_cons, hypothesis, List.flatMap_cons]
      simp

theorem flatten_rowPieces (table : Table) (key : Bytes) :
    (table.rowPieces key).flatten =
      [tab].intercalate (table.cells key) ++ [lineFeed] := by
  rw [cells, intercalate_tab, rowPieces, List.flatten_append, List.flatten_cons,
    List.flatMap_map]
  congr 2
  rw [← List.flatMap_id, List.flatMap_assoc]
  simp

theorem render_eq (table : Table) :
    table.render =
      (table.keys.map fun key => [tab].intercalate (table.cells key)).flatMap
        (· ++ [lineFeed]) := by
  rw [render, pieces, ← List.flatMap_id, List.flatMap_assoc, List.flatMap_map]
  simp only [List.flatMap_id, flatten_rowPieces]

/-! ## Cutting at line feeds and tabs -/

theorem splitOn_lineFeed_rows
    {rows : List Bytes}
    (unbroken : ∀ row ∈ rows, lineFeed ∉ row) :
    List.splitOn lineFeed (rows.flatMap (· ++ [lineFeed])) = rows ++ [[]] := by
  induction rows with
  | nil => simp
  | cons row rows hypothesis =>
      obtain ⟨rowUnbroken, othersUnbroken⟩ := List.forall_mem_cons.mp unbroken
      rw [List.flatMap_cons, List.append_assoc, List.singleton_append,
        List.splitOn_append_cons_self_of_not_mem rowUnbroken,
        hypothesis othersUnbroken, List.cons_append]

theorem rows_empty_or_end_in_lineFeed (rows : List Bytes) :
    rows.flatMap (· ++ [lineFeed]) = [] ∨
      (rows.flatMap (· ++ [lineFeed])).getLast? = some lineFeed := by
  rcases List.eq_nil_or_concat rows with rfl | ⟨prior, last, rfl⟩
  · exact .inl rfl
  · right
    simp [List.concat_eq_append, List.getLast?_append]

/-- A cell that does not break a row: it holds no tab and no line feed. -/
def Enclosed (cell : Bytes) : Prop :=
  tab ∉ cell ∧ lineFeed ∉ cell

theorem lineFeed_not_mem_row
    {cells : List Bytes}
    (enclosed : ∀ cell ∈ cells, Enclosed cell) :
    lineFeed ∉ [tab].intercalate cells := by
  cases cells with
  | nil => simp
  | cons first others =>
      rw [intercalate_tab, List.mem_append, List.mem_flatMap]
      rintro (inFirst | ⟨cell, member, inCell⟩)
      · exact (enclosed first List.mem_cons_self).2 inFirst
      · rcases List.mem_cons.mp inCell with isTab | inCell
        · cases isTab
        · exact (enclosed cell (List.mem_cons_of_mem first member)).2 inCell

/-- The text of a table whose cells are enclosed can be cut back into them. -/
theorem cut_render
    {table : Table}
    (enclosed : ∀ key ∈ table.keys, ∀ cell ∈ table.cells key, Enclosed cell) :
    (List.splitOn lineFeed table.render).dropLast.map (List.splitOn tab) =
      table.keys.map table.cells := by
  have unbroken : ∀ row ∈ table.keys.map fun key => [tab].intercalate (table.cells key),
      lineFeed ∉ row := by
    intro row member
    obtain ⟨key, keyMember, rfl⟩ := List.mem_map.mp member
    exact lineFeed_not_mem_row (enclosed key keyMember)
  rw [render_eq, splitOn_lineFeed_rows unbroken, List.dropLast_concat, List.map_map]
  apply List.map_congr_left
  intro key member
  apply List.splitOn_intercalate
  · intro cell cellMember
    exact (enclosed key member cell cellMember).1
  · simp [cells]

/-! ## Tables of accepted bodies -/

theorem enclosed_of_isField
    {cell : Bytes}
    (isField : Fields.IsField Fields.isBlank cell) :
    Enclosed cell := by
  constructor
  · intro member
    have notBlank := isField.2 tab member
    cases notBlank
  · intro member
    have notBlank := isField.2 lineFeed member
    cases notBlank

theorem enclosed_missing : Enclosed Column.missing := by
  unfold Enclosed
  decide

/-- Every key and every value that reading a body yields is a field of it. -/
theorem isField_of_accepted
    {path body key value : Bytes}
    {entries : Entries}
    (accepted : Entries.ofStream path { body } = .ok entries)
    (found : entries[key]? = some value) :
    Fields.IsField Fields.isBlank key ∧ Fields.IsField Fields.isBlank value := by
  obtain ⟨_, ⟨_, _, division⟩, _⟩ :=
    (Entries.getElem?_eq_some_iff_lastPair accepted).mp found
  exact ⟨division.isField key (by simp), division.isField value (by simp)⟩

/-- Bodies that are all accepted, each with the column that it yields. -/
def Accepted (bodies : List Bytes) (columns : List Column) : Prop :=
  List.Forall₂
    (fun body column =>
      Entries.ofStream column.path { body } = .ok column.entries)
    bodies columns

namespace Accepted

variable {bodies : List Bytes} {columns : List Column}

theorem exists_column
    (accepted : Accepted bodies columns)
    {index : Nat}
    {body : Bytes}
    (found : bodies[index]? = some body) :
    ∃ column, columns[index]? = some column ∧
      Entries.ofStream column.path { body } = .ok column.entries :=
  exists_right_of_forall₂ accepted found

theorem exists_body
    (accepted : Accepted bodies columns)
    {column : Column}
    (member : column ∈ columns) :
    ∃ body ∈ bodies, Entries.ofStream column.path { body } = .ok column.entries := by
  obtain ⟨index, found⟩ := List.mem_iff_getElem?.mp member
  obtain ⟨body, bodyFound, read⟩ :=
    exists_right_of_forall₂ (List.Forall₂.flip accepted) found
  exact ⟨body, List.mem_of_getElem? bodyFound, read⟩

theorem mem_keys_iff
    (accepted : Accepted bodies columns)
    {key : Bytes} :
    key ∈ (Table.mk columns).keys ↔ ∃ body ∈ bodies, Entries.Mentions body key := by
  rw [Table.mem_keys_iff]
  constructor
  · rintro ⟨column, member, present⟩
    obtain ⟨body, bodyMember, read⟩ := accepted.exists_body member
    exact ⟨body, bodyMember, (Entries.mem_iff_mentions read).mp present⟩
  · rintro ⟨body, member, mentions⟩
    obtain ⟨index, found⟩ := List.mem_iff_getElem?.mp member
    obtain ⟨column, columnFound, read⟩ := accepted.exists_column found
    exact ⟨column, List.mem_of_getElem? columnFound,
      (Entries.mem_iff_mentions read).mpr mentions⟩

/-- What holds of the keys and values of accepted bodies, and of the cell of a
missing value, holds of every cell. -/
theorem forall_cells
    {good : Bytes -> Prop}
    (accepted : Accepted bodies columns)
    (ofPair : ∀ {path body key value entries},
      Entries.ofStream path { body } = .ok entries -> entries[key]? = some value ->
        good key ∧ good value)
    (ofMissing : good Column.missing) :
    ∀ key ∈ (Table.mk columns).keys,
      ∀ cell ∈ (Table.mk columns).cells key, good cell := by
  intro key keyMember cell cellMember
  rcases List.mem_cons.mp cellMember with rfl | inColumn
  · obtain ⟨column, member, present⟩ := Table.mem_keys_iff.mp keyMember
    obtain ⟨body, _, read⟩ := accepted.exists_body member
    exact (ofPair read (Std.ExtTreeMap.getElem?_eq_some_getElem present)).1
  · obtain ⟨column, member, rfl⟩ := List.mem_map.mp inColumn
    obtain ⟨body, _, read⟩ := accepted.exists_body member
    rw [Column.cell, Std.ExtTreeMap.getD_eq_getD_getElem?]
    cases found : column.entries[key]? with
    | none => exact ofMissing
    | some value => exact (ofPair read found).2

theorem enclosed_cells
    (accepted : Accepted bodies columns) :
    ∀ key ∈ (Table.mk columns).keys,
      ∀ cell ∈ (Table.mk columns).cells key, Enclosed cell := by
  apply accepted.forall_cells _ enclosed_missing
  intro path body key value entries read found
  have ⟨keyField, valueField⟩ := isField_of_accepted read found
  exact ⟨enclosed_of_isField keyField, enclosed_of_isField valueField⟩

end Accepted

/-- What stands for a body in the row of a key: its last value for the key, or
`0` if it has none. -/
def CellOf (body key cell : Bytes) : Prop :=
  Entries.LastPair body key cell ∨
    ¬Entries.Mentions body key ∧ cell = Bytes.ofText "0"

theorem cellOf_cell
    {column : Column}
    {body : Bytes}
    (read : Entries.ofStream column.path { body } = .ok column.entries)
    (key : Bytes) :
    CellOf body key (column.cell key) := by
  rw [Column.cell, Std.ExtTreeMap.getD_eq_getD_getElem?]
  cases found : column.entries[key]? with
  | none =>
      right
      rw [← Entries.mem_iff_mentions read, Std.ExtTreeMap.mem_iff_isSome_getElem?, found]
      exact ⟨by simp, rfl⟩
  | some value =>
      exact .inl ((Entries.getElem?_eq_some_iff_lastPair read).mp found)

/-- Cut at line feeds and tabs, the text of a table of accepted bodies gives one
row for each key that a body mentions, ascending by key, with the key and then
what stands for each body. -/
theorem render_cut_gives_last_values
    (bodies : List Bytes)
    (columns : List Column)
    (accepted : Accepted bodies columns) :
    let output := (Table.mk columns).render
    let rows := (List.splitOn lineFeed output).dropLast.map (List.splitOn tab)
    (output = [] ∨ output.getLast? = some lineFeed) ∧
      (rows.map (·.headD [])).Pairwise (· < ·) ∧
      (∀ key, key ∈ rows.map (·.headD []) ↔
        ∃ body ∈ bodies, Entries.Mentions body key) ∧
      (∀ row ∈ rows, row.length = bodies.length + 1) ∧
      ∀ row ∈ rows, ∀ index body, bodies[index]? = some body ->
        ∃ cell, row[index + 1]? = some cell ∧ CellOf body (row.headD []) cell := by
  intro output rows
  have cut : rows = (Table.mk columns).keys.map (Table.mk columns).cells :=
    cut_render accepted.enclosed_cells
  have firsts : rows.map (·.headD []) = (Table.mk columns).keys := by
    rw [cut, List.map_map]
    exact List.map_id' _
  refine ⟨?_, ?_, ?_, ?_, ?_⟩
  · change (Table.mk columns).render = [] ∨
      (Table.mk columns).render.getLast? = some lineFeed
    rw [render_eq]
    exact rows_empty_or_end_in_lineFeed _
  · rw [firsts]
    exact keys_ascending _
  · intro key
    rw [firsts]
    exact accepted.mem_keys_iff
  · intro row member
    rw [cut] at member
    obtain ⟨key, _, rfl⟩ := List.mem_map.mp member
    rw [cells, List.length_cons, List.length_map, List.Forall₂.length_eq accepted]
  · intro row member index body found
    rw [cut] at member
    obtain ⟨key, _, rfl⟩ := List.mem_map.mp member
    obtain ⟨column, columnFound, read⟩ := accepted.exists_column found
    refine ⟨column.cell key, ?_, cellOf_cell read key⟩
    rw [cells, List.getElem?_cons_succ, List.getElem?_map]
    change (columns[index]?).map _ = _
    rw [columnFound]
    rfl

/-- Two bodies with a repeated key and no key in common. -/
theorem disjoint_bodies_cut_into_rows_of_three :
    let bodies := [Bytes.ofText "b 1\na 2\nb 3", Bytes.ofText "\n c\t9\r\n"]
    let columns : List Column :=
      [⟨[], Entries.ofPairs
          [(Bytes.ofText "b", Bytes.ofText "1"), (Bytes.ofText "a", Bytes.ofText "2"),
            (Bytes.ofText "b", Bytes.ofText "3")]⟩,
        ⟨[], Entries.ofPairs [(Bytes.ofText "c", Bytes.ofText "9")]⟩]
    let output := (Table.mk columns).render
    Accepted bodies columns ∧
      output = Bytes.ofText "a\t2\t0\nb\t3\t0\nc\t0\t9\n" ∧
      ∀ row ∈ (List.splitOn lineFeed output).dropLast.map (List.splitOn tab),
        row.length = 3 := by
  intro bodies columns output
  have accepted : Accepted bodies columns := .cons rfl (.cons rfl .nil)
  have ⟨_, _, _, lengths, _⟩ := render_cut_gives_last_values bodies columns accepted
  exact ⟨accepted, rfl, lengths⟩

end Table
end Collate
