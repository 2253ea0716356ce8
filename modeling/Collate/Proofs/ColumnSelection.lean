import Collate.Proofs.KeyOrder
import Mathlib.Data.List.FinRange
import Mathlib.Data.List.Perm.Basic

/-!
# Tables of chosen columns

Columns may be chosen from a table in any order, some left out and some chosen
more than once. The table of the chosen columns has those rows of the whole
table whose key a chosen column holds, in the same order, with the values taken
at the chosen places. Rearranged, repeated and added columns are cases of this.
-/

namespace Collate

open Bytes (tab lineFeed)

/-- A row of a table: its key, and a value for each column. -/
structure Row where
  key : Bytes
  values : List Bytes
  deriving DecidableEq

namespace Row

/-- The row as it is written. -/
def text (row : Row) : Bytes :=
  [tab].intercalate (row.key :: row.values) ++ [lineFeed]

/-- The row with its values taken at chosen places, in the order of the
choice. -/
def select (choice : List (Fin width)) (row : Row) : Row :=
  ⟨row.key, choice.map fun place : Fin width => row.values.getD place.val []⟩

end Row

namespace Table

/-- The rows of a table from top to bottom. -/
def rows (table : Table) : List Row :=
  table.keys.map fun key => ⟨key, table.columns.map (·.cell key)⟩

theorem render_eq_rows (table : Table) :
    table.render = table.rows.flatMap Row.text := by
  rw [render_eq, rows, List.flatMap_map, List.flatMap_map]
  rfl

/-- Whether some of these columns hold a key. -/
def holds (columns : List Column) (key : Bytes) : Bool :=
  columns.any (·.entries.contains key)

theorem holds_iff {columns : List Column} {key : Bytes} :
    holds columns key = true ↔ ∃ column ∈ columns, key ∈ column.entries := by
  simp [holds]

/-! ## Keys and values of a choice -/

theorem keys_of_subset
    {columns chosen : List Column}
    (subset : chosen ⊆ columns) :
    (Table.mk chosen).keys = (Table.mk columns).keys.filter (holds chosen) := by
  symm
  rw [eq_keys_iff]
  constructor
  · exact (keys_ascending _).filter _
  · intro key
    rw [List.mem_filter, mem_keys_iff, holds_iff]
    apply and_iff_right_of_imp
    rintro ⟨column, member, held⟩
    exact ⟨column, subset member, held⟩

theorem select_subset
    (columns : List Column)
    (choice : List (Fin columns.length)) :
    choice.map columns.get ⊆ columns := by
  intro column member
  obtain ⟨place, _, rfl⟩ := List.mem_map.mp member
  exact List.get_mem columns place

theorem select_row
    (columns : List Column)
    (choice : List (Fin columns.length))
    (key : Bytes) :
    Row.select choice ⟨key, columns.map (·.cell key)⟩ =
      ⟨key, (choice.map columns.get).map (·.cell key)⟩ := by
  unfold Row.select
  rw [List.map_map]
  congr 1
  apply List.map_congr_left
  intro place _
  simp

theorem rows_select
    (columns : List Column)
    (choice : List (Fin columns.length)) :
    (Table.mk (choice.map columns.get)).rows =
      ((Table.mk columns).rows.filter
        fun row => holds (choice.map columns.get) row.key).map (Row.select choice) := by
  rw [rows, rows, keys_of_subset (select_subset columns choice), List.filter_map,
    List.map_map]
  apply List.map_congr_left
  intro key _
  exact (select_row columns choice key).symm

/-! ## Choices that lose no row -/

theorem holds_of_mem_rows
    {columns chosen : List Column}
    (covered : columns ⊆ chosen)
    {row : Row}
    (member : row ∈ (Table.mk columns).rows) :
    holds chosen row.key = true := by
  obtain ⟨key, keyMember, rfl⟩ := List.mem_map.mp member
  obtain ⟨column, columnMember, held⟩ := mem_keys_iff.mp keyMember
  exact holds_iff.mpr ⟨column, covered columnMember, held⟩

theorem rows_select_of_covered
    (columns : List Column)
    {choice : List (Fin columns.length)}
    (covered : ∀ place, place ∈ choice) :
    (Table.mk (choice.map columns.get)).rows =
      (Table.mk columns).rows.map (Row.select choice) := by
  have kept : columns ⊆ choice.map columns.get := by
    intro column member
    obtain ⟨place, rfl⟩ := List.mem_iff_get.mp member
    exact List.mem_map_of_mem (covered place)
  rw [rows_select, List.filter_eq_self.mpr]
  intro row member
  exact holds_of_mem_rows kept member

/-- Rearranged columns are a choice of every place once. -/
theorem exists_choice_of_perm
    {columns others : List Column}
    (rearranged : others.Perm columns) :
    ∃ choice : List (Fin columns.length),
      choice.Perm (List.finRange columns.length) ∧ others = choice.map columns.get := by
  have composed := congrFun₂ (List.eq_map_comp_perm columns.get) others
    (List.finRange columns.length)
  rw [List.map_get_finRange] at composed
  obtain ⟨choice, equal, permuted⟩ := composed.mpr rearranged
  exact ⟨choice, permuted, equal⟩

/-! ## Added columns -/

theorem rows_of_append (columns added : List Column) :
    ((Table.mk (columns ++ added)).rows.filter fun row => holds columns row.key).map
        (fun row => ⟨row.key, row.values.take columns.length⟩) =
      (Table.mk columns).rows := by
  rw [rows, rows, keys_of_subset (List.subset_append_left columns added),
    List.filter_map, List.map_map]
  apply List.map_congr_left
  intro key _
  simp

theorem values_of_not_held
    {columns : List Column}
    {key : Bytes}
    (absent : holds columns key = false) :
    columns.map (·.cell key) = List.replicate columns.length Column.missing := by
  rw [List.eq_replicate_iff, List.length_map]
  refine ⟨rfl, ?_⟩
  intro value member
  obtain ⟨column, columnMember, rfl⟩ := List.mem_map.mp member
  have lacking : key ∉ column.entries := by
    intro held
    rw [holds_iff.mpr ⟨column, columnMember, held⟩] at absent
    cases absent
  exact Std.ExtTreeMap.getD_eq_fallback lacking

theorem values_of_added_row
    {columns added : List Column}
    {row : Row}
    (member : row ∈ (Table.mk (columns ++ added)).rows)
    (absent : holds columns row.key = false) :
    row.values.take columns.length =
      List.replicate columns.length (Bytes.ofText "0") := by
  obtain ⟨key, _, rfl⟩ := List.mem_map.mp member
  rw [List.map_append, List.take_left' (List.length_map ..)]
  exact values_of_not_held absent

/-- The table of chosen columns has the rows of the whole table that a chosen
column holds, with the values at the chosen places. So rearranged columns make
rearranged values, a column chosen twice stands twice, and added columns leave
every row as it was and add rows of `0` before them. -/
theorem rows_of_chosen_columns
    (columns : List Column)
    (choice : List (Fin columns.length)) :
    let table := Table.mk columns
    let chosen := Table.mk (choice.map columns.get)
    (table.render = table.rows.flatMap Row.text ∧
      chosen.render = chosen.rows.flatMap Row.text) ∧
    (∀ row ∈ table.rows, row.values.length = columns.length) ∧
    chosen.rows =
      (table.rows.filter fun row => chosen.columns.any (·.entries.contains row.key)).map
        (Row.select choice) ∧
    ((∀ place, place ∈ choice) -> chosen.rows = table.rows.map (Row.select choice)) ∧
    (∀ others : List Column, others.Perm columns ->
      ∃ order : List (Fin columns.length),
        order.Perm (List.finRange columns.length) ∧
          (Table.mk others).rows = table.rows.map (Row.select order)) ∧
    (∀ first second : Nat, choice[first]? = choice[second]? ->
      ∀ row ∈ chosen.rows, row.values[first]? = row.values[second]?) ∧
    ∀ added : List Column,
      let extended := Table.mk (columns ++ added)
      (extended.rows.filter fun row => columns.any (·.entries.contains row.key)).map
          (fun row => ⟨row.key, row.values.take columns.length⟩) = table.rows ∧
        ∀ row ∈ extended.rows, (∀ column ∈ columns, row.key ∉ column.entries) ->
          row.values.take columns.length =
            List.replicate columns.length (Bytes.ofText "0") := by
  intro table chosen
  refine ⟨⟨render_eq_rows table, render_eq_rows chosen⟩, ?_, rows_select columns choice,
    rows_select_of_covered columns, ?_, ?_, ?_⟩
  · intro row member
    obtain ⟨key, _, rfl⟩ := List.mem_map.mp member
    exact List.length_map ..
  · intro others rearranged
    obtain ⟨order, permuted, rfl⟩ := exists_choice_of_perm rearranged
    refine ⟨order, permuted, rows_select_of_covered columns ?_⟩
    intro place
    exact permuted.mem_iff.mpr (List.mem_finRange place)
  · intro first second same row member
    obtain ⟨key, _, rfl⟩ := List.mem_map.mp member
    simp only [chosen, List.getElem?_map, same]
  · intro added extended
    refine ⟨rows_of_append columns added, ?_⟩
    intro row member absent
    apply values_of_added_row member
    rw [Bool.eq_false_iff, ne_eq, holds_iff]
    rintro ⟨column, columnMember, held⟩
    exact absent column columnMember held

/-- The second of two columns is chosen twice and the first left out. The first
one, added behind the second, brings a row of its own. -/
theorem second_column_chosen_twice :
    let left : Column :=
      ⟨[], Entries.ofPairs
        [(Bytes.ofText "a", Bytes.ofText "1"), (Bytes.ofText "b", Bytes.ofText "2")]⟩
    let right : Column := ⟨[], Entries.ofPairs [(Bytes.ofText "b", Bytes.ofText "3")]⟩
    (Table.mk [right, right]).rows =
        [⟨Bytes.ofText "b", [Bytes.ofText "3", Bytes.ofText "3"]⟩] ∧
      (Table.mk [right, left]).rows =
        [⟨Bytes.ofText "a", [Bytes.ofText "0", Bytes.ofText "1"]⟩,
          ⟨Bytes.ofText "b", [Bytes.ofText "3", Bytes.ofText "2"]⟩] ∧
      ∀ row ∈ (Table.mk [right, left]).rows, row.key ∉ right.entries ->
        row.values.take 1 = [Bytes.ofText "0"] := by
  intro left right
  have ⟨_, _, chosen, _, _, _, _⟩ :=
    rows_of_chosen_columns [left, right]
      [⟨1, Nat.one_lt_two⟩, ⟨1, Nat.one_lt_two⟩]
  have ⟨_, _, _, covering, _, _, _⟩ :=
    rows_of_chosen_columns [left, right]
      [⟨1, Nat.one_lt_two⟩, ⟨0, Nat.zero_lt_two⟩]
  have ⟨_, _, _, _, _, _, added⟩ := rows_of_chosen_columns [right] []
  refine ⟨chosen.trans rfl, (covering ?_).trans rfl, ?_⟩
  · intro place
    match place with
    | ⟨0, _⟩ => simp
    | ⟨1, _⟩ => simp
  · intro row member absent
    exact (added [left]).2 row member (by simpa using absent)

end Table
end Collate
