import Collate.Proofs.KeyOrder
import Collate.Proofs.TextCuts

/-!
# Reading a table again

The text of a table is itself lines of fields. Its cells are words, that is,
texts that are fields, so reading a row finds the very cells that were written.
A row of one column therefore is a sound line, and reading the table gives back
the entries of that column. With more columns a row has too many fields, and the
first row is told as malformed.
-/

namespace Collate

open Bytes (tab lineFeed)

/-- A field that is a text. -/
def IsWord (cell : Bytes) : Prop :=
  Fields.IsField Fields.isBlank cell ∧ Utf8.Valid cell

/-! ## Rows as lines -/

/-- Reading finds the fields between tabs. -/
theorem Fields.division_intercalate_tab
    {cells : List Bytes}
    (allFields : ∀ cell ∈ cells, IsField isBlank cell) :
    Division isBlank ([tab].intercalate cells) cells := by
  rw [division_iff_of_eq]
  induction cells with
  | nil => rfl
  | cons first others hypothesis =>
      obtain ⟨firstField, othersFields⟩ := List.forall_mem_cons.mp allFields
      have otherCells := hypothesis othersFields
      cases others with
      | nil =>
          have alone : of isBlank (first ++ []) = first :: of isBlank [] :=
            of_append_field firstField (by simp)
          simpa using alone
      | cons second others =>
          have tabBlank : isBlank tab = true := rfl
          rw [List.intercalate_cons_cons, List.append_assoc, List.singleton_append,
            of_append_field firstField (by simpa using tabBlank),
            of_cons_of_blank tabBlank, otherCells]

theorem Stream.linesOf_rows
    {rows : List Bytes}
    (unbroken : ∀ row ∈ rows, lineFeed ∉ row) :
    linesOf (rows.flatMap (· ++ [lineFeed])) = rows := by
  induction rows with
  | nil => rfl
  | cons row rows hypothesis =>
      obtain ⟨rowUnbroken, othersUnbroken⟩ := List.forall_mem_cons.mp unbroken
      rw [List.flatMap_cons, List.append_assoc, List.singleton_append,
        linesOf_append rowUnbroken, hypothesis othersUnbroken]

/-- A row of words is a text. -/
theorem exists_text_of_words
    {cells : List Bytes}
    (words : ∀ cell ∈ cells, IsWord cell) :
    ∃ text : String, [tab].intercalate cells = Bytes.ofText text := by
  have division := Fields.division_intercalate_tab fun cell member => (words cell member).1
  rw [← Utf8.valid_iff_exists_text, Utf8.valid_iff_fields division]
  intro cell member
  exact (words cell member).2

namespace Entries

/-- Every key and every value that reading a body yields is a word. -/
theorem isWord_of_accepted
    {path body key value : Bytes}
    {entries : Entries}
    (accepted : ofStream path { body } = .ok entries)
    (found : entries[key]? = some value) :
    IsWord key ∧ IsWord value := by
  obtain ⟨index, ⟨line, isLine, division⟩, _⟩ :=
    (getElem?_eq_some_iff_lastPair accepted).mp found
  have sound : Sound line := exists_ok_iff_sound.mp ⟨entries, accepted⟩ index line isLine
  have valid := (Utf8.valid_iff_fields division).mp (sound_iff.mp sound).1
  exact
    ⟨⟨division.isField key (by simp), valid key (by simp)⟩,
      ⟨division.isField value (by simp), valid value (by simp)⟩⟩

/-- Where the value goes with the key, each key has its value. -/
theorem getElem?_ofPairs_map
    (keys : List Bytes)
    (value : Bytes -> Bytes)
    (key : Bytes) :
    (ofPairs (keys.map fun key => (key, value key)))[key]? =
      if key ∈ keys then some (value key) else none := by
  induction keys using List.reverseRecOn with
  | nil => simp
  | append_singleton keys last hypothesis =>
      rw [List.map_append, List.map_singleton, ofPairs_append_singleton,
        Std.ExtTreeMap.getElem?_insert, hypothesis]
      by_cases same : last = key
      · simp [same]
      · simp [same, Ne.symm same]

end Entries

namespace Table

theorem isWord_missing : IsWord Column.missing := by
  have zero : Column.missing = [0x30] := rfl
  rw [zero]
  refine ⟨⟨List.cons_ne_nil _ _, ?_⟩, rfl⟩
  intro octet member
  rw [List.mem_singleton.mp member]
  rfl

theorem Accepted.word_cells
    {bodies : List Bytes}
    {columns : List Column}
    (accepted : Accepted bodies columns) :
    ∀ key ∈ (Table.mk columns).keys,
      ∀ cell ∈ (Table.mk columns).cells key, IsWord cell :=
  accepted.forall_cells Entries.isWord_of_accepted isWord_missing

/-- The lines of a table of accepted bodies are its rows. -/
theorem Accepted.linesOf_render
    {bodies : List Bytes}
    {columns : List Column}
    (accepted : Accepted bodies columns) :
    Stream.linesOf (Table.mk columns).render =
      (Table.mk columns).keys.map fun key =>
        [tab].intercalate ((Table.mk columns).cells key) := by
  rw [render_eq]
  apply Stream.linesOf_rows
  intro row member
  obtain ⟨key, keyMember, rfl⟩ := List.mem_map.mp member
  exact lineFeed_not_mem_row (accepted.enclosed_cells key keyMember)

theorem render_eq_nil_iff {table : Table} :
    table.render = [] ↔ table.keys = [] := by
  rw [render_eq]
  cases table.keys with
  | nil => simp
  | cons key others => simp

/-! ## One column -/

/-- A column is made of the pairs that its rows show. -/
theorem ofPairs_rows (column : Column) :
    Entries.ofPairs
        ((Table.mk [column]).keys.map fun key => (key, column.cell key)) =
      column.entries := by
  apply Std.ExtTreeMap.ext_getElem?
  intro key
  have present : key ∈ (Table.mk [column]).keys ↔ key ∈ column.entries := by
    rw [mem_keys_iff]
    simp
  rw [Entries.getElem?_ofPairs_map, Column.cell, Std.ExtTreeMap.getD_eq_getD_getElem?]
  by_cases held : key ∈ column.entries
  · rw [if_pos (present.mpr held), Std.ExtTreeMap.getElem?_eq_some_getElem held]
    rfl
  · rw [if_neg (mt present.mp held), Std.ExtTreeMap.getElem?_eq_none held]

/-- Reading the table of one accepted body gives back what the body holds. -/
theorem ofStream_render_single
    {body : Bytes}
    {column : Column}
    (accepted : Accepted [body] [column])
    (path : Bytes) :
    Entries.ofStream path { body := (Table.mk [column]).render } = .ok column.entries := by
  have division : ∀ key ∈ (Table.mk [column]).keys,
      Fields.Division Fields.isBlank ([tab].intercalate [key, column.cell key])
        [key, column.cell key] := by
    intro key member
    exact Fields.division_intercalate_tab
      fun cell cellMember => (accepted.word_cells key member cell cellMember).1
  have sound : ∀ line ∈ Stream.linesOf (Table.mk [column]).render, Entries.Sound line := by
    rw [accepted.linesOf_render, List.forall_mem_map]
    intro key member
    exact ⟨exists_text_of_words (accepted.word_cells key member),
      _, division key member, .inr rfl⟩
  have pairs : (Stream.linesOf (Table.mk [column]).render).filterMap Entries.pair? =
      (Table.mk [column]).keys.map fun key => (key, column.cell key) := by
    rw [accepted.linesOf_render, List.filterMap_map, List.filterMap_eq_map_iff_forall_eq_some]
    intro key member
    exact Entries.pair?_eq_some_iff.mpr (division key member)
  rw [Entries.ofStream_of_sound path sound, pairs, ofPairs_rows]

/-! ## Several columns -/

/-- Where rows have another number of cells than two, the first is malformed. -/
theorem ofStream_render_malformed
    {bodies : List Bytes}
    {columns : List Column}
    (accepted : Accepted bodies columns)
    (notOne : columns.length ≠ 1)
    (written : (Table.mk columns).render ≠ [])
    (path : Bytes) :
    Entries.ofStream path { body := (Table.mk columns).render } =
      .error (.malformed path 1 (columns.length + 1)) := by
  obtain ⟨key, others, keys⟩ :=
    List.exists_cons_of_ne_nil (mt render_eq_nil_iff.mpr written)
  have words := accepted.word_cells key (by simp [keys])
  have width : ((Table.mk columns).cells key).length = columns.length + 1 := by
    simp [cells]
  have faulty := Entries.ofLine_of_field_count (exists_text_of_words words)
    (Fields.division_intercalate_tab fun cell member => (words cell member).1)
    (by omega) (by omega)
  have lines := accepted.linesOf_render
  rw [keys, List.map_cons, ← List.nil_append (_ :: _)] at lines
  rw [Entries.ofStream_of_fault path lines (by simp) faulty, width]
  rfl

/-- The table of a single body reads as that body does and is written the same
again. The table of several bodies, unless it is empty, is refused at its first
line. An empty table, which is one without keys, reads as no entries. -/
theorem render_read_again
    (bodies : List Bytes)
    (columns : List Column)
    (accepted : Accepted bodies columns)
    (path : Bytes) :
    let output := (Table.mk columns).render
    (∀ body, bodies = [body] ->
      ∃ entries,
        Entries.ofStream path { body } = .ok entries ∧
        Entries.ofStream path { body := output } = .ok entries ∧
        ∀ other, (Table.mk [⟨other, entries⟩]).render = output) ∧
    (2 ≤ bodies.length -> output ≠ [] ->
      Entries.ofStream path { body := output } =
        .error (.malformed path 1 (bodies.length + 1))) ∧
    (output = [] -> Entries.ofStream path { body := output } = .ok ∅) ∧
    (output = [] ↔ ∀ body ∈ bodies, ∀ key, ¬Entries.Mentions body key) := by
  intro output
  have sameLength : bodies.length = columns.length := List.Forall₂.length_eq accepted
  refine ⟨?_, ?_, ?_, ?_⟩
  · rintro body rfl
    obtain ⟨column, rfl⟩ := List.length_eq_one_iff.mp sameLength.symm
    have read : Entries.ofStream column.path { body } = .ok column.entries :=
      (List.forall₂_cons.mp accepted).1
    have readAnywhere : Entries.ofStream path { body } = .ok column.entries :=
      Entries.ofStream_eq_ok_iff.mpr (Entries.ofStream_eq_ok_iff.mp read)
    exact ⟨column.entries, readAnywhere, ofStream_render_single accepted path,
      fun other => render_eq_of_entries rfl⟩
  · intro several written
    rw [sameLength]
    exact ofStream_render_malformed accepted (by omega) written path
  · intro empty
    rw [empty]
    rfl
  · rw [render_eq_nil_iff, List.eq_nil_iff_forall_not_mem]
    simp only [accepted.mem_keys_iff, not_exists, not_and]
    exact ⟨fun absent body member key => absent key body member,
      fun absent key body member => absent body member key⟩

/-- A body with a repeated key and characters of two octets, alone and twice. -/
theorem table_read_again_alone_and_doubled :
    let body := Bytes.ofText "\xe9 1\n b\xa0c \t2\r\n\xe9 3"
    let column : Column :=
      ⟨Bytes.ofText "first",
        Entries.ofPairs
          [(Bytes.ofText "\xe9", Bytes.ofText "3"), (Bytes.ofText "b\xa0c", Bytes.ofText "2")]⟩
    let path := Bytes.ofText "again"
    Accepted [body] [column] ∧
      (Table.mk [column]).render = Bytes.ofText "b\xa0c\t2\n\xe9\t3\n" ∧
      Entries.ofStream path { body := (Table.mk [column]).render } = .ok column.entries ∧
      Entries.ofStream path { body := (Table.mk [column, column]).render } =
        .error (.malformed path 1 3) := by
  intro body column path
  have accepted : Accepted [body] [column] := .cons rfl .nil
  have twice : Accepted [body, body] [column, column] := .cons rfl accepted
  obtain ⟨single, _⟩ := render_read_again [body] [column] accepted path
  obtain ⟨entries, read, readAgain, _⟩ := single body rfl
  have same : entries = column.entries := Except.ok.inj (read.symm.trans rfl)
  obtain ⟨_, several, _⟩ := render_read_again [body, body] [column, column] twice path
  exact ⟨accepted, rfl, same ▸ readAgain, several (Nat.le_refl 2) (List.cons_ne_nil _ _)⟩

end Table
end Collate
