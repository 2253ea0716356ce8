import Collate.Proofs.TableRows
import Mathlib.Data.List.Sort

/-!
# The order of keys

The pairs of a result file may be put in in many orders, and the keys of its
entries may be gone through in any order at all. Neither shows in a table: what
is looked up in entries is the value put in last, and a table gathers the keys
of its columns into a list that its members alone determine, since it ascends.
-/

namespace Collate

namespace Entries

/-- The value of the last pair with a key. -/
def lastValue? (pairs : List (Bytes × Bytes)) (key : Bytes) : Option Bytes :=
  pairs.reverse.lookup key

/-- Looking a key up gives the value that was put in last. -/
theorem getElem?_ofPairs (pairs : List (Bytes × Bytes)) (key : Bytes) :
    (ofPairs pairs)[key]? = lastValue? pairs key := by
  induction pairs using List.reverseRecOn with
  | nil => simp [lastValue?]
  | append_singleton pairs last hypothesis =>
      obtain ⟨lastKey, lastValue⟩ := last
      rw [ofPairs_append_singleton, Std.ExtTreeMap.getElem?_insert, hypothesis,
        lastValue?, lastValue?, List.reverse_concat, List.lookup_cons]
      by_cases same : lastKey = key
      · rw [same, if_pos Std.ReflCmp.compare_self, beq_self_eq_true]
      · rw [if_neg (by simpa using same), beq_false_of_ne (Ne.symm same)]

/-- Entries are what looking up in them gives. -/
theorem ofPairs_eq_of_lastValue
    {pairs others : List (Bytes × Bytes)}
    (same : ∀ key, lastValue? pairs key = lastValue? others key) :
    ofPairs pairs = ofPairs others := by
  apply Std.ExtTreeMap.ext_getElem?
  intro key
  rw [getElem?_ofPairs, getElem?_ofPairs, same key]

end Entries

namespace Table

/-! ## The ascending list of keys -/

/-- A table's keys are the only ascending list of what its columns hold. -/
theorem eq_keys_iff {table : Table} {keys : List Bytes} :
    keys = table.keys ↔
      keys.Pairwise (· < ·) ∧
        ∀ key, key ∈ keys ↔ ∃ column ∈ table.columns, key ∈ column.entries := by
  constructor
  · rintro rfl
    exact ⟨table.keys_ascending, fun key => mem_keys_iff⟩
  · rintro ⟨ascending, members⟩
    apply ascending.eq_of_mem_iff table.keys_ascending
    intro key
    rw [members key, mem_keys_iff]

/-- Orders in which the keys of columns are gone through, each key once. -/
def KeyOrders (columns : List Column) (orders : List (List Bytes)) : Prop :=
  List.Forall₂ (fun column order => order.Perm column.entries.keys) columns orders

/-- The ascending list of what is met when keys are gone through in some
orders. -/
def gather (orders : List (List Bytes)) : List Bytes :=
  (Std.ExtTreeSet.ofList orders.flatten).toList

/-- The table as it is written when its keys are gathered in some orders. -/
def renderGathered (table : Table) (orders : List (List Bytes)) : Bytes :=
  ((gather orders).flatMap table.rowPieces).flatten

theorem KeyOrders.mem_flatten_iff
    {columns : List Column}
    {orders : List (List Bytes)}
    (inOrder : KeyOrders columns orders)
    {key : Bytes} :
    key ∈ orders.flatten ↔ key ∈ columns.flatMap (·.entries.keys) := by
  induction inOrder with
  | nil => rfl
  | cons first _ hypothesis =>
      rw [List.flatten_cons, List.flatMap_cons, List.mem_append, List.mem_append,
        first.mem_iff, hypothesis]

theorem KeyOrders.gather_eq
    {table : Table}
    {orders : List (List Bytes)}
    (inOrder : KeyOrders table.columns orders) :
    gather orders = table.keys := by
  unfold gather keys
  congr 1
  apply Std.ExtTreeSet.ext_mem
  intro key
  rw [Std.ExtTreeSet.mem_ofList, Std.ExtTreeSet.mem_ofList, List.contains_iff_mem,
    List.contains_iff_mem, inOrder.mem_flatten_iff]

theorem KeyOrders.renderGathered_eq
    {table : Table}
    {orders : List (List Bytes)}
    (inOrder : KeyOrders table.columns orders) :
    table.renderGathered orders = table.render := by
  rw [renderGathered, inOrder.gather_eq, render, pieces]

/-! ## Entries decide the text -/

theorem keys_eq_of_entries
    {columns others : List Column}
    (same : columns.map (·.entries) = others.map (·.entries)) :
    (Table.mk columns).keys = (Table.mk others).keys := by
  have gathered := congrArg (List.flatMap Std.ExtTreeMap.keys) same
  rw [List.flatMap_map, List.flatMap_map] at gathered
  rw [keys, keys, gathered]

theorem cells_eq_of_entries
    {columns others : List Column}
    (same : columns.map (·.entries) = others.map (·.entries))
    (key : Bytes) :
    (Table.mk columns).cells key = (Table.mk others).cells key := by
  have looked := congrArg (List.map (·.getD key Column.missing)) same
  rw [List.map_map, List.map_map] at looked
  exact congrArg (key :: ·) looked

/-- The paths of columns do not show in a table. -/
theorem render_eq_of_entries
    {columns others : List Column}
    (same : columns.map (·.entries) = others.map (·.entries)) :
    (Table.mk columns).render = (Table.mk others).render := by
  rw [render_eq, render_eq, keys_eq_of_entries same]
  simp only [cells_eq_of_entries same]

/-! ## Files as they come about -/

/-- How a result file comes about: where it is read, and the pairs that are put
in one after another. -/
structure Filling where
  path : Bytes
  pairs : List (Bytes × Bytes)

/-- The column of a result file that came about so. -/
def Filling.column (filling : Filling) : Column :=
  ⟨filling.path, Entries.ofPairs filling.pairs⟩

/-- Two result files come to hold the same: every key has the same last value,
or none in both. -/
def Filling.SameValues (filling other : Filling) : Prop :=
  ∀ key, Entries.lastValue? filling.pairs key = Entries.lastValue? other.pairs key

theorem Filling.mem_column_iff {filling : Filling} {key : Bytes} :
    key ∈ filling.column.entries ↔ ∃ value, (key, value) ∈ filling.pairs :=
  Entries.mem_ofPairs_iff

theorem map_entries_eq_of_lastValue
    {fillings others : List Filling}
    (same : List.Forall₂ Filling.SameValues fillings others) :
    (fillings.map Filling.column).map (·.entries) =
      (others.map Filling.column).map (·.entries) := by
  induction same with
  | nil => rfl
  | cons first _ hypothesis =>
      simp only [List.map_cons, hypothesis, Filling.column,
        Entries.ofPairs_eq_of_lastValue first]

/-- Files whose keys have the same last values give the same text, in whatever
orders pairs were put in and keys are gone through. The keys of the table are the
only ascending list of the keys that were put in. -/
theorem render_ignores_orders
    (fillings others : List Filling)
    (same : List.Forall₂ Filling.SameValues fillings others) :
    let table := Table.mk (fillings.map Filling.column)
    let otherTable := Table.mk (others.map Filling.column)
    table.render = otherTable.render ∧
      (∀ orders otherOrders,
        KeyOrders table.columns orders -> KeyOrders otherTable.columns otherOrders ->
          table.renderGathered orders = table.render ∧
            otherTable.renderGathered otherOrders = table.render) ∧
      ∀ keys, keys = table.keys ↔
        keys.Pairwise (· < ·) ∧
          ∀ key, key ∈ keys ↔
            ∃ filling ∈ fillings, ∃ value, (key, value) ∈ filling.pairs := by
  intro table otherTable
  have rendered : table.render = otherTable.render :=
    render_eq_of_entries (map_entries_eq_of_lastValue same)
  refine ⟨rendered, ?_, ?_⟩
  · intro orders otherOrders inOrder otherInOrder
    exact ⟨inOrder.renderGathered_eq, otherInOrder.renderGathered_eq.trans rendered.symm⟩
  · intro keys
    rw [eq_keys_iff]
    simp only [table, List.mem_map, exists_exists_and_eq_and, Filling.mem_column_iff]

/-- An empty key and a key that is a tab, put in in two ways and gone through
backwards. -/
theorem shuffled_fillings_render_alike :
    let tabbed := (Bytes.ofText "\t", Bytes.ofText "x")
    let plain := (Bytes.ofText "k", Bytes.ofText "2")
    let unnamed : Bytes × Bytes := ([], Bytes.ofText "9")
    let stale := (Bytes.ofText "k", Bytes.ofText "1")
    let fillings : List Filling :=
      [⟨Bytes.ofText "a", [stale, tabbed, plain]⟩, ⟨Bytes.ofText "b", [unnamed]⟩]
    let others : List Filling :=
      [⟨Bytes.ofText "c", [tabbed, stale, plain, tabbed]⟩, ⟨[], [unnamed, unnamed]⟩]
    let table := Table.mk (fillings.map Filling.column)
    let otherTable := Table.mk (others.map Filling.column)
    otherTable.render = Bytes.ofText "\t0\t9\n\t\tx\t0\nk\t2\t0\n" ∧
      table.renderGathered [[Bytes.ofText "\t", Bytes.ofText "k"], [[]]] = table.render ∧
      otherTable.renderGathered [[Bytes.ofText "k", Bytes.ofText "\t"], [[]]] =
        table.render := by
  intro tabbed plain unnamed stale fillings others table otherTable
  have same : List.Forall₂ Filling.SameValues fillings others := by
    refine .cons ?_ (.cons ?_ .nil)
    · intro key
      by_cases isTab : key = Bytes.ofText "\t"
      · rw [isTab]
        rfl
      · simp only [Entries.lastValue?, List.reverse_cons, List.reverse_nil, List.nil_append,
          List.cons_append, tabbed, plain, stale, List.lookup_cons, beq_false_of_ne isTab,
          List.lookup_nil]
    · intro key
      by_cases isEmpty : key = []
      · rw [isEmpty]
        rfl
      · simp only [Entries.lastValue?, List.reverse_cons, List.reverse_nil, List.nil_append,
          List.cons_append, unnamed, List.lookup_cons, beq_false_of_ne isEmpty]
  have inOrder : KeyOrders table.columns [[Bytes.ofText "\t", Bytes.ofText "k"], [[]]] :=
    .cons (.refl _) (.cons (.refl _) .nil)
  have backwards :
      KeyOrders otherTable.columns [[Bytes.ofText "k", Bytes.ofText "\t"], [[]]] :=
    .cons (.swap _ _ _) (.cons (.refl _) .nil)
  obtain ⟨rendered, gathered, _⟩ := render_ignores_orders fillings others same
  exact ⟨rendered.symm.trans rfl, gathered _ _ inOrder backwards⟩

end Table
end Collate
