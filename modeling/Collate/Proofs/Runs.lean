import Collate.Program
import Collate.Proofs.LimitedRoom
import Collate.Proofs.ShownTexts
import Mathlib.Data.List.Forall2

/-!
# All or nothing of a table

Files are read in order and reading stops at the first that fails, so a run has
one of two courses: every file was read, or there is a first one that was not.
In the second the run tells that file's error and writes nothing of a table,
and no file after it has a say in the outcome. In the first it writes the table
through a buffer, and fails only if there is something to write and no room.
-/

namespace Collate

namespace Column

variable {storage : Storage} {path : Bytes}

theorem read_eq_ok_iff {column : Column} :
    read storage path = .ok column ↔
      column.path = path ∧
        Entries.ofStream path (storage path) = .ok column.entries := by
  unfold read
  cases Entries.ofStream path (storage path) with
  | error error => simp [Except.map]
  | ok entries =>
      simp only [Except.map, Except.ok.injEq]
      constructor
      · intro equal
        subst equal
        exact ⟨rfl, rfl⟩
      · intro ⟨samePath, sameEntries⟩
        subst samePath sameEntries
        rfl

theorem read_eq_error_iff {error : ReadError} :
    read storage path = .error error ↔
      Entries.ofStream path (storage path) = .error error := by
  unfold read
  cases Entries.ofStream path (storage path) with
  | error other => simp [Except.map]
  | ok entries => simp [Except.map]

end Column

namespace Reading

/-! ## Reading in order -/

/-- Paths that can all be read, each with the column that it yields. -/
def Complete (storage : Storage) (paths : List Bytes) (columns : List Column) : Prop :=
  List.Forall₂
    (fun path column =>
      column.path = path ∧
        Entries.ofStream path (storage path) = .ok column.entries)
    paths columns

/-- Of some paths the one at an index is the first that cannot be read. -/
structure FailsAt
    (storage : Storage)
    (paths : List Bytes)
    (index : Nat)
    (columns : List Column)
    (error : ReadError) : Prop where
  /-- The paths before it yield columns. -/
  complete : Complete storage (paths.take index) columns
  /-- The path itself yields an error. -/
  failing : ∃ path, paths[index]? = some path ∧
    Entries.ofStream path (storage path) = .error error

variable
  {storage : Storage}
  {paths : List Bytes}
  {columns : List Column}
  {index : Nat}
  {error : ReadError}

theorem ofPaths_append
    {before : List Bytes}
    (complete : Complete storage before columns)
    (after : List Bytes) :
    ofPaths storage (before ++ after) =
      ⟨columns ++ (ofPaths storage after).columns, (ofPaths storage after).error⟩ := by
  induction complete with
  | nil => rfl
  | cons first _ hypothesis =>
      rw [List.cons_append, ofPaths, Column.read_eq_ok_iff.mpr first]
      simp only [hypothesis, List.cons_append]

theorem ofPaths_of_complete (complete : Complete storage paths columns) :
    ofPaths storage paths = ⟨columns, none⟩ := by
  have appended := ofPaths_append complete []
  rw [List.append_nil] at appended
  rw [appended, ofPaths, List.append_nil]

theorem ofPaths_of_failsAt (fails : FailsAt storage paths index columns error) :
    ofPaths storage paths = ⟨columns, some error⟩ := by
  obtain ⟨path, found, failed⟩ := fails.failing
  obtain ⟨inside, rfl⟩ := List.getElem?_eq_some_iff.mp found
  have appended := ofPaths_append fails.complete (paths.drop index)
  rw [List.take_append_drop, List.drop_eq_getElem_cons inside, ofPaths,
    Column.read_eq_error_iff.mpr failed] at appended
  rw [appended, List.append_nil]

theorem complete_or_failsAt (storage : Storage) (paths : List Bytes) :
    (∃ columns, Complete storage paths columns) ∨
      ∃ index columns error, FailsAt storage paths index columns error := by
  induction paths with
  | nil => exact .inl ⟨[], .nil⟩
  | cons path rest hypothesis =>
      cases read : Entries.ofStream path (storage path) with
      | error error =>
          right
          exact ⟨0, [], error, .nil, path, rfl, read⟩
      | ok entries =>
          have first : (Column.mk path entries).path = path ∧
              Entries.ofStream path (storage path) = .ok entries := ⟨rfl, read⟩
          rcases hypothesis with ⟨columns, complete⟩ | ⟨index, columns, error, fails⟩
          · exact .inl ⟨_, .cons first complete⟩
          · right
            exact ⟨index + 1, _, error, .cons first fails.complete, fails.failing⟩

theorem Complete.read_of_mem
    (complete : Complete storage paths columns)
    {path : Bytes}
    (member : path ∈ paths) :
    ∃ entries, Entries.ofStream path (storage path) = .ok entries := by
  induction complete with
  | nil => cases member
  | cons first _ hypothesis =>
      rcases List.mem_cons.mp member with rfl | inRest
      · exact ⟨_, first.2⟩
      · exact hypothesis inRest

theorem FailsAt.error_of_mem (fails : FailsAt storage paths index columns error) :
    ∃ path ∈ paths, Entries.ofStream path (storage path) = .error error := by
  obtain ⟨path, found, failed⟩ := fails.failing
  exact ⟨path, List.mem_of_getElem? found, failed⟩

theorem exists_complete_iff :
    (∃ columns, Complete storage paths columns) ↔
      ∀ path ∈ paths, ∃ entries, Entries.ofStream path (storage path) = .ok entries := by
  constructor
  · intro ⟨columns, complete⟩ path member
    exact complete.read_of_mem member
  · intro readable
    rcases complete_or_failsAt storage paths with complete | ⟨_, _, error, fails⟩
    · exact complete
    · obtain ⟨path, member, failed⟩ := fails.error_of_mem
      obtain ⟨entries, read⟩ := readable path member
      rw [read] at failed
      contradiction

theorem exists_failsAt_iff :
    (∃ index columns error, FailsAt storage paths index columns error) ↔
      ∃ path ∈ paths, ∃ error, Entries.ofStream path (storage path) = .error error := by
  constructor
  · intro ⟨index, columns, error, fails⟩
    obtain ⟨path, member, failed⟩ := fails.error_of_mem
    exact ⟨path, member, error, failed⟩
  · intro ⟨path, member, error, failed⟩
    rcases complete_or_failsAt storage paths with ⟨columns, complete⟩ | fails
    · obtain ⟨entries, read⟩ := complete.read_of_mem member
      rw [read] at failed
      contradiction
    · exact fails

theorem Complete.of_agree
    {other : Storage}
    (complete : Complete storage paths columns)
    (agree : ∀ path ∈ paths, other path = storage path) :
    Complete other paths columns := by
  induction complete with
  | nil => exact .nil
  | cons first _ hypothesis =>
      obtain ⟨agreeFirst, agreeRest⟩ := List.forall_mem_cons.mp agree
      apply List.Forall₂.cons
      · rw [agreeFirst]
        exact first
      · exact hypothesis agreeRest

/-- Which path fails first, and how, is settled by the paths up to it. -/
theorem FailsAt.of_agree
    {other : Storage}
    {others : List Bytes}
    (fails : FailsAt storage paths index columns error)
    (samePaths : others.take (index + 1) = paths.take (index + 1))
    (agree : ∀ path ∈ paths.take (index + 1), other path = storage path) :
    FailsAt other others index columns error := by
  have sameBefore : others.take index = paths.take index := by
    have taken := congrArg (List.take index) samePaths
    simpa only [List.take_take, Nat.min_eq_left (Nat.le_succ index)] using taken
  have sameFound : others[index]? = paths[index]? := by
    rw [← List.getElem?_take_of_succ, samePaths, List.getElem?_take_of_succ]
  obtain ⟨path, found, failed⟩ := fails.failing
  constructor
  · rw [sameBefore]
    apply fails.complete.of_agree
    intro earlier member
    exact agree earlier ((List.take_subset_take_left paths (Nat.le_succ index)) member)
  · refine ⟨path, sameFound.trans found, ?_⟩
    have member : path ∈ paths.take (index + 1) := by
      apply List.mem_of_getElem?
      rw [List.getElem?_take_of_succ]
      exact found
    rw [agree path member]
    exact failed

end Reading

namespace Program

/-! ## Runs -/

variable
  {storage : Storage}
  {files : List Bytes}
  {columns : List Column}
  {index : Nat}
  {error : ReadError}

/-! ### Log lines -/

/-- The line of the log for a file, with its name as shown and the number of its keys. -/
def fileLine (name : Bytes) (pairs : Nat) : Bytes :=
  Bytes.ofText "DEBUG kvmerge::merge: read result file path=" ++ name ++
    Bytes.ofText (" pairs=" ++ toString pairs ++ "\n")

/-- The lines of the log for files. -/
def fileLines (names : List Bytes) (pairs : List Nat) : Bytes :=
  (List.zipWith fileLine names pairs).flatten

/-- The line of the log for a table with so many rows and columns. -/
def tableLine (rows columns : Nat) : Bytes :=
  Bytes.ofText ("DEBUG kvmerge::merge: merged result files rows=" ++ toString rows ++
    " columns=" ++ toString columns ++ "\n")

/-- The lines of the log for columns that were read. -/
def columnLines (columns : List Column) : Bytes :=
  columns.flatMap fun column => fileLine (Utf8.repair column.path) column.entries.size

theorem line_eq (event : Event) :
    event.line = Bytes.ofText "DEBUG kvmerge::merge: " ++ event.text ++ Bytes.ofText "\n" := by
  have opening : Bytes.ofText "DEBUG " ++ Event.target ++ Bytes.ofText ": " =
      Bytes.ofText "DEBUG kvmerge::merge: " := by decide
  rw [Event.line, opening]
  rfl

theorem line_readEvent (column : Column) :
    (readEvent column).line =
      fileLine (Utf8.repair column.path) column.entries.size := by
  have opening : Bytes.ofText "DEBUG kvmerge::merge: read result file path=" =
      Bytes.ofText "DEBUG kvmerge::merge: " ++ Bytes.ofText "read result file path=" := by
    decide
  simp only [line_eq, readEvent, Event.text, fileLine, opening, Bytes.decimal_eq,
    Bytes.ofText_append, List.append_assoc]

theorem line_mergedEvent (table : Table) :
    (mergedEvent table).line = tableLine table.keys.length table.columns.length := by
  have opening : Bytes.ofText "DEBUG kvmerge::merge: merged result files rows=" =
      Bytes.ofText "DEBUG kvmerge::merge: " ++
        Bytes.ofText "merged result files rows=" := by
    decide
  simp only [line_eq, mergedEvent, Event.text, tableLine, opening, Bytes.decimal_eq,
    Bytes.ofText_append, List.append_assoc]

/-- The log of a merge that reads some columns. -/
theorem log_readEvents (shown : Bool) (columns : List Column) :
    log shown (columns.map readEvent) = if shown then columnLines columns else [] := by
  unfold log columnLines
  rw [List.flatMap_map]
  simp only [line_readEvent]

/-- The log of a merge that reads every file. -/
theorem log_complete (shown : Bool) (columns : List Column) :
    log shown (columns.map readEvent ++ [mergedEvent ⟨columns⟩]) =
      if shown then
        columnLines columns ++ tableLine (Table.mk columns).keys.length columns.length
      else [] := by
  cases shown with
  | false => rfl
  | true =>
      have read := log_readEvents true columns
      rw [log, if_pos rfl] at read
      rw [log, if_pos rfl, List.flatMap_append, read, List.flatMap_singleton,
        line_mergedEvent]
      rfl

/-- Columns that were read have their lines in order, with the path of each as shown. -/
theorem exists_names
    {paths : List Bytes}
    (complete : Reading.Complete storage paths columns) :
    ∃ names, List.Forall₂ Utf8.ShownAs paths names ∧
      columnLines columns = fileLines names (columns.map (·.entries.size)) := by
  induction complete with
  | nil => exact ⟨[], .nil, rfl⟩
  | @cons path column paths columns first _ hypothesis =>
      obtain ⟨names, shows, lines⟩ := hypothesis
      have showsFirst : Utf8.ShownAs path (Utf8.repair column.path) := by
        rw [Utf8.shownAs_iff, first.1]
      refine ⟨_, .cons showsFirst shows, ?_⟩
      rw [columnLines, List.flatMap_cons]
      change _ ++ columnLines columns = _
      rw [lines]
      rfl

/-! ### Outcomes -/

theorem run_of_accepted
    {arguments : List Bytes}
    {invocation : Invocation}
    (accepted : Invocation.ofArguments arguments = .ok invocation)
    (storage : Storage)
    (destination : Destination)
    (setting : Option Bytes) :
    run storage destination setting arguments =
      merge storage destination
        ((LogFilter.ofDirectives (LogFilter.stated setting) invocation.verbose).shows
          Event.target)
        invocation.files := by
  rw [run, accepted]

theorem merge_of_failsAt
    (fails : Reading.FailsAt storage files index columns error)
    (destination : Destination)
    (shown : Bool) :
    merge storage destination shown files =
      ⟨.failure, [], log shown (columns.map readEvent) ++ complaint error.diagnosis⟩ := by
  unfold merge
  rw [Reading.ofPaths_of_failsAt fails]

theorem merge_of_complete
    (complete : Reading.Complete storage files columns)
    (destination : Destination)
    (shown : Bool) :
    merge storage destination shown files =
      deliver destination
        (log shown (columns.map readEvent ++ [mergedEvent ⟨columns⟩])) ⟨columns⟩ := by
  unfold merge
  rw [Reading.ofPaths_of_complete complete]

theorem tellsCause_sink (destination : Destination) :
    destination.sink.TellsCause := by
  cases destination with
  | accepting => exact .inl rfl
  | full => exact .inr rfl
  | closed => exact .inr rfl

theorem deliver_of_accepting (logged : Bytes) (table : Table) :
    deliver .accepting logged table = ⟨.success, table.render, logged⟩ := by
  have printed : table.printTo Destination.accepting.sink = .ok table.render :=
    (Table.printTo_eq_writeTo (tellsCause_sink .accepting) table).trans
      (Table.writeTo_of_unlimited rfl table)
  rw [deliver, printed]

theorem deliver_of_refusal
    {destination : Destination}
    {failure : Failure}
    (refused : destination.refusal? = some failure)
    (logged : Bytes)
    (table : Table) :
    deliver destination logged table =
      if table.render = [] then ⟨.success, [], logged⟩
      else ⟨.failure, [], logged ++ complaint (unwritten failure)⟩ := by
  have sink : destination.sink = { room := some 0, cause := some failure } := by
    rw [Destination.sink, refused]
  rw [deliver, Table.printTo_eq_writeTo (tellsCause_sink destination), sink]
  by_cases empty : table.render = []
  · have fits : Sink.Fits { room := some 0, cause := some failure } table.render := by
      intro room _
      rw [empty]
      exact Nat.zero_le room
    rw [Table.writeTo_of_fits fits, if_pos empty, empty]
    rfl
  · have exceeds : 0 < table.render.length := List.length_pos_iff.mpr empty
    rw [Table.writeTo_of_lt rfl exceeds, if_neg empty]
    rfl

theorem exists_refusal
    {destination : Destination}
    (notAccepting : destination ≠ .accepting) :
    ∃ failure, destination.refusal? = some failure := by
  cases destination with
  | accepting => contradiction
  | full => exact ⟨.storageFull, rfl⟩
  | closed => exact ⟨.brokenPipe, rfl⟩

/-- What a run complains of when it could not write its table. -/
theorem exists_told_refusal
    {destination : Destination}
    {cause : String}
    (refusal :
      destination = .full ∧ cause = "No space left on device (os error 28)" ∨
        destination = .closed ∧ cause = "Broken pipe (os error 32)") :
    ∃ failure, destination.refusal? = some failure ∧
      complaint (unwritten failure) =
        Bytes.ofText ("Error: failed to write table\n\nCaused by:\n    " ++
          cause ++ "\n") := by
  rcases refusal with ⟨rfl, rfl⟩ | ⟨rfl, rfl⟩
  · exact ⟨.storageFull, rfl, by decide +kernel⟩
  · exact ⟨.brokenPipe, rfl, by decide +kernel⟩

theorem deliver_output
    (destination : Destination)
    (logged : Bytes)
    (table : Table)
    (arrived : (deliver destination logged table).output ≠ []) :
    (deliver destination logged table).output = table.render := by
  by_cases accepting : destination = .accepting
  · rw [accepting, deliver_of_accepting]
  · obtain ⟨failure, refused⟩ := exists_refusal accepting
    rw [deliver_of_refusal refused] at arrived
    split at arrived <;> contradiction

/-- A run either tells the error of the first file that cannot be read, and
writes nothing, or it writes the whole table of its files, if there is one to
write and the destination takes it. -/
theorem run_writes_whole_table_or_nothing
    (storage : Storage)
    (destination : Destination)
    (setting : Option Bytes)
    (arguments : List Bytes)
    (invocation : Invocation)
    (accepted : Invocation.ofArguments arguments = .ok invocation) :
    let files := invocation.files
    let shown :=
      (LogFilter.ofDirectives (LogFilter.stated setting) invocation.verbose).shows
        Event.target
    let outcome := run storage destination setting arguments
    ((∃ path ∈ files, ∃ error, Entries.ofStream path (storage path) = .error error) ->
      ∃ index columns error, Reading.FailsAt storage files index columns error) ∧
    (∀ index columns error, Reading.FailsAt storage files index columns error ->
      outcome.status.code = 1 ∧
      outcome.output = [] ∧
      (∃ names report,
        List.Forall₂ Utf8.ShownAs (files.take index) names ∧
        error.Told report ∧
        outcome.complaints =
          (if shown then fileLines names (columns.map (·.entries.size)) else []) ++
            (Bytes.ofText "Error: " ++ report ++ Bytes.ofText "\n")) ∧
      ∀ otherStorage otherDestination otherArguments otherInvocation,
        Invocation.ofArguments otherArguments = .ok otherInvocation ->
        otherInvocation.verbose = invocation.verbose ->
        otherInvocation.files.take (index + 1) = files.take (index + 1) ->
        (∀ path ∈ files.take (index + 1), otherStorage path = storage path) ->
        run otherStorage otherDestination setting otherArguments = outcome) ∧
    ((∀ path ∈ files, ∃ entries, Entries.ofStream path (storage path) = .ok entries) ->
      ∃ columns, Reading.Complete storage files columns) ∧
    (∀ columns, Reading.Complete storage files columns ->
      let table : Table := ⟨columns⟩
      ∃ names logged,
        List.Forall₂ Utf8.ShownAs files names ∧
        logged =
          (if shown then
            fileLines names (columns.map (·.entries.size)) ++
              tableLine table.keys.length columns.length
          else []) ∧
        table.writeTo {} = .ok table.render ∧
        (destination = .accepting ->
          outcome.status.code = 0 ∧
          outcome.output = table.render ∧
          outcome.complaints = logged) ∧
        ∀ cause,
          destination = .full ∧ cause = "No space left on device (os error 28)" ∨
            destination = .closed ∧ cause = "Broken pipe (os error 32)" ->
          outcome.output = [] ∧
          (table.render = [] ->
            outcome.status.code = 0 ∧ outcome.complaints = logged) ∧
          (table.render ≠ [] ->
            outcome.status.code = 1 ∧
            outcome.complaints = logged ++
              Bytes.ofText ("Error: failed to write table\n\nCaused by:\n    " ++
                cause ++ "\n"))) ∧
    (outcome.output ≠ [] ->
      ∃ columns, Reading.Complete storage files columns ∧
        outcome.output = (Table.mk columns).render) := by
  intro files shown outcome
  have merged : outcome = merge storage destination shown files :=
    run_of_accepted accepted storage destination setting
  refine ⟨Reading.exists_failsAt_iff.mpr, ?_, Reading.exists_complete_iff.mpr, ?_, ?_⟩
  · intro index columns error fails
    rw [merge_of_failsAt fails, log_readEvents] at merged
    obtain ⟨names, shows, lines⟩ := exists_names fails.complete
    refine ⟨by rw [merged]; rfl, by rw [merged], ?_, ?_⟩
    · refine ⟨names, error.diagnosis.report, shows, error.told_report, ?_⟩
      rw [merged, lines]
      rfl
    · intro otherStorage otherDestination otherArguments otherInvocation
        otherAccepted sameVerbose sameFiles agree
      rw [merged, run_of_accepted otherAccepted, sameVerbose,
        merge_of_failsAt (fails.of_agree sameFiles agree), log_readEvents]
  · intro columns complete table
    obtain ⟨names, shows, lines⟩ := exists_names complete
    rw [merge_of_complete complete, log_complete, lines] at merged
    refine ⟨names, _, shows, rfl, Table.writeTo_of_unlimited rfl table, ?_, ?_⟩
    · rintro rfl
      rw [merged, deliver_of_accepting]
      exact ⟨rfl, rfl, rfl⟩
    · intro cause refusal
      obtain ⟨failure, refused, told⟩ := exists_told_refusal refusal
      rw [merged, deliver_of_refusal refused, told]
      split
      case isTrue empty => exact ⟨rfl, fun _ => ⟨rfl, rfl⟩, fun filled => absurd empty filled⟩
      case isFalse filled => exact ⟨rfl, fun empty => absurd empty filled, fun _ => ⟨rfl, rfl⟩⟩
  · intro arrived
    rcases Reading.complete_or_failsAt storage files with
      ⟨columns, complete⟩ | ⟨index, columns, error, fails⟩
    · rw [merged, merge_of_complete complete] at arrived ⊢
      exact ⟨columns, complete, deliver_output destination _ _ arrived⟩
    · rw [merged, merge_of_failsAt fails] at arrived
      contradiction

/-- The second of three files has a short line and the third does not exist. The
outcome stays the same once the third exists and the destination has room. A path
that is no text and leads nowhere is told as shown. A device without room, or a pipe
that nobody reads, fails a run with a row to write, and not one without. -/
theorem failed_and_refused_runs_spelled_out :
    let storage : Storage := fun path =>
      if path = Bytes.ofText "a" then ⟨Bytes.ofText "k 1\n", none⟩
      else if path = Bytes.ofText "b" then ⟨Bytes.ofText "\nk\n", none⟩
      else if path = Bytes.ofText "empty" then ⟨[], none⟩
      else .failing .notFound
    let extended : Storage := fun path =>
      if path = Bytes.ofText "c" then ⟨Bytes.ofText "k 3\n", none⟩ else storage path
    let files := [Bytes.ofText "a", Bytes.ofText "b", Bytes.ofText "c"]
    let arguments := Bytes.ofText "--verbose" :: files
    let outcome := run storage .full none arguments
    let missing := run storage .closed none [Bytes.ofText "a", 0xFF :: Bytes.ofText "c"]
    let debug := some (Bytes.ofText "debug")
    Invocation.ofArguments arguments = .ok ⟨files, true⟩ ∧
      outcome.status.code = 1 ∧
      outcome.output = [] ∧
      outcome.complaints =
        Bytes.ofText "DEBUG kvmerge::merge: read result file path=a pairs=1\n" ++
          Bytes.ofText "Error: b:2: expected `<key> <value>`, found 1 field(s)\n" ∧
      run extended .accepting none arguments = outcome ∧
      missing.status.code = 1 ∧
      missing.output = [] ∧
      missing.complaints =
        Bytes.ofText "Error: cannot read \uFFFDc\n\nCaused by:\n" ++
          Bytes.ofText "    No such file or directory (os error 2)\n" ∧
      run storage .full none [Bytes.ofText "a"] =
        ⟨.failure, [], Bytes.ofText "Error: failed to write table\n\nCaused by:\n" ++
          Bytes.ofText "    No space left on device (os error 28)\n"⟩ ∧
      run storage .closed none [Bytes.ofText "a"] =
        ⟨.failure, [], Bytes.ofText "Error: failed to write table\n\nCaused by:\n" ++
          Bytes.ofText "    Broken pipe (os error 32)\n"⟩ ∧
      run storage .full none [Bytes.ofText "empty"] = ⟨.success, [], []⟩ ∧
      run storage .accepting debug [Bytes.ofText "a", Bytes.ofText "empty"] =
        ⟨.success, Bytes.ofText "k\t1\t0\n",
          Bytes.ofText "DEBUG kvmerge::merge: read result file path=a pairs=1\n" ++
          Bytes.ofText "DEBUG kvmerge::merge: read result file path=empty pairs=0\n" ++
          Bytes.ofText "DEBUG kvmerge::merge: merged result files rows=1 columns=2\n"⟩ := by
  intro storage extended files arguments outcome missing debug
  have accepted : Invocation.ofArguments arguments = .ok ⟨files, true⟩ := rfl
  have ⟨_, stops, _, _, _⟩ :=
    run_writes_whole_table_or_nothing storage .full none arguments ⟨files, true⟩ accepted
  have fails : Reading.FailsAt storage files 1
      [⟨Bytes.ofText "a",
        Entries.ofPairs [(Bytes.ofText "k", Bytes.ofText "1")]⟩]
      (.malformed (Bytes.ofText "b") 2 1) :=
    ⟨.cons ⟨rfl, rfl⟩ .nil, Bytes.ofText "b", rfl, rfl⟩
  obtain ⟨status, output, _, settled⟩ := stops _ _ _ fails
  refine ⟨accepted, status, output, by decide +kernel, ?_, by decide +kernel,
    by decide +kernel, by decide +kernel, by decide +kernel, by decide +kernel,
    by decide +kernel, by decide +kernel⟩
  apply settled extended .accepting arguments ⟨files, true⟩ accepted rfl rfl
  intro path member
  rcases List.mem_cons.mp member with rfl | member
  · rfl
  · rw [List.mem_singleton.mp member]
    rfl

end Program
end Collate
