import Collate.Proofs.EffectiveDirectives
import Collate.Proofs.LogCounts

/-!
# What the verbose flag shows

The verbose flag adds a directive for all targets, and a directive with a target
goes before one for all targets. The flag therefore shows the log lines of a run
unless the setting itself silences the program: unless, of the directives whose
target begins the program's own, the narrowest has a level that hides them.
-/

namespace Collate

namespace LogFilter

/-- Of the stated directives one with a target of its own decides about the
program's lines, and hides them. -/
def Silences (stated : List Directive) : Prop :=
  ∃ directive start,
    Decides stated (Bytes.ofText "kvmerge::merge") directive ∧
      directive.target = some start ∧
      directive.level ∈ [Level.off, .error, .warn, .info]

theorem showsDebug_eq_false_iff {level : Level} :
    level.showsDebug = false ↔ level ∈ [Level.off, .error, .warn, .info] := by
  cases level <;> decide

theorem showsOwn_verbose_iff_not_silences {stated : List Directive} :
    showsOwn stated true = true ↔ ¬Silences stated := by
  rw [showsOwn_verbose_iff]
  constructor
  · rintro shown ⟨directive, start, decides, named, hidden⟩
    have visible := shown directive decides (by simp [named])
    rw [showsDebug_eq_false_iff.mpr hidden] at visible
    cases visible
  · intro unsilenced directive decides notForAll
    obtain ⟨start, named⟩ := Option.ne_none_iff_exists'.mp notForAll
    by_contra hidden
    rw [Bool.not_eq_true, showsDebug_eq_false_iff] at hidden
    exact unsilenced ⟨directive, start, decides, named, hidden⟩

end LogFilter

namespace Program

open LogFilter

/-- After the log lines, only a table that could not be written is complained of. -/
theorem deliver_complaints
    (destination : Destination)
    (logged : Bytes)
    (table : Table) :
    ∃ rest, (deliver destination logged table).complaints = logged ++ rest ∧
      (rest = [] ∨ ∃ failure, destination.refusal? = some failure ∧
        rest = complaint (unwritten failure)) := by
  by_cases accepting : destination = .accepting
  · rw [accepting, deliver_of_accepting]
    exact ⟨[], (List.append_nil logged).symm, .inl rfl⟩
  · obtain ⟨failure, refused⟩ := exists_refusal accepting
    rw [deliver_of_refusal refused]
    split
    case isTrue => exact ⟨[], (List.append_nil logged).symm, .inl rfl⟩
    case isFalse => exact ⟨_, rfl, .inr ⟨failure, refused, rfl⟩⟩

/-- With the verbose flag a run logs each file that it reads, and the table if it
reads them all, unless the setting silences it; then it logs nothing. -/
theorem verbose_run_logs_unless_silenced
    (storage : Storage)
    (destination : Destination)
    (setting : Option Bytes)
    (arguments files : List Bytes)
    (accepted : Invocation.ofArguments arguments = .ok ⟨files, true⟩) :
    let outcome := run storage destination setting arguments
    ((∃ columns, Reading.Complete storage files columns) ∨
      ∃ index columns error, Reading.FailsAt storage files index columns error) ∧
    ∃ shown : Bool,
      (shown = true ↔ ¬Silences (stated setting)) ∧
      (∀ columns, Reading.Complete storage files columns ->
        ∃ rest,
          outcome.complaints =
            (if shown then
              columnLines columns ++
                tableLine (Table.mk columns).keys.length columns.length
              else []) ++ rest ∧
          (rest = [] ∨ ∃ failure, destination.refusal? = some failure ∧
            rest = complaint (unwritten failure))) ∧
      ∀ index columns error, Reading.FailsAt storage files index columns error ->
        outcome.complaints =
          (if shown then columnLines columns else []) ++ complaint error.diagnosis := by
  intro outcome
  have merged : outcome =
      merge storage destination (showsOwn (stated setting) true) files :=
    run_of_accepted accepted storage destination setting
  refine ⟨Reading.complete_or_failsAt storage files,
    showsOwn (stated setting) true, showsOwn_verbose_iff_not_silences, ?_, ?_⟩
  · intro columns complete
    rw [merged, merge_of_complete complete, log_complete]
    exact deliver_complaints destination _ ⟨columns⟩
  · intro index columns error fails
    rw [merged, merge_of_failsAt fails, log_readEvents]

/-- A setting that turns the program's own target off, and later to `debug` again, does
not silence a verbose run. A file is logged with its table, and without it when a
second file has a short line. -/
theorem restored_target_logs_verbose_run :
    let storage : Storage := fun path =>
      if path = Bytes.ofText "a" then ⟨Bytes.ofText "k 1\n", none⟩
      else ⟨Bytes.ofText "k\n", none⟩
    let setting := some (Bytes.ofText "kvmerge=off,info,kvmerge=debug")
    let flag := Bytes.ofText "--verbose"
    let file := Bytes.ofText "a"
    let entries := Entries.ofPairs [(Bytes.ofText "k", Bytes.ofText "1")]
    ¬Silences (stated setting) ∧
      Reading.Complete storage [file] [⟨file, entries⟩] ∧
      (run storage .accepting setting [flag, file]).complaints =
        Bytes.ofText "DEBUG kvmerge::merge: read result file path=a pairs=1\n" ++
          Bytes.ofText "DEBUG kvmerge::merge: merged result files rows=1 columns=1\n" ∧
      Reading.FailsAt storage [file, Bytes.ofText "b"] 1 [⟨file, entries⟩]
        (.malformed (Bytes.ofText "b") 1 1) ∧
      (run storage .full setting [flag, file, Bytes.ofText "b"]).complaints =
        Bytes.ofText "DEBUG kvmerge::merge: read result file path=a pairs=1\n" ++
          Bytes.ofText "Error: b:1: expected `<key> <value>`, found 1 field(s)\n" := by
  intro storage setting flag file entries
  have unsilenced : ¬Silences (stated setting) := by
    rintro ⟨directive, start, decides, _, hidden⟩
    have decided : deciding (stated setting) (Bytes.ofText "kvmerge::merge") =
        some ⟨some (Bytes.ofText "kvmerge"), .debug⟩ := by decide
    rw [deciding_eq_some_iff.mpr decides] at decided
    cases decided
    simp at hidden
  have complete : Reading.Complete storage [file] [⟨file, entries⟩] :=
    .cons ⟨rfl, rfl⟩ .nil
  have fails : Reading.FailsAt storage [file, Bytes.ofText "b"] 1 [⟨file, entries⟩]
      (.malformed (Bytes.ofText "b") 1 1) :=
    ⟨complete, Bytes.ofText "b", rfl, rfl⟩
  obtain ⟨_, shown, isShown, lines, _⟩ :=
    verbose_run_logs_unless_silenced storage .accepting setting [flag, file] [file] rfl
  obtain ⟨_, otherShown, otherIsShown, _, otherLines⟩ :=
    verbose_run_logs_unless_silenced storage .full setting
      [flag, file, Bytes.ofText "b"] [file, Bytes.ofText "b"] rfl
  obtain ⟨rest, complaints, ends⟩ := lines _ complete
  have otherComplaints := otherLines _ _ _ fails
  rw [isShown.mpr unsilenced] at complaints
  rw [otherIsShown.mpr unsilenced] at otherComplaints
  refine ⟨unsilenced, complete, ?_, fails, otherComplaints.trans (by decide +kernel)⟩
  rcases ends with rfl | ⟨failure, refused, _⟩
  · exact complaints.trans (by decide +kernel)
  · cases refused

/-- The flag does not show the lines of a run whose setting turns the program's own
target off. -/
theorem own_target_off_silences_verbose_run :
    let storage : Storage := fun _ => ⟨Bytes.ofText "k v\n", none⟩
    let arguments := [Bytes.ofText "--verbose", Bytes.ofText "a"]
    let outcome := run storage .accepting (some (Bytes.ofText "kvmerge=off")) arguments
    Invocation.ofArguments arguments = .ok ⟨[Bytes.ofText "a"], true⟩ ∧
      outcome.status = .success ∧
      outcome.output = Bytes.ofText "k\tv\n" ∧
      outcome.complaints = [] := by
  decide +kernel

end Program
end Collate
