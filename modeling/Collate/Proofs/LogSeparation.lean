import Collate.Proofs.ArgumentScan
import Collate.Program

/-!
# The log stays apart from the result

What a run logs stands before everything else that it writes to standard error,
and whether it is shown there changes nothing else. Neither the log setting nor
the verbose flag has a say in the exit status or in the output.
-/

namespace Collate
namespace Program

open Argument (twoDashes)

/-! ## Log lines of a run -/

/-- The events of a merge of some files, whether or not they are shown. -/
def mergeEvents (storage : Storage) (files : List Bytes) : List Event :=
  let reading := Reading.ofPaths storage files
  match reading.error with
  | some _ => reading.columns.map readEvent
  | none => reading.columns.map readEvent ++ [mergedEvent ⟨reading.columns⟩]

/-- The log lines that a run shows under a log setting. -/
def shownLog
    (storage : Storage)
    (setting : Option Bytes)
    (arguments : List Bytes) : Bytes :=
  match Invocation.ofArguments arguments with
  | .error _ => []
  | .ok invocation =>
      let filter :=
        LogFilter.ofDirectives (LogFilter.stated setting) invocation.verbose
      log (filter.shows Event.target) (mergeEvents storage invocation.files)

theorem deliver_after_log (destination : Destination) (table : Table) :
    ∃ status output rest, ∀ logged,
      deliver destination logged table = ⟨status, output, logged ++ rest⟩ := by
  unfold deliver
  cases table.printTo destination.sink with
  | error error => exact ⟨_, _, _, fun logged => rfl⟩
  | ok output => exact ⟨.success, output, [], fun logged => by rw [List.append_nil]⟩

/-- A merge writes its log lines first, and what else it does is settled without
them. -/
theorem merge_after_log
    (storage : Storage)
    (destination : Destination)
    (files : List Bytes) :
    ∃ status output rest, ∀ shown,
      merge storage destination shown files =
        ⟨status, output, log shown (mergeEvents storage files) ++ rest⟩ := by
  unfold merge mergeEvents
  dsimp only
  cases (Reading.ofPaths storage files).error with
  | some error => exact ⟨_, _, _, fun shown => rfl⟩
  | none =>
      obtain ⟨status, output, rest, delivered⟩ :=
        deliver_after_log destination ⟨(Reading.ofPaths storage files).columns⟩
      exact ⟨status, output, rest, fun shown => delivered _⟩

theorem run_after_log
    (storage : Storage)
    (destination : Destination)
    (arguments : List Bytes) :
    ∃ status output rest, ∀ setting,
      run storage destination setting arguments =
        ⟨status, output, shownLog storage setting arguments ++ rest⟩ := by
  unfold run shownLog
  cases Invocation.ofArguments arguments with
  | error reason =>
      let outcome := halt destination reason
      exact ⟨outcome.status, outcome.output, outcome.complaints, fun setting => rfl⟩
  | ok invocation =>
      obtain ⟨status, output, rest, merged⟩ :=
        merge_after_log storage destination invocation.files
      exact ⟨status, output, rest, fun setting => merged _⟩

/-! ## Arguments that lead to the same -/

theorem halt_of_usage
    {reason : Halt}
    (wrongUsage : reason.status = .usage)
    (destination : Destination) :
    halt destination reason = ⟨.usage, [], reason.message .stream⟩ := by
  unfold halt
  rw [wrongUsage]

theorem result_of_sameCourse
    {arguments others : List Bytes}
    (same : Invocation.SameCourse
      (Invocation.ofArguments arguments) (Invocation.ofArguments others))
    (storage : Storage)
    (destination : Destination)
    (setting : Option Bytes) :
    (run storage destination setting arguments).status =
        (run storage destination setting others).status ∧
      (run storage destination setting arguments).output =
        (run storage destination setting others).output := by
  unfold run
  generalize Invocation.ofArguments arguments = scanned at same ⊢
  generalize Invocation.ofArguments others = otherScanned at same ⊢
  cases same with
  | @merge left right sameFiles =>
      obtain ⟨status, output, rest, merged⟩ :=
        merge_after_log storage destination right.files
      dsimp only
      rw [sameFiles, merged, merged]
      exact ⟨rfl, rfl⟩
  | halt reason => exact ⟨rfl, rfl⟩
  | usage wrongUsage otherWrongUsage =>
      dsimp only
      rw [halt_of_usage wrongUsage, halt_of_usage otherWrongUsage]
      exact ⟨rfl, rfl⟩

/-- Two runs that differ in the log setting alone have the same status and
output, and after the log lines that each shows they complain the same. A run
has the same status and output when the verbose flag, not given so far, is put in
at any place before the options end. -/
theorem log_stays_apart_from_result
    (storage : Storage)
    (destination : Destination) :
    (∀ arguments setting other,
      let left := run storage destination setting arguments
      let right := run storage destination other arguments
      left.status = right.status ∧
        left.output = right.output ∧
        ∃ rest,
          left.complaints = shownLog storage setting arguments ++ rest ∧
            right.complaints = shownLog storage other arguments ++ rest) ∧
    ∀ setting before after,
      twoDashes ∉ before ->
      Bytes.ofText "--verbose" ∉ (before ++ after).takeWhile (· != twoDashes) ->
      let plain := run storage destination setting (before ++ after)
      let inserted :=
        run storage destination setting (before ++ Bytes.ofText "--verbose" :: after)
      inserted.status = plain.status ∧ inserted.output = plain.output := by
  constructor
  · intro arguments setting other left right
    obtain ⟨status, output, rest, ran⟩ := run_after_log storage destination arguments
    have leftRan : left = _ := ran setting
    have rightRan : right = _ := ran other
    rw [leftRan, rightRan]
    exact ⟨rfl, rfl, rest, rfl, rfl⟩
  · intro setting before after ahead absent plain inserted
    have same : Invocation.SameCourse
        (Invocation.ofArguments (before ++ Argument.verbose :: after))
        (Invocation.ofArguments (before ++ after)) :=
      Invocation.sameCourse_insert_verbose ahead absent []
    exact result_of_sameCourse same storage destination setting

/-- After an empty file and before an unknown option, the flag changes which
error is told, and a setting that shows log lines changes what is logged. -/
theorem inserted_flag_changes_error_only :
    let storage : Storage := fun _ => ⟨Bytes.ofText "k v\n", none⟩
    let flag := Bytes.ofText "--verbose"
    let unknown := Bytes.ofText "-x"
    let plain := run storage .accepting none [[], unknown]
    let inserted := run storage .accepting none [[], flag, unknown]
    let files := [Bytes.ofText "a", twoDashes, flag]
    let quiet := run storage .accepting none files
    let logging := run storage .accepting (some (Bytes.ofText "debug")) files
    plain.complaints ≠ inserted.complaints ∧
      inserted.status = plain.status ∧
      inserted.output = plain.output ∧
      logging.output = quiet.output ∧
      logging.output = Bytes.ofText "k\tv\tv\n" ∧
      logging.complaints ≠ quiet.complaints := by
  intro storage flag unknown plain inserted files quiet logging
  obtain ⟨setting, insertion⟩ := log_stays_apart_from_result storage .accepting
  obtain ⟨sameStatus, sameOutput⟩ :=
    insertion none [[]] [unknown] (by decide) (by decide)
  obtain ⟨_, sameTable, _⟩ := setting files (some (Bytes.ofText "debug")) none
  have quietOutput : quiet.output = Bytes.ofText "k\tv\tv\n" := by decide +kernel
  exact ⟨by decide +kernel, sameStatus, sameOutput, sameTable, sameTable.trans quietOutput,
    by decide +kernel⟩

end Program
end Collate
