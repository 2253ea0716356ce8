import Collate.Proofs.ArgumentScan
import Mathlib.Tactic.MkIffOfInductiveProp

/-!
# What arguments lead to

A scan takes arguments one by one up to the mark, and what is left after one of
them is all that the arguments after it find. A scan therefore goes on where it
stopped: once it has ended, no further argument changes why, unless it ended
over an empty file. That alone is noticed late. It cannot be made up for, but an
argument that is wrong by itself may be met before it is noticed.

Where a scan does not end, it has passed files and the verbose flag only, the
flag once at most. This tells the accepted arguments without any scan.
-/

namespace Collate
namespace Invocation

open Argument (twoDashes NamesFile)

/-! ## One argument -/

/-- What an argument other than the mark makes of what was taken before it. -/
def take (invocation : Invocation) : Argument -> Except Halt Invocation
  | .endOfOptions => .ok invocation
  | .file path => .ok { invocation with files := invocation.files ++ [path] }
  | .surplusValue flag value => .error (.surplusValue flag value)
  | .unknownOption shown => .error (.unknownOption shown)
  | .option flag => invocation.settle >>= (apply · flag)

theorem scan_mark_cons (invocation : Invocation) (rest : List Bytes) :
    scan invocation (twoDashes :: rest) =
      settle { invocation with files := invocation.files ++ rest } := by
  rw [scan, Argument.ofBytes_eq_endOfOptions_iff.mpr rfl]

/-- An argument other than the mark is taken, and the rest is scanned after it. -/
theorem scan_cons
    {argument : Bytes}
    (notMark : argument ≠ twoDashes)
    (invocation : Invocation)
    (rest : List Bytes) :
    scan invocation (argument :: rest) =
      (invocation.take (Argument.ofBytes argument)).bind (scan · rest) := by
  rw [scan]
  cases kind : Argument.ofBytes argument with
  | endOfOptions => exact absurd (Argument.ofBytes_eq_endOfOptions_iff.mp kind) notMark
  | file path => rfl
  | surplusValue flag value => rfl
  | unknownOption shown => rfl
  | option flag =>
      dsimp only [take]
      cases invocation.settle >>= (apply · flag) <;> rfl

theorem settle_eq_ok_iff {invocation settled : Invocation} :
    invocation.settle = .ok settled ↔
      [] ∉ invocation.files ∧ settled = invocation := by
  unfold settle
  split
  · rename_i empty
    simp [empty]
  · rename_i noneEmpty
    simp [noneEmpty, eq_comm]

theorem settle_eq_error_iff {invocation : Invocation} {reason : Halt} :
    invocation.settle = .error reason ↔
      [] ∈ invocation.files ∧ reason = .emptyFile := by
  unfold settle
  split
  · rename_i empty
    simp [empty, eq_comm]
  · rename_i noneEmpty
    simp [noneEmpty]

/-! ## Further arguments -/

/-- A scan that has ended does not go on with further arguments. What it ended for
stays, unless that is an empty file. -/
theorem scan_append_of_error
    {invocation : Invocation}
    {arguments : List Bytes}
    {reason : Halt}
    (halted : scan invocation arguments = .error reason)
    (further : List Bytes) :
    ∃ told, scan invocation (arguments ++ further) = .error told ∧
      (told = reason ∨ reason = .emptyFile ∧ AfterEmptyFile told) := by
  induction arguments generalizing invocation with
  | nil =>
      obtain ⟨empty, rfl⟩ := settle_eq_error_iff.mp halted
      obtain ⟨told, failed, afterEmptyFile⟩ :=
        scan_of_empty_file empty invocation.verbose further
      exact ⟨told, failed, .inr ⟨rfl, afterEmptyFile⟩⟩
  | cons argument rest hypothesis =>
      by_cases isMark : argument = twoDashes
      · rw [isMark, scan_mark_cons] at halted
        obtain ⟨empty, rfl⟩ := settle_eq_error_iff.mp halted
        -- After the mark further arguments are files, and the empty one stays.
        have stillEmpty : [] ∈ invocation.files ++ (rest ++ further) := by
          rw [← List.append_assoc]
          exact List.mem_append_left further empty
        rw [isMark, List.cons_append, scan_mark_cons]
        exact ⟨.emptyFile, settle_eq_error_iff.mpr ⟨stillEmpty, rfl⟩, .inl rfl⟩
      · rw [scan_cons isMark] at halted
        rw [List.cons_append, scan_cons isMark]
        cases taken : invocation.take (Argument.ofBytes argument) with
        | error other =>
            rw [taken] at halted
            exact ⟨reason, halted, .inl rfl⟩
        | ok next =>
            rw [taken] at halted
            exact hypothesis halted

/-- What ends a scan stays what ends it, whatever arguments follow, unless it is
an empty file. An empty file leaves wrong usage whatever follows: it is noticed,
or a surplus value or an unknown option is met first. -/
theorem ofArguments_append_keeps_fault
    (arguments further : List Bytes)
    (reason : Halt)
    (halted : ofArguments arguments = .error reason) :
    (reason ≠ .emptyFile -> ofArguments (arguments ++ further) = .error reason) ∧
    (reason = .emptyFile ->
      ∃ told, ofArguments (arguments ++ further) = .error told ∧
        told.status.code = 2 ∧
        (told = .emptyFile ∨
          (∃ flag value, told = .surplusValue flag value) ∨
          ∃ shown, told = .unknownOption shown)) := by
  obtain ⟨told, failed, same | ⟨emptyFile, afterEmptyFile⟩⟩ :=
    scan_append_of_error halted further
  · subst same
    refine ⟨fun _ => failed, ?_⟩
    rintro rfl
    exact ⟨.emptyFile, failed, rfl, .inl rfl⟩
  · refine ⟨fun noticed => absurd emptyFile noticed, fun _ => ⟨told, failed, ?_⟩⟩
    rw [afterEmptyFile.wrongUsage]
    refine ⟨rfl, ?_⟩
    cases afterEmptyFile with
    | noticed => exact .inl rfl
    | surplusValue flag value => exact .inr (.inl ⟨flag, value, rfl⟩)
    | unknownOption shown => exact .inr (.inr ⟨shown, rfl⟩)

/-- After an empty file an unknown option is told of instead, but help is not
shown; asked for before the empty file, help is shown whatever follows. -/
theorem empty_file_hides_help :
    let help := Bytes.ofText "--help"
    let unknown := Bytes.ofText "-x"
    ofArguments [[]] = .error .emptyFile ∧
      ofArguments ([[]] ++ [unknown]) = .error (.unknownOption unknown) ∧
      (∃ told, ofArguments ([[]] ++ [help, unknown]) = .error told ∧
        told.status.code = 2 ∧
        (told = .emptyFile ∨
          (∃ flag value, told = .surplusValue flag value) ∨
          ∃ shown, told = .unknownOption shown)) ∧
      ofArguments [help] = .error .help ∧
      ofArguments ([help] ++ [[], unknown]) = .error .help := by
  intro help unknown
  have empty : ofArguments [[]] = .error .emptyFile := rfl
  have asked : ofArguments [help] = .error .help := rfl
  have ⟨_, doomed⟩ := ofArguments_append_keeps_fault [[]] [help, unknown] _ empty
  have ⟨settled, _⟩ := ofArguments_append_keeps_fault [help] [[], unknown] _ asked
  exact ⟨empty, rfl, doomed rfl, asked, settled (by decide)⟩

/-! ## Accepted arguments -/

/-- The arguments before the mark. -/
def beforeMark (arguments : List Bytes) : List Bytes :=
  arguments.takeWhile (· != twoDashes)

/-- The arguments after the mark, of which there are none without it. -/
def afterMark (arguments : List Bytes) : List Bytes :=
  (arguments.dropWhile (· != twoDashes)).tail

@[simp] theorem beforeMark_nil : beforeMark [] = [] := rfl

@[simp] theorem afterMark_nil : afterMark [] = [] := rfl

@[simp] theorem beforeMark_mark_cons (rest : List Bytes) :
    beforeMark (twoDashes :: rest) = [] := by
  simp [beforeMark]

@[simp] theorem afterMark_mark_cons (rest : List Bytes) :
    afterMark (twoDashes :: rest) = rest := by
  simp [afterMark]

theorem beforeMark_cons
    {argument : Bytes}
    (notMark : argument ≠ twoDashes)
    (rest : List Bytes) :
    beforeMark (argument :: rest) = argument :: beforeMark rest := by
  simp [beforeMark, notMark]

theorem afterMark_cons
    {argument : Bytes}
    (notMark : argument ≠ twoDashes)
    (rest : List Bytes) :
    afterMark (argument :: rest) = afterMark rest := by
  simp [afterMark, notMark]

/-- The files that arguments name, in order: all before the mark but the flag, and
all after it. -/
def namedFiles (arguments : List Bytes) : List Bytes :=
  (beforeMark arguments).filter (· != Argument.verbose) ++ afterMark arguments

theorem namedFiles_verbose_cons (rest : List Bytes) :
    namedFiles (Argument.verbose :: rest) = namedFiles rest := by
  have notMark : Argument.verbose ≠ twoDashes := by decide
  simp [namedFiles, beforeMark_cons notMark, afterMark_cons notMark]

theorem namedFiles_cons
    {argument : Bytes}
    (notMark : argument ≠ twoDashes)
    (notVerbose : argument ≠ Argument.verbose)
    (rest : List Bytes) :
    namedFiles (argument :: rest) = argument :: namedFiles rest := by
  simp [namedFiles, beforeMark_cons notMark, afterMark_cons notMark, notVerbose]

/-- Arguments that ask for a merge, where the flag may have been given already. -/
@[mk_iff]
structure Acceptable (given : Bool) (arguments : List Bytes) : Prop where
  /-- The flag is given once at most. -/
  flagOnce : (beforeMark arguments).count Argument.verbose + given.toNat ≤ 1
  /-- What else stands before the mark is a file, and not empty. -/
  filesBefore : ∀ argument ∈ beforeMark arguments, argument ≠ Argument.verbose ->
    argument ≠ [] ∧ NamesFile argument
  /-- No file after the mark is empty. -/
  filesAfter : [] ∉ afterMark arguments

theorem acceptable_nil (given : Bool) : Acceptable given [] := by
  rw [acceptable_iff]
  simp [Bool.toNat_le given]

theorem acceptable_mark_cons_iff {given : Bool} {rest : List Bytes} :
    Acceptable given (twoDashes :: rest) ↔ [] ∉ rest := by
  rw [acceptable_iff]
  simp [Bool.toNat_le given]

theorem acceptable_verbose_cons_iff {given : Bool} {rest : List Bytes} :
    Acceptable given (Argument.verbose :: rest) ↔
      given = false ∧ Acceptable true rest := by
  have notMark : Argument.verbose ≠ twoDashes := by decide
  rw [acceptable_iff, acceptable_iff, beforeMark_cons notMark, afterMark_cons notMark,
    List.count_cons_self, List.forall_mem_cons]
  cases given with
  | false => simp
  | true => simp

theorem acceptable_cons_iff
    {given : Bool}
    {argument : Bytes}
    {rest : List Bytes}
    (notMark : argument ≠ twoDashes)
    (notVerbose : argument ≠ Argument.verbose) :
    Acceptable given (argument :: rest) ↔
      (argument ≠ [] ∧ NamesFile argument) ∧ Acceptable given rest := by
  rw [acceptable_iff, acceptable_iff, beforeMark_cons notMark, afterMark_cons notMark,
    List.count_cons_of_ne notVerbose, List.forall_mem_cons,
    forall_prop_of_true notVerbose]
  simp only [and_assoc, and_left_comm]

/-- The flag lets a scan go on the first time only, and with no empty file before
it. -/
theorem scan_verbose_cons_eq_ok_iff
    {files : List Bytes}
    {given : Bool}
    {rest : List Bytes}
    {result : Invocation} :
    scan ⟨files, given⟩ (Argument.verbose :: rest) = .ok result ↔
      [] ∉ files ∧ given = false ∧ scan ⟨files, true⟩ rest = .ok result := by
  have notMark : Argument.verbose ≠ twoDashes := by decide
  rw [scan_cons notMark, Argument.ofBytes_eq_verbose_iff.mpr rfl, take]
  by_cases empty : [] ∈ files
  · rw [settle_of_empty_file empty]
    simp [empty, bind, Except.bind]
  · rw [settle_of_no_empty_file empty]
    cases given <;> simp [empty, apply, bind, Except.bind]

/-- An option other than the flag ends a scan. -/
theorem take_of_isOption
    {argument : Argument}
    (isOption : argument.IsOption)
    (notVerbose : argument ≠ .option .verbose)
    (invocation : Invocation) :
    ∃ reason, invocation.take argument = .error reason := by
  cases argument with
  | endOfOptions => cases isOption
  | file path => cases isOption
  | surplusValue flag value => exact ⟨_, rfl⟩
  | unknownOption shown => exact ⟨_, rfl⟩
  | option flag =>
      rw [take]
      cases invocation.settle with
      | error reason => exact ⟨reason, rfl⟩
      | ok settled =>
          cases flag with
          | help => exact ⟨.help, rfl⟩
          | version => exact ⟨.version, rfl⟩
          | verbose => contradiction

/-- Any other argument before the mark lets a scan go on only as a file. -/
theorem scan_cons_eq_ok_iff
    {files : List Bytes}
    {given : Bool}
    {argument : Bytes}
    {rest : List Bytes}
    {result : Invocation}
    (notMark : argument ≠ twoDashes)
    (notVerbose : argument ≠ Argument.verbose) :
    scan ⟨files, given⟩ (argument :: rest) = .ok result ↔
      NamesFile argument ∧ scan ⟨files ++ [argument], given⟩ rest = .ok result := by
  rw [scan_cons notMark]
  rcases Argument.ofBytes_cases argument with
    ⟨isMark, _⟩ | ⟨named, isFile⟩ | ⟨unnamed, isOption⟩
  · exact absurd isMark notMark
  · rw [isFile, and_iff_right named]
    rfl
  · rw [ne_eq, ← Argument.ofBytes_eq_verbose_iff] at notVerbose
    obtain ⟨reason, ended⟩ := take_of_isOption isOption notVerbose ⟨files, given⟩
    simp [ended, unnamed, Except.bind]

/-- A scan succeeds exactly on acceptable arguments after files that are not
empty. -/
theorem scan_eq_ok_iff
    {files : List Bytes}
    {given : Bool}
    {arguments : List Bytes}
    {result : Invocation} :
    scan ⟨files, given⟩ arguments = .ok result ↔
      ([] ∉ files ∧ Acceptable given arguments) ∧
        result = ⟨files ++ namedFiles arguments,
          given || decide (Argument.verbose ∈ beforeMark arguments)⟩ := by
  induction arguments generalizing files given with
  | nil =>
      rw [scan, settle_eq_ok_iff]
      simp [namedFiles, acceptable_nil]
  | cons argument rest hypothesis =>
      by_cases isMark : argument = twoDashes
      · subst isMark
        rw [scan_mark_cons, settle_eq_ok_iff, acceptable_mark_cons_iff]
        simp [namedFiles]
      by_cases isVerbose : argument = Argument.verbose
      · subst isVerbose
        rw [scan_verbose_cons_eq_ok_iff, hypothesis, acceptable_verbose_cons_iff,
          namedFiles_verbose_cons, beforeMark_cons isMark]
        cases given with
        | false => simp [and_assoc]
        | true => simp
      · rw [scan_cons_eq_ok_iff isMark isVerbose, hypothesis,
          acceptable_cons_iff isMark isVerbose, namedFiles_cons isMark isVerbose,
          beforeMark_cons isMark]
        have noneEmpty : [] ∉ files ++ [argument] ↔ [] ∉ files ∧ argument ≠ [] := by
          simp [eq_comm]
        have flagAhead : decide (Argument.verbose ∈ argument :: beforeMark rest) =
            decide (Argument.verbose ∈ beforeMark rest) := by
          simp [Ne.symm isVerbose]
        rw [noneEmpty, flagAhead, List.append_assoc, List.singleton_append]
        simp only [and_assoc, and_left_comm]

theorem ofArguments_eq_ok_iff {arguments : List Bytes} {invocation : Invocation} :
    ofArguments arguments = .ok invocation ↔
      Acceptable false arguments ∧
        invocation = ⟨namedFiles arguments,
          decide (Argument.verbose ∈ beforeMark arguments)⟩ := by
  rw [ofArguments, scan_eq_ok_iff]
  simp

/-- After a mark anything but an empty argument is a file. -/
theorem ofArguments_of_mark
    {files : List Bytes}
    (noneEmpty : [] ∉ files)
    (verbose : Bool) :
    ofArguments ((if verbose then [Argument.verbose] else []) ++ [twoDashes] ++ files) =
      .ok ⟨files, verbose⟩ := by
  have marked : Acceptable verbose (twoDashes :: files) :=
    acceptable_mark_cons_iff.mpr noneEmpty
  apply ofArguments_eq_ok_iff.mpr
  cases verbose with
  | false => exact ⟨marked, by simp [namedFiles]⟩
  | true =>
      have notMark : Argument.verbose ≠ twoDashes := by decide
      refine ⟨acceptable_verbose_cons_iff.mpr ⟨rfl, marked⟩, ?_⟩
      simp [namedFiles, beforeMark_cons notMark, afterMark_cons notMark]

/-- Arguments are accepted exactly when, before the first `--`, the verbose flag
stands once at most and all else is a file that is not empty, and when no
argument after it is empty. The files are then all arguments but the flag and
that `--`, in order, so every list of files can be asked for. -/
theorem ofArguments_accepts_files_and_one_flag (arguments : List Bytes) :
    ((∃ invocation, ofArguments arguments = .ok invocation) ↔
      (beforeMark arguments).count (Bytes.ofText "--verbose") ≤ 1 ∧
      (∀ argument ∈ beforeMark arguments, argument ≠ Bytes.ofText "--verbose" ->
        argument ≠ [] ∧
          (argument = Bytes.ofText "-" ∨ ¬Bytes.ofText "-" <+: argument)) ∧
      [] ∉ afterMark arguments) ∧
    (∀ invocation, ofArguments arguments = .ok invocation ->
      (invocation.verbose = true ↔ Bytes.ofText "--verbose" ∈ beforeMark arguments) ∧
      invocation.files =
        (beforeMark arguments).filter (· != Bytes.ofText "--verbose") ++
          afterMark arguments) ∧
    ∀ files verbose, [] ∉ files ->
      ofArguments
        ((if verbose then [Bytes.ofText "--verbose"] else []) ++ [Bytes.ofText "--"] ++
          files) = .ok ⟨files, verbose⟩ := by
  refine ⟨?_, ?_, ?_⟩
  · simp only [ofArguments_eq_ok_iff, exists_and_left, exists_eq, and_true]
    exact acceptable_iff false arguments
  · intro invocation accepted
    obtain ⟨_, rfl⟩ := ofArguments_eq_ok_iff.mp accepted
    exact ⟨decide_eq_true_iff, rfl⟩
  · intro files verbose noneEmpty
    exact ofArguments_of_mark noneEmpty verbose

/-- The flag between two files, and after the mark the flag, the mark and an
unknown option, which are files there. -/
theorem marked_arguments_are_files :
    let flag := Bytes.ofText "--verbose"
    let mark := Bytes.ofText "--"
    let unknown := Bytes.ofText "-x"
    let file := Bytes.ofText "a"
    let arguments := [file, flag, Bytes.ofText "-", mark, flag, mark, unknown]
    ofArguments arguments =
        .ok ⟨[file, Bytes.ofText "-", flag, mark, unknown], true⟩ ∧
      beforeMark arguments = [file, flag, Bytes.ofText "-"] ∧
      afterMark arguments = [flag, mark, unknown] ∧
      (∃ invocation, ofArguments arguments = .ok invocation) ∧
      ofArguments ([flag] ++ [mark] ++ [unknown, mark]) = .ok ⟨[unknown, mark], true⟩ := by
  intro flag mark unknown file arguments
  obtain ⟨accepts, _, _⟩ := ofArguments_accepts_files_and_one_flag arguments
  obtain ⟨_, _, asked⟩ := ofArguments_accepts_files_and_one_flag []
  refine ⟨rfl, rfl, rfl, accepts.mpr ⟨by decide, ?_, by decide⟩, ?_⟩
  · decide
  · exact asked [unknown, mark] true (by decide)

end Invocation
end Collate
