import Collate.CommandLine

/-!
# Taking arguments

What a scan of arguments leads to shows in a run only as far as two scans can be
told apart by their files, by the text of help or version, or by wrong usage as
such. An argument that is neither `--` nor `--verbose` keeps two scans together,
and an empty file dooms a scan to wrong usage, whatever arguments follow it. So
`--verbose` may be put in anywhere before `--`.
-/

namespace Collate

namespace Flag

theorem ofLabel?_eq_some_iff {label : Bytes} {flag : Flag} :
    ofLabel? label = some flag ↔ label = flag.label := by
  constructor
  · intro found
    have named := List.find?_some found
    exact (eq_of_beq named).symm
  · rintro rfl
    cases flag <;> rfl

theorem ofLetter?_ne_verbose (letter : UInt8) :
    ofLetter? letter ≠ some verbose := by
  unfold ofLetter?
  grind

end Flag

namespace Argument

/-- The argument that asks for log lines. -/
def verbose : Bytes := Bytes.ofText "--verbose"

/-! ## Kinds of arguments -/

theorem ofLong_eq_option_iff {rest : Bytes} {flag : Flag} :
    ofLong rest = .option flag ↔ rest = flag.label := by
  constructor
  · intro isOption
    unfold ofLong Bytes.cutAtFirst at isOption
    dsimp only at isOption
    split at isOption
    · rename_i found uncut
      cases isOption
      -- Without a value nothing is cut off, so the label is all that follows.
      have noValue : rest.dropWhile (· != 0x3D) = [] := by
        generalize rest.dropWhile (· != 0x3D) = following at uncut ⊢
        cases following with
        | nil => rfl
        | cons octet others => cases uncut
      have whole := List.takeWhile_append_dropWhile (p := (· != 0x3D)) (l := rest)
      rw [noValue, List.append_nil, Flag.ofLabel?_eq_some_iff.mp found] at whole
      exact whole.symm
    · cases isOption
    · cases isOption
  · rintro rfl
    cases flag <;> rfl

/-- An option of any kind, known to the program or not. -/
def IsOption : Argument -> Prop
  | option _ => True
  | surplusValue _ _ => True
  | unknownOption _ => True
  | _ => False

theorem isOption_ofLong (rest : Bytes) : (ofLong rest).IsOption := by
  unfold ofLong
  dsimp only
  split <;> trivial

theorem isOption_ofShort (rest : Bytes) : (ofShort rest).IsOption := by
  unfold ofShort
  split <;> trivial

theorem ofShort_ne_verbose (rest : Bytes) :
    ofShort rest ≠ .option .verbose := by
  unfold ofShort
  split
  · rename_i flag found
    obtain ⟨letter, _, named⟩ := Option.bind_eq_some_iff.mp found
    rintro ⟨rfl⟩
    exact Flag.ofLetter?_ne_verbose letter named
  · simp

/-- An argument that is taken for a file where options are looked for. -/
def NamesFile (argument : Bytes) : Prop :=
  argument = dash ∨ ¬dash <+: argument

/-- Two dashes are the mark. What else begins with a dash is an option, the dash
alone apart, and all other arguments are files. -/
theorem ofBytes_cases (argument : Bytes) :
    argument = twoDashes ∧ ofBytes argument = .endOfOptions ∨
      NamesFile argument ∧ ofBytes argument = .file argument ∨
      ¬NamesFile argument ∧ (ofBytes argument).IsOption := by
  unfold ofBytes NamesFile
  split
  · rename_i isEnd
    exact .inl ⟨isEnd, rfl⟩
  right
  split
  · rename_i long
    obtain ⟨rest, rfl⟩ := List.isPrefixOf_iff_prefix.mp long
    have dashed : dash <+: twoDashes ++ rest := ⟨dash ++ rest, rfl⟩
    have longer : twoDashes ++ rest ≠ dash := by simp [twoDashes, dash, Bytes.ofText]
    exact .inr ⟨by simp [dashed, longer], isOption_ofLong _⟩
  split
  · rename_i isDash
    exact .inl ⟨.inl isDash, rfl⟩
  split
  · rename_i other dashed
    have starts : dash <+: argument := List.isPrefixOf_iff_prefix.mp dashed
    exact .inr ⟨by simp [starts, other], isOption_ofShort _⟩
  · rename_i undashed
    rw [List.isPrefixOf_iff_prefix] at undashed
    exact .inl ⟨.inr undashed, rfl⟩

theorem ofBytes_eq_endOfOptions_iff {argument : Bytes} :
    ofBytes argument = .endOfOptions ↔ argument = twoDashes := by
  constructor
  · intro isEnd
    rcases ofBytes_cases argument with ⟨equal, _⟩ | ⟨_, isFile⟩ | ⟨_, isOption⟩
    · exact equal
    · rw [isEnd] at isFile
      cases isFile
    · rw [isEnd] at isOption
      cases isOption
  · rintro rfl
    rfl

theorem ofBytes_eq_verbose_iff {argument : Bytes} :
    ofBytes argument = .option .verbose ↔ argument = verbose := by
  constructor
  · intro isVerbose
    unfold ofBytes at isVerbose
    split at isVerbose
    · cases isVerbose
    split at isVerbose
    · rename_i long
      obtain ⟨rest, rfl⟩ := List.isPrefixOf_iff_prefix.mp long
      have named : rest = Flag.verbose.label := ofLong_eq_option_iff.mp isVerbose
      rw [named]
      rfl
    split at isVerbose
    · cases isVerbose
    split at isVerbose
    · exact absurd isVerbose (ofShort_ne_verbose _)
    · cases isVerbose
  · rintro rfl
    rfl

end Argument

namespace Invocation

open Argument (twoDashes)

/-! ## Scans that lead to the same -/

/-- Two scans that the status and the output of a run cannot tell apart. -/
inductive SameCourse : Except Halt Invocation -> Except Halt Invocation -> Prop
  /-- Both lead to a merge of the same files. -/
  | merge {left right : Invocation} :
      left.files = right.files -> SameCourse (.ok left) (.ok right)
  /-- Both end for the same reason. -/
  | halt (reason : Halt) : SameCourse (.error reason) (.error reason)
  /-- Both end in wrong usage, for whatever reasons. -/
  | usage {left right : Halt} :
      left.status = .usage -> right.status = .usage ->
      SameCourse (.error left) (.error right)

theorem settle_of_empty_file
    {files : List Bytes}
    (empty : [] ∈ files)
    (verbose : Bool) :
    settle ⟨files, verbose⟩ = .error .emptyFile :=
  if_pos empty

theorem settle_of_no_empty_file
    {files : List Bytes}
    (noneEmpty : [] ∉ files)
    (verbose : Bool) :
    settle ⟨files, verbose⟩ = .ok ⟨files, verbose⟩ :=
  if_neg noneEmpty

theorem sameCourse_settle (files : List Bytes) (left right : Bool) :
    SameCourse (settle ⟨files, left⟩) (settle ⟨files, right⟩) := by
  by_cases empty : [] ∈ files
  · rw [settle_of_empty_file empty, settle_of_empty_file empty]
    exact .halt _
  · rw [settle_of_no_empty_file empty, settle_of_no_empty_file empty]
    exact .merge rfl

/-- What a scan may end for once an empty file is taken. -/
inductive AfterEmptyFile : Halt -> Prop
  | noticed : AfterEmptyFile .emptyFile
  /-- A flag with a value is met before the file is noticed. -/
  | surplusValue (flag : Flag) (value : Bytes) :
      AfterEmptyFile (.surplusValue flag value)
  /-- An unknown option is met before the file is noticed. -/
  | unknownOption (shown : Bytes) : AfterEmptyFile (.unknownOption shown)

theorem AfterEmptyFile.wrongUsage
    {reason : Halt}
    (afterEmptyFile : AfterEmptyFile reason) :
    reason.status = .usage := by
  cases afterEmptyFile <;> rfl

/-- An empty file among those taken leads to wrong usage: it is noticed, or an
argument is met before that which is wrong by itself. -/
theorem scan_of_empty_file
    {files : List Bytes}
    (empty : [] ∈ files)
    (verbose : Bool)
    (arguments : List Bytes) :
    ∃ reason, scan ⟨files, verbose⟩ arguments = .error reason ∧
      AfterEmptyFile reason := by
  induction arguments generalizing files with
  | nil => exact ⟨_, settle_of_empty_file empty verbose, .noticed⟩
  | cons argument rest hypothesis =>
      rw [scan]
      cases Argument.ofBytes argument with
      | endOfOptions =>
          have stillEmpty : [] ∈ files ++ rest := List.mem_append_left rest empty
          exact ⟨_, settle_of_empty_file stillEmpty verbose, .noticed⟩
      | file path => exact hypothesis (List.mem_append_left [path] empty)
      | surplusValue flag value => exact ⟨_, rfl, .surplusValue flag value⟩
      | unknownOption shown => exact ⟨_, rfl, .unknownOption shown⟩
      | option flag =>
          rw [settle_of_empty_file empty]
          exact ⟨_, rfl, .noticed⟩

/-- A common argument before what leads to the same leads to the same. -/
theorem sameCourse_cons
    {left right : Bool}
    {argument : Bytes}
    {rest otherRest : List Bytes}
    (notEnd : argument ≠ twoDashes)
    (notVerbose : argument ≠ Argument.verbose)
    (sameAfter : ∀ files,
      SameCourse (scan ⟨files, left⟩ rest) (scan ⟨files, right⟩ otherRest))
    (files : List Bytes) :
    SameCourse (scan ⟨files, left⟩ (argument :: rest))
      (scan ⟨files, right⟩ (argument :: otherRest)) := by
  rw [scan, scan]
  cases kind : Argument.ofBytes argument with
  | endOfOptions => exact absurd (Argument.ofBytes_eq_endOfOptions_iff.mp kind) notEnd
  | file path => exact sameAfter (files ++ [path])
  | surplusValue flag value => exact .halt _
  | unknownOption shown => exact .halt _
  | option flag =>
      by_cases empty : [] ∈ files
      · rw [settle_of_empty_file empty, settle_of_empty_file empty]
        exact .halt _
      · rw [settle_of_no_empty_file empty, settle_of_no_empty_file empty]
        cases flag with
        | help => exact .halt _
        | version => exact .halt _
        | verbose => exact absurd (Argument.ofBytes_eq_verbose_iff.mp kind) notVerbose

/-! ## Putting in the verbose flag -/

/-- Whether the flag was given makes no difference to arguments without it. -/
theorem sameCourse_of_verbose
    {arguments : List Bytes}
    (absent : Argument.verbose ∉ arguments.takeWhile (· != twoDashes))
    (files : List Bytes) :
    SameCourse (scan ⟨files, true⟩ arguments) (scan ⟨files, false⟩ arguments) := by
  induction arguments generalizing files with
  | nil => exact sameCourse_settle files true false
  | cons argument rest hypothesis =>
      by_cases isEnd : argument = twoDashes
      · rw [scan, scan, Argument.ofBytes_eq_endOfOptions_iff.mpr isEnd]
        exact sameCourse_settle (files ++ rest) true false
      · rw [List.takeWhile_cons_of_pos (by simpa using isEnd), List.mem_cons, not_or]
          at absent
        exact sameCourse_cons isEnd (Ne.symm absent.1) (hypothesis absent.2) files

/-- The flag may be put in at the front, where an empty file taken before it may
be noticed earlier. -/
theorem sameCourse_verbose_cons
    {arguments : List Bytes}
    (absent : Argument.verbose ∉ arguments.takeWhile (· != twoDashes))
    (files : List Bytes) :
    SameCourse (scan ⟨files, false⟩ (Argument.verbose :: arguments))
      (scan ⟨files, false⟩ arguments) := by
  rw [scan, Argument.ofBytes_eq_verbose_iff.mpr rfl]
  by_cases empty : [] ∈ files
  · obtain ⟨reason, failed, afterEmptyFile⟩ := scan_of_empty_file empty false arguments
    rw [settle_of_empty_file empty, failed]
    exact .usage rfl afterEmptyFile.wrongUsage
  · rw [settle_of_no_empty_file empty]
    exact sameCourse_of_verbose absent files

/-- The flag may be put in at any place before the options end. -/
theorem sameCourse_insert_verbose
    {before after : List Bytes}
    (ahead : twoDashes ∉ before)
    (absent : Argument.verbose ∉ (before ++ after).takeWhile (· != twoDashes))
    (files : List Bytes) :
    SameCourse (scan ⟨files, false⟩ (before ++ Argument.verbose :: after))
      (scan ⟨files, false⟩ (before ++ after)) := by
  induction before generalizing files with
  | nil => exact sameCourse_verbose_cons absent files
  | cons argument before hypothesis =>
      rw [List.mem_cons, not_or] at ahead
      rw [List.cons_append, List.takeWhile_cons_of_pos (by simpa using Ne.symm ahead.1),
        List.mem_cons, not_or] at absent
      exact sameCourse_cons (Ne.symm ahead.1) (Ne.symm absent.1)
        (hypothesis ahead.2 absent.2) files

end Invocation
end Collate
