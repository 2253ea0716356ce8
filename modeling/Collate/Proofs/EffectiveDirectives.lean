import Collate.Proofs.Runs
import Mathlib.Data.List.Induction
import Mathlib.Data.List.Nodup
import Mathlib.Logic.Relation

/-!
# Directives that take effect

Of the directives that a log setting states, only some can have a say in whether
the program's lines are shown: those whose target begins the program's own, and of
several with the same target the last. The pass over the directives finds the
narrowest of these, in whatever order they stand. The level without any directive
does not disturb this: `warn` hides the lines just as no level does.
-/

namespace Collate

namespace Directive

theorem covers_iff
    {directive : Directive}
    {target : Bytes} :
    directive.covers target = true ↔
      ∀ start, directive.target = some start -> start <+: target := by
  unfold covers
  cases directive.target with
  | none => simp
  | some start => simp

theorem covers_eq_of_target_eq
    {directive other : Directive}
    (same : directive.target = other.target)
    (target : Bytes) :
    directive.covers target = other.covers target := by
  unfold covers
  rw [same]

theorem narrowness_eq_of_target_eq
    {directive other : Directive}
    (same : directive.target = other.target) :
    directive.narrowness = other.narrowness := by
  unfold narrowness
  rw [same]

/-- Two directives for a target that are equally narrow have the same target of
their own. -/
theorem target_eq_of_narrowness_eq
    {directive other : Directive}
    {target : Bytes}
    (covers : directive.covers target = true)
    (otherCovers : other.covers target = true)
    (same : directive.narrowness = other.narrowness) :
    directive.target = other.target := by
  rw [covers_iff] at covers otherCovers
  unfold narrowness at same
  cases stated : directive.target with
  | none =>
      cases otherStated : other.target with
      | none => rfl
      | some start => simp [stated, otherStated] at same
  | some start =>
      cases otherStated : other.target with
      | none => simp [stated, otherStated] at same
      | some otherStart =>
          have sameLength : start.length = otherStart.length := by
            simpa [stated, otherStated] using same
          have begins : start <+: otherStart :=
            List.prefix_of_prefix_length_le (covers start stated)
              (otherCovers otherStart otherStated) (Nat.le_of_eq sameLength)
          rw [begins.eq_of_length sameLength]

end Directive

namespace LogFilter

/-! ## The last directive with a target -/

/-- The last of the directives that have a given target. -/
def lastFor (filter : LogFilter) (target : Option Bytes) : Option Directive :=
  filter.reverse.find? (·.target = target)

theorem lastFor_append
    (filter others : LogFilter)
    (target : Option Bytes) :
    lastFor (filter ++ others) target =
      (lastFor others target).or (lastFor filter target) := by
  unfold lastFor
  rw [List.reverse_append, List.find?_append]

@[simp] theorem lastFor_singleton
    (directive : Directive)
    (target : Option Bytes) :
    lastFor [directive] target =
      if directive.target = target then some directive else none := by
  simp [lastFor, List.find?_singleton]

theorem lastFor_cons
    (directive : Directive)
    (filter : LogFilter)
    (target : Option Bytes) :
    lastFor (directive :: filter) target =
      (lastFor filter target).or
        (if directive.target = target then some directive else none) := by
  rw [← lastFor_singleton, ← lastFor_append, List.singleton_append]

theorem target_of_lastFor
    {filter : LogFilter}
    {target : Option Bytes}
    {directive : Directive}
    (last : filter.lastFor target = some directive) :
    directive.target = target := by
  simpa using List.find?_some last

theorem mem_of_lastFor
    {filter : LogFilter}
    {target : Option Bytes}
    {directive : Directive}
    (last : filter.lastFor target = some directive) :
    directive ∈ filter :=
  List.mem_reverse.mp (List.mem_of_find?_eq_some last)

theorem exists_lastFor_of_mem
    {filter : LogFilter}
    {directive : Directive}
    (member : directive ∈ filter) :
    ∃ last, filter.lastFor directive.target = some last := by
  apply Option.isSome_iff_exists.mp
  apply List.find?_isSome.mpr
  exact ⟨directive, List.mem_reverse.mpr member, by simp⟩

/-! ## The deciding directive -/

/-- What it takes for a directive to decide about a target: it is for the target,
it is the last with its own target, and no other for the target is narrower. -/
structure Decides
    (filter : LogFilter)
    (target : Bytes)
    (directive : Directive) : Prop where
  covers : directive.covers target = true
  last : filter.lastFor directive.target = some directive
  narrowest : ∀ other ∈ filter,
    other.covers target = true -> other.narrowness ≤ directive.narrowness

variable
  {filter otherFilter : LogFilter}
  {target : Bytes}
  {directive other : Directive}

theorem Decides.mem (decides : Decides filter target directive) :
    directive ∈ filter :=
  mem_of_lastFor decides.last

theorem Decides.unique
    (decides : Decides filter target directive)
    (otherDecides : Decides filter target other) :
    directive = other := by
  have sameTarget : directive.target = other.target := by
    apply Directive.target_eq_of_narrowness_eq decides.covers otherDecides.covers
    apply Nat.le_antisymm
    · exact otherDecides.narrowest directive decides.mem decides.covers
    · exact decides.narrowest other otherDecides.mem otherDecides.covers
  have last := decides.last
  rw [sameTarget, otherDecides.last] at last
  exact (Option.some.inj last).symm

theorem deciding_append_singleton
    (filter : LogFilter)
    (directive : Directive)
    (target : Bytes) :
    deciding (filter ++ [directive]) target =
      if directive.covers target &&
          (deciding filter target).all (·.narrowness ≤ directive.narrowness)
      then some directive else deciding filter target := by
  unfold deciding
  rw [List.foldl_append]
  rfl

/-- A further directive decides if it is for the target and none that came before
is narrower. -/
theorem decides_append_of_covers
    (covers : directive.covers target = true)
    (narrowest : ∀ other ∈ filter,
      other.covers target = true -> other.narrowness ≤ directive.narrowness) :
    Decides (filter ++ [directive]) target directive := by
  refine ⟨covers, ?_, ?_⟩
  · rw [lastFor_append, lastFor_singleton, if_pos rfl, Option.some_or]
  · intro other member otherCovers
    rcases List.mem_append.mp member with earlier | final
    · exact narrowest other earlier otherCovers
    · obtain rfl := List.mem_singleton.mp final
      exact Nat.le_refl _

/-- A further directive changes nothing if it is not for the target or less narrow. -/
theorem Decides.append
    (decides : Decides filter target directive)
    (wider : other.covers target = true -> other.narrowness < directive.narrowness) :
    Decides (filter ++ [other]) target directive := by
  refine ⟨decides.covers, ?_, ?_⟩
  · -- With the same target it would be for the target too, and as narrow.
    have different : other.target ≠ directive.target := by
      intro same
      have covers := Directive.covers_eq_of_target_eq same target
      rw [decides.covers] at covers
      have less := wider covers
      rw [Directive.narrowness_eq_of_target_eq same] at less
      exact Nat.lt_irrefl _ less
    rw [lastFor_append, lastFor_singleton, if_neg different, Option.none_or, decides.last]
  · intro further member furtherCovers
    rcases List.mem_append.mp member with earlier | final
    · exact decides.narrowest further earlier furtherCovers
    · rw [List.mem_singleton.mp final] at furtherCovers ⊢
      exact Nat.le_of_lt (wider furtherCovers)

/-- What the pass may hold: a directive that decides, or nothing if none is for the
target. -/
def Settles (filter : LogFilter) (target : Bytes) : Option Directive -> Prop
  | none => ∀ directive ∈ filter, directive.covers target = false
  | some directive => Decides filter target directive

theorem Settles.append
    {best : Option Directive}
    (settles : Settles filter target best)
    (directive : Directive) :
    Settles (filter ++ [directive]) target
      (if directive.covers target && best.all (·.narrowness ≤ directive.narrowness)
        then some directive else best) := by
  split
  case isTrue taken =>
    rw [Bool.and_eq_true] at taken
    apply decides_append_of_covers taken.1
    intro other member covers
    cases best with
    | none =>
        rw [settles other member] at covers
        cases covers
    | some narrowest =>
        have narrower : narrowest.narrowness ≤ directive.narrowness := by
          simpa using taken.2
        exact Nat.le_trans (settles.narrowest other member covers) narrower
  case isFalse refused =>
    cases best with
    | none =>
        have uncovered : directive.covers target = false := by simpa using refused
        intro other member
        rcases List.mem_append.mp member with earlier | final
        · exact settles other earlier
        · rw [List.mem_singleton.mp final]
          exact uncovered
    | some narrowest =>
        apply Decides.append settles
        intro covers
        simpa [covers] using refused

theorem settles_deciding (filter : LogFilter) (target : Bytes) :
    Settles filter target (deciding filter target) := by
  induction filter using List.reverseRecOn with
  | nil => simp [deciding, Settles]
  | append_singleton filter directive hypothesis =>
      rw [deciding_append_singleton]
      exact hypothesis.append directive

/-- The pass finds the directive that decides, if there is one. -/
theorem deciding_eq_some_iff :
    deciding filter target = some directive ↔ Decides filter target directive := by
  have settles := settles_deciding filter target
  constructor
  · intro found
    rwa [found] at settles
  · intro decides
    generalize deciding filter target = best at settles
    cases best with
    | none =>
        have uncovered := settles directive decides.mem
        rw [decides.covers] at uncovered
        cases uncovered
    | some other => rw [Decides.unique settles decides]

/-- Two filters agree on a target when they have the same last directive with each
target that begins it. -/
def AgreeOn (target : Bytes) (filter otherFilter : LogFilter) : Prop :=
  ∀ directive : Directive, directive.covers target = true ->
    filter.lastFor directive.target = otherFilter.lastFor directive.target

theorem Decides.of_agreeOn
    (agree : AgreeOn target filter otherFilter)
    (decides : Decides filter target directive) :
    Decides otherFilter target directive := by
  refine ⟨decides.covers, ?_, ?_⟩
  · rw [← agree directive decides.covers, decides.last]
  · intro other member covers
    -- The other filter need not hold this directive, but holds a last one like it.
    obtain ⟨last, found⟩ := exists_lastFor_of_mem member
    have sameTarget : last.target = other.target := target_of_lastFor found
    rw [← agree other covers] at found
    rw [← Directive.covers_eq_of_target_eq sameTarget] at covers
    rw [← Directive.narrowness_eq_of_target_eq sameTarget]
    exact decides.narrowest last (mem_of_lastFor found) covers

/-- Only the last directives with targets that begin the given one have a say. -/
theorem deciding_eq_of_agreeOn (agree : AgreeOn target filter otherFilter) :
    deciding filter target = deciding otherFilter target := by
  ext directive
  rw [deciding_eq_some_iff, deciding_eq_some_iff]
  constructor
  · exact Decides.of_agreeOn agree
  · exact Decides.of_agreeOn fun directive covers => (agree directive covers).symm

/-! ## Whether log lines are shown -/

/-- Whether the program's log lines are shown when some directives are stated. -/
def showsOwn (stated : List Directive) (verbose : Bool) : Bool :=
  (ofDirectives stated verbose).shows Event.target

theorem Decides.cons
    (decides : Decides filter target directive)
    (wider : other.narrowness ≤ directive.narrowness) :
    Decides (other :: filter) target directive := by
  refine ⟨decides.covers, ?_, ?_⟩
  · rw [lastFor_cons, decides.last, Option.some_or]
  · intro further member covers
    rcases List.mem_cons.mp member with rfl | later
    · exact wider
    · exact decides.narrowest further later covers

theorem decides_cons_of_uncovered
    (covers : directive.covers target = true)
    (uncovered : ∀ other ∈ filter, other.covers target = false) :
    Decides (directive :: filter) target directive := by
  refine ⟨covers, ?_, ?_⟩
  · cases last : filter.lastFor directive.target with
    | none => rw [lastFor_cons, last, if_pos rfl, Option.none_or]
    | some other =>
        have otherUncovered := uncovered other (mem_of_lastFor last)
        rw [Directive.covers_eq_of_target_eq (target_of_lastFor last), covers]
          at otherUncovered
        cases otherUncovered
  · intro other member otherCovers
    rcases List.mem_cons.mp member with rfl | later
    · exact Nat.le_refl _
    · rw [uncovered other later] at otherCovers
      cases otherCovers

/-- A first directive for all targets that hides the lines changes nothing: where it
decides, no other is for the target. -/
theorem shows_hidden_cons (filter : LogFilter) (target : Bytes) :
    shows (⟨none, .warn⟩ :: filter) target = shows filter target := by
  have settles := settles_deciding filter target
  unfold shows
  generalize deciding filter target = best at settles
  cases best with
  | none =>
      have decides : Decides (⟨none, .warn⟩ :: filter) target ⟨none, .warn⟩ :=
        decides_cons_of_uncovered rfl settles
      rw [deciding_eq_some_iff.mpr decides]
      rfl
  | some directive =>
      rw [deciding_eq_some_iff.mpr (Decides.cons settles (Nat.zero_le _))]

/-- Without a directive the level is `warn`, which hides as much as no level. -/
theorem showsOwn_eq (stated : List Directive) (verbose : Bool) :
    showsOwn stated verbose =
      shows (stated ++ if verbose then [⟨none, .debug⟩] else []) Event.target := by
  unfold showsOwn ofDirectives
  cases stated with
  | nil => exact shows_hidden_cons _ _
  | cons first rest => rfl

theorem showsOwn_eq_of_agreeOn
    {stated other : List Directive}
    (agree : AgreeOn Event.target stated other)
    (verbose : Bool) :
    showsOwn stated verbose = showsOwn other verbose := by
  rw [showsOwn_eq, showsOwn_eq]
  unfold shows
  congr 1
  apply deciding_eq_of_agreeOn
  intro directive covers
  rw [lastFor_append, lastFor_append, agree directive covers]

/-- With the verbose flag, the lines are hidden only by a directive that decides
among the stated ones and has a target of its own. -/
theorem showsOwn_verbose_iff {stated : List Directive} :
    showsOwn stated true = true ↔
      ∀ directive, Decides stated Event.target directive -> directive.target ≠ none ->
        directive.level.showsDebug = true := by
  rw [showsOwn_eq, if_pos rfl, shows, deciding_append_singleton]
  have forAll : (Directive.mk none .debug).covers Event.target = true := rfl
  have widest : (Directive.mk none .debug).narrowness = 0 := rfl
  simp only [← deciding_eq_some_iff, forAll, widest, Bool.true_and, Nat.le_zero]
  cases deciding stated Event.target with
  | none => simp [Level.showsDebug]
  | some directive =>
      cases named : directive.target <;>
        simp [Directive.narrowness, named, Level.showsDebug]

/-- The verbose flag hides no lines. -/
theorem showsOwn_verbose
    {stated : List Directive}
    (shown : showsOwn stated false = true) :
    showsOwn stated true = true := by
  rw [showsOwn_eq, if_neg Bool.false_ne_true, List.append_nil] at shown
  apply showsOwn_verbose_iff.mpr
  intro directive decides _
  simpa [shows, deciding_eq_some_iff.mpr decides] using shown

/-! ## Changes without effect -/

/-- A change of the stated directives that no log line of the program shows. -/
inductive IdleChange : List Directive -> List Directive -> Prop
  /-- Directives with pairwise different targets change places. Those for all
  targets have one target here. -/
  | reorder (before after : List Directive) {among others : List Directive} :
      among.Perm others ->
      (among.map (·.target)).Nodup ->
      IdleChange (before ++ among ++ after) (before ++ others ++ after)
  /-- A directive is left out that a later one with the same target replaces. -/
  | replace (before between after : List Directive) {directive later : Directive} :
      directive.target = later.target ->
      IdleChange (before ++ directive :: between ++ later :: after)
        (before ++ between ++ later :: after)
  /-- A directive is left out whose target does not begin the program's own. -/
  | elsewhere (before after : List Directive) {start : Bytes} (level : Level) :
      ¬start <+: Bytes.ofText "kvmerge::merge" ->
      IdleChange (before ++ ⟨some start, level⟩ :: after) (before ++ after)

/-- Where targets differ, a target tells its directive. -/
theorem lastFor_eq_some_iff_of_nodup
    {filter : LogFilter}
    (different : (filter.map (·.target)).Nodup)
    {target : Option Bytes}
    {directive : Directive} :
    filter.lastFor target = some directive ↔
      directive ∈ filter ∧ directive.target = target := by
  constructor
  · intro last
    exact ⟨mem_of_lastFor last, target_of_lastFor last⟩
  · rintro ⟨member, rfl⟩
    obtain ⟨last, found⟩ := exists_lastFor_of_mem member
    rw [found, Option.some.injEq]
    exact List.inj_on_of_nodup_map different (mem_of_lastFor found) member
      (target_of_lastFor found)

theorem lastFor_eq_of_perm
    {filter others : LogFilter}
    (reordered : filter.Perm others)
    (different : (filter.map (·.target)).Nodup)
    (target : Option Bytes) :
    filter.lastFor target = others.lastFor target := by
  have otherDifferent : (others.map (·.target)).Nodup :=
    (reordered.map (·.target)).nodup_iff.mp different
  ext directive
  rw [lastFor_eq_some_iff_of_nodup different, lastFor_eq_some_iff_of_nodup otherDifferent,
    reordered.mem_iff]

theorem IdleChange.agreeOn
    {stated other : List Directive}
    (change : IdleChange stated other) :
    AgreeOn Event.target stated other := by
  intro directive covers
  cases change with
  | reorder before after reordered different =>
      simp only [lastFor_append, lastFor_eq_of_perm reordered different]
  | @replace before between after replaced later same =>
      rw [lastFor_append _ (later :: after), lastFor_append _ (later :: after)]
      by_cases equal : later.target = directive.target
      · -- Nothing before the later directive is asked.
        have member : later ∈ later :: after := List.mem_cons_self
        obtain ⟨last, found⟩ := exists_lastFor_of_mem member
        rw [equal] at found
        rw [found, Option.some_or, Option.some_or]
      · simp only [lastFor_append, lastFor_cons, same, equal, if_false, Option.or_none]
  | @elsewhere before after start level foreign =>
      have different : some start ≠ directive.target := by
        intro equal
        exact foreign (Directive.covers_iff.mp covers start equal.symm)
      simp only [lastFor_append, lastFor_cons, different, if_false, Option.or_none]

theorem showsOwn_eq_of_idleChanges
    {stated other : List Directive}
    (changes : Relation.EqvGen IdleChange stated other)
    (verbose : Bool) :
    showsOwn stated verbose = showsOwn other verbose := by
  induction changes with
  | rel _ _ change =>
      exact showsOwn_eq_of_agreeOn change.agreeOn verbose
  | refl _ => rfl
  | symm _ _ _ hypothesis => exact hypothesis.symm
  | trans _ _ _ _ _ first second => exact first.trans second

end LogFilter

namespace Program

open LogFilter

/-- What a log setting comes to is whether lines are shown with or without the
verbose flag. -/
theorem run_eq_of_showsOwn_eq
    {setting other : Option Bytes}
    (same : ∀ verbose, showsOwn (stated setting) verbose = showsOwn (stated other) verbose)
    (storage : Storage)
    (destination : Destination)
    (arguments : List Bytes) :
    run storage destination setting arguments =
      run storage destination other arguments := by
  cases taken : Invocation.ofArguments arguments with
  | error reason => rw [run, run, taken]
  | ok invocation =>
      have shown := same invocation.verbose
      unfold showsOwn at shown
      rw [run_of_accepted taken, run_of_accepted taken, shown]

/-- Whether log lines are shown is settled by the last directives with targets that
begin the program's own. So directives with different targets may stand in any
order, and a replaced directive or one for another target may come or go, even as
the only one. The verbose flag hides no lines. What holds of the lines holds of the
whole run. -/
theorem log_shown_by_effective_directives :
    (∀ stated other : List Directive,
      AgreeOn (Bytes.ofText "kvmerge::merge") stated other ->
      ∀ verbose, showsOwn stated verbose = showsOwn other verbose) ∧
    (∀ stated other : List Directive, Relation.EqvGen IdleChange stated other ->
      ∀ verbose, showsOwn stated verbose = showsOwn other verbose) ∧
    (∀ stated : List Directive,
      showsOwn stated false = true -> showsOwn stated true = true) ∧
    (∀ setting other, Relation.EqvGen IdleChange (stated setting) (stated other) ->
      ∀ storage destination arguments,
        run storage destination setting arguments =
          run storage destination other arguments) ∧
    ∀ setting files plain flagged,
      Invocation.ofArguments plain = .ok ⟨files, false⟩ ->
      Invocation.ofArguments flagged = .ok ⟨files, true⟩ ->
      showsOwn (stated setting) false = true ->
      ∀ storage destination,
        run storage destination setting flagged = run storage destination setting plain := by
  refine ⟨?_, ?_, ?_, ?_, ?_⟩
  · intro stated other agree verbose
    exact showsOwn_eq_of_agreeOn agree verbose
  · intro stated other changes verbose
    exact showsOwn_eq_of_idleChanges changes verbose
  · intro stated shown
    exact showsOwn_verbose shown
  · intro setting other changes storage destination arguments
    apply run_eq_of_showsOwn_eq
    exact showsOwn_eq_of_idleChanges changes
  · intro setting files plain flagged plainAccepted flaggedAccepted shown storage destination
    have flaggedShown := showsOwn_verbose shown
    unfold showsOwn at shown flaggedShown
    rw [run_of_accepted plainAccepted, run_of_accepted flaggedAccepted, shown, flaggedShown]

/-- A setting with a replaced directive and one for another target shows as much as
its other directives in another order, and a directive for another target alone as
much as no setting. -/
theorem shuffled_setting_shows_as_much :
    let setting := some (Bytes.ofText "info,kv=debug,other=off,kv=off,kvmerge=trace")
    let shuffled := some (Bytes.ofText "kvmerge=trace,info,kv=off")
    let foreign := some (Bytes.ofText "other=trace")
    let storage : Storage := fun _ => ⟨Bytes.ofText "k v\n", none⟩
    let file := Bytes.ofText "a"
    let flag := Bytes.ofText "--verbose"
    let outcome := run storage .accepting setting [file]
    outcome.complaints ≠ [] ∧
      run storage .accepting shuffled [file] = outcome ∧
      run storage .accepting setting [flag, file] = outcome ∧
      run storage .accepting foreign [file] = run storage .accepting none [file] ∧
      (∀ verbose, showsOwn (stated foreign) verbose = showsOwn [] verbose) ∧
      showsOwn (stated setting) true = true := by
  intro setting shuffled foreign storage file flag outcome
  let info : Directive := ⟨none, .info⟩
  let own : Directive := ⟨some (Bytes.ofText "kvmerge"), .trace⟩
  let replaced : Directive := ⟨some (Bytes.ofText "kv"), .debug⟩
  let later : Directive := ⟨some (Bytes.ofText "kv"), .off⟩
  have states : stated setting =
      [info, replaced, ⟨some (Bytes.ofText "other"), .off⟩, later, own] := by decide
  have shuffledStates : stated shuffled = [own, info, later] := by decide
  have foreignStates : stated foreign = [⟨some (Bytes.ofText "other"), .trace⟩] := by decide
  have notOwn : ¬Bytes.ofText "other" <+: Bytes.ofText "kvmerge::merge" := by decide
  have changes : Relation.EqvGen IdleChange (stated setting) (stated shuffled) := by
    rw [states, shuffledStates]
    apply Relation.EqvGen.trans
    · exact .rel _ _ (.replace [info] [⟨some (Bytes.ofText "other"), .off⟩] [own] rfl)
    apply Relation.EqvGen.trans
    · exact .rel _ _ (.elsewhere [info] [later, own] .off notOwn)
    · have different : ([info, later, own].map (·.target)).Nodup := by decide
      have reordered : [info, later, own].Perm [own, info, later] := by decide
      exact .rel _ _ (.reorder [] [] reordered different)
  have alone : Relation.EqvGen IdleChange (stated foreign) (stated none) := by
    rw [foreignStates]
    exact .rel _ _ (.elsewhere [] [] .trace notOwn)
  have shown : showsOwn (stated setting) false = true := by decide
  obtain ⟨lasts, _, flagged, runs, flaggedRuns⟩ := log_shown_by_effective_directives
  refine ⟨by decide +kernel, (runs _ _ changes _ _ _).symm,
    flaggedRuns setting [file] _ _ rfl rfl shown _ _, runs _ _ alone _ _ _, ?_,
    flagged _ shown⟩
  apply lasts
  intro directive covers
  have different : some (Bytes.ofText "other") ≠ directive.target := by
    intro equal
    exact notOwn (Directive.covers_iff.mp covers _ equal.symm)
  rw [foreignStates, lastFor_singleton, if_neg different]
  rfl

end Program
end Collate
