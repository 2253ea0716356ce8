import Collate.Proofs.ParsedEntries

/-!
# Bodies cut at a line boundary

A body may be cut after any of its line feeds, and what reading gives for the
two parts says what it gives for the whole. An error of the first part stays as
it is; one of the second is told with its line counted on; and if neither part
has one, the entries of the second are put over those of the first.

The loop over lines carries all of this: started with some entries and at some
line number, it does what it does when started with nothing at the first line,
up to those entries below and those lines before.

A stream that fails midway is cut after its last line feed. What follows is
never looked at, so the failure can neither be taken for the end nor hidden by
what happens to stand in the line that it cut off.
-/

namespace Collate

open Bytes (lineFeed line_induction)

namespace Stream

/-! ## Whole lines -/

/-- A body that does not break off inside a line. -/
def WholeLines (body : Bytes) : Prop :=
  body = [] ∨ body.getLast? = some lineFeed

theorem wholeLines_append_iff (line rest : Bytes) :
    WholeLines (line ++ lineFeed :: rest) ↔ WholeLines rest := by
  rcases List.eq_nil_or_concat rest with rfl | ⟨prior, last, rfl⟩
  · simp [WholeLines]
  · simp [WholeLines, List.getLast?_append, List.getLast?_cons]

theorem lines_append
    {line : Bytes}
    (absent : lineFeed ∉ line)
    (rest : Bytes)
    (failure : Option Failure) :
    lines ⟨line ++ lineFeed :: rest, failure⟩ = line :: lines ⟨rest, failure⟩ := by
  cases failure with
  | none => exact linesOf_append absent rest
  | some _ => exact finishedLines_append absent rest

theorem lines_of_cut_off
    {tail : Bytes}
    (absent : lineFeed ∉ tail)
    (failure : Failure) :
    lines ⟨tail, some failure⟩ = [] :=
  finishedLines_of_unbroken absent

namespace WholeLines

/-- Whole lines are none, or a line before whole lines. -/
theorem line_by_line
    {motive : (front : Bytes) -> WholeLines front -> Prop}
    (none : motive [] (.inl rfl))
    (line : ∀ line rest (_ : lineFeed ∉ line) (restWhole : WholeLines rest),
      motive rest restWhole ->
        motive (line ++ lineFeed :: rest)
          ((wholeLines_append_iff line rest).mpr restWhole))
    {front : Bytes}
    (whole : WholeLines front) : motive front whole := by
  induction front using line_induction with
  | unbroken tail absent =>
      have empty : tail = [] := eq_nil_of_begins whole absent
      subst empty
      exact none
  | broken first rest absent hypothesis =>
      have restWhole : WholeLines rest := (wholeLines_append_iff first rest).mp whole
      exact line first rest absent restWhole (hypothesis restWhole)

variable {front : Bytes}

/-- After whole lines, a stream goes on as if it began there. -/
theorem lines_append
    (whole : WholeLines front)
    (back : Bytes)
    (failure : Option Failure) :
    lines ⟨front ++ back, failure⟩ = linesOf front ++ lines ⟨back, failure⟩ := by
  induction whole using line_by_line with
  | none => rfl
  | line line rest absent _ hypothesis =>
      rw [List.append_assoc, List.cons_append, Stream.lines_append absent,
        linesOf_append absent, hypothesis, List.cons_append]

theorem length_linesOf (whole : WholeLines front) :
    (linesOf front).length = front.count lineFeed := by
  induction whole using line_by_line with
  | none => rfl
  | line line rest absent _ hypothesis =>
      rw [linesOf_append absent, List.length_cons, hypothesis, List.count_append,
        List.count_eq_zero.mpr absent, List.count_cons_self, Nat.zero_add]

/-- Nothing beyond the last line feed can be added without breaking off inside
a line. -/
theorem begins_of_unbroken_tail
    {finished tail : Bytes}
    (whole : WholeLines front)
    (begins : front <+: finished ++ tail)
    (unbroken : lineFeed ∉ tail) :
    front <+: finished := by
  obtain ⟨after, split⟩ := begins
  rcases List.append_eq_append_iff.mp split with
    ⟨between, rfl, _⟩ | ⟨beyond, rfl, rfl⟩
  · exact List.prefix_append front between
  · rcases List.eq_nil_or_concat beyond with rfl | ⟨prior, last, rfl⟩
    · simp
    · have lastFeed : last = lineFeed := by
        simpa [WholeLines, List.getLast?_append] using whole
      exact absurd (by simp [lastFeed]) unbroken

end WholeLines

/-- Every body is whole lines and then a part without a line feed. -/
theorem exists_whole_lines (body : Bytes) :
    ∃ finished tail,
      body = finished ++ tail ∧ WholeLines finished ∧ lineFeed ∉ tail := by
  induction body using line_induction with
  | unbroken tail absent => exact ⟨[], tail, rfl, .inl rfl, absent⟩
  | broken line rest absent hypothesis =>
      obtain ⟨finished, tail, rfl, whole, unbroken⟩ := hypothesis
      exact ⟨line ++ lineFeed :: finished, tail, by simp,
        (wholeLines_append_iff line finished).mpr whole, unbroken⟩

end Stream

/-! ## The loop, started elsewhere -/

namespace ReadError

/-- An error as it is told when a number of lines comes before. -/
def after (count : Nat) : ReadError -> ReadError
  | unreadable path failure => unreadable path failure
  | malformed path line fieldCount => malformed path (line + count) fieldCount

end ReadError

theorem LineFault.after_toError
    (fault : LineFault)
    (path : Bytes)
    (number count : Nat) :
    (fault.toError path number).after count = fault.toError path (number + count) := by
  cases fault <;> rfl

namespace Entries

open Collate.Stream (WholeLines linesOf)

/-- What reading gives when a number of lines with some entries comes before. -/
def continued (count : Nat) (earlier : Entries) :
    Except ReadError Entries -> Except ReadError Entries
  | .error error => .error (error.after count)
  | .ok later => .ok (earlier ∪ later)

theorem addLines_append
    (path : Bytes)
    (number : Nat)
    (entries : Entries)
    (front back : List Bytes) :
    addLines path number entries (front ++ back) =
      (addLines path number entries front).bind
        (addLines path (number + front.length) · back) := by
  induction front generalizing number entries with
  | nil => rfl
  | cons line front hypothesis =>
      rw [List.cons_append, addLines, addLines, List.length_cons, Nat.add_comm front.length,
        ← Nat.add_assoc]
      cases ofLine line with
      | error fault => rfl
      | ok held =>
          cases held with
          | none => exact hypothesis _ _
          | some pair => exact hypothesis _ _

/-- The loop keeps what it was started with below what it puts in. -/
theorem addLines_union
    (path : Bytes)
    (number count : Nat)
    (earlier held : Entries)
    (lines : List Bytes) :
    addLines path (number + count) (earlier ∪ held) lines =
      continued count earlier (addLines path number held lines) := by
  -- What is held grows from line to line, and insertion commutes with the union.
  induction lines generalizing number held with
  | nil => rfl
  | cons line lines hypothesis =>
      rw [addLines, addLines, Nat.add_right_comm]
      cases ofLine line with
      | error fault =>
          dsimp only [continued]
          rw [fault.after_toError]
      | ok found =>
          cases found with
          | none => exact hypothesis _ _
          | some pair =>
              dsimp only
              rw [← Std.ExtTreeMap.union_insert_right_eq_insert_union (p := ⟨pair.1, pair.2⟩)]
              exact hypothesis _ _

/-! ## Two parts of a body -/

/-- How reading ends when all lines were sound. -/
def concluded (path : Bytes) (failure : Option Failure) (entries : Entries) :
    Except ReadError Entries :=
  match failure with
  | none => .ok entries
  | some failure => .error (.unreadable path failure)

theorem ofStream_eq_bind
    (path body : Bytes)
    (failure : Option Failure) :
    ofStream path ⟨body, failure⟩ =
      (addLines path 1 ∅ (Stream.lines ⟨body, failure⟩)).bind
        (concluded path failure) := by
  unfold ofStream
  cases addLines path 1 ∅ (Stream.lines ⟨body, failure⟩) with
  | error error => rfl
  | ok entries => cases failure <;> rfl

theorem ofStream_eq_addLines (path body : Bytes) :
    ofStream path { body } = addLines path 1 ∅ (linesOf body) := by
  rw [ofStream_eq_bind]
  change (addLines path 1 ∅ (linesOf body)).bind (concluded path none) = _
  cases addLines path 1 ∅ (linesOf body) <;> rfl

theorem continued_bind_concluded
    (path : Bytes)
    (failure : Option Failure)
    (count : Nat)
    (earlier : Entries)
    (outcome : Except ReadError Entries) :
    (continued count earlier outcome).bind (concluded path failure) =
      continued count earlier (outcome.bind (concluded path failure)) := by
  cases outcome with
  | error error => rfl
  | ok later => cases failure <;> rfl

theorem union_empty (entries : Entries) : entries ∪ (∅ : Entries) = entries := by
  apply Std.ExtTreeMap.ext_getElem?
  intro key
  rw [Std.ExtTreeMap.getElem?_union, Std.ExtTreeMap.getElem?_empty, Option.none_or]

/-- What reading gives for whole lines and for what follows them says what it
gives for both together. -/
theorem ofStream_append
    (path : Bytes)
    {front : Bytes}
    (whole : WholeLines front)
    (back : Bytes)
    (failure : Option Failure) :
    ofStream path ⟨front ++ back, failure⟩ =
      (ofStream path { body := front }).bind fun earlier =>
        continued (front.count lineFeed) earlier (ofStream path ⟨back, failure⟩) := by
  rw [ofStream_eq_bind, whole.lines_append, addLines_append, whole.length_linesOf,
    ofStream_eq_addLines]
  cases addLines path 1 ∅ (linesOf front) with
  | error error => rfl
  | ok earlier =>
      have started := addLines_union path 1 (front.count lineFeed) earlier ∅
        (Stream.lines ⟨back, failure⟩)
      rw [union_empty] at started
      calc
        (addLines path (1 + front.count lineFeed) earlier
            (Stream.lines ⟨back, failure⟩)).bind (concluded path failure) =
            (continued (front.count lineFeed) earlier
              (addLines path 1 ∅ (Stream.lines ⟨back, failure⟩))).bind
                (concluded path failure) := by
          rw [started]
        _ = continued (front.count lineFeed) earlier
              (ofStream path ⟨back, failure⟩) := by
          rw [continued_bind_concluded, ← ofStream_eq_bind]

/-- Cut after a line feed, a body gives the error of its first part unchanged;
else that of the second, with the line of a malformed one counted on; else the
entries of both, where the second part's value of a key counts. -/
theorem ofStream_of_parts
    (path front back : Bytes)
    (failure : Option Failure)
    (boundary : front = [] ∨ front.getLast? = some lineFeed) :
    (∀ error, ofStream path { body := front } = .error error ->
      ofStream path ⟨front ++ back, failure⟩ = .error error) ∧
    ∀ earlier, ofStream path { body := front } = .ok earlier ->
      (∀ named line count,
        ofStream path ⟨back, failure⟩ = .error (.malformed named line count) ->
          ofStream path ⟨front ++ back, failure⟩ =
            .error (.malformed named (line + front.count lineFeed) count)) ∧
      (∀ named cause,
        ofStream path ⟨back, failure⟩ = .error (.unreadable named cause) ->
          ofStream path ⟨front ++ back, failure⟩ = .error (.unreadable named cause)) ∧
      ∀ later, ofStream path ⟨back, failure⟩ = .ok later ->
        ∃ both, ofStream path ⟨front ++ back, failure⟩ = .ok both ∧
          ∀ key : Bytes, both[key]? = (later[key]?).or earlier[key]? := by
  rw [ofStream_append path boundary]
  refine ⟨?_, ?_⟩
  · intro error failed
    rw [failed]
    rfl
  · intro earlier accepted
    rw [accepted]
    refine ⟨?_, ?_, ?_⟩
    · intro named line count failed
      rw [failed]
      rfl
    · intro named cause failed
      rw [failed]
      rfl
    · intro later read
      rw [read]
      exact ⟨earlier ∪ later, rfl, fun key => Std.ExtTreeMap.getElem?_union⟩

/-- The second part replaces one of two values; or its second line, which is the
fourth of the whole, has one field. -/
theorem parts_with_shared_key_and_short_line :
    let front := Bytes.ofText "a 1\nb 2\n"
    let earlier :=
      ofPairs [(Bytes.ofText "a", Bytes.ofText "1"), (Bytes.ofText "b", Bytes.ofText "2")]
    let later :=
      ofPairs [(Bytes.ofText "b", Bytes.ofText "3"), (Bytes.ofText "c", Bytes.ofText "4")]
    (front = [] ∨ front.getLast? = some lineFeed) ∧
      ofStream [] { body := front } = .ok earlier ∧
      ofStream [] { body := Bytes.ofText "b 3\nc 4" } = .ok later ∧
      (∃ both, ofStream [] { body := front ++ Bytes.ofText "b 3\nc 4" } = .ok both ∧
        ∀ key : Bytes, both[key]? = (later[key]?).or earlier[key]?) ∧
      ofStream [] { body := Bytes.ofText "\nc\n" } = .error (.malformed [] 2 1) ∧
      ofStream [] { body := front ++ Bytes.ofText "\nc\n" } =
        .error (.malformed [] 4 1) := by
  intro front earlier later
  have boundary : front = [] ∨ front.getLast? = some lineFeed := .inr rfl
  have first : ofStream [] { body := front } = .ok earlier := rfl
  have second : ofStream [] { body := Bytes.ofText "b 3\nc 4" } = .ok later := rfl
  have short : ofStream [] { body := Bytes.ofText "\nc\n" } =
      .error (.malformed [] 2 1) := rfl
  have whole := (ofStream_of_parts [] front (Bytes.ofText "b 3\nc 4") none boundary).2
    earlier first
  have broken := (ofStream_of_parts [] front (Bytes.ofText "\nc\n") none boundary).2
    earlier first
  exact ⟨boundary, first, second, whole.2.2 later second, short,
    broken.1 [] 2 1 short⟩

/-! ## A stream that fails midway -/

/-- A stream that fails gives the error of its whole lines or else its failure,
whatever stands in the line that it cuts off. -/
theorem ofStream_of_cut_off
    (path : Bytes)
    {finished tail : Bytes}
    (whole : WholeLines finished)
    (unbroken : lineFeed ∉ tail)
    (failure : Failure) :
    ofStream path ⟨finished ++ tail, some failure⟩ =
      (ofStream path { body := finished }).bind fun _ =>
        .error (.unreadable path failure) := by
  have cutOff : ofStream path ⟨tail, some failure⟩ =
      .error (.unreadable path failure) := by
    rw [ofStream_eq_bind, Stream.lines_of_cut_off unbroken]
    rfl
  rw [ofStream_append path whole, cutOff]
  rfl

/-- A failure midway is never taken for the end. The body is cut after its last
line feed: the error is that of the whole lines before, or else the failure, and
the unfinished line has no say in it. -/
theorem ofStream_tells_failure_midway
    (path body : Bytes)
    (failure : Failure) :
    ∃ finished tail,
      body = finished ++ tail ∧
      (finished = [] ∨ finished.getLast? = some lineFeed) ∧
      (∀ other, other <+: body -> other = [] ∨ other.getLast? = some lineFeed ->
        other <+: finished) ∧
      lineFeed ∉ tail ∧
      (∀ error, ofStream path { body := finished } = .error error ->
        ofStream path ⟨body, some failure⟩ = .error error) ∧
      (∀ entries, ofStream path { body := finished } = .ok entries ->
        ofStream path ⟨body, some failure⟩ = .error (.unreadable path failure)) ∧
      (∀ entries, ofStream path ⟨body, some failure⟩ ≠ .ok entries) ∧
      ∀ other, lineFeed ∉ other ->
        ofStream path ⟨finished ++ other, some failure⟩ =
          ofStream path ⟨body, some failure⟩ := by
  obtain ⟨finished, tail, rfl, whole, unbroken⟩ := Stream.exists_whole_lines body
  have told := ofStream_of_cut_off path whole unbroken failure
  refine ⟨finished, tail, rfl, whole, ?_, unbroken, ?_, ?_, ?_, ?_⟩
  · intro other begins otherWhole
    exact Stream.WholeLines.begins_of_unbroken_tail otherWhole begins unbroken
  · intro error failed
    rw [told, failed]
    rfl
  · intro entries accepted
    rw [told, accepted]
    rfl
  · intro entries
    rw [told]
    cases ofStream path { body := finished } <;> simp [Except.bind]
  · intro other otherUnbroken
    rw [told, ofStream_of_cut_off path whole otherUnbroken failure]

/-- What is left of the value `100` would do as a value, and still is not taken. -/
theorem cut_off_value_is_not_taken :
    let body := Bytes.ofText "a 1\nk 10"
    let failure : Failure := ⟨.timedOut, Bytes.ofText "timed out"⟩
    ofStream [] { body } = .ok (ofPairs
        [(Bytes.ofText "a", Bytes.ofText "1"), (Bytes.ofText "k", Bytes.ofText "10")]) ∧
      (∀ entries, ofStream [] ⟨body, some failure⟩ ≠ .ok entries) ∧
      ofStream [] ⟨body, some failure⟩ = .error (.unreadable [] failure) := by
  intro body failure
  obtain ⟨_, _, _, _, _, _, _, _, never, _⟩ :=
    ofStream_tells_failure_midway [] body failure
  exact ⟨rfl, never, rfl⟩

end Entries
end Collate
