import Collate.Proofs.Lines
import Collate.Proofs.WellFormedText
import Collate.ReadError

/-!
# Texts as they are shown

A path is any sequence of octets, and it is shown as a text. Its characters stay as
they are, and each part that spells none is shown as U+FFFD. Such a part is as long
as it still begins the code of some character, and at least one octet. This says what
is shown without the check of octets, and there is one way only to show a path.
-/

namespace Collate
namespace Utf8

/-! ## Codes of characters -/

theorem valid_of_valid_append
    {left right : Bytes}
    (leftValid : Valid left)
    (valid : Valid (left ++ right)) :
    Valid right := by
  rwa [Valid, run_append, leftValid] at valid

/-- No code of a character begins another one. -/
theorem eq_of_encoded_begins
    {character other : Char}
    (begins : String.utf8EncodeChar character <+: String.utf8EncodeChar other) :
    character = other := by
  obtain ⟨tail, split⟩ := begins
  have tailValid : Valid tail := by
    apply valid_of_valid_append (valid_encoded character)
    rw [split]
    exact valid_encoded other
  obtain ⟨text, rfl⟩ := valid_iff_exists_text.mp tailValid
  have sameText : String.ofList (character :: text.toList) = String.ofList [other] := by
    rw [← Bytes.ofText_inj]
    simpa [Bytes.ofText] using split
  simpa using congrArg (List.head? ∘ String.toList) sameText

/-- Octets that can be completed to the code of a character. -/
def BeginsCode (part : Bytes) : Prop :=
  ∃ character, part <+: String.utf8EncodeChar character

/-- No character stands in front of some octets. -/
def Broken (bytes : Bytes) : Prop :=
  ∀ character, ¬String.utf8EncodeChar character <+: bytes

/-! ## What is shown -/

/-- In front of octets, a part that spells no character and is as long as it still
begins one. An octet that begins none is such a part by itself. -/
structure IllFormedPart (part rest : Bytes) : Prop where
  broken : Broken (part ++ rest)
  begins : BeginsCode part ∨ part.length = 1
  nonempty : part ≠ []
  longest : ∀ octet, rest.head? = some octet -> ¬BeginsCode (part ++ [octet])

/-- What some octets are shown as. -/
inductive ShownAs : Bytes -> Bytes -> Prop
  | nothing : ShownAs [] []
  | character
      (character : Char)
      (later : ShownAs rest shown) :
      ShownAs (String.utf8EncodeChar character ++ rest)
        (String.utf8EncodeChar character ++ shown)
  | illFormed
      (spoilt : IllFormedPart part rest)
      (later : ShownAs rest shown) :
      ShownAs (part ++ rest) (Bytes.ofText "\uFFFD" ++ shown)

/-- A text is shown as it is. -/
theorem shownAs_of_valid {bytes : Bytes} (valid : Valid bytes) : ShownAs bytes bytes := by
  obtain ⟨text, rfl⟩ := valid_iff_exists_text.mp valid
  unfold Bytes.ofText
  induction text.toList with
  | nil => exact .nothing
  | cons character rest hypothesis =>
      rw [List.flatMap_cons]
      exact .character character hypothesis

/-- A character in front of octets is followed by what is shown of the others. -/
theorem ShownAs.after_character
    {character : Char}
    {rest shown : Bytes}
    (shows : ShownAs (String.utf8EncodeChar character ++ rest) shown) :
    ∃ later, ShownAs rest later ∧ shown = String.utf8EncodeChar character ++ later := by
  generalize whole : String.utf8EncodeChar character ++ rest = bytes at shows
  have begins : String.utf8EncodeChar character <+: bytes := ⟨rest, whole⟩
  cases shows with
  | nothing => simp at whole
  | @character otherRest laterShown other later =>
      have same : character = other := by
        rcases List.prefix_or_prefix_of_prefix begins (List.prefix_append _ _) with left | right
        · exact eq_of_encoded_begins left
        · exact (eq_of_encoded_begins right).symm
      subst same
      rw [List.append_cancel_left whole]
      exact ⟨laterShown, later, rfl⟩
  | illFormed spoilt later => exact absurd begins (spoilt.broken character)

theorem BeginsCode.shorten
    {part start : Bytes}
    (begins : BeginsCode part)
    (shorter : start <+: part) :
    BeginsCode start := by
  obtain ⟨character, code⟩ := begins
  exact ⟨character, shorter.trans code⟩

/-- Of the parts in front of the same octets, none goes on where another ends. -/
theorem IllFormedPart.eq_nil_of_longer
    {part shift rest : Bytes}
    (spoilt : IllFormedPart part (shift ++ rest))
    (longer : IllFormedPart (part ++ shift) rest) :
    shift = [] := by
  cases shift with
  | nil => rfl
  | cons octet more =>
      have several : (part ++ octet :: more).length ≠ 1 := by
        have positive := List.length_pos_iff.mpr spoilt.nonempty
        rw [List.length_append, List.length_cons]
        omega
      have begins := longer.begins.resolve_right several
      have shorter : part ++ [octet] <+: part ++ octet :: more := ⟨more, by simp⟩
      exact absurd (begins.shorten shorter) (spoilt.longest octet rfl)

theorem IllFormedPart.eq_of_append_eq
    {part rest other otherRest : Bytes}
    (spoilt : IllFormedPart part rest)
    (otherSpoilt : IllFormedPart other otherRest)
    (same : part ++ rest = other ++ otherRest) :
    part = other ∧ rest = otherRest := by
  rcases List.append_eq_append_iff.mp same with ⟨shift, rfl, rfl⟩ | ⟨shift, rfl, rfl⟩
  · simp [spoilt.eq_nil_of_longer otherSpoilt]
  · simp [otherSpoilt.eq_nil_of_longer spoilt]

/-- An ill-formed part in front of octets is followed by what is shown of the others. -/
theorem ShownAs.after_illFormed
    {part rest shown : Bytes}
    (spoilt : IllFormedPart part rest)
    (shows : ShownAs (part ++ rest) shown) :
    ∃ later, ShownAs rest later ∧ shown = Bytes.ofText "\uFFFD" ++ later := by
  generalize whole : part ++ rest = bytes at shows
  cases shows with
  | nothing => exact absurd (List.append_eq_nil_iff.mp whole).1 spoilt.nonempty
  | @character otherRest laterShown character later =>
      exact absurd (whole ▸ List.prefix_append _ otherRest) (spoilt.broken character)
  | @illFormed other otherRest laterShown otherSpoilt later =>
      obtain ⟨_, rfl⟩ := spoilt.eq_of_append_eq otherSpoilt whole
      exact ⟨laterShown, later, rfl⟩

/-- Octets are shown in one way. -/
theorem ShownAs.unique
    {bytes shown other : Bytes}
    (shows : ShownAs bytes shown)
    (otherShows : ShownAs bytes other) :
    shown = other := by
  induction shows generalizing other with
  | nothing =>
      generalize empty : ([] : Bytes) = bytes at otherShows
      cases otherShows with
      | nothing => rfl
      | character => simp at empty
      | illFormed spoilt => exact absurd (List.append_eq_nil_iff.mp empty.symm).1 spoilt.nonempty
  | character character _ hypothesis =>
      obtain ⟨later, laterShows, rfl⟩ := otherShows.after_character
      rw [hypothesis laterShows]
  | illFormed spoilt _ hypothesis =>
      obtain ⟨later, laterShows, rfl⟩ := otherShows.after_illFormed spoilt
      rw [hypothesis laterShows]

/-! ## Characters underway -/

theorem run_continuing (count : Nat) :
    run (continuing count) (List.replicate count 0x80) = some .ready := by
  induction count with
  | zero => rfl
  | succ count hypothesis =>
      exact run_owing_iff.mpr ⟨0x80, _, rfl, by decide, by decide, hypothesis⟩

theorem low_le_high_of_start
    {octet low high : UInt8}
    {further : Nat}
    (started : start octet = some (.owing low high further)) :
    low ≤ high := by
  unfold start at started
  repeat' split at started
  all_goals
    cases started
    try decide

/-- Whatever the check has taken can be completed. -/
theorem exists_completion_of_step
    {progress next : Progress}
    {octet : UInt8}
    (taken : step progress octet = some next) :
    ∃ completion, run next completion = some .ready := by
  cases progress with
  | ready =>
      cases next with
      | ready => exact ⟨[], rfl⟩
      | owing low high further =>
          have ranged : low ≤ high := low_le_high_of_start taken
          exact ⟨_, run_owing_iff.mpr
            ⟨low, _, rfl, UInt8.le_refl low, ranged, run_continuing further⟩⟩
  | owing low high further =>
      have continued : next = continuing further := by
        cases further <;> grind [step, continuing]
      exact ⟨_, continued ▸ run_continuing further⟩

/-- Octets of a character that is not complete, and where the check stands after
them. -/
structure Underway (part : Bytes) (progress : Progress) : Prop where
  reached : run .ready part = some progress
  broken : Broken part

namespace Underway

variable {part : Bytes} {progress : Progress} {octet : UInt8}

theorem initial : Underway [] .ready := by
  constructor
  · rfl
  · intro character begins
    simp at begins

theorem run_concat (underway : Underway part progress) (octet : UInt8) :
    run .ready (part ++ [octet]) = step progress octet := by
  rw [run_append, underway.reached, Option.bind_some, run_cons]
  cases step progress octet <;> rfl

theorem eq_nil (underway : Underway part .ready) : part = [] := by
  cases part with
  | nil => rfl
  | cons octet rest =>
      obtain ⟨character, after, split, _⟩ := exists_first_character underway.reached
      exact absurd ⟨after, split.symm⟩ (underway.broken character)

/-- A text that goes on after octets underway begins with a character that they
begin. -/
theorem exists_code
    {rest : Bytes}
    (underway : Underway part progress)
    (valid : Valid (part ++ octet :: rest)) :
    ∃ character,
      part <+: String.utf8EncodeChar character ∧
        String.utf8EncodeChar character <+: part ++ octet :: rest := by
  obtain ⟨first, others, whole⟩ : ∃ first others, part ++ octet :: rest = first :: others :=
    List.exists_cons_of_ne_nil (by simp)
  obtain ⟨character, after, split, _⟩ := exists_first_character (whole ▸ valid)
  have code : String.utf8EncodeChar character <+: part ++ octet :: rest :=
    ⟨after, by rw [whole, split]⟩
  refine ⟨character, ?_, code⟩
  exact (List.prefix_or_prefix_of_prefix code (List.prefix_append _ _)).resolve_left
    (underway.broken character)

/-- Octets after which one is owed begin a character. -/
theorem begins
    {low high : UInt8}
    {further : Nat}
    (underway : Underway part (.owing low high further)) :
    BeginsCode part := by
  have reached := underway.reached
  obtain ⟨completion, completed⟩ :
      ∃ completion, run (.owing low high further) completion = some .ready := by
    rcases List.eq_nil_or_concat part with rfl | ⟨front, last, rfl⟩
    · cases reached
    · rw [List.concat_eq_append, run_append, Option.bind_eq_some_iff] at reached
      obtain ⟨middle, _, stepped⟩ := reached
      rw [run_cons, Option.bind_eq_some_iff] at stepped
      obtain ⟨next, taken, same⟩ := stepped
      cases same
      exact exists_completion_of_step taken
  obtain ⟨octet, rest, rfl, _⟩ := run_owing_iff.mp completed
  have valid : Valid (part ++ octet :: rest) := by
    rw [Valid, run_append, reached]
    exact completed
  obtain ⟨character, code, _⟩ := underway.exists_code valid
  exact ⟨character, code⟩

/-- An octet that is refused is in no character that goes on so. -/
theorem not_begins
    (underway : Underway part progress)
    (refused : step progress octet = none) :
    ¬BeginsCode (part ++ [octet]) := by
  rintro ⟨character, tail, split⟩
  have valid : Valid (part ++ [octet] ++ tail) := split ▸ valid_encoded character
  rw [Valid, run_append, underway.run_concat, refused] at valid
  cases valid

theorem broken_of_refused
    (underway : Underway part progress)
    (refused : step progress octet = none)
    (rest : Bytes) :
    Broken (part ++ octet :: rest) := by
  intro character code
  have longer : part ++ [octet] <+: part ++ octet :: rest := ⟨rest, by simp⟩
  have unbegun := underway.not_begins refused
  rcases List.prefix_or_prefix_of_prefix code longer with inside | beyond
  · rcases List.prefix_concat_iff.mp inside with whole | before
    · exact unbegun ⟨character, [], by rw [whole, List.append_nil]⟩
    · exact underway.broken character before
  · exact unbegun ⟨character, beyond⟩

/-- The last octet of a character completes it. -/
theorem completes
    (underway : Underway part progress)
    (taken : step progress octet = some .ready) :
    ∃ character, String.utf8EncodeChar character = part ++ [octet] := by
  have valid : Valid (part ++ [octet]) := by
    rw [Valid, underway.run_concat, taken]
  obtain ⟨character, _, code⟩ := underway.exists_code valid
  exact ⟨character, (List.prefix_concat_iff.mp code).resolve_right (underway.broken character)⟩

/-- An octet after which more are owed leaves the character underway. -/
theorem next
    {low high : UInt8}
    {further : Nat}
    (underway : Underway part progress)
    (taken : step progress octet = some (.owing low high further)) :
    Underway (part ++ [octet]) (.owing low high further) := by
  constructor
  · rw [underway.run_concat, taken]
  · intro character code
    rcases List.prefix_concat_iff.mp code with whole | before
    · have valid := valid_encoded character
      rw [whole, Valid, underway.run_concat, taken] at valid
      cases valid
    · exact underway.broken character before

end Underway

/-! ## Repaired texts -/

theorem illFormedPart_of_refused_start
    {octet : UInt8}
    (refused : start octet = none)
    (rest : Bytes) :
    IllFormedPart [octet] rest := by
  have unbegun : ¬BeginsCode [octet] := Underway.initial.not_begins refused
  refine ⟨Underway.initial.broken_of_refused refused rest, .inr rfl, by simp, ?_⟩
  intro next _ begins
  exact unbegun (begins.shorten ⟨[next], rfl⟩)

theorem Underway.illFormedPart
    {part rest : Bytes}
    {low high : UInt8}
    {further : Nat}
    (underway : Underway part (.owing low high further))
    (refused : ∀ octet, rest.head? = some octet -> step (.owing low high further) octet = none) :
    IllFormedPart part rest := by
  refine ⟨?_, .inl underway.begins, ?_, ?_⟩
  · cases rest with
    | nil => simpa using underway.broken
    | cons octet rest => exact underway.broken_of_refused (refused octet rfl) rest
  · rintro rfl
    cases underway.reached
  · intro octet head
    exact underway.not_begins (refused octet head)

theorem ofText_replacement : Bytes.ofText "\uFFFD" = replacement := by decide

namespace Repair

/-- From a state on, a rest leads to what was repaired before and then to what some
octets, the rest with those that wait, are shown as. -/
def LeadsTo (repair : Repair) (rest repaired bytes : Bytes) : Prop :=
  ∃ shown, ShownAs bytes shown ∧
    (rest.foldl take repair).finish = repaired.reverse ++ shown

theorem LeadsTo.character
    {repair : Repair}
    {rest repaired bytes : Bytes}
    {character : Char}
    (leads : LeadsTo repair rest
      ((String.utf8EncodeChar character).reverse ++ repaired) bytes) :
    LeadsTo repair rest repaired (String.utf8EncodeChar character ++ bytes) := by
  obtain ⟨shown, shows, finished⟩ := leads
  exact ⟨_, .character character shows, by simp [finished]⟩

theorem LeadsTo.illFormed
    {repair : Repair}
    {rest repaired part bytes : Bytes}
    (leads : LeadsTo repair rest (replacement.reverse ++ repaired) bytes)
    (spoilt : IllFormedPart part bytes) :
    LeadsTo repair rest repaired (part ++ bytes) := by
  obtain ⟨shown, shows, finished⟩ := leads
  exact ⟨_, .illFormed spoilt shows, by simp [finished, ofText_replacement]⟩

/-- Wherever a character is underway, a rest leads to what all of it is shown as. -/
def Leads (rest : Bytes) : Prop :=
  ∀ {part progress}, Underway part progress -> ∀ repaired,
    LeadsTo ⟨progress, part.reverse, repaired⟩ rest repaired (part ++ rest)

theorem leads_nil : Leads [] := by
  intro part progress underway repaired
  cases progress with
  | ready =>
      rw [underway.eq_nil]
      exact ⟨[], .nothing, by simp [finish]⟩
  | owing low high further =>
      have spoilt : IllFormedPart part [] := underway.illFormedPart (by simp)
      exact ⟨_, .illFormed spoilt .nothing, by simp [finish, ofText_replacement]⟩

/-- One octet where a character begins. -/
theorem Leads.begin
    {rest : Bytes}
    (leads : Leads rest)
    (octet : UInt8)
    (repaired : Bytes) :
    LeadsTo (begin repaired octet) rest repaired (octet :: rest) := by
  unfold Repair.begin
  split
  case h_1 refused =>
      exact (leads .initial _).illFormed (illFormedPart_of_refused_start refused rest)
  case h_2 started =>
      obtain ⟨character, code⟩ := Underway.initial.completes started
      have later := leads .initial ((String.utf8EncodeChar character).reverse ++ repaired)
      simpa [code] using later.character
  case h_3 next notReady started =>
      cases next with
      | ready => exact absurd rfl notReady
      | owing low high further => exact leads (Underway.initial.next started) repaired

/-- One octet more. Where it spoils a character, it begins anew. -/
theorem Leads.cons
    {rest : Bytes}
    (leads : Leads rest)
    (octet : UInt8) :
    Leads (octet :: rest) := by
  intro part progress underway repaired
  cases progress with
  | ready =>
      rw [underway.eq_nil]
      exact leads.begin octet repaired
  | owing low high further =>
      cases stepped : step (.owing low high further) octet with
      | none =>
          have spoilt : IllFormedPart part (octet :: rest) :=
            underway.illFormedPart (by simpa using stepped)
          have anew := (leads.begin octet (replacement.reverse ++ repaired)).illFormed spoilt
          simpa [LeadsTo, take, stepped] using anew
      | some next =>
          cases next with
          | ready =>
              obtain ⟨character, code⟩ := underway.completes stepped
              have later := leads .initial ((String.utf8EncodeChar character).reverse ++ repaired)
              simpa [LeadsTo, take, stepped, code] using later.character
          | owing low high further =>
              have later := leads (underway.next stepped) repaired
              simpa [LeadsTo, take, stepped] using later

theorem leads (rest : Bytes) : Leads rest := by
  induction rest with
  | nil => exact leads_nil
  | cons octet rest hypothesis => exact hypothesis.cons octet

end Repair

/-- The repaired text is what octets are shown as. -/
theorem shownAs_iff {bytes shown : Bytes} :
    ShownAs bytes shown ↔ shown = repair bytes := by
  have repaired : ShownAs bytes (repair bytes) := by
    obtain ⟨shown, shows, finished⟩ := Repair.leads bytes .initial []
    have same : repair bytes = shown := finished
    rwa [same]
  constructor
  · intro shows
    exact shows.unique repaired
  · rintro rfl
    exact repaired

theorem repair_of_valid {bytes : Bytes} (valid : Valid bytes) : repair bytes = bytes :=
  (shownAs_iff.mp (shownAs_of_valid valid)).symm

end Utf8

theorem Bytes.decimal_eq (number : Nat) : decimal number = ofText (toString number) := by
  change _ = ofText (String.ofList (Nat.toDigits 10 number))
  rw [decimal, ofText, String.toList_ofList]

namespace ReadError

open Bytes (lineFeed ofText)

/-! ## Errors as they are told -/

/-- How an error is told at the end of a run. A file that cannot be read has its cause
below, each line set in. -/
inductive Told : ReadError -> Bytes -> Prop
  | unreadable
      {path name : Bytes}
      {failure : Failure}
      (shows : Utf8.ShownAs path name) :
      Told (.unreadable path failure)
        (ofText "cannot read " ++ name ++ ofText "\n\nCaused by:\n" ++
          List.intercalate [lineFeed]
            ((List.splitOn lineFeed failure.text).map (ofText "    " ++ ·)))
  | malformed
      {path name : Bytes}
      {line fieldCount : Nat}
      (shows : Utf8.ShownAs path name) :
      Told (.malformed path line fieldCount)
        (name ++
          ofText (":" ++ toString line ++ ": expected `<key> <value>`, found " ++
            toString fieldCount ++ " field(s)"))

theorem told_report (error : ReadError) : Told error error.diagnosis.report := by
  cases error with
  | unreadable path failure =>
      have told : Told (.unreadable path failure) _ := .unreadable (Utf8.shownAs_iff.mpr rfl)
      rwa [← Bytes.splitOn_eq_splitOn] at told
  | malformed path line fieldCount =>
      have told : Told (.malformed path line fieldCount) _ :=
        .malformed (Utf8.shownAs_iff.mpr rfl)
      simpa only [diagnosis, cause, Diagnosis.report, message, Bytes.decimal_eq,
        Bytes.ofText_append, List.append_assoc] using told

end ReadError
end Collate
