import Collate.Proofs.ParsedEntries
import Collate.Proofs.TextCuts

/-!
# Text checked line by line

Reading checks every line for itself, when it comes to it, and never the body as
a whole. The two checks agree: a line feed is a character by itself, so no
character reaches across the end of a line, and what is broken off by a line
feed is ill-formed on its own. A body that is a text is therefore never refused
for not being one, and a body that is none is never accepted.
-/

namespace Collate

open Bytes (lineFeed line_induction)

namespace Utf8

/-- A body is a text exactly when each of its lines is. -/
theorem valid_iff_linesOf (body : Bytes) :
    Valid body ↔ ∀ line ∈ Stream.linesOf body, Valid line := by
  induction body using line_induction with
  | unbroken tail absent =>
      rw [Stream.linesOf_of_unbroken absent]
      by_cases empty : tail = []
      · simp [empty, valid_nil]
      · simp [empty]
  | broken line rest absent hypothesis =>
      have ascii : lineFeed < 0x80 := by decide
      rw [Stream.linesOf_append absent, List.forall_mem_cons, ← hypothesis]
      exact valid_append_cons_iff ascii line rest

theorem valid_iff_isLine (body : Bytes) :
    Valid body ↔ ∀ index line, Stream.IsLine body index line -> Valid line := by
  rw [valid_iff_linesOf]
  constructor
  · intro linesValid index line isLine
    apply linesValid
    exact Stream.mem_linesOf_iff.mpr ⟨index, isLine⟩
  · intro linesValid line member
    obtain ⟨index, isLine⟩ := Stream.mem_linesOf_iff.mp member
    exact linesValid index line isLine

end Utf8

namespace Entries

open Collate.Stream (IsLine linesOf)

theorem Sound.valid {line : Bytes} (sound : Sound line) : Utf8.Valid line :=
  (sound_iff.mp sound).1

theorem valid_of_ofStream_eq_ok
    {path body : Bytes}
    {entries : Entries}
    (accepted : ofStream path { body } = .ok entries) :
    Utf8.Valid body := by
  apply (Utf8.valid_iff_linesOf body).mpr
  intro line member
  exact ((ofStream_eq_ok_iff.mp accepted).1 line member).valid

/-- The line at an index is no text, and all lines before it are sound. -/
def IllFormedAt (body : Bytes) (index : Nat) : Prop :=
  ∃ line, IsLine body index line ∧ ¬Utf8.Valid line ∧
    ∀ earlier other, earlier < index -> IsLine body earlier other -> Sound other

/-- A stream that ends is unreadable only for a line that is no text, and only if
reading gets there. -/
theorem ofStream_eq_unreadable_iff
    {path body named : Bytes}
    {failure : Failure} :
    ofStream path { body } = .error (.unreadable named failure) ↔
      (named = path ∧ failure = .notText) ∧ ∃ index, IllFormedAt body index := by
  constructor
  · intro failed
    rcases all_sound_or_first_unsound (linesOf body) with
      allSound | ⟨before, line, after, split, sound, unsound⟩
    · rw [ofStream_of_sound path allSound] at failed
      cases failed
    · rcases ofLine_of_unsound unsound with
        ⟨notText, faulty⟩ | ⟨_, _, _, _, faulty⟩
      · rw [ofStream_of_fault path split sound faulty] at failed
        cases failed
        refine ⟨⟨rfl, rfl⟩, before.length, line, ?_, ?_, ?_⟩
        · exact Stream.isLine_iff_split.mpr ⟨before, after, split, rfl⟩
        · rwa [Utf8.valid_iff_exists_text]
        · intro earlier other
          exact sound_of_earlier split sound
      · -- A wrong number of fields is another error.
        rw [ofStream_of_fault path split sound faulty] at failed
        cases failed
  · rintro ⟨⟨rfl, rfl⟩, index, line, isLine, invalid, earlierSound⟩
    obtain ⟨before, after, split, rfl⟩ := Stream.isLine_iff_split.mp isLine
    have sound : ∀ other ∈ before, Sound other := by
      intro other member
      obtain ⟨earlier, bound, found⟩ := List.mem_iff_getElem.mp member
      apply earlierSound earlier other bound
      rw [Stream.isLine_iff_getElem?, split, List.getElem?_append_left bound, ← found]
      exact List.getElem?_eq_getElem bound
    rw [Utf8.valid_iff_exists_text] at invalid
    exact ofStream_of_fault named split sound (ofLine_of_not_text invalid)

/-- A body is a text exactly when each of its lines is. So a text is never
refused for an ill-formed line, what is accepted is a text, and an ill-formed
line is told of exactly when all lines before it are sound. -/
theorem ofStream_checks_text_line_by_line (path body : Bytes) :
    (∀ bytes, Utf8.Valid bytes ↔ ∃ text : String, bytes = Bytes.ofText text) ∧
    (Utf8.Valid body ↔ ∀ index line, IsLine body index line -> Utf8.Valid line) ∧
    (Utf8.Valid body -> ∀ named failure,
      ofStream path { body } ≠ .error (.unreadable named failure)) ∧
    (¬Utf8.Valid body -> ∀ entries, ofStream path { body } ≠ .ok entries) ∧
    ∀ named failure,
      ofStream path { body } = .error (.unreadable named failure) ↔
        (named = path ∧ failure =
          ⟨.invalidData, Bytes.ofText "stream did not contain valid UTF-8"⟩) ∧
        ∃ index, IllFormedAt body index := by
  refine ⟨fun bytes => Utf8.valid_iff_exists_text, Utf8.valid_iff_isLine body, ?_, ?_, ?_⟩
  · intro valid named failure failed
    obtain ⟨_, index, line, isLine, invalid, _⟩ := ofStream_eq_unreadable_iff.mp failed
    exact invalid ((Utf8.valid_iff_isLine body).mp valid index line isLine)
  · intro invalid entries accepted
    exact invalid (valid_of_ofStream_eq_ok accepted)
  · intro named failure
    exact ofStream_eq_unreadable_iff

/-- A line feed inside the three octets of U+20AC leaves two lines that are no
text, after one that is sound. -/
theorem character_broken_by_line_feed :
    let body := Bytes.ofText "a 1\nk " ++ [0xE2, 0x82, 0x0A, 0xAC]
    ¬Utf8.Valid body ∧
      ofStream [] { body } = .error (.unreadable [] .notText) ∧
      (∀ entries, ofStream [] { body } ≠ .ok entries) ∧
      (∃ index, IllFormedAt body index) ∧
      Utf8.Valid (Bytes.ofText "k\n€") ∧
      ∀ named failure, ofStream [] { body := Bytes.ofText "k\n€" } ≠
        .error (.unreadable named failure) := by
  intro body
  have invalid : ¬Utf8.Valid body := by decide
  have failed : ofStream [] { body } = .error (.unreadable [] .notText) := rfl
  have valid : Utf8.Valid (Bytes.ofText "k\n€") := by decide
  obtain ⟨_, _, _, refused, unreadable⟩ := ofStream_checks_text_line_by_line [] body
  obtain ⟨_, _, readable, _, _⟩ :=
    ofStream_checks_text_line_by_line [] (Bytes.ofText "k\n€")
  exact ⟨invalid, failed, refused invalid, ((unreadable _ _).mp failed).2, valid,
    readable valid⟩

end Entries
end Collate
