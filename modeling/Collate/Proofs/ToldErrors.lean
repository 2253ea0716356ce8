import Collate.Proofs.ShownTexts

/-!
# Errors told apart by their texts

A path is shown as it is, so it may hold whatever a message puts after it: a line
number, the words about fields, even a cause set in below an empty line. What is
told can still be read back, from the right. After the last colon, and after the
last blank once the closing words are gone, there are only digits, and digits
spell one number. After the last empty line of a report there is only the cause,
because each of its lines is set in and so none is empty.
-/

namespace Collate

namespace Bytes

/-! ## The last separator -/

/-- A separator that stands only in front is met nowhere later. -/
theorem eq_nil_of_only_in_front
    {separator : α}
    {shift after otherAfter : List α}
    (absent : separator ∉ after)
    (shifted : separator :: after = shift ++ separator :: otherAfter) :
    shift = [] := by
  cases shift with
  | nil => rfl
  | cons first shift =>
      rw [List.cons_append] at shifted
      obtain ⟨rfl, rfl⟩ := List.cons.inj shifted
      exact absurd (List.mem_append_right shift List.mem_cons_self) absent

/-- The last separator divides a sequence in one way only. -/
theorem eq_of_last_separator
    {separator : α}
    {before after otherBefore otherAfter : List α}
    (absent : separator ∉ after)
    (otherAbsent : separator ∉ otherAfter)
    (equal : before ++ separator :: after = otherBefore ++ separator :: otherAfter) :
    before = otherBefore ∧ after = otherAfter := by
  have sameBefore : before = otherBefore := by
    rcases List.append_eq_append_iff.mp equal with
      ⟨shift, longer, shifted⟩ | ⟨shift, longer, shifted⟩
    · rw [longer, eq_nil_of_only_in_front absent shifted, List.append_nil]
    · rw [longer, eq_nil_of_only_in_front otherAbsent shifted, List.append_nil]
  subst sameBefore
  exact ⟨rfl, (List.cons.inj (List.append_cancel_left equal)).2⟩

/-- No piece between separators holds one. -/
theorem not_mem_of_mem_splitOn
    {separator : UInt8}
    {bytes piece : Bytes}
    (member : piece ∈ List.splitOn separator bytes) :
    separator ∉ piece := by
  rw [← splitOn_eq_splitOn] at member
  induction bytes generalizing piece with
  | nil =>
      rw [splitOn_nil, List.mem_singleton] at member
      simp [member]
  | cons octet rest hypothesis =>
      by_cases equal : octet = separator
      · rw [equal, splitOn_separator_cons, List.mem_cons] at member
        rcases member with rfl | later
        · exact List.not_mem_nil
        · exact hypothesis later
      · rw [splitOn_cons_of_ne equal, List.mem_cons] at member
        rcases member with rfl | later
        · rw [List.mem_cons, not_or]
          exact ⟨Ne.symm equal, hypothesis List.mem_cons_self⟩
        · exact hypothesis (List.mem_cons_of_mem _ later)

/-! ## Numbers -/

theorem decimal_inj {left right : Nat} :
    decimal left = decimal right ↔ left = right := by
  rw [decimal_eq, decimal_eq, ofText_inj]
  constructor
  · intro equal
    replace equal : Nat.toDigits 10 left = Nat.toDigits 10 right := String.ofList_inj.mp equal
    have numbers := congrArg (Nat.ofDigitChars 10 · 0) equal
    simpa only [Nat.ofDigitChars_ten_toDigits] using numbers
  · rintro rfl
    rfl

theorem isDigit_of_mem_decimal
    {octet : UInt8}
    {number : Nat}
    (member : octet ∈ decimal number) :
    isDigit octet = true := by
  obtain ⟨character, digitMember, encodedMember⟩ := List.mem_flatMap.mp member
  have digit : character.isDigit = true :=
    Nat.isDigit_of_mem_toDigits (by decide) (by decide) digitMember
  have bounds : 0x30 ≤ character.toNat ∧ character.toNat ≤ 0x39 := by
    simpa [Char.isDigit, UInt32.le_iff_toNat_le] using digit
  rw [Utf8.encoded_eq] at encodedMember
  dsimp only at encodedMember
  rw [if_pos (by omega), List.mem_singleton] at encodedMember
  subst encodedMember
  simp only [isDigit, Bool.and_eq_true, decide_eq_true_eq, UInt8.le_iff_toNat_le,
    UInt8.toNat_ofNat', UInt8.toNat_ofNat]
  omega

end Bytes

namespace Utf8

theorem eq_of_repair_eq
    {left right : Bytes}
    (same : repair left = repair right)
    (leftValid : Valid left)
    (rightValid : Valid right) :
    left = right := by
  rwa [repair_of_valid leftValid, repair_of_valid rightValid] at same

end Utf8

namespace Diagnosis

open Bytes (lineFeed ofText)

/-! ## Causes set in -/

theorem splitOn_indent (text : Bytes) :
    List.splitOn lineFeed (indent text) =
      (List.splitOn lineFeed text).map (ofText "    " ++ ·) := by
  unfold indent
  rw [Bytes.splitOn_eq_splitOn]
  apply List.splitOn_intercalate
  · intro line member
    obtain ⟨piece, pieceMember, rfl⟩ := List.mem_map.mp member
    rw [List.mem_append, not_or]
    exact ⟨by decide, Bytes.not_mem_of_mem_splitOn pieceMember⟩
  · simp [List.splitOn_ne_nil]

/-- The lines of a report: those of the message, an empty one, a heading, and
those of the cause, set in. -/
theorem splitOn_report (message cause : Bytes) :
    List.splitOn lineFeed (report ⟨message, some cause⟩) =
      List.splitOn lineFeed message ++
        [] :: ofText "Caused by:" ::
          (List.splitOn lineFeed cause).map (ofText "    " ++ ·) := by
  have opened : report ⟨message, some cause⟩ =
      message ++ lineFeed :: ([] ++ lineFeed ::
        (ofText "Caused by:" ++ lineFeed :: indent cause)) := by
    have heading : ofText "\n\nCaused by:\n" =
        lineFeed :: lineFeed :: (ofText "Caused by:" ++ [lineFeed]) := by decide
    unfold report
    simp only [heading, List.append_assoc, List.cons_append, List.nil_append]
  have unbroken : lineFeed ∉ ofText "Caused by:" := by decide
  rw [opened, List.splitOn_append_cons_self,
    List.splitOn_append_cons_self_of_not_mem List.not_mem_nil,
    List.splitOn_append_cons_self_of_not_mem unbroken, splitOn_indent]

/-- A report tells its message and its cause. -/
theorem report_inj
    {message cause otherMessage otherCause : Bytes}
    (equal : report ⟨message, some cause⟩ = report ⟨otherMessage, some otherCause⟩) :
    message = otherMessage ∧ cause = otherCause := by
  have lines := congrArg (List.splitOn lineFeed) equal
  rw [splitOn_report, splitOn_report] at lines
  -- No line below the empty one is empty, so that the empty one is the last.
  have filled (text : Bytes) :
      [] ∉ ofText "Caused by:" :: (List.splitOn lineFeed text).map (ofText "    " ++ ·) := by
    have heading : ofText "Caused by:" ≠ [] := by decide
    have indentation : ofText "    " ≠ [] := by decide
    simp [heading.symm, indentation]
  obtain ⟨messageLines, below⟩ :=
    Bytes.eq_of_last_separator (filled cause) (filled otherCause) lines
  have causeLines : List.splitOn lineFeed cause = List.splitOn lineFeed otherCause := by
    apply List.map_inj_right (fun _ _ same => List.append_cancel_left same) |>.mp
    exact (List.cons.inj below).2
  have joined (text : Bytes) :
      List.intercalate [lineFeed] (List.splitOn lineFeed text) = text :=
    List.intercalate_splitOn lineFeed
  constructor
  · rw [← joined message, messageLines, joined]
  · rw [← joined cause, causeLines, joined]

end Diagnosis

namespace ReadError

open Bytes (ofText decimal eq_of_last_separator)

/-! ## Messages read from the right -/

theorem message_malformed
    (path : Bytes)
    (line fieldCount : Nat) :
    (malformed path line fieldCount).message =
      (Utf8.repair path ++ 0x3A :: decimal line) ++
        ofText ": expected `<key> <value>`, found" ++ 0x20 :: decimal fieldCount ++
        ofText " field(s)" := by
  have colon : ofText ":" = [0x3A] := by decide
  have words : ofText ": expected `<key> <value>`, found " =
      ofText ": expected `<key> <value>`, found" ++ [0x20] := by decide
  unfold message
  rw [colon, words]
  simp only [List.append_assoc, List.cons_append, List.nil_append]

theorem not_mem_decimal
    {separator : UInt8}
    (notDigit : Bytes.isDigit separator = false)
    (number : Nat) :
    separator ∉ decimal number := by
  intro member
  rw [Bytes.isDigit_of_mem_decimal member] at notDigit
  cases notDigit

/-- A message about a line tells the path as shown, the line and the number of
fields. -/
theorem malformed_message_inj
    {path otherPath : Bytes}
    {line fieldCount otherLine otherFieldCount : Nat}
    (equal : (malformed path line fieldCount).message =
      (malformed otherPath otherLine otherFieldCount).message) :
    Utf8.repair path = Utf8.repair otherPath ∧
      line = otherLine ∧
      fieldCount = otherFieldCount := by
  rw [message_malformed, message_malformed] at equal
  have blank : Bytes.isDigit 0x20 = false := rfl
  have colon : Bytes.isDigit 0x3A = false := rfl
  obtain ⟨beforeBlank, sameCount⟩ :=
    eq_of_last_separator (not_mem_decimal blank fieldCount)
      (not_mem_decimal blank otherFieldCount) (List.append_cancel_right equal)
  obtain ⟨samePath, sameLine⟩ :=
    eq_of_last_separator (not_mem_decimal colon line)
      (not_mem_decimal colon otherLine) (List.append_cancel_right beforeBlank)
  exact ⟨samePath, Bytes.decimal_inj.mp sameLine, Bytes.decimal_inj.mp sameCount⟩

/-- Two errors about lines that have the same message have the same line, the
same number of fields and the same path as shown. Two files that cannot be read
and have the same report have the same path as shown and the same cause. A path
that is a text is shown as it is. -/
theorem equal_texts_tell_equal_errors :
    (∀ path otherPath line otherLine fieldCount otherFieldCount,
      (malformed path line fieldCount).message =
          (malformed otherPath otherLine otherFieldCount).message ->
        line = otherLine ∧
          fieldCount = otherFieldCount ∧
          Utf8.repair path = Utf8.repair otherPath ∧
          (Utf8.Valid path -> Utf8.Valid otherPath -> path = otherPath)) ∧
    ∀ path otherPath failure otherFailure,
      (unreadable path failure).diagnosis.report =
          (unreadable otherPath otherFailure).diagnosis.report ->
        failure.text = otherFailure.text ∧
          Utf8.repair path = Utf8.repair otherPath ∧
          (Utf8.Valid path -> Utf8.Valid otherPath -> path = otherPath) := by
  constructor
  · intro path otherPath line otherLine fieldCount otherFieldCount equal
    obtain ⟨samePath, sameLine, sameCount⟩ := malformed_message_inj equal
    exact ⟨sameLine, sameCount, samePath, Utf8.eq_of_repair_eq samePath⟩
  · intro path otherPath failure otherFailure equal
    obtain ⟨sameMessage, sameCause⟩ := Diagnosis.report_inj equal
    have samePath : Utf8.repair path = Utf8.repair otherPath :=
      List.append_cancel_left sameMessage
    exact ⟨sameCause, samePath, Utf8.eq_of_repair_eq samePath⟩

/-- Two paths that are no texts, and differ in an octet that is not shown, have the
same texts. What is shown looks like a message and a cause of its own, and is
itself a path of which the texts tell every octet. -/
theorem ill_formed_paths_share_texts :
    let looks := ofText "a:7: expected `<key> <value>`, found 1 field(s)\n\nCaused by:\n    b"
    let failure : Failure := ⟨.other, ofText "x\n\nCaused by:\n"⟩
    let path := looks ++ [0xFF]
    let otherPath := looks ++ [0xFE]
    let shown := looks ++ Utf8.replacement
    path ≠ otherPath ∧
      (malformed path 12 3).message = (malformed otherPath 12 3).message ∧
      (unreadable path failure).diagnosis.report =
        (unreadable otherPath failure).diagnosis.report ∧
      Utf8.repair path = Utf8.repair otherPath ∧
      (malformed (Utf8.repair path) 12 3).message = (malformed shown 12 3).message ∧
      Utf8.Valid shown ∧
      Utf8.repair path = shown := by
  intro looks failure path otherPath shown
  obtain ⟨lines, files⟩ := equal_texts_tell_equal_errors
  have sameMessage : (malformed path 12 3).message = (malformed otherPath 12 3).message := by
    decide +kernel
  have sameReport : (unreadable path failure).diagnosis.report =
      (unreadable otherPath failure).diagnosis.report := by
    decide +kernel
  have valid : Utf8.Valid shown := by decide +kernel
  have repairedValid : Utf8.Valid (Utf8.repair path) := by decide +kernel
  have shownMessage :
      (malformed (Utf8.repair path) 12 3).message = (malformed shown 12 3).message := by
    decide +kernel
  obtain ⟨_, _, samePath, _⟩ := lines _ _ _ _ _ _ sameMessage
  obtain ⟨_, _, _, asShown⟩ := lines _ _ _ _ _ _ shownMessage
  exact ⟨by decide, sameMessage, sameReport, (files _ _ _ _ sameReport).2.1, shownMessage,
    valid, asShown repairedValid valid⟩

end ReadError
end Collate
