import Collate.Stream

/-!
# Lines of a body

A line can be told by its place: so many line feeds before it, none inside it,
and a line feed or the end of the body after it. The lines that reading
delivers are these, each at the index that the line feeds before it count.
Bodies are taken apart at their first line feed, and everything here is shown
by induction along that.
-/

namespace Collate
namespace Bytes

/-- Cutting at every separator agrees with the cut of lists. -/
theorem splitOn_eq_splitOn (separator : UInt8) (bytes : Bytes) :
    Bytes.splitOn separator bytes = List.splitOn separator bytes := by
  induction bytes with
  | nil => rfl
  | cons octet rest hypothesis =>
      rw [List.splitOn_cons_eq_if_modifyHead]
      by_cases equal : octet = separator
      · subst octet
        simp [hypothesis]
      · rw [splitOn_cons_of_ne equal, ← hypothesis, splitOn]
        simp [equal]

/-- A body without a line feed, or a line before a shorter body. -/
theorem line_induction
    {motive : Bytes -> Prop}
    (unbroken : ∀ tail, lineFeed ∉ tail -> motive tail)
    (broken : ∀ line rest, lineFeed ∉ line -> motive rest ->
      motive (line ++ lineFeed :: rest))
    (body : Bytes) : motive body := by
  induction length : body.length using Nat.strongRecOn generalizing body with
  | ind count hypothesis =>
      by_cases present : lineFeed ∈ body
      · obtain ⟨line, rest, rfl, absent⟩ := List.eq_append_cons_of_mem present
        apply broken line rest absent
        apply hypothesis rest.length _ rest rfl
        rw [← length, List.length_append, List.length_cons]
        omega
      · exact unbroken body present

end Bytes

namespace Stream

open Bytes

theorem finishedLines_of_unbroken
    {tail : Bytes}
    (absent : lineFeed ∉ tail) :
    finishedLines tail = [] := by
  rw [finishedLines, splitOn_eq_splitOn, List.splitOn_eq_singleton absent]
  rfl

theorem unfinishedLine_of_unbroken
    {tail : Bytes}
    (absent : lineFeed ∉ tail) :
    unfinishedLine tail = tail := by
  rw [unfinishedLine, splitOn_eq_splitOn, List.splitOn_eq_singleton absent]
  rfl

theorem finishedLines_append
    {line : Bytes}
    (absent : lineFeed ∉ line)
    (rest : Bytes) :
    finishedLines (line ++ lineFeed :: rest) = line :: finishedLines rest := by
  rw [finishedLines, finishedLines, splitOn_eq_splitOn, splitOn_eq_splitOn,
    List.splitOn_append_cons_self_of_not_mem absent,
    List.dropLast_cons_of_ne_nil (List.splitOn_ne_nil _ _)]

theorem unfinishedLine_append
    {line : Bytes}
    (absent : lineFeed ∉ line)
    (rest : Bytes) :
    unfinishedLine (line ++ lineFeed :: rest) = unfinishedLine rest := by
  rw [unfinishedLine, unfinishedLine, splitOn_eq_splitOn, splitOn_eq_splitOn,
    List.splitOn_append_cons_self_of_not_mem absent]
  obtain ⟨piece, others, cut⟩ :=
    List.exists_cons_of_ne_nil (List.splitOn_ne_nil lineFeed rest)
  rw [cut]
  rfl

theorem linesOf_of_unbroken
    {tail : Bytes}
    (absent : lineFeed ∉ tail) :
    linesOf tail = if tail = [] then [] else [tail] := by
  rw [linesOf, finishedLines_of_unbroken absent, unfinishedLine_of_unbroken absent]
  simp

theorem linesOf_append
    {line : Bytes}
    (absent : lineFeed ∉ line)
    (rest : Bytes) :
    linesOf (line ++ lineFeed :: rest) = line :: linesOf rest := by
  rw [linesOf, linesOf, finishedLines_append absent, unfinishedLine_append absent]
  split <;> rfl

/-! ## Lines by their place -/

/-- A line stands in a body after a number of line feeds: it begins where the
body begins or a line feed has ended, holds no line feed, and reaches up to a
line feed or, unless it is empty, to the end. -/
def IsLine (body : Bytes) (index : Nat) (line : Bytes) : Prop :=
  ∃ before after,
    body = before ++ line ++ after ∧
      (before = [] ∨ before.getLast? = some lineFeed) ∧
      before.count lineFeed = index ∧
      lineFeed ∉ line ∧
      (after.head? = some lineFeed ∨ after = [] ∧ line ≠ [])

/-- Without a line feed before it, a line begins where the body begins. -/
theorem eq_nil_of_begins
    {before : Bytes}
    (begins : before = [] ∨ before.getLast? = some lineFeed)
    (absent : lineFeed ∉ before) :
    before = [] := by
  rcases begins with empty | last
  · exact empty
  · exact absurd (List.mem_of_getLast? last) absent

theorem isLine_of_unbroken_iff
    {tail : Bytes}
    (absent : lineFeed ∉ tail)
    (index : Nat)
    (line : Bytes) :
    IsLine tail index line ↔ index = 0 ∧ line = tail ∧ tail ≠ [] := by
  constructor
  · rintro ⟨before, after, rfl, begins, rfl, lineUnbroken, ends⟩
    simp only [List.mem_append, not_or] at absent
    have beforeEmpty : before = [] := eq_nil_of_begins begins absent.1.1
    have afterEmpty : after = [] ∧ line ≠ [] := by
      rcases ends with first | empty
      · exact absurd (List.mem_of_head? first) absent.2
      · exact empty
    simp [beforeEmpty, afterEmpty]
  · rintro ⟨rfl, rfl, notEmpty⟩
    exact ⟨[], [], by simp, .inl rfl, rfl, absent, .inr ⟨rfl, notEmpty⟩⟩

theorem isLine_append_zero_iff
    {first : Bytes}
    (absent : lineFeed ∉ first)
    (rest line : Bytes) :
    IsLine (first ++ lineFeed :: rest) 0 line ↔ line = first := by
  constructor
  · rintro ⟨before, after, split, begins, uncounted, lineUnbroken, ends⟩
    have beforeEmpty : before = [] :=
      eq_nil_of_begins begins (List.count_eq_zero.mp uncounted)
    subst before
    rcases ends with feed | ⟨rfl, _⟩
    · obtain ⟨following, rfl⟩ := List.head?_eq_some_iff.mp feed
      -- Both sides are cut at their first line feed.
      have pieces := congrArg (List.splitOn lineFeed) split
      rw [List.nil_append,
        List.splitOn_append_cons_self_of_not_mem absent,
        List.splitOn_append_cons_self_of_not_mem lineUnbroken] at pieces
      exact (List.cons.inj pieces).1.symm
    · have present : lineFeed ∈ line := by
        rw [List.nil_append, List.append_nil] at split
        simp [← split]
      exact absurd present lineUnbroken
  · rintro rfl
    exact ⟨[], lineFeed :: rest, by simp, .inl rfl, rfl, absent, .inl rfl⟩

theorem isLine_append_succ_iff
    {first : Bytes}
    (absent : lineFeed ∉ first)
    (rest : Bytes)
    (index : Nat)
    (line : Bytes) :
    IsLine (first ++ lineFeed :: rest) (index + 1) line ↔ IsLine rest index line := by
  constructor
  · rintro ⟨before, after, split, begins, counted, lineUnbroken, ends⟩
    rw [List.append_assoc] at split
    rcases List.append_eq_append_iff.mp split with
      ⟨shift, rfl, following⟩ | ⟨shift, rfl, _⟩
    · cases shift with
      | nil =>
          rw [List.append_nil, List.count_eq_zero.mpr absent] at counted
          omega
      | cons octet shift =>
          obtain ⟨rfl, rfl⟩ := List.cons.inj following
          refine ⟨shift, after, by simp, ?_, ?_, lineUnbroken, ends⟩
          · rcases List.eq_nil_or_concat shift with rfl | ⟨prior, final, rfl⟩
            · exact .inl rfl
            · right
              simpa [List.getLast?_append, List.getLast?_cons] using begins
          · rw [List.count_append, List.count_cons_self,
              List.count_eq_zero.mpr absent] at counted
            omega
    · -- A line feed before the line would stand inside the first line.
      have beforeUnbroken : lineFeed ∉ before := by
        intro present
        exact absent (List.mem_append_left shift present)
      rw [List.count_eq_zero.mpr beforeUnbroken] at counted
      omega
  · rintro ⟨before, after, rfl, begins, rfl, lineUnbroken, ends⟩
    refine ⟨first ++ lineFeed :: before, after, by simp, .inr ?_, ?_,
      lineUnbroken, ends⟩
    · rcases begins with rfl | last
      · simp
      · simp [List.getLast?_append, List.getLast?_cons, last]
    · rw [List.count_append, List.count_cons_self, List.count_eq_zero.mpr absent]
      omega

/-- Reading delivers exactly the lines of the body, each at its index. -/
theorem isLine_iff_getElem?
    (body : Bytes)
    (index : Nat)
    (line : Bytes) :
    IsLine body index line ↔ (linesOf body)[index]? = some line := by
  induction body using line_induction generalizing index with
  | unbroken tail absent =>
      rw [isLine_of_unbroken_iff absent, linesOf_of_unbroken absent]
      by_cases empty : tail = []
      · simp [empty]
      · cases index <;> simp [empty, eq_comm]
  | broken first rest absent hypothesis =>
      rw [linesOf_append absent]
      cases index with
      | zero =>
          rw [isLine_append_zero_iff absent, List.getElem?_cons_zero,
            Option.some.injEq, eq_comm]
      | succ index =>
          rw [isLine_append_succ_iff absent, List.getElem?_cons_succ]
          exact hypothesis index

/-- A line stands between the lines before it, which its index counts, and the
lines after it. -/
theorem isLine_iff_split
    {body line : Bytes}
    {index : Nat} :
    IsLine body index line ↔
      ∃ before after, linesOf body = before ++ line :: after ∧
        before.length = index := by
  rw [isLine_iff_getElem?]
  constructor
  · intro found
    obtain ⟨bound, rfl⟩ := List.getElem?_eq_some_iff.mp found
    refine ⟨(linesOf body).take index, (linesOf body).drop (index + 1), ?_, ?_⟩
    · rw [List.getElem_cons_drop, List.take_append_drop]
    · exact List.length_take_of_le (Nat.le_of_lt bound)
  · rintro ⟨before, after, split, rfl⟩
    simp [split]

theorem mem_linesOf_iff {body line : Bytes} :
    line ∈ linesOf body ↔ ∃ index, IsLine body index line := by
  simp only [isLine_iff_getElem?, List.mem_iff_getElem?]

end Stream
end Collate
