import Collate.Fields

/-!
# Fields as longest runs

The fields of a sequence are computed by one pass from the right. What they
should be can be said without a pass: the sequence is made of fields with gaps
of blanks around them, and no two fields touch. There is exactly one way to
divide a sequence so, and the pass finds it.
-/

namespace Collate
namespace Fields

/-- A field holds something and no blank. -/
def IsField (blank : α -> Bool) (run : List α) : Prop :=
  run ≠ [] ∧ ∀ item ∈ run, blank item = false

/-- A sequence divided into fields: blanks, then a field up to the next blank
or the end, and so on. -/
inductive Division (blank : α -> Bool) : List α -> List (List α) -> Prop
  /-- Nothing but blanks is left. -/
  | blanks {gap : List α} :
      (∀ item ∈ gap, blank item = true) -> Division blank gap []
  | field {gap run rest : List α} {fields : List (List α)} :
      (∀ item ∈ gap, blank item = true) ->
      IsField blank run ->
      (∀ item, rest.head? = some item -> blank item = true) ->
      Division blank rest fields ->
      Division blank (gap ++ run ++ rest) (run :: fields)

/-! ## The pass from the right -/

theorem of_append_blanks
    {blank : α -> Bool}
    {gap : List α}
    (allBlank : ∀ item ∈ gap, blank item = true)
    (rest : List α) :
    of blank (gap ++ rest) = of blank rest := by
  induction gap with
  | nil => rfl
  | cons item gap hypothesis =>
      rw [List.cons_append, of_cons_of_blank (allBlank item List.mem_cons_self)]
      apply hypothesis
      intro other member
      exact allBlank other (List.mem_cons_of_mem item member)

/-- A run that reaches to the front ends before the first blank. -/
theorem runs_of_head_blank
    {blank : α -> Bool}
    {rest : List α}
    (headBlank : ∀ item, rest.head? = some item -> blank item = true) :
    runs blank rest = ([], of blank rest) := by
  cases rest with
  | nil => rfl
  | cons item rest =>
      have itemBlank : blank item = true := headBlank item rfl
      rw [of_cons_of_blank itemBlank]
      simp [runs, of, itemBlank]

theorem runs_append
    {blank : α -> Bool}
    {run : List α}
    (noBlank : ∀ item ∈ run, blank item = false)
    (rest : List α) :
    runs blank (run ++ rest) =
      (run ++ (runs blank rest).1, (runs blank rest).2) := by
  induction run with
  | nil => rfl
  | cons item run hypothesis =>
      have itemNotBlank : blank item = false := noBlank item List.mem_cons_self
      have tailRuns := hypothesis
        fun other member => noBlank other (List.mem_cons_of_mem item member)
      have unfolded : runs blank (item :: (run ++ rest)) =
          (item :: (runs blank (run ++ rest)).1, (runs blank (run ++ rest)).2) := by
        simp [runs, itemNotBlank]
      rw [List.cons_append, unfolded, tailRuns]
      rfl

theorem of_append_field
    {blank : α -> Bool}
    {run rest : List α}
    (isField : IsField blank run)
    (headBlank : ∀ item, rest.head? = some item -> blank item = true) :
    of blank (run ++ rest) = run :: of blank rest := by
  have frontRun : runs blank (run ++ rest) = (run, of blank rest) := by
    rw [runs_append isField.2, runs_of_head_blank headBlank, List.append_nil]
  rw [of, frontRun]
  simp [isField.1]

/-! ## The only division -/

/-- What stands before the first item of another kind is of one kind, and what
follows it begins with that item. -/
theorem exists_span (test : α -> Bool) (items : List α) :
    ∃ front rest, items = front ++ rest ∧
      (∀ item ∈ front, test item = true) ∧
      ∀ item, rest.head? = some item -> test item = false := by
  refine ⟨items.takeWhile test, items.dropWhile test,
    List.takeWhile_append_dropWhile.symm,
    List.all_eq_true.mp List.all_takeWhile, ?_⟩
  intro item first
  have refused := List.head?_dropWhile_not test items
  rw [first] at refused
  exact refused

/-- Every sequence has a division. -/
theorem exists_division (blank : α -> Bool) (items : List α) :
    ∃ fields, Division blank items fields := by
  induction length : items.length using Nat.strongRecOn generalizing items with
  | ind count hypothesis =>
      obtain ⟨gap, rest, rfl, gapBlank, restFirst⟩ := exists_span blank items
      obtain ⟨run, after, rfl, runNotBlank, afterFirst⟩ :=
        exists_span (fun item => !blank item) rest
      simp only [Bool.not_eq_true', Bool.not_eq_false'] at runNotBlank afterFirst
      by_cases runEmpty : run = []
      · -- Then what follows the gap both has to be and cannot be a blank.
        have afterEmpty : after = [] := by
          cases after with
          | nil => rfl
          | cons item others =>
              have itemBlank := afterFirst item rfl
              rw [restFirst item (by simp [runEmpty])] at itemBlank
              cases itemBlank
        refine ⟨[], ?_⟩
        rw [runEmpty, afterEmpty, List.append_nil, List.append_nil]
        exact .blanks gapBlank
      · have shorter : after.length < count := by
          have runPositive := List.length_pos_iff.mpr runEmpty
          rw [← length, List.length_append, List.length_append]
          omega
        obtain ⟨fields, division⟩ := hypothesis after.length shorter after rfl
        refine ⟨run :: fields, ?_⟩
        rw [← List.append_assoc]
        exact .field gapBlank ⟨runEmpty, runNotBlank⟩ afterFirst division

theorem of_eq_of_division
    {blank : α -> Bool}
    {items : List α}
    {fields : List (List α)}
    (division : Division blank items fields) :
    of blank items = fields := by
  induction division with
  | blanks allBlank =>
      simpa using of_append_blanks allBlank []
  | field allBlank isField headBlank _ hypothesis =>
      rw [List.append_assoc, of_append_blanks allBlank,
        of_append_field isField headBlank, hypothesis]

/-- The pass from the right finds the only division. -/
theorem division_iff_of_eq
    {blank : α -> Bool}
    {items : List α}
    {fields : List (List α)} :
    Division blank items fields ↔ of blank items = fields := by
  constructor
  · exact of_eq_of_division
  · rintro rfl
    obtain ⟨fields, division⟩ := exists_division blank items
    rw [of_eq_of_division division]
    exact division

theorem Division.isField
    {blank : α -> Bool}
    {items : List α}
    {fields : List (List α)}
    (division : Division blank items fields) :
    ∀ field ∈ fields, IsField blank field := by
  induction division with
  | blanks _ => simp
  | field _ isField _ _ hypothesis =>
      intro other member
      rcases List.mem_cons.mp member with rfl | later
      · exact isField
      · exact hypothesis other later

/-- Five octets separate fields, and no other. -/
theorem isBlank_iff {octet : UInt8} :
    isBlank octet = true ↔ octet ∈ ([0x20, 0x09, 0x0A, 0x0D, 0x0C] : Bytes) := by
  unfold isBlank
  simp only [Bool.or_eq_true, beq_iff_eq, List.mem_cons, List.not_mem_nil, or_false]
  grind

end Fields
end Collate
