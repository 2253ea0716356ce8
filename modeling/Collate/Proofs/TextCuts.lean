import Collate.Proofs.FieldRuns
import Collate.Proofs.WellFormedText

/-!
# Where a text may be cut

An octet below 0x80 is a character by itself and never stands inside another
one. A sequence of octets may therefore be cut at such an octet: it is a text
exactly when the parts on both sides are. Every blank is one of these octets, so
a line is a text exactly when each of its fields is.
-/

namespace Collate
namespace Utf8

/-! ## One-octet characters -/

/-- Inside a character, no octet below 0x80 can come. -/
def Guarded : Progress -> Prop
  | .ready => True
  | .owing low _ _ => 0x80 ≤ low

theorem guarded_of_start
    {octet : UInt8}
    {next : Progress}
    (started : start octet = some next) :
    Guarded next := by
  unfold start at started
  grind [Guarded]

/-- However a check stood, it is guarded after an octet. -/
theorem guarded_of_step
    {progress next : Progress}
    {octet : UInt8}
    (taken : step progress octet = some next) :
    Guarded next := by
  cases progress with
  | ready => exact guarded_of_start taken
  | owing low high further =>
      unfold step at taken
      grind [Guarded]

theorem guarded_of_run
    {progress next : Progress}
    {bytes : Bytes}
    (guarded : Guarded progress)
    (taken : run progress bytes = some next) :
    Guarded next := by
  induction bytes generalizing progress with
  | nil =>
      cases taken
      exact guarded
  | cons octet rest hypothesis =>
      rw [run_cons, Option.bind_eq_some_iff] at taken
      obtain ⟨middle, stepped, finished⟩ := taken
      exact hypothesis (guarded_of_step stepped) finished

/-- A guarded check takes an octet below 0x80 between two characters only. -/
theorem step_ascii
    {progress : Progress}
    {octet : UInt8}
    (guarded : Guarded progress)
    (ascii : octet < 0x80) :
    step progress octet = if progress = .ready then some .ready else none := by
  cases progress with
  | ready => exact start_of_ascii ascii
  | owing low high further =>
      have outside : ¬low ≤ octet := by
        rw [UInt8.not_le]
        exact UInt8.lt_of_lt_of_le ascii guarded
      simp [step, outside]

/-! ## Cuts -/

/-- A text may be cut at an octet below 0x80. -/
theorem valid_append_cons_iff
    {octet : UInt8}
    (ascii : octet < 0x80)
    (left right : Bytes) :
    Valid (left ++ octet :: right) ↔ Valid left ∧ Valid right := by
  unfold Valid
  rw [run_append]
  cases taken : run .ready left with
  | none => simp
  | some progress =>
      have atStart : Guarded .ready := trivial
      have guarded : Guarded progress := guarded_of_run atStart taken
      rw [Option.bind_some, run_cons, step_ascii guarded ascii]
      by_cases ready : progress = .ready
      · simp [ready]
      · simp [ready]

theorem valid_cons_ascii_iff
    {octet : UInt8}
    (ascii : octet < 0x80)
    (rest : Bytes) :
    Valid (octet :: rest) ↔ Valid rest := by
  have cut := valid_append_cons_iff ascii [] rest
  rwa [List.nil_append, and_iff_right valid_nil] at cut

theorem valid_append_iff_of_ascii_left
    {left : Bytes}
    (ascii : ∀ octet ∈ left, octet < 0x80)
    (right : Bytes) :
    Valid (left ++ right) ↔ Valid right := by
  induction left with
  | nil => rfl
  | cons octet left hypothesis =>
      obtain ⟨octetAscii, othersAscii⟩ := List.forall_mem_cons.mp ascii
      rw [List.cons_append, valid_cons_ascii_iff octetAscii, hypothesis othersAscii]

theorem valid_append_iff_of_ascii_head
    (left : Bytes)
    {right : Bytes}
    (ascii : ∀ octet, right.head? = some octet -> octet < 0x80) :
    Valid (left ++ right) ↔ Valid left ∧ Valid right := by
  cases right with
  | nil => simp [valid_nil]
  | cons octet rest =>
      have octetAscii : octet < 0x80 := ascii octet rfl
      rw [valid_append_cons_iff octetAscii, valid_cons_ascii_iff octetAscii]

/-! ## Lines and their fields -/

theorem ascii_of_isBlank
    {octet : UInt8}
    (blank : Fields.isBlank octet = true) :
    octet < 0x80 := by
  have listed := Fields.isBlank_iff.mp blank
  simp only [List.mem_cons, List.not_mem_nil, or_false] at listed
  rcases listed with rfl | rfl | rfl | rfl | rfl <;> decide

/-- A line is a text exactly when each of its fields is. -/
theorem valid_iff_fields
    {line : Bytes}
    {fields : List Bytes}
    (division : Fields.Division Fields.isBlank line fields) :
    Valid line ↔ ∀ field ∈ fields, Valid field := by
  induction division with
  | blanks gapBlank =>
      have cut := valid_append_iff_of_ascii_left
        (fun octet member => ascii_of_isBlank (gapBlank octet member)) []
      rw [List.append_nil] at cut
      simp [cut, valid_nil]
  | field gapBlank _ headBlank _ hypothesis =>
      rw [List.append_assoc,
        valid_append_iff_of_ascii_left
          (fun octet member => ascii_of_isBlank (gapBlank octet member)),
        valid_append_iff_of_ascii_head _
          (fun octet first => ascii_of_isBlank (headBlank octet first)),
        hypothesis, List.forall_mem_cons]

end Utf8
end Collate
