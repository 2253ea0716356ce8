import Collate.Proofs.LineBoundaries
import Collate.Proofs.TextCuts
import Mathlib.Data.List.Forall2

/-!
# Spacing that does not matter

Inside a line, blanks between two other octets may be exchanged for other blanks
as long as one remains, and blanks at either end may come and go. The fields of
the line stay the same. So does whether it is a text, for that is decided field
by field: no blank is part of a longer character, and none completes one that
is broken off.

Lines keep their numbers, since no line feed comes or goes. Only the last line
needs care: when it loses its last blank it is no line any more, but a line of
blanks is passed over just as well.
-/

namespace Collate

open Bytes (lineFeed line_induction)

namespace Fields

/-! ## Two spacings of a line -/

/-- The blanks inside a line: space, tab, carriage return and form feed. -/
def gapOctets : Bytes := [0x20, 0x09, 0x0D, 0x0C]

/-- Blanks inside a line, or none at all. -/
def IsGap (gap : Bytes) : Prop :=
  ∀ octet ∈ gap, octet ∈ gapOctets

instance : DecidablePred IsGap :=
  fun gap => List.decidableBAll (· ∈ gapOctets) gap

/-- Two spacings of what follows an octet that is no blank. -/
inductive RespacedAfter : Bytes -> Bytes -> Prop
  /-- Blanks at the end are exchanged for any others, or for none. -/
  | trailing (gap other : Bytes) :
      IsGap gap -> IsGap other -> RespacedAfter gap other
  /-- Two octets without a blank between them stay together. -/
  | adjacent {octet : UInt8} {left right : Bytes} :
      octet ∉ gapOctets ->
      RespacedAfter left right ->
      RespacedAfter (octet :: left) (octet :: right)
  /-- Blanks between two octets are exchanged for one blank or more. -/
  | between (gap other : Bytes) {octet : UInt8} {left right : Bytes} :
      IsGap gap -> gap ≠ [] ->
      IsGap other -> other ≠ [] ->
      octet ∉ gapOctets ->
      RespacedAfter left right ->
      RespacedAfter (gap ++ octet :: left) (other ++ octet :: right)

/-- Two spacings of a line. -/
inductive Respaced : Bytes -> Bytes -> Prop
  /-- A line without any other octet may have any blanks, or none. -/
  | blanks (gap other : Bytes) :
      IsGap gap -> IsGap other -> Respaced gap other
  /-- Blanks at the front are exchanged for any others, or for none. -/
  | leading (gap other : Bytes) {octet : UInt8} {left right : Bytes} :
      IsGap gap -> IsGap other ->
      octet ∉ gapOctets ->
      RespacedAfter left right ->
      Respaced (gap ++ octet :: left) (other ++ octet :: right)

theorem IsGap.isBlank
    {gap : Bytes}
    (isGap : IsGap gap) :
    ∀ octet ∈ gap, isBlank octet = true := by
  intro octet member
  have listed := isGap octet member
  simp only [gapOctets, List.mem_cons, List.not_mem_nil, or_false] at listed
  rcases listed with rfl | rfl | rfl | rfl <;> rfl

theorem IsGap.append
    {gap other : Bytes}
    (isGap : IsGap gap)
    (otherIsGap : IsGap other) :
    IsGap (gap ++ other) :=
  List.forall_mem_append.mpr ⟨isGap, otherIsGap⟩

/-! ## The same fields -/

theorem of_eq_of_runs_eq
    {blank : α -> Bool}
    {left right : List α}
    (same : runs blank left = runs blank right) :
    of blank left = of blank right := by
  rw [of, of, same]

theorem runs_cons_eq_of_runs_eq
    {blank : α -> Bool}
    {left right : List α}
    (same : runs blank left = runs blank right)
    (item : α) :
    runs blank (item :: left) = runs blank (item :: right) := by
  unfold runs at same ⊢
  rw [List.foldr_cons, List.foldr_cons, same]

/-- A blank ends the run that reaches to the front. -/
theorem runs_append_of_blanks
    {blank : α -> Bool}
    {gap : List α}
    (allBlank : ∀ item ∈ gap, blank item = true)
    (notEmpty : gap ≠ [])
    (rest : List α) :
    runs blank (gap ++ rest) = ([], of blank rest) := by
  rw [runs_of_head_blank, of_append_blanks allBlank]
  intro item first
  rw [List.head?_append_of_ne_nil _ notEmpty] at first
  exact allBlank item (List.mem_of_head? first)

theorem runs_of_blanks
    {blank : α -> Bool}
    {gap : List α}
    (allBlank : ∀ item ∈ gap, blank item = true) :
    runs blank gap = ([], []) := by
  have noField : of blank (gap ++ []) = of blank [] := of_append_blanks allBlank []
  rw [List.append_nil, of_nil] at noField
  rw [runs_of_head_blank, noField]
  intro item first
  exact allBlank item (List.mem_of_head? first)

theorem RespacedAfter.runs_eq
    {left right : Bytes}
    (respaced : RespacedAfter left right) :
    runs isBlank left = runs isBlank right := by
  induction respaced with
  | trailing gap other isGap otherIsGap =>
      rw [runs_of_blanks isGap.isBlank, runs_of_blanks otherIsGap.isBlank]
  | adjacent _ _ hypothesis => exact runs_cons_eq_of_runs_eq hypothesis _
  | between gap other isGap notEmpty otherIsGap otherNotEmpty _ _ hypothesis =>
      rw [runs_append_of_blanks isGap.isBlank notEmpty,
        runs_append_of_blanks otherIsGap.isBlank otherNotEmpty,
        of_eq_of_runs_eq (runs_cons_eq_of_runs_eq hypothesis _)]

/-- Two spacings of a line have the same fields. -/
theorem Respaced.ofBytes_eq
    {left right : Bytes}
    (respaced : Respaced left right) :
    ofBytes left = ofBytes right := by
  unfold ofBytes
  cases respaced with
  | blanks _ _ isGap otherIsGap =>
      apply of_eq_of_runs_eq
      rw [runs_of_blanks isGap.isBlank, runs_of_blanks otherIsGap.isBlank]
  | leading gap other isGap otherIsGap _ restRespaced =>
      rw [of_append_blanks isGap.isBlank, of_append_blanks otherIsGap.isBlank]
      exact of_eq_of_runs_eq (runs_cons_eq_of_runs_eq restRespaced.runs_eq _)

/-! ## Blanks added at the end -/

theorem exists_gap (line : Bytes) :
    ∃ gap rest, line = gap ++ rest ∧ IsGap gap ∧
      ∀ octet, rest.head? = some octet -> octet ∉ gapOctets := by
  obtain ⟨gap, rest, split, isGap, first⟩ :=
    exists_span (fun octet => decide (octet ∈ gapOctets)) line
  simp only [decide_eq_true_eq, decide_eq_false_iff_not] at isGap first
  exact ⟨gap, rest, split, isGap, first⟩

theorem RespacedAfter.append_gap
    {gap : Bytes}
    (isGap : IsGap gap)
    (line : Bytes) :
    RespacedAfter line (line ++ gap) := by
  -- The line is taken apart where the relation is, at its next octet that is no blank.
  induction length : line.length using Nat.strongRecOn generalizing line with
  | ind count hypothesis =>
      obtain ⟨front, rest, rfl, frontIsGap, first⟩ := exists_gap line
      cases rest with
      | nil =>
          rw [List.append_nil]
          exact .trailing front (front ++ gap) frontIsGap (frontIsGap.append isGap)
      | cons octet rest =>
          have shorter : rest.length < count := by
            rw [← length, List.length_append, List.length_cons]
            omega
          have restRespaced := hypothesis rest.length shorter rest rfl
          rw [List.append_assoc, List.cons_append]
          by_cases empty : front = []
          · subst front
            exact .adjacent (first octet rfl) restRespaced
          · exact .between front front frontIsGap empty frontIsGap empty
              (first octet rfl) restRespaced

theorem Respaced.append_gap
    {gap : Bytes}
    (isGap : IsGap gap)
    (line : Bytes) :
    Respaced line (line ++ gap) := by
  obtain ⟨front, rest, rfl, frontIsGap, first⟩ := exists_gap line
  cases rest with
  | nil =>
      rw [List.append_nil]
      exact .blanks front (front ++ gap) frontIsGap (frontIsGap.append isGap)
  | cons octet rest =>
      rw [List.append_assoc, List.cons_append]
      exact .leading front front frontIsGap frontIsGap (first octet rfl)
        (.append_gap isGap rest)

theorem Respaced.refl (line : Bytes) : Respaced line line := by
  have unchanged : Respaced line (line ++ []) := .append_gap (by simp [IsGap]) line
  rwa [List.append_nil] at unchanged

end Fields

namespace Stream

/-! ## Two spacings of a body -/

/-- Two spacings of a body, line by line. -/
def Respaced (left right : Bytes) : Prop :=
  List.Forall₂ Fields.Respaced
    (List.splitOn lineFeed left) (List.splitOn lineFeed right)

/-- A body with a carriage return before each line feed. -/
def withCarriageReturns (body : Bytes) : Bytes :=
  body.flatMap fun octet => if octet = lineFeed then [0x0D, lineFeed] else [octet]

theorem withCarriageReturns_of_unbroken
    {tail : Bytes}
    (absent : lineFeed ∉ tail) :
    withCarriageReturns tail = tail := by
  induction tail with
  | nil => rfl
  | cons octet rest hypothesis =>
      rw [List.mem_cons, not_or] at absent
      obtain ⟨different, restAbsent⟩ := absent
      have restKept := hypothesis restAbsent
      unfold withCarriageReturns at restKept ⊢
      rw [List.flatMap_cons, if_neg (Ne.symm different), restKept, List.singleton_append]

theorem withCarriageReturns_append
    {line : Bytes}
    (absent : lineFeed ∉ line)
    (rest : Bytes) :
    withCarriageReturns (line ++ lineFeed :: rest) =
      line ++ [0x0D] ++ lineFeed :: withCarriageReturns rest := by
  have lineKept := withCarriageReturns_of_unbroken absent
  unfold withCarriageReturns at lineKept ⊢
  rw [List.flatMap_append, List.flatMap_cons, lineKept, if_pos rfl]
  simp

theorem respaced_withCarriageReturns (body : Bytes) :
    Respaced body (withCarriageReturns body) := by
  unfold Respaced
  induction body using line_induction with
  | unbroken tail absent =>
      rw [withCarriageReturns_of_unbroken absent, List.splitOn_eq_singleton absent]
      exact .cons (.refl tail) .nil
  | broken line rest absent hypothesis =>
      have returnAbsent : lineFeed ∉ line ++ [0x0D] := by
        rw [List.mem_append, not_or]
        exact ⟨absent, by decide⟩
      have isGap : Fields.IsGap [0x0D] := by decide
      rw [withCarriageReturns_append absent,
        List.splitOn_append_cons_self_of_not_mem absent,
        List.splitOn_append_cons_self_of_not_mem returnAbsent]
      exact .cons (.append_gap isGap line) hypothesis

/-- The cut at line feeds gives the finished lines and then the unfinished one. -/
theorem splitOn_eq_lines (body : Bytes) :
    List.splitOn lineFeed body = finishedLines body ++ [unfinishedLine body] := by
  induction body using line_induction with
  | unbroken tail absent =>
      rw [List.splitOn_eq_singleton absent, finishedLines_of_unbroken absent,
        unfinishedLine_of_unbroken absent, List.nil_append]
  | broken line rest absent hypothesis =>
      rw [List.splitOn_append_cons_self_of_not_mem absent, hypothesis,
        finishedLines_append absent, unfinishedLine_append absent, List.cons_append]

end Stream

namespace Entries

open Collate.Stream (linesOf finishedLines unfinishedLine withCarriageReturns)

/-! ## The same answer -/

/-- Lines with the same fields are alike, for a line is a text exactly when its
fields are. -/
theorem ofLine_eq_of_fields
    {left right : Bytes}
    (same : Fields.ofBytes left = Fields.ofBytes right) :
    ofLine left = ofLine right := by
  have leftDivision : Fields.Division Fields.isBlank left (Fields.ofBytes right) :=
    Fields.division_iff_of_eq.mpr same
  have rightDivision : Fields.Division Fields.isBlank right (Fields.ofBytes right) :=
    Fields.division_iff_of_eq.mpr rfl
  have valid : Utf8.Valid left ↔ Utf8.Valid right := by
    rw [Utf8.valid_iff_fields leftDivision, Utf8.valid_iff_fields rightDivision]
  unfold ofLine
  simp only [valid, same]

theorem addLines_eq_of_forall₂
    (path : Bytes)
    (number : Nat)
    (entries : Entries)
    {lefts rights : List Bytes}
    (alike : List.Forall₂ (fun left right => ofLine left = ofLine right) lefts rights) :
    addLines path number entries lefts = addLines path number entries rights := by
  induction alike generalizing number entries with
  | nil => rfl
  | cons same _ hypothesis =>
      rw [addLines, addLines, same]
      split
      · rfl
      · exact hypothesis _ _
      · exact hypothesis _ _

/-- An empty unfinished line makes no difference, though it is no line. -/
theorem addLines_linesOf
    (path : Bytes)
    (number : Nat)
    (entries : Entries)
    (body : Bytes) :
    addLines path number entries (linesOf body) =
      addLines path number entries (List.splitOn lineFeed body) := by
  rw [Stream.splitOn_eq_lines]
  unfold linesOf
  split
  · rename_i empty
    -- The cut has an empty piece at the end here, which the loop passes over.
    rw [List.isEmpty_iff.mp empty, addLines_append]
    cases addLines path number entries (finishedLines body) <;> rfl
  · rfl

theorem addLines_eq_of_respaced
    (path : Bytes)
    {left right : Bytes}
    (respaced : Stream.Respaced left right)
    (failure : Option Failure) :
    addLines path 1 ∅ (Stream.lines ⟨left, failure⟩) =
      addLines path 1 ∅ (Stream.lines ⟨right, failure⟩) := by
  have alike : List.Forall₂ (fun left right => ofLine left = ofLine right)
      (List.splitOn lineFeed left) (List.splitOn lineFeed right) :=
    List.Forall₂.imp (fun _ _ line => ofLine_eq_of_fields line.ofBytes_eq) respaced
  cases failure with
  | none =>
      change addLines path 1 ∅ (linesOf left) = addLines path 1 ∅ (linesOf right)
      rw [addLines_linesOf, addLines_linesOf]
      exact addLines_eq_of_forall₂ path 1 ∅ alike
  | some failure =>
      change addLines path 1 ∅ (finishedLines left) = addLines path 1 ∅ (finishedLines right)
      rw [finishedLines, finishedLines, Bytes.splitOn_eq_splitOn, Bytes.splitOn_eq_splitOn,
        List.dropLast_eq_take, List.dropLast_eq_take, alike.length_eq]
      exact addLines_eq_of_forall₂ path 1 ∅ (List.forall₂_take _ alike)

/-- Spacing never changes what reading gives, entries or error. In particular a
carriage return before each line feed does not. -/
theorem ofStream_ignores_spacing
    (path : Bytes)
    (failure : Option Failure) :
    (∀ left right,
      List.Forall₂ Fields.Respaced
        (List.splitOn lineFeed left) (List.splitOn lineFeed right) ->
      ofStream path ⟨left, failure⟩ = ofStream path ⟨right, failure⟩) ∧
    ∀ body,
      ofStream path ⟨withCarriageReturns body, failure⟩ =
        ofStream path ⟨body, failure⟩ := by
  have same : ∀ {left right}, Stream.Respaced left right ->
      ofStream path ⟨left, failure⟩ = ofStream path ⟨right, failure⟩ := by
    intro left right respaced
    rw [ofStream_eq_bind, ofStream_eq_bind, addLines_eq_of_respaced path respaced]
  refine ⟨fun left right => same, ?_⟩
  intro body
  exact (same (Stream.respaced_withCarriageReturns body)).symm

/-- Blanks come and go around octets that are no text, and the last line, which
holds nothing else, goes altogether. -/
theorem respaced_line_of_blanks_is_lost :
    let left := Bytes.ofText "\tk  v\n" ++ [0xFF, 0x20, 0x80] ++ Bytes.ofText "\n \r"
    let right := Bytes.ofText "k\x0cv \n" ++ [0x20, 0xFF, 0x0D, 0x09, 0x80, 0x0A]
    List.Forall₂ Fields.Respaced
        (List.splitOn lineFeed left) (List.splitOn lineFeed right) ∧
      (linesOf left).length = 3 ∧ (linesOf right).length = 2 ∧
      ofStream [] { body := left } = .error (.unreadable [] .notText) ∧
      ofStream [] { body := right } = .error (.unreadable [] .notText) := by
  intro left right
  have respaced : List.Forall₂ Fields.Respaced
      (List.splitOn lineFeed left) (List.splitOn lineFeed right) := by
    change List.Forall₂ Fields.Respaced
      [Bytes.ofText "\tk  v", [0xFF, 0x20, 0x80], Bytes.ofText " \r"]
      [Bytes.ofText "k\x0cv ", [0x20, 0xFF, 0x0D, 0x09, 0x80], []]
    refine .cons ?_ (.cons ?_ (.cons ?_ .nil))
    · exact .leading [0x09] [] (by decide) (by decide) (by decide)
        (.between [0x20, 0x20] [0x0C] (by decide) (by decide) (by decide) (by decide)
          (by decide) (.trailing [] [0x20] (by decide) (by decide)))
    · exact .leading [] [0x20] (by decide) (by decide) (by decide)
        (.between [0x20] [0x0D, 0x09] (by decide) (by decide) (by decide) (by decide)
          (by decide) (.trailing [] [] (by decide) (by decide)))
    · exact .blanks [0x20, 0x0D] [] (by decide) (by decide)
  have told : ofStream [] { body := left } = .error (.unreadable [] .notText) := rfl
  have same := (ofStream_ignores_spacing [] none).1 left right respaced
  exact ⟨respaced, rfl, rfl, told, same.symm.trans told⟩

end Entries
end Collate
