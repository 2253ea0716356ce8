import Collate.Proofs.TextCuts

/-!
# Fields of octets and of characters

A line is divided into fields octet by octet, without a look at its characters.
Nothing is lost by that. The octets of a character are all blank or all not, as
the character is, so that a division of characters carries over to their octets.
What a division keeps is everything but the blanks, and a field begins exactly
where an octet that is none stands first or after a blank.
-/

namespace Collate
namespace Fields

/-! ## What a division keeps -/

/-- The fields hold all that is no blank, in order. -/
theorem Division.flatten_eq
    {blank : α -> Bool}
    {items : List α}
    {fields : List (List α)}
    (division : Division blank items fields) :
    fields.flatten = items.filter (!blank ·) := by
  have gapDropped {gap : List α} (gapBlank : ∀ item ∈ gap, blank item = true) :
      gap.filter (!blank ·) = [] := by
    apply List.filter_eq_nil_iff.mpr
    intro item member
    simp [gapBlank item member]
  induction division with
  | blanks gapBlank => rw [gapDropped gapBlank, List.flatten_nil]
  | @field gap run rest fields gapBlank isField _ _ hypothesis =>
      have runKept : run.filter (!blank ·) = run := by
        apply List.filter_eq_self.mpr
        intro item member
        simp [isField.2 item member]
      rw [List.filter_append, List.filter_append, gapDropped gapBlank, runKept,
        List.nil_append, List.flatten_cons, hypothesis]

/-- A division carries over to codes whose parts are all blank or all not, as the
coded item is. -/
theorem Division.flatMap
    {blank : α -> Bool}
    {codeBlank : β -> Bool}
    {code : α -> List β}
    (filled : ∀ item, code item ≠ [])
    (agrees : ∀ item, ∀ part ∈ code item, codeBlank part = blank item)
    {items : List α}
    {fields : List (List α)}
    (division : Division blank items fields) :
    Division codeBlank (items.flatMap code) (fields.map (·.flatMap code)) := by
  have carried {items : List α} {value : Bool}
      (all : ∀ item ∈ items, blank item = value) :
      ∀ part ∈ items.flatMap code, codeBlank part = value := by
    intro part member
    obtain ⟨item, itemMember, partMember⟩ := List.mem_flatMap.mp member
    rw [agrees item part partMember, all item itemMember]
  induction division with
  | blanks gapBlank => exact .blanks (carried gapBlank)
  | @field gap run rest fields gapBlank isField headBlank _ hypothesis =>
      rw [List.flatMap_append, List.flatMap_append, List.map_cons]
      refine .field (carried gapBlank) ⟨?_, carried isField.2⟩ ?_ hypothesis
      · intro empty
        obtain ⟨item, member⟩ := List.exists_mem_of_ne_nil run isField.1
        exact filled item (List.flatMap_eq_nil_iff.mp empty item member)
      · -- What comes first after the run is the first part of an item that comes first.
        intro part first
        cases rest with
        | nil => cases first
        | cons item rest =>
            obtain ⟨head, tail, coded⟩ := List.exists_cons_of_ne_nil (filled item)
            have member : part ∈ code item := by
              rw [List.flatMap_cons, coded] at first
              cases first
              rw [coded]
              exact List.mem_cons_self
            rw [agrees item part member]
            exact headBlank item rfl

/-! ## Where fields begin -/

/-- Whether a field begins at an index: no blank stands there, and a blank or
nothing stands before. -/
def beginsAt
    (blank : α -> Bool)
    (items : List α)
    (index : Nat) : Bool :=
  items[index]?.any (!blank ·) && (index == 0 || items[index - 1]?.any blank)

theorem countP_range_succ (test : Nat -> Bool) (count : Nat) :
    (List.range (count + 1)).countP test =
      (List.range count).countP (fun index => test (index + 1)) + (test 0).toNat := by
  rw [List.range_succ_eq_map, List.countP_cons, List.countP_map]
  cases test 0 <;> rfl

/-- After an item, a field begins with what follows a blank; after one that is no
blank, what follows at once goes on with its field. -/
theorem countP_beginsAt_after
    (blank : α -> Bool)
    (item : α)
    (rest : List α) :
    (List.range rest.length).countP
        (fun index => beginsAt blank (item :: rest) (index + 1)) =
      if blank item then (of blank rest).length else (runs blank rest).2.length := by
  -- Whether a field begins is seen one item back, so the item before goes along.
  induction rest generalizing item with
  | nil => cases blank item <;> rfl
  | cons next rest hypothesis =>
      have shifted (index : Nat) :
          beginsAt blank (item :: next :: rest) (index + 1 + 1) =
            beginsAt blank (next :: rest) (index + 1) := by
        simp [beginsAt]
      rw [List.length_cons, countP_range_succ]
      simp only [shifted, hypothesis next]
      cases nextBlank : blank next with
      | true =>
          have headBlank : ∀ first, (next :: rest).head? = some first ->
              blank first = true := by
            rintro _ ⟨⟩
            exact nextBlank
          rw [runs_of_head_blank headBlank, of_cons_of_blank nextBlank]
          simp [beginsAt, nextBlank]
      | false =>
          have continued : (runs blank (next :: rest)).2 = (runs blank rest).2 := by
            simp [runs, nextBlank]
          rw [of_cons_of_not_blank nextBlank, continued]
          cases itemBlank : blank item <;> simp [beginsAt, nextBlank, itemBlank]

/-- There are as many fields as there are places where one begins. -/
theorem length_of
    (blank : α -> Bool)
    (items : List α) :
    (of blank items).length =
      (List.range items.length).countP (beginsAt blank items) := by
  cases items with
  | nil => rfl
  | cons item rest =>
      rw [List.length_cons, countP_range_succ, countP_beginsAt_after]
      cases itemBlank : blank item with
      | true =>
          rw [of_cons_of_blank itemBlank]
          simp [beginsAt, itemBlank]
      | false =>
          rw [of_cons_of_not_blank itemBlank]
          simp [beginsAt, itemBlank]

/-! ## Blank characters -/

/-- The characters that separate fields. -/
def isBlankCharacter (character : Char) : Bool :=
  character == ' ' || character == '\t' || character == '\n' ||
    character == '\x0C' || character == '\r'

/-- No octet of a longer character is below 0x80. -/
theorem not_ascii_of_mem_encoded
    {character : Char}
    {octet : UInt8}
    (long : 0x7F < character.toNat)
    (member : octet ∈ String.utf8EncodeChar character) :
    ¬octet < 0x80 := by
  rw [Utf8.encoded_eq] at member
  dsimp only at member
  rw [if_neg (Nat.not_le.mpr long)] at member
  rw [UInt8.lt_iff_toNat_lt]
  split at member
  · simp only [List.mem_cons, List.not_mem_nil, or_false, ← UInt8.toNat_inj,
      UInt8.toNat_ofNat', UInt8.toNat_ofNat] at member ⊢
    omega
  split at member <;>
  · simp only [List.mem_cons, List.not_mem_nil, or_false, ← UInt8.toNat_inj,
      UInt8.toNat_ofNat', UInt8.toNat_ofNat] at member ⊢
    omega

/-- A blank character is its number, which is that of a blank octet. -/
theorem isBlankCharacter_iff {character : Char} :
    isBlankCharacter character = true ↔
      character.toNat ∈ [0x20, 0x09, 0x0A, 0x0D, 0x0C] := by
  unfold isBlankCharacter
  simp only [Bool.or_eq_true, beq_iff_eq, ← Char.toNat_inj, List.mem_cons,
    List.not_mem_nil, or_false, Char.reduceToNat]
  omega

/-- The octets of a character are blank exactly if the character is. -/
theorem isBlank_of_mem_encoded
    (character : Char)
    (octet : UInt8)
    (member : octet ∈ String.utf8EncodeChar character) :
    isBlank octet = isBlankCharacter character := by
  apply Bool.eq_iff_iff.mpr
  rw [isBlankCharacter_iff]
  rcases Nat.lt_or_ge 0x7F character.toNat with long | short
  · constructor
    · intro blank
      exact absurd (Utf8.ascii_of_isBlank blank) (not_ascii_of_mem_encoded long member)
    · intro listed
      simp only [List.mem_cons, List.not_mem_nil, or_false] at listed
      omega
  · rw [Utf8.encoded_eq] at member
    dsimp only at member
    rw [if_pos short, List.mem_singleton] at member
    rw [member, isBlank_iff]
    simp only [List.mem_cons, List.not_mem_nil, or_false, ← UInt8.toNat_inj,
      UInt8.toNat_ofNat', UInt8.toNat_ofNat]
    omega

/-- A text is divided alike by its octets and by its characters. -/
theorem ofBytes_ofText (text : String) :
    ofBytes (Bytes.ofText text) =
      (of isBlankCharacter text.toList).map (Bytes.ofText ∘ String.ofList) := by
  have division : Division isBlankCharacter text.toList (of isBlankCharacter text.toList) :=
    division_iff_of_eq.mpr rfl
  have coded := division.flatMap (fun _ => String.utf8EncodeChar_ne_nil) isBlank_of_mem_encoded
  have octets : Bytes.ofText ∘ String.ofList = (·.flatMap String.utf8EncodeChar) := by
    funext characters
    simp [Bytes.ofText]
  rw [octets]
  exact of_eq_of_division coded

/-- A line that is a text has one decoding, and its fields are those of the decoded
characters. Each is a text, is not empty and holds no blank. Together they are the
line without its blanks, and there are as many as there are places where no blank
stands first or after a blank. -/
theorem ofBytes_splits_as_characters_do
    (line : Bytes)
    (valid : Utf8.Valid line) :
    (∃ text : String, Bytes.ofText text = line ∧
      (∀ other : String, Bytes.ofText other = line -> other = text) ∧
      ofBytes line =
        (of isBlankCharacter text.toList).map (Bytes.ofText ∘ String.ofList)) ∧
    (∀ field ∈ ofBytes line,
      field ≠ [] ∧ Utf8.Valid field ∧ ∀ octet ∈ field, isBlank octet = false) ∧
    (ofBytes line).flatten = line.filter (!isBlank ·) ∧
    (ofBytes line).length =
      (List.range line.length).countP (beginsAt isBlank line) := by
  have division : Division isBlank line (ofBytes line) := division_iff_of_eq.mpr rfl
  refine ⟨?_, ?_, division.flatten_eq, length_of isBlank line⟩
  · obtain ⟨text, rfl⟩ := Utf8.valid_iff_exists_text.mp valid
    refine ⟨text, rfl, ?_, ofBytes_ofText text⟩
    intro other equal
    exact Bytes.ofText_inj.mp equal
  · intro field member
    obtain ⟨filled, noBlank⟩ := division.isField field member
    exact ⟨filled, (Utf8.valid_iff_fields division).mp valid field member, noBlank⟩

/-- A no-break space and the octets of wide characters stay inside their fields. -/
theorem wide_characters_stay_whole :
    let line := Bytes.ofText " a\u00a0b\t\té \x0c€\r"
    Utf8.Valid line ∧
      (∃ text : String, Bytes.ofText text = line ∧
        ofBytes line =
          (of isBlankCharacter text.toList).map (Bytes.ofText ∘ String.ofList)) ∧
      (∀ field ∈ ofBytes line,
        field ≠ [] ∧ Utf8.Valid field ∧ ∀ octet ∈ field, isBlank octet = false) ∧
      (ofBytes line).flatten = Bytes.ofText "a\u00a0bé€" ∧
      (ofBytes line).length = 3 := by
  intro line
  have valid : Utf8.Valid line := by decide
  obtain ⟨⟨text, spelled, _, split⟩, sound, kept, counted⟩ :=
    ofBytes_splits_as_characters_do line valid
  exact ⟨valid, ⟨text, spelled, split⟩, sound, kept.trans (by decide),
    counted.trans (by decide)⟩

end Fields
end Collate
