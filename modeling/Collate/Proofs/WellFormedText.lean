import Collate.Utf8

/-!
# Well-formed text

The check of octets keeps nothing but where it stands inside a character. It
still accepts exactly the sequences that spell characters: every encoded
character leads it from one boundary to the next, and whatever leads it there
is the code of a character. Both directions go through the number that the
octets of one character spell.
-/

namespace Collate
namespace Utf8

/-! ## One octet at a time -/

/-- Where a check stands when a number of continuations is still to come. -/
def continuing : Nat -> Progress
  | 0 => .ready
  | count + 1 => .owing 0x80 0xBF count

/-- An owed octet has to come, has to lie in its range, and leaves only
continuations to be checked. -/
theorem run_owing_iff
    {low high : UInt8}
    {further : Nat}
    {bytes : Bytes} :
    run (.owing low high further) bytes = some .ready ↔
      ∃ octet rest, bytes = octet :: rest ∧
        low ≤ octet ∧ octet ≤ high ∧
        run (continuing further) rest = some .ready := by
  cases bytes with
  | nil => simp
  | cons octet rest =>
      by_cases within : low ≤ octet ∧ octet ≤ high
      · have taken : step (.owing low high further) octet =
            some (continuing further) := by
          cases further <;> simp [step, continuing, within]
        rw [run_cons, taken, Option.bind_some]
        constructor
        · intro finished
          exact ⟨octet, rest, rfl, within.1, within.2, finished⟩
        · rintro ⟨_, _, ⟨rfl, rfl⟩, _, _, finished⟩
          exact finished
      · have refused : step (.owing low high further) octet = none := by
          have outside : (decide (low ≤ octet) && decide (octet ≤ high)) = false := by
            simpa using within
          simp [step, outside]
        rw [run_cons, refused, Option.bind_none]
        constructor
        · intro impossible
          cases impossible
        · rintro ⟨_, _, ⟨rfl, rfl⟩, lower, upper, _⟩
          exact absurd ⟨lower, upper⟩ within

/-- A text is well formed when what its first octet asks for comes. -/
theorem valid_cons_iff
    {octet : UInt8}
    {rest : Bytes} :
    Valid (octet :: rest) ↔
      ∃ next, start octet = some next ∧ run next rest = some .ready := by
  rw [Valid, run_cons, Option.bind_eq_some_iff]
  rfl

theorem start_of_ascii
    {octet : UInt8}
    (ascii : octet.toNat < 0x80) :
    start octet = some .ready := by
  have small : octet < 0x80 := by
    rw [UInt8.lt_iff_toNat_lt]
    exact ascii
  simp [start, small]

/-- An octet that begins two asks for any continuation. -/
theorem start_of_two
    {octet : UInt8}
    (lower : 0xC2 ≤ octet.toNat)
    (upper : octet.toNat < 0xE0) :
    start octet = some (.owing 0x80 0xBF 0) := by
  simp only [start, UInt8.lt_iff_toNat_lt, ← UInt8.toNat_inj, UInt8.toNat_ofNat]
  grind

/-- An octet that begins three excludes overlong forms and surrogates by the
range of the second. -/
theorem start_of_three
    {octet : UInt8}
    (lower : 0xE0 ≤ octet.toNat)
    (upper : octet.toNat < 0xF0) :
    start octet =
      some (.owing
        (if octet.toNat = 0xE0 then 0xA0 else 0x80)
        (if octet.toNat = 0xED then 0x9F else 0xBF) 1) := by
  simp only [start, UInt8.lt_iff_toNat_lt, ← UInt8.toNat_inj, UInt8.toNat_ofNat]
  grind

/-- An octet that begins four excludes overlong forms and all above U+10FFFF by
the range of the second. -/
theorem start_of_four
    {octet : UInt8}
    (lower : 0xF0 ≤ octet.toNat)
    (upper : octet.toNat ≤ 0xF4) :
    start octet =
      some (.owing
        (if octet.toNat = 0xF0 then 0x90 else 0x80)
        (if octet.toNat = 0xF4 then 0x8F else 0xBF) 2) := by
  simp only [start, UInt8.lt_iff_toNat_lt, ← UInt8.toNat_inj, UInt8.toNat_ofNat]
  grind

/-- No character begins with a continuation, with an overlong form, or above
the last character. -/
theorem start_eq_none
    {octet : UInt8}
    (misplaced : 0x80 ≤ octet.toNat ∧ octet.toNat < 0xC2 ∨ 0xF4 < octet.toNat) :
    start octet = none := by
  simp only [start, UInt8.lt_iff_toNat_lt, ← UInt8.toNat_inj, UInt8.toNat_ofNat]
  grind

/-! ## One character at a time -/

/-- The numbers of characters: all but the surrogates, up to U+10FFFF. -/
theorem character_number (character : Char) :
    character.toNat < 0xD800 ∨
      0xDFFF < character.toNat ∧ character.toNat < 0x110000 := by
  have valid := character.valid
  simpa [UInt32.isValidChar, Nat.isValidChar] using valid

theorem exists_character_of_number
    (number : Nat)
    (valid : number < 0xD800 ∨ 0xDFFF < number ∧ number < 0x110000) :
    ∃ character : Char, character.toNat = number := by
  refine ⟨Char.ofNat number, ?_⟩
  rw [Char.ofNat, dif_pos valid]
  rfl

/-- The octets of a character by its number. -/
theorem encoded_eq (character : Char) :
    String.utf8EncodeChar character =
      let number := character.toNat
      if number ≤ 0x7F then [UInt8.ofNat number]
      else if number ≤ 0x7FF then
        [UInt8.ofNat (number / 64 % 0x20 + 0xC0), UInt8.ofNat (number % 64 + 0x80)]
      else if number ≤ 0xFFFF then
        [UInt8.ofNat (number / 4096 % 0x10 + 0xE0),
          UInt8.ofNat (number / 64 % 64 + 0x80), UInt8.ofNat (number % 64 + 0x80)]
      else
        [UInt8.ofNat (number / 262144 % 8 + 0xF0),
          UInt8.ofNat (number / 4096 % 64 + 0x80),
          UInt8.ofNat (number / 64 % 64 + 0x80), UInt8.ofNat (number % 64 + 0x80)] :=
  rfl

/-- The check passes every encoded character. -/
theorem valid_encoded (character : Char) :
    Valid (String.utf8EncodeChar character) := by
  have numbered := character_number character
  rw [encoded_eq]
  generalize character.toNat = number at numbered
  dsimp only
  split
  · refine valid_cons_iff.mpr ⟨.ready, start_of_ascii ?_, rfl⟩
    rw [UInt8.toNat_ofNat']
    omega
  split
  · refine valid_cons_iff.mpr
      ⟨_, start_of_two ?_ ?_, run_owing_iff.mpr ⟨_, _, rfl, ?_, ?_, rfl⟩⟩ <;>
      simp only [UInt8.le_iff_toNat_le, UInt8.toNat_ofNat', UInt8.toNat_ofNat] <;>
      omega
  split
  · refine valid_cons_iff.mpr
      ⟨_, start_of_three ?_ ?_, run_owing_iff.mpr ⟨_, _, rfl, ?_, ?_,
        run_owing_iff.mpr ⟨_, _, rfl, ?_, ?_, rfl⟩⟩⟩ <;>
      simp only [UInt8.le_iff_toNat_le, UInt8.toNat_ofNat', UInt8.toNat_ofNat,
        apply_ite UInt8.toNat] <;>
      (try split) <;>
      omega
  · refine valid_cons_iff.mpr
      ⟨_, start_of_four ?_ ?_, run_owing_iff.mpr ⟨_, _, rfl, ?_, ?_,
        run_owing_iff.mpr ⟨_, _, rfl, ?_, ?_,
          run_owing_iff.mpr ⟨_, _, rfl, ?_, ?_, rfl⟩⟩⟩⟩ <;>
      simp only [UInt8.le_iff_toNat_le, UInt8.toNat_ofNat', UInt8.toNat_ofNat,
        apply_ite UInt8.toNat] <;>
      (try split) <;>
      omega

/-! ## From octets to characters -/

theorem exists_character_of_ascii
    {octet : UInt8}
    (ascii : octet.toNat < 0x80) :
    ∃ character, String.utf8EncodeChar character = [octet] := by
  obtain ⟨character, number⟩ := exists_character_of_number octet.toNat (by omega)
  refine ⟨character, ?_⟩
  rw [encoded_eq, number, if_pos (by omega)]
  simp

theorem exists_character_of_two
    {first second : UInt8}
    (firstLower : 0xC2 ≤ first.toNat)
    (firstUpper : first.toNat < 0xE0)
    (secondLower : 0x80 ≤ second.toNat)
    (secondUpper : second.toNat ≤ 0xBF) :
    ∃ character, String.utf8EncodeChar character = [first, second] := by
  obtain ⟨character, number⟩ :=
    exists_character_of_number
      ((first.toNat - 0xC0) * 64 + (second.toNat - 0x80)) (by omega)
  refine ⟨character, ?_⟩
  rw [encoded_eq, number]
  dsimp only
  rw [if_neg (by omega), if_pos (by omega)]
  simp only [List.cons.injEq, ← UInt8.toNat_inj, UInt8.toNat_ofNat', and_true]
  omega

theorem exists_character_of_three
    {first second third : UInt8}
    (firstLower : 0xE0 ≤ first.toNat)
    (firstUpper : first.toNat < 0xF0)
    (secondLower : (if first.toNat = 0xE0 then 0xA0 else 0x80) ≤ second.toNat)
    (secondUpper : second.toNat ≤ (if first.toNat = 0xED then 0x9F else 0xBF))
    (thirdLower : 0x80 ≤ third.toNat)
    (thirdUpper : third.toNat ≤ 0xBF) :
    ∃ character, String.utf8EncodeChar character = [first, second, third] := by
  -- The two ranges of the second octet are all that keeps the number in bounds.
  have notOverlong : 0x80 ≤ second.toNat ∧
      (first.toNat = 0xE0 -> 0xA0 ≤ second.toNat) := by
    split at secondLower <;> omega
  have notSurrogate : second.toNat ≤ 0xBF ∧
      (first.toNat = 0xED -> second.toNat ≤ 0x9F) := by
    split at secondUpper <;> omega
  obtain ⟨character, number⟩ :=
    exists_character_of_number
      ((first.toNat - 0xE0) * 4096 + (second.toNat - 0x80) * 64 +
        (third.toNat - 0x80)) (by omega)
  refine ⟨character, ?_⟩
  rw [encoded_eq, number]
  dsimp only
  rw [if_neg (by omega), if_neg (by omega), if_pos (by omega)]
  simp only [List.cons.injEq, ← UInt8.toNat_inj, UInt8.toNat_ofNat', and_true]
  omega

theorem exists_character_of_four
    {first second third fourth : UInt8}
    (firstLower : 0xF0 ≤ first.toNat)
    (firstUpper : first.toNat ≤ 0xF4)
    (secondLower : (if first.toNat = 0xF0 then 0x90 else 0x80) ≤ second.toNat)
    (secondUpper : second.toNat ≤ (if first.toNat = 0xF4 then 0x8F else 0xBF))
    (thirdLower : 0x80 ≤ third.toNat)
    (thirdUpper : third.toNat ≤ 0xBF)
    (fourthLower : 0x80 ≤ fourth.toNat)
    (fourthUpper : fourth.toNat ≤ 0xBF) :
    ∃ character,
      String.utf8EncodeChar character = [first, second, third, fourth] := by
  have notOverlong : 0x80 ≤ second.toNat ∧
      (first.toNat = 0xF0 -> 0x90 ≤ second.toNat) := by
    split at secondLower <;> omega
  have notBeyond : second.toNat ≤ 0xBF ∧
      (first.toNat = 0xF4 -> second.toNat ≤ 0x8F) := by
    split at secondUpper <;> omega
  obtain ⟨character, number⟩ :=
    exists_character_of_number
      ((first.toNat - 0xF0) * 262144 + (second.toNat - 0x80) * 4096 +
        (third.toNat - 0x80) * 64 + (fourth.toNat - 0x80)) (by omega)
  refine ⟨character, ?_⟩
  rw [encoded_eq, number]
  dsimp only
  rw [if_neg (by omega), if_neg (by omega), if_neg (by omega)]
  simp only [List.cons.injEq, ← UInt8.toNat_inj, UInt8.toNat_ofNat', and_true]
  omega

/-- A well-formed text that is not empty begins with a whole character. -/
theorem exists_first_character
    {octet : UInt8}
    {bytes : Bytes}
    (valid : Valid (octet :: bytes)) :
    ∃ character rest,
      octet :: bytes = String.utf8EncodeChar character ++ rest ∧ Valid rest := by
  obtain ⟨next, started, finished⟩ := valid_cons_iff.mp valid
  -- The cases follow the length that the first octet announces.
  rcases Nat.lt_or_ge octet.toNat 0x80 with ascii | notAscii
  · obtain ⟨character, encoded⟩ := exists_character_of_ascii ascii
    rw [start_of_ascii ascii] at started
    cases started
    exact ⟨character, bytes, by rw [encoded]; rfl, finished⟩
  rcases Nat.lt_or_ge octet.toNat 0xC2 with misplaced | notMisplaced
  · rw [start_eq_none (.inl ⟨notAscii, misplaced⟩)] at started
    cases started
  rcases Nat.lt_or_ge octet.toNat 0xE0 with two | notTwo
  · rw [start_of_two notMisplaced two] at started
    cases started
    obtain ⟨second, rest, rfl, secondLower, secondUpper, restValid⟩ :=
      run_owing_iff.mp finished
    obtain ⟨character, encoded⟩ :=
      exists_character_of_two notMisplaced two secondLower secondUpper
    exact ⟨character, rest, by rw [encoded]; rfl, restValid⟩
  rcases Nat.lt_or_ge octet.toNat 0xF0 with three | notThree
  · rw [start_of_three notTwo three] at started
    cases started
    obtain ⟨second, rest, rfl, secondLower, secondUpper, more⟩ :=
      run_owing_iff.mp finished
    obtain ⟨third, rest, rfl, thirdLower, thirdUpper, restValid⟩ :=
      run_owing_iff.mp more
    rw [UInt8.le_iff_toNat_le, apply_ite UInt8.toNat] at secondLower secondUpper
    obtain ⟨character, encoded⟩ :=
      exists_character_of_three notTwo three secondLower secondUpper
        thirdLower thirdUpper
    exact ⟨character, rest, by rw [encoded]; rfl, restValid⟩
  rcases Nat.lt_or_ge 0xF4 octet.toNat with beyond | four
  · rw [start_eq_none (.inr beyond)] at started
    cases started
  · rw [start_of_four notThree four] at started
    cases started
    obtain ⟨second, rest, rfl, secondLower, secondUpper, more⟩ :=
      run_owing_iff.mp finished
    obtain ⟨third, rest, rfl, thirdLower, thirdUpper, more⟩ :=
      run_owing_iff.mp more
    obtain ⟨fourth, rest, rfl, fourthLower, fourthUpper, restValid⟩ :=
      run_owing_iff.mp more
    rw [UInt8.le_iff_toNat_le, apply_ite UInt8.toNat] at secondLower secondUpper
    obtain ⟨character, encoded⟩ :=
      exists_character_of_four notThree four secondLower secondUpper
        thirdLower thirdUpper fourthLower fourthUpper
    exact ⟨character, rest, by rw [encoded]; rfl, restValid⟩

/-! ## Whole texts -/

theorem valid_nil : Valid [] := rfl

theorem Valid.append
    {left right : Bytes}
    (leftValid : Valid left)
    (rightValid : Valid right) :
    Valid (left ++ right) := by
  rw [Valid, run_append, leftValid]
  exact rightValid

/-- The check passes exactly the octets of texts. -/
theorem valid_iff_exists_text {bytes : Bytes} :
    Valid bytes ↔ ∃ text : String, bytes = Bytes.ofText text := by
  constructor
  · intro valid
    suffices ∃ characters : List Char,
        bytes = characters.flatMap String.utf8EncodeChar by
      obtain ⟨characters, spelled⟩ := this
      exact ⟨String.ofList characters, by simpa [Bytes.ofText] using spelled⟩
    induction length : bytes.length using Nat.strongRecOn generalizing bytes with
    | ind count hypothesis =>
        cases bytes with
        | nil => exact ⟨[], rfl⟩
        | cons octet rest =>
            obtain ⟨character, after, split, afterValid⟩ :=
              exists_first_character valid
            have shorter : after.length < count := by
              have lengths := congrArg List.length split
              have encodedLength := character.utf8Size_pos
              rw [List.length_append, String.length_utf8EncodeChar] at lengths
              omega
            obtain ⟨characters, spelled⟩ :=
              hypothesis after.length shorter afterValid rfl
            refine ⟨character :: characters, ?_⟩
            rw [split, spelled, List.flatMap_cons]
  · rintro ⟨text, rfl⟩
    unfold Bytes.ofText
    induction text.toList with
    | nil => exact valid_nil
    | cons character rest hypothesis =>
        rw [List.flatMap_cons]
        exact (valid_encoded character).append hypothesis

end Utf8

/-- Different texts have different octets. -/
theorem Bytes.ofText_inj {left right : String} :
    Bytes.ofText left = Bytes.ofText right ↔ left = right := by
  constructor
  · intro equal
    have sameOctets : left.toByteArray = right.toByteArray := by
      rw [← String.utf8Encode_toList, ← String.utf8Encode_toList]
      exact congrArg List.toByteArray equal
    exact String.toByteArray_inj.mp sameOctets
  · rintro rfl
    rfl

end Collate
