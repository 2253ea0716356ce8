import Collate.Proofs.LogCounts
import Collate.Proofs.Rereading
import Mathlib.Data.Set.List

/-!
# The order of characters

Keys are compared octet by octet, without a look at their characters. The rows of
a table ascend by characters all the same. The code of a character parts from the
code of a greater one inside both of them, and goes on with the lesser octet: the
first octet grows with the number of those that follow it, and among codes of one
length the octets are digits. So what stands behind two different characters has
no say, neither in the order of octets nor in that of characters.
-/

namespace Collate

namespace Bytes

/-! ## Sequences that part -/

/-- After what they share, the first sequence goes on with the lesser octet. -/
inductive PartsBelow : Bytes -> Bytes -> Prop
  | here {lesser greater : UInt8} {left right : Bytes} :
      lesser < greater -> PartsBelow (lesser :: left) (greater :: right)
  | later {octet : UInt8} {left right : Bytes} :
      PartsBelow left right -> PartsBelow (octet :: left) (octet :: right)

namespace PartsBelow

variable {left right : Bytes}

theorem after (shared : Bytes) (parts : PartsBelow left right) :
    PartsBelow (shared ++ left) (shared ++ right) := by
  induction shared with
  | nil => exact parts
  | cons octet shared hypothesis => exact .later hypothesis

/-- Sequences that part do so whatever comes behind. -/
theorem append (parts : PartsBelow left right) (leftRest rightRest : Bytes) :
    PartsBelow (left ++ leftRest) (right ++ rightRest) := by
  induction parts with
  | here below => exact .here below
  | later _ hypothesis => exact .later hypothesis

theorem compare_eq_lt (parts : PartsBelow left right) :
    compare left right = .lt := by
  induction parts with
  | here below =>
      rw [List.compare_cons_cons, Std.compare_eq_lt.mpr below, Ordering.lt_then]
  | later _ hypothesis =>
      rw [List.compare_cons_cons, Std.compare_self, Ordering.eq_then, hypothesis]

theorem compare_eq_gt (parts : PartsBelow left right) :
    compare right left = .gt :=
  Std.OrientedCmp.gt_iff_lt.mpr parts.compare_eq_lt

end PartsBelow

theorem compare_append_left (shared left right : Bytes) :
    compare (shared ++ left) (shared ++ right) = compare left right := by
  induction shared with
  | nil => rfl
  | cons octet shared hypothesis =>
      rw [List.cons_append, List.cons_append, List.compare_cons_cons, Std.compare_self,
        Ordering.eq_then, hypothesis]

end Bytes

namespace Utf8

open Bytes (PartsBelow)

/-! ## Numbers as octets -/

/-- What is left of a number without its last digits to the base 64. -/
def withoutDigits : Nat -> Nat -> Nat
  | 0, number => number
  | count + 1, number => withoutDigits count (number / 64)

/-- The octets of a number: its last digits to the base 64 are continuations, and
what is left without them stands in the first octet, above a mark. -/
def spelled (mark : Nat) : Nat -> Nat -> Bytes
  | 0, number => [UInt8.ofNat (number + mark)]
  | count + 1, number =>
      spelled mark count (number / 64) ++ [UInt8.ofNat (number % 64 + 0x80)]

theorem exists_spelled_eq_cons (mark count number : Nat) :
    ∃ others, spelled mark count number =
      UInt8.ofNat (withoutDigits count number + mark) :: others := by
  induction count generalizing number with
  | zero => exact ⟨[], rfl⟩
  | succ count hypothesis =>
      obtain ⟨others, begun⟩ := hypothesis (number / 64)
      refine ⟨others ++ [UInt8.ofNat (number % 64 + 0x80)], ?_⟩
      rw [spelled, begun, List.cons_append, withoutDigits]

/-- Of two numbers with as many octets, the lesser has the octets that part below. -/
theorem partsBelow_spelled
    {mark count left right : Nat}
    (below : left < right)
    (small : withoutDigits count right + mark < UInt8.size) :
    PartsBelow (spelled mark count left) (spelled mark count right) := by
  induction count generalizing left right with
  | zero =>
      have first : left + mark < right + mark := Nat.add_lt_add_right below mark
      exact .here ((UInt8.ofNat_lt_iff_lt (Nat.lt_trans first small) small).mpr first)
  | succ count hypothesis =>
      have ordered : left / 64 ≤ right / 64 := Nat.div_le_div_right (Nat.le_of_lt below)
      rcases Nat.lt_or_eq_of_le ordered with earlier | same
      · exact (hypothesis earlier small).append _ _
      · -- Only the last digits differ.
        have digit (number : Nat) : number % 64 + 0x80 < UInt8.size := by
          have bounded := Nat.mod_lt number (y := 64) (by decide)
          exact Nat.lt_trans (Nat.add_lt_add_right bounded 0x80) (by decide)
        have last : left % 64 + 0x80 < right % 64 + 0x80 := by omega
        rw [spelled, spelled, same]
        exact .after _ (.here ((UInt8.ofNat_lt_iff_lt (digit left) (digit right)).mpr last))

/-! ## Characters -/

/-- How many continuations the code of a character with this number has. -/
def continuationCount (number : Nat) : Nat :=
  if number ≤ 0x7F then 0
  else if number ≤ 0x7FF then 1
  else if number ≤ 0xFFFF then 2
  else 3

/-- The mark of the first octet before so many continuations. -/
def lengthMark : Nat -> Nat
  | 0 => 0x00
  | 1 => 0xC0
  | 2 => 0xE0
  | 3 => 0xF0
  | _ => 0xF8

/-- The first octet, as a number, of the code of a character with this number. -/
def leading (number : Nat) : Nat :=
  withoutDigits (continuationCount number) number + lengthMark (continuationCount number)

theorem continuationCount_mono
    {left right : Nat}
    (ordered : left ≤ right) :
    continuationCount left ≤ continuationCount right := by
  unfold continuationCount
  grind

theorem lengthMark_mono
    {left right : Nat}
    (ordered : left ≤ right) :
    lengthMark left ≤ lengthMark right := by
  unfold lengthMark
  grind

/-- A first octet does not reach the mark of longer codes. -/
theorem leading_lt_lengthMark (character : Char) :
    leading character.toNat < lengthMark (continuationCount character.toNat + 1) := by
  have numbered := character_number character
  generalize character.toNat = number at numbered
  unfold leading continuationCount
  -- One case for each length.
  repeat' split
  all_goals
    simp only [withoutDigits, lengthMark]
    omega

theorem leading_lt_size (character : Char) :
    leading character.toNat < UInt8.size := by
  apply Nat.lt_of_lt_of_le (leading_lt_lengthMark character)
  unfold lengthMark
  split <;> decide

theorem encoded_eq_spelled (character : Char) :
    String.utf8EncodeChar character =
      spelled (lengthMark (continuationCount character.toNat))
        (continuationCount character.toNat) character.toNat := by
  have numbered := character_number character
  rw [encoded_eq]
  generalize character.toNat = number at numbered
  dsimp only
  unfold continuationCount
  repeat' split
  all_goals
    simp only [spelled, lengthMark, List.cons_append, List.nil_append, List.cons.injEq,
      ← UInt8.toNat_inj, UInt8.toNat_ofNat', and_true]
    omega

/-- The code of a character parts from that of every greater one. -/
theorem partsBelow_encoded
    {left right : Char}
    (below : left.toNat < right.toNat) :
    PartsBelow (String.utf8EncodeChar left) (String.utf8EncodeChar right) := by
  have ordered := continuationCount_mono (Nat.le_of_lt below)
  rw [encoded_eq_spelled, encoded_eq_spelled]
  rcases Nat.lt_or_eq_of_le ordered with fewer | same
  · -- The longer code has the greater first octet, and no other octet matters.
    have first : leading left.toNat < leading right.toNat :=
      calc
        leading left.toNat < lengthMark (continuationCount left.toNat + 1) :=
          leading_lt_lengthMark left
        _ ≤ lengthMark (continuationCount right.toNat) := lengthMark_mono fewer
        _ ≤ leading right.toNat := Nat.le_add_left _ _
    obtain ⟨leftOthers, leftBegun⟩ := exists_spelled_eq_cons
      (lengthMark (continuationCount left.toNat)) (continuationCount left.toNat) left.toNat
    obtain ⟨rightOthers, rightBegun⟩ := exists_spelled_eq_cons
      (lengthMark (continuationCount right.toNat)) (continuationCount right.toNat) right.toNat
    rw [leftBegun, rightBegun]
    apply PartsBelow.here
    exact (UInt8.ofNat_lt_iff_lt (leading_lt_size left) (leading_lt_size right)).mpr first
  · rw [same]
    exact partsBelow_spelled below (leading_lt_size right)

/-! ## Texts -/

/-- The numbers of the characters of a text. -/
def codePoints (text : String) : List Nat :=
  text.toList.map Char.toNat

theorem compare_flatMap_encoded (left right : List Char) :
    compare (left.flatMap String.utf8EncodeChar) (right.flatMap String.utf8EncodeChar) =
      compare (left.map Char.toNat) (right.map Char.toNat) := by
  have begins (character : Char) :=
    List.exists_cons_of_ne_nil (String.utf8EncodeChar_ne_nil (c := character))
  induction left generalizing right with
  | nil =>
      cases right with
      | nil => rfl
      | cons other others =>
          obtain ⟨octet, rest, encoded⟩ := begins other
          rw [List.flatMap_cons, encoded]
          rfl
  | cons character characters hypothesis =>
      cases right with
      | nil =>
          obtain ⟨octet, rest, encoded⟩ := begins character
          rw [List.flatMap_cons, encoded]
          rfl
      | cons other others =>
          rw [List.flatMap_cons, List.flatMap_cons, List.map_cons, List.map_cons,
            List.compare_cons_cons]
          -- The first characters decide, unless they are the same.
          rcases Nat.lt_trichotomy character.toNat other.toNat with below | same | above
          · have parts := (partsBelow_encoded below).append
              (characters.flatMap String.utf8EncodeChar) (others.flatMap String.utf8EncodeChar)
            rw [parts.compare_eq_lt, Nat.compare_eq_lt.mpr below, Ordering.lt_then]
          · obtain rfl := Char.toNat_inj.mp same
            rw [Bytes.compare_append_left, hypothesis, Std.compare_self, Ordering.eq_then]
          · have parts := (partsBelow_encoded above).append
              (others.flatMap String.utf8EncodeChar) (characters.flatMap String.utf8EncodeChar)
            rw [parts.compare_eq_gt, Nat.compare_eq_gt.mpr above, Ordering.gt_then]

/-- The octets of texts are in the order of the texts. -/
theorem compare_ofText (left right : String) :
    compare (Bytes.ofText left) (Bytes.ofText right) =
      compare (codePoints left) (codePoints right) :=
  compare_flatMap_encoded left.toList right.toList

end Utf8

namespace Table

open Bytes (tab lineFeed)
open Utf8 (codePoints)

/-! ## Rows -/

/-- Every key that a column holds is a text. -/
def Textual (table : Table) : Prop :=
  ∀ column ∈ table.columns, ∀ key ∈ column.entries, Utf8.Valid key

/-- What is read from bodies has texts for keys. -/
theorem textual_of_accepted
    {bodies : List Bytes}
    {columns : List Column}
    (accepted : Accepted bodies columns) :
    (Table.mk columns).Textual := by
  intro column member key present
  obtain ⟨body, _, read⟩ := accepted.exists_body member
  have found := Std.ExtTreeMap.getElem?_eq_some_getElem present
  exact (Entries.isWord_of_accepted read found).1.2

theorem textual_of_load
    {storage : Storage}
    {paths : List Bytes}
    {table : Table}
    (loaded : load storage paths = .ok table) :
    table.Textual := by
  rcases Reading.complete_or_failsAt storage paths with
    ⟨columns, complete⟩ | ⟨index, columns, error, fails⟩
  · rw [load, Reading.ofPaths_of_complete complete] at loaded
    cases loaded
    exact textual_of_accepted complete.accepted
  · rw [load, Reading.ofPaths_of_failsAt fails] at loaded
    cases loaded

theorem Textual.exists_texts {table : Table} (textual : table.Textual) :
    ∃ texts : List String, table.keys = texts.map Bytes.ofText := by
  have inRange : table.keys ∈ Set.range (List.map Bytes.ofText) := by
    rw [Set.range_list_map]
    intro key member
    obtain ⟨column, columnMember, present⟩ := mem_keys_iff.mp member
    obtain ⟨text, spelled⟩ :=
      Utf8.valid_iff_exists_text.mp (textual column columnMember key present)
    exact ⟨text, spelled.symm⟩
  obtain ⟨texts, spelled⟩ := inRange
  exact ⟨texts, spelled.symm⟩

/-- The texts that keys spell ascend by the numbers of their characters. -/
theorem texts_ascending
    {table : Table}
    {texts : List String}
    (spelled : table.keys = texts.map Bytes.ofText) :
    texts.Pairwise (fun text later =>
      compare (codePoints text) (codePoints later) = .lt) := by
  have ascending := table.keys_ascending
  rw [spelled, List.pairwise_map] at ascending
  apply ascending.imp
  intro text later below
  rw [← Utf8.compare_ofText]
  exact Bytes.compare_eq_lt_iff.mpr below

/-- The order of octets, by which a table orders its keys, is the order of the
numbers of the characters that they spell. So the rows of a table whose keys are
texts ascend by characters, and the keys of every table that is read are texts. -/
theorem rows_ascend_by_code_points :
    (∀ left right, Utf8.Valid left -> Utf8.Valid right ->
      ∃ leftText rightText : String,
        (∀ text, Bytes.ofText text = left ↔ text = leftText) ∧
        (∀ text, Bytes.ofText text = right ↔ text = rightText) ∧
        compare left right = compare (codePoints leftText) (codePoints rightText)) ∧
    (∀ table : Table, table.Textual ->
      ∃ texts : List String,
        texts.Pairwise (fun text later =>
          compare (codePoints text) (codePoints later) = .lt) ∧
        (∀ text, text ∈ texts ↔
          ∃ column ∈ table.columns, Bytes.ofText text ∈ column.entries) ∧
        table.keys = texts.map Bytes.ofText ∧
        table.render = texts.flatMap fun text =>
          [tab].intercalate (table.cells (Bytes.ofText text)) ++ [lineFeed]) ∧
    ∀ storage paths table, load storage paths = .ok table -> table.Textual := by
  refine ⟨?_, ?_, fun storage paths table => textual_of_load⟩
  · intro left right leftValid rightValid
    obtain ⟨leftText, rfl⟩ := Utf8.valid_iff_exists_text.mp leftValid
    obtain ⟨rightText, rfl⟩ := Utf8.valid_iff_exists_text.mp rightValid
    exact ⟨leftText, rightText, fun _ => Bytes.ofText_inj, fun _ => Bytes.ofText_inj,
      Utf8.compare_ofText leftText rightText⟩
  · intro table textual
    obtain ⟨texts, spelled⟩ := textual.exists_texts
    refine ⟨texts, texts_ascending spelled, ?_, spelled, ?_⟩
    · intro text
      rw [← mem_keys_iff, spelled, List.mem_map_of_injective]
      intro text other
      exact Bytes.ofText_inj.mp
    · rw [render_eq, spelled, List.map_map, List.flatMap_map]
      rfl

/-- A key that begins another, and keys of one to four octets, from two files. -/
theorem wide_keys_ascend_by_code_points :
    let storage : Storage := fun path =>
      if path = Bytes.ofText "a" then { body := Bytes.ofText "😀 1\nz 2\né 3\n" }
      else { body := Bytes.ofText "zé 4\n￮ 5\nz 6\n" }
    let texts := ["z", "zé", "é", "￮", "😀"]
    ∃ table, load storage [Bytes.ofText "a", Bytes.ofText "b"] = .ok table ∧
      table.Textual ∧
      table.keys = texts.map Bytes.ofText ∧
      texts.Pairwise (fun text later =>
        compare (codePoints text) (codePoints later) = .lt) ∧
      Utf8.Valid (Bytes.ofText "￮") ∧
      Utf8.Valid (Bytes.ofText "😀") ∧
      compare (Bytes.ofText "￮") (Bytes.ofText "😀") = compare [0xFFEE] [0x1F600] := by
  intro storage texts
  obtain ⟨compared, ascending, textual⟩ := rows_ascend_by_code_points
  let entries := Entries.ofPairs
    [(Bytes.ofText "😀", Bytes.ofText "1"), (Bytes.ofText "z", Bytes.ofText "2"),
      (Bytes.ofText "é", Bytes.ofText "3")]
  let others := Entries.ofPairs
    [(Bytes.ofText "zé", Bytes.ofText "4"), (Bytes.ofText "￮", Bytes.ofText "5"),
      (Bytes.ofText "z", Bytes.ofText "6")]
  let table : Table := ⟨[⟨Bytes.ofText "a", entries⟩, ⟨Bytes.ofText "b", others⟩]⟩
  have loaded : load storage [Bytes.ofText "a", Bytes.ofText "b"] = .ok table := rfl
  have keys : table.keys = texts.map Bytes.ofText := rfl
  obtain ⟨found, foundAscending, _, spelled, _⟩ := ascending table (textual _ _ _ loaded)
  obtain rfl : texts = found :=
    List.map_injective_iff.mpr (fun _ _ => Bytes.ofText_inj.mp) (keys.symm.trans spelled)
  have leftValid : Utf8.Valid (Bytes.ofText "￮") := by decide
  have rightValid : Utf8.Valid (Bytes.ofText "😀") := by decide
  obtain ⟨left, right, isLeft, isRight, agree⟩ := compared _ _ leftValid rightValid
  obtain rfl := (isLeft "￮").mp rfl
  obtain rfl := (isRight "😀").mp rfl
  exact ⟨table, loaded, textual _ _ _ loaded, keys, foundAscending, leftValid, rightValid,
    agree⟩

end Table
end Collate
