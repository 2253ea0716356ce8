import Collate.Entries
import Collate.Proofs.FieldRuns
import Collate.Proofs.Lines
import Collate.Proofs.WellFormedText
import Mathlib.Data.List.Induction

/-!
# What reading a body yields

A body is accepted when each of its lines is sound: it is text, and it has no
field or two. Then the entries map a key to the value on the last line that
holds it. Otherwise the first line that is not sound decides, and what follows
it does not matter.

All of this rests on one fact about the loop over lines: it passes sound lines
one by one, putting in the pairs that they hold, and stands after them where it
would have begun with those entries.
-/

namespace Collate
namespace Entries

open Collate.Stream (IsLine linesOf)

/-! ## Lines -/

/-- A line that may stand in a result file. -/
def Sound (line : Bytes) : Prop :=
  (∃ text : String, line = Bytes.ofText text) ∧
    ∃ fields, Fields.Division Fields.isBlank line fields ∧
      (fields.length = 0 ∨ fields.length = 2)

/-- The key and the value of a line with two fields. -/
def pair? (line : Bytes) : Option (Bytes × Bytes) :=
  match Fields.ofBytes line with
  | [key, value] => some (key, value)
  | _ => none

theorem pair?_eq_some_iff {line key value : Bytes} :
    pair? line = some (key, value) ↔
      Fields.Division Fields.isBlank line [key, value] := by
  rw [Fields.division_iff_of_eq]
  change pair? line = some (key, value) ↔ Fields.ofBytes line = [key, value]
  unfold pair?
  split
  · rename_i first second fields
    simp [fields]
  · rename_i notTwo
    simp only [reduceCtorEq, false_iff]
    exact notTwo key value

theorem sound_iff {line : Bytes} :
    Sound line ↔
      Utf8.Valid line ∧
        ((Fields.ofBytes line).length = 0 ∨ (Fields.ofBytes line).length = 2) := by
  rw [Sound, Utf8.valid_iff_exists_text]
  apply and_congr_right
  intro _
  constructor
  · rintro ⟨fields, division, count⟩
    have computed : Fields.ofBytes line = fields :=
      Fields.division_iff_of_eq.mp division
    rwa [computed]
  · intro count
    exact ⟨_, Fields.division_iff_of_eq.mpr rfl, count⟩

theorem ofLine_of_sound {line : Bytes} (sound : Sound line) :
    ofLine line = .ok (pair? line) := by
  obtain ⟨valid, count⟩ := sound_iff.mp sound
  rw [ofLine, if_pos valid, pair?]
  match fields : Fields.ofBytes line with
  | [] => rfl
  | [_] => simp [fields] at count
  | [_, _] => rfl
  | _ :: _ :: _ :: _ => simp [fields] at count

theorem ofLine_of_not_text
    {line : Bytes}
    (notText : ¬∃ text : String, line = Bytes.ofText text) :
    ofLine line = .error .notText := by
  rw [← Utf8.valid_iff_exists_text] at notText
  rw [ofLine, if_neg notText]

theorem ofLine_of_field_count
    {line : Bytes}
    {fields : List Bytes}
    (isText : ∃ text : String, line = Bytes.ofText text)
    (division : Fields.Division Fields.isBlank line fields)
    (notNone : fields.length ≠ 0)
    (notTwo : fields.length ≠ 2) :
    ofLine line = .error (.fieldCount fields.length) := by
  have computed : Fields.ofBytes line = fields :=
    Fields.division_iff_of_eq.mp division
  rw [ofLine, if_pos (Utf8.valid_iff_exists_text.mpr isText), computed]
  match fields with
  | [] => exact absurd rfl notNone
  | [_] => rfl
  | [_, _] => exact absurd rfl notTwo
  | _ :: _ :: _ :: _ => rfl

/-- The fault of a line that is not sound. Text comes first: the fields of a line
that is no text are not counted. -/
theorem ofLine_of_unsound {line : Bytes} (unsound : ¬Sound line) :
    (¬∃ text : String, line = Bytes.ofText text) ∧ ofLine line = .error .notText ∨
      (∃ text : String, line = Bytes.ofText text) ∧
        ∃ fields, Fields.Division Fields.isBlank line fields ∧
          (fields.length = 1 ∨ 3 ≤ fields.length) ∧
          ofLine line = .error (.fieldCount fields.length) := by
  by_cases isText : ∃ text : String, line = Bytes.ofText text
  · right
    obtain ⟨fields, division⟩ := Fields.exists_division Fields.isBlank line
    have uncounted : ¬(fields.length = 0 ∨ fields.length = 2) := by
      intro count
      exact unsound ⟨isText, fields, division, count⟩
    refine ⟨isText, fields, division, by omega, ?_⟩
    exact ofLine_of_field_count isText division (by omega) (by omega)
  · exact .inl ⟨isText, ofLine_of_not_text isText⟩

theorem exists_fault_of_unsound {line : Bytes} (unsound : ¬Sound line) :
    ∃ fault, ofLine line = .error fault := by
  rcases ofLine_of_unsound unsound with ⟨_, faulty⟩ | ⟨_, _, _, _, faulty⟩
  · exact ⟨_, faulty⟩
  · exact ⟨_, faulty⟩

/-! ## The loop over lines -/

/-- The loop passes sound lines and keeps the pairs that they hold. -/
theorem addLines_append_of_sound
    (path : Bytes)
    (number : Nat)
    (entries : Entries)
    {lines : List Bytes}
    (sound : ∀ line ∈ lines, Sound line)
    (rest : List Bytes) :
    addLines path number entries (lines ++ rest) =
      addLines path (number + lines.length)
        (entries.insertAll (lines.filterMap pair?)) rest := by
  induction lines generalizing number entries with
  | nil => rfl
  | cons line lines hypothesis =>
      have lineTaken := ofLine_of_sound (sound line List.mem_cons_self)
      have othersSound : ∀ other ∈ lines, Sound other := by
        intro other member
        exact sound other (List.mem_cons_of_mem line member)
      rw [List.cons_append, addLines, lineTaken, List.length_cons]
      cases held : pair? line with
      | none =>
          rw [List.filterMap_cons_none held]
          dsimp only
          rw [hypothesis _ _ othersSound, Nat.add_right_comm, Nat.add_assoc]
      | some pair =>
          rw [List.filterMap_cons_some held]
          dsimp only
          rw [hypothesis _ _ othersSound, Nat.add_right_comm, Nat.add_assoc]
          rfl

/-- Lines are all sound, or some line is the first that is not. -/
theorem all_sound_or_first_unsound (lines : List Bytes) :
    (∀ line ∈ lines, Sound line) ∨
      ∃ before line after, lines = before ++ line :: after ∧
        (∀ other ∈ before, Sound other) ∧ ¬Sound line := by
  induction lines with
  | nil => simp
  | cons line lines hypothesis =>
      by_cases sound : Sound line
      · rcases hypothesis with allSound | ⟨before, first, after, rfl, beforeSound, unsound⟩
        · exact .inl (List.forall_mem_cons.mpr ⟨sound, allSound⟩)
        · exact .inr ⟨line :: before, first, after, rfl,
            List.forall_mem_cons.mpr ⟨sound, beforeSound⟩, unsound⟩
      · exact .inr ⟨[], line, lines, rfl, by simp, sound⟩

/-- A body of sound lines yields the pairs that they hold. -/
theorem ofStream_of_sound
    (path : Bytes)
    {body : Bytes}
    (sound : ∀ line ∈ linesOf body, Sound line) :
    ofStream path { body } = .ok (ofPairs ((linesOf body).filterMap pair?)) := by
  have passed := addLines_append_of_sound path 1 ∅ sound []
  rw [List.append_nil] at passed
  rw [ofStream, Stream.lines, passed]
  rfl

/-- The first line with a fault decides, whatever comes after it. -/
theorem ofStream_of_fault
    (path : Bytes)
    {body line : Bytes}
    {before after : List Bytes}
    {fault : LineFault}
    (split : linesOf body = before ++ line :: after)
    (sound : ∀ other ∈ before, Sound other)
    (faulty : ofLine line = .error fault) :
    ofStream path { body } = .error (fault.toError path (before.length + 1)) := by
  have passed := addLines_append_of_sound path 1 ∅ sound (line :: after)
  rw [addLines, faulty, Nat.add_comm] at passed
  rw [ofStream, Stream.lines, split, passed]

/-- Reading succeeds exactly on sound lines, with the pairs that they hold. -/
theorem ofStream_eq_ok_iff
    {path body : Bytes}
    {entries : Entries} :
    ofStream path { body } = .ok entries ↔
      (∀ line ∈ linesOf body, Sound line) ∧
        entries = ofPairs ((linesOf body).filterMap pair?) := by
  rcases all_sound_or_first_unsound (linesOf body) with
    allSound | ⟨before, line, after, split, sound, unsound⟩
  · rw [ofStream_of_sound path allSound, Except.ok.injEq, eq_comm]
    exact (and_iff_right allSound).symm
  · obtain ⟨fault, faulty⟩ := exists_fault_of_unsound unsound
    rw [ofStream_of_fault path split sound faulty]
    constructor
    · intro impossible
      cases impossible
    · rintro ⟨allSound, _⟩
      exact absurd (allSound line (by simp [split])) unsound

/-! ## The last value counts -/

@[simp] theorem ofPairs_nil : ofPairs [] = ∅ := rfl

theorem ofPairs_append_singleton (pairs : List (Bytes × Bytes)) (key value : Bytes) :
    ofPairs (pairs ++ [(key, value)]) = (ofPairs pairs).insert key value := by
  simp [ofPairs, insertAll]

theorem mem_ofPairs_iff {pairs : List (Bytes × Bytes)} {key : Bytes} :
    key ∈ ofPairs pairs ↔ ∃ value, (key, value) ∈ pairs := by
  induction pairs using List.reverseRecOn with
  | nil => simp
  | append_singleton pairs last hypothesis =>
      obtain ⟨lastKey, lastValue⟩ := last
      rw [ofPairs_append_singleton, Std.ExtTreeMap.mem_insert, hypothesis,
        Std.LawfulEqCmp.compare_eq_iff_eq]
      grind

/-- An item of a list with a last one added is that one or stood there before. -/
theorem append_singleton_eq_split_iff
    {items before after : List α}
    {last item : α} :
    items ++ [last] = before ++ item :: after ↔
      items = before ∧ last = item ∧ after = [] ∨
        ∃ prior, items = before ++ item :: prior ∧ after = prior ++ [last] := by
  rcases List.eq_nil_or_concat after with rfl | ⟨prior, final, rfl⟩
  · simp
  · have regrouped : before ++ item :: (prior ++ [final]) =
        (before ++ item :: prior) ++ [final] := by simp
    rw [List.concat_eq_append, regrouped, List.append_singleton_inj]
    constructor
    · rintro ⟨itemsSplit, rfl⟩
      exact .inr ⟨prior, itemsSplit, rfl⟩
    · rintro (⟨_, _, empty⟩ | ⟨other, itemsSplit, ends⟩)
      · simp at empty
      · obtain ⟨rfl, rfl⟩ := List.append_singleton_inj.mp ends
        exact ⟨itemsSplit, rfl⟩

/-- A key has the value of the last pair that holds it. -/
theorem getElem?_ofPairs_eq_some_iff
    {pairs : List (Bytes × Bytes)}
    {key value : Bytes} :
    (ofPairs pairs)[key]? = some value ↔
      ∃ before after, pairs = before ++ (key, value) :: after ∧
        ∀ other, (key, other) ∉ after := by
  induction pairs using List.reverseRecOn with
  | nil => simp
  | append_singleton pairs last hypothesis =>
      obtain ⟨lastKey, lastValue⟩ := last
      rw [ofPairs_append_singleton, Std.ExtTreeMap.getElem?_insert]
      simp only [append_singleton_eq_split_iff]
      by_cases same : lastKey = key
      · subst lastKey
        rw [if_pos Std.ReflCmp.compare_self, Option.some.injEq]
        constructor
        · rintro rfl
          exact ⟨pairs, [], .inl ⟨rfl, rfl, rfl⟩, by simp⟩
        · rintro ⟨before, after, ⟨_, equal, _⟩ | ⟨prior, _, rfl⟩, absent⟩
          · exact (Prod.mk.inj equal).2
          · exact absurd (by simp) (absent lastValue)
      · rw [if_neg (by simpa using same), hypothesis]
        constructor
        · rintro ⟨before, prior, rfl, absent⟩
          refine ⟨before, prior ++ [(lastKey, lastValue)], .inr ⟨prior, rfl, rfl⟩, ?_⟩
          intro other
          simp [absent other, Ne.symm same]
        · rintro ⟨before, after, ⟨_, equal, _⟩ | ⟨prior, split, rfl⟩, absent⟩
          · exact absurd (Prod.mk.inj equal).1 same
          · refine ⟨before, prior, split, ?_⟩
            intro other member
            exact absent other (List.mem_append_left _ member)

/-! ## Pairs by their place -/

/-- A line at an index of a body has these two fields. -/
def PairAt (body : Bytes) (index : Nat) (key value : Bytes) : Prop :=
  ∃ line, IsLine body index line ∧
    Fields.Division Fields.isBlank line [key, value]

/-- Some line of a body has two fields, and the key is the first. -/
def Mentions (body key : Bytes) : Prop :=
  ∃ index value, PairAt body index key value

/-- A line of a body has these two fields, and no later line with two fields has
the same first one. -/
def LastPair (body key value : Bytes) : Prop :=
  ∃ index, PairAt body index key value ∧
    ∀ later other, index < later -> ¬PairAt body later key other

theorem pairAt_iff
    {body key value : Bytes}
    {index : Nat} :
    PairAt body index key value ↔
      ∃ line, IsLine body index line ∧ pair? line = some (key, value) := by
  simp only [PairAt, pair?_eq_some_iff]

theorem mentions_iff {body key : Bytes} :
    Mentions body key ↔ ∃ value, (key, value) ∈ (linesOf body).filterMap pair? := by
  simp only [Mentions, pairAt_iff, List.mem_filterMap, Stream.mem_linesOf_iff]
  constructor
  · rintro ⟨index, value, line, isLine, held⟩
    exact ⟨value, line, ⟨index, isLine⟩, held⟩
  · rintro ⟨value, line, ⟨index, isLine⟩, held⟩
    exact ⟨index, value, line, isLine, held⟩

/-- The last pair of a key is the one that no later pair of that key follows. -/
theorem lastPair_iff {body key value : Bytes} :
    LastPair body key value ↔
      ∃ before after, (linesOf body).filterMap pair? = before ++ (key, value) :: after ∧
        ∀ other, (key, other) ∉ after := by
  constructor
  · rintro ⟨index, pairAt, last⟩
    obtain ⟨line, isLine, held⟩ := pairAt_iff.mp pairAt
    obtain ⟨before, after, split, rfl⟩ := Stream.isLine_iff_split.mp isLine
    refine ⟨before.filterMap pair?, after.filterMap pair?, ?_, ?_⟩
    · rw [split, List.filterMap_append, List.filterMap_cons_some held]
    · intro other member
      obtain ⟨laterLine, present, laterHeld⟩ := List.mem_filterMap.mp member
      obtain ⟨between, following, rfl⟩ := List.append_of_mem present
      apply last (before.length + 1 + between.length) other (by omega)
      refine pairAt_iff.mpr ⟨laterLine, Stream.isLine_iff_split.mpr ?_, laterHeld⟩
      refine ⟨before ++ line :: between, following, by simp [split], ?_⟩
      rw [List.length_append, List.length_cons]
      omega
  · rintro ⟨before, after, split, absent⟩
    obtain ⟨front, back, lines, _, backPairs⟩ := List.filterMap_eq_append_iff.mp split
    obtain ⟨skipped, line, rest, rfl, _, held, rfl⟩ :=
      List.filterMap_eq_cons_iff.mp backPairs
    refine ⟨(front ++ skipped).length, pairAt_iff.mpr ⟨line, ?_, held⟩, ?_⟩
    · exact Stream.isLine_iff_split.mpr ⟨front ++ skipped, rest, by simp [lines], rfl⟩
    · intro later other after laterPair
      obtain ⟨laterLine, isLine, laterHeld⟩ := pairAt_iff.mp laterPair
      -- A line at a later index stands among the lines that follow.
      have present : laterLine ∈ rest := by
        rw [Stream.isLine_iff_getElem?, lines, ← List.append_assoc,
          List.getElem?_append_right (by omega), List.getElem?_cons,
          if_neg (by omega)] at isLine
        exact List.mem_of_getElem? isLine
      exact absent other (List.mem_filterMap.mpr ⟨laterLine, present, laterHeld⟩)

/-! ## The grammar and the map -/

theorem exists_ok_iff_sound {path body : Bytes} :
    (∃ entries, ofStream path { body } = .ok entries) ↔
      ∀ index line, IsLine body index line -> Sound line := by
  simp only [ofStream_eq_ok_iff, exists_and_left, exists_eq, and_true,
    Stream.mem_linesOf_iff, forall_exists_index]
  exact forall_comm

theorem getElem?_eq_some_iff_lastPair
    {path body key value : Bytes}
    {entries : Entries}
    (accepted : ofStream path { body } = .ok entries) :
    entries[key]? = some value ↔ LastPair body key value := by
  obtain ⟨_, rfl⟩ := ofStream_eq_ok_iff.mp accepted
  rw [getElem?_ofPairs_eq_some_iff, lastPair_iff]

theorem mem_iff_mentions
    {path body key : Bytes}
    {entries : Entries}
    (accepted : ofStream path { body } = .ok entries) :
    key ∈ entries ↔ Mentions body key := by
  obtain ⟨_, rfl⟩ := ofStream_eq_ok_iff.mp accepted
  rw [mem_ofPairs_iff, mentions_iff]

/-- So many different keys stand first on lines of a body with two fields. -/
def KeyCount (body : Bytes) (count : Nat) : Prop :=
  ∃ keys : List Bytes, keys.Nodup ∧
    (∀ key, key ∈ keys ↔ Mentions body key) ∧ count = keys.length

theorem keyCount_size
    {path body : Bytes}
    {entries : Entries}
    (accepted : ofStream path { body } = .ok entries) :
    KeyCount body entries.size := by
  refine ⟨entries.keys, Std.ExtTreeMap.nodup_keys, ?_, Std.ExtTreeMap.length_keys.symm⟩
  intro key
  rw [Std.ExtTreeMap.mem_keys, mem_iff_mentions accepted]

/-- A body is accepted exactly when all its lines are sound. Then a key has the
value of its last pair, and there are as many entries as different keys. -/
theorem ofStream_accepts_sound_lines_and_keeps_last_values (path body : Bytes) :
    (∀ octet, Fields.isBlank octet = true ↔
      octet ∈ ([0x20, 0x09, 0x0A, 0x0D, 0x0C] : Bytes)) ∧
    ((∃ entries, ofStream path { body } = .ok entries) ↔
      ∀ index line, IsLine body index line -> Sound line) ∧
    ∀ entries, ofStream path { body } = .ok entries ->
      (∀ key value, entries[key]? = some value ↔ LastPair body key value) ∧
        ∃ keys : List Bytes, keys.Nodup ∧
          (∀ key, key ∈ keys ↔ Mentions body key) ∧ entries.size = keys.length := by
  refine ⟨fun octet => Fields.isBlank_iff, exists_ok_iff_sound, ?_⟩
  intro entries accepted
  exact ⟨fun key value => getElem?_eq_some_iff_lastPair accepted, keyCount_size accepted⟩

/-- A blank line, a repeated key, several kinds of blanks, a space that is none,
and no line feed at the end. -/
theorem repeated_key_keeps_last_value :
    let body := Bytes.ofText "x 1\n\n \tx\x0c2\r\na\xa0b v"
    let pairs :=
      [(Bytes.ofText "x", Bytes.ofText "1"), (Bytes.ofText "x", Bytes.ofText "2"),
        (Bytes.ofText "a\xa0b", Bytes.ofText "v")]
    ofStream [] { body } = .ok (ofPairs pairs) ∧
      LastPair body (Bytes.ofText "x") (Bytes.ofText "2") := by
  intro body pairs
  have accepted : ofStream [] { body } = .ok (ofPairs pairs) := rfl
  have keeps :=
    ((ofStream_accepts_sound_lines_and_keeps_last_values [] body).2.2 _ accepted).1
  exact ⟨accepted, (keeps _ _).mp rfl⟩

/-! ## The first problem -/

theorem sound_of_earlier
    {body : Bytes}
    {before after : List Bytes}
    {line : Bytes}
    (split : linesOf body = before ++ line :: after)
    (sound : ∀ other ∈ before, Sound other)
    {earlier : Nat}
    {other : Bytes}
    (isEarlier : earlier < before.length)
    (isLine : IsLine body earlier other) :
    Sound other := by
  rw [Stream.isLine_iff_getElem?, split, List.getElem?_append_left isEarlier] at isLine
  exact sound other (List.mem_of_getElem? isLine)

/-- Lines that agree up to an index begin alike. -/
theorem exists_split_of_same_start
    {body other line : Bytes}
    {before after : List Bytes}
    (split : linesOf body = before ++ line :: after)
    (same : ∀ earlier shared, earlier ≤ before.length ->
      IsLine body earlier shared -> IsLine other earlier shared) :
    ∃ rest, linesOf other = before ++ line :: rest := by
  have front : before ++ [line] <+: linesOf other := by
    rw [List.prefix_iff_getElem?]
    intro earlier bound
    rw [List.length_append, List.length_singleton] at bound
    apply (Stream.isLine_iff_getElem? _ _ _).mp
    apply same earlier _ (by omega)
    apply (Stream.isLine_iff_getElem? _ _ _).mpr
    rw [split, List.append_cons, List.getElem?_append_left (by simpa using bound)]
    exact List.getElem?_eq_getElem _
  obtain ⟨rest, whole⟩ := front
  exact ⟨rest, by rw [← whole, List.append_assoc, List.singleton_append]⟩

/-- The first line that is not sound decides which error is told: that it is no
text, or else its number and how many fields it has. Only the lines up to it
matter. -/
theorem ofStream_error_tells_first_unsound_line
    (path body : Bytes)
    (error : ReadError)
    (failed : ofStream path { body } = .error error) :
    ∃ index line,
      IsLine body index line ∧ ¬Sound line ∧
      (∀ earlier other, earlier < index -> IsLine body earlier other -> Sound other) ∧
      ((¬∃ text : String, line = Bytes.ofText text) ∧
          error = .unreadable path
            ⟨.invalidData, Bytes.ofText "stream did not contain valid UTF-8"⟩ ∨
        (∃ text : String, line = Bytes.ofText text) ∧
          ∃ fields, Fields.Division Fields.isBlank line fields ∧
            (fields.length = 1 ∨ 3 ≤ fields.length) ∧
            error = .malformed path (index + 1) fields.length) ∧
      ∀ other : Bytes,
        (∀ earlier shared, earlier ≤ index ->
          IsLine body earlier shared -> IsLine other earlier shared) ->
        ofStream path { body := other } = .error error := by
  rcases all_sound_or_first_unsound (linesOf body) with
    allSound | ⟨before, line, after, split, sound, unsound⟩
  · rw [ofStream_of_sound path allSound] at failed
    cases failed
  · obtain ⟨fault, faulty⟩ := exists_fault_of_unsound unsound
    rw [ofStream_of_fault path split sound faulty] at failed
    cases failed
    refine ⟨before.length, line,
      Stream.isLine_iff_split.mpr ⟨before, after, split, rfl⟩, unsound,
      fun _ _ => sound_of_earlier split sound, ?_, ?_⟩
    · rcases ofLine_of_unsound unsound with
        ⟨notText, other⟩ | ⟨isText, fields, division, count, other⟩
      · cases faulty.symm.trans other
        exact .inl ⟨notText, rfl⟩
      · cases faulty.symm.trans other
        exact .inr ⟨isText, fields, division, count, rfl⟩
    · intro other same
      obtain ⟨rest, otherSplit⟩ := exists_split_of_same_start split same
      exact ofStream_of_fault path otherSplit sound faulty

/-- The third line has one field; the fourth, which is no text, is not reached. -/
theorem short_line_hides_ill_formed_one :
    let body := Bytes.ofText "ok 1\n\nonly\n" ++ [0xFF, 0x20, 0x31]
    ofStream [] { body } = .error (.malformed [] 3 1) ∧
      ∃ line, IsLine body 2 line ∧ ¬Sound line ∧
        ∃ fields, Fields.Division Fields.isBlank line fields ∧ fields.length = 1 := by
  intro body
  have failed : ofStream [] { body } = .error (.malformed [] 3 1) := rfl
  obtain ⟨index, line, isLine, unsound, _, told, _⟩ :=
    ofStream_error_tells_first_unsound_line [] body _ failed
  rcases told with ⟨_, unreadable⟩ | ⟨_, fields, division, _, malformed⟩
  · cases unreadable
  · obtain ⟨_, number, count⟩ := ReadError.malformed.inj malformed
    cases Nat.succ.inj number
    exact ⟨failed, line, isLine, unsound, fields, division, count.symm⟩

end Entries
end Collate
