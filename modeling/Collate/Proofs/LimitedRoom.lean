import Collate.Sink

/-!
# Tables written with limited room

A table is written in many small pieces, and the room of a sink may end in the
middle of a piece, between two pieces, or just where the last one does. None of
this shows in what arrives: pouring two pieces one after the other is pouring both
as one, whether they fit, or the second is cut, or the first is. A table is
therefore taken as its whole text would be taken in one piece, and what arrives is
the text as far as the room goes.

A buffer does not show either. What it holds back goes before whatever comes later,
so once it is flushed the sink has been given the same octets in the same order.
Only the failure for an idle sink differs, and a sink that tells its own cause is
never idle.
-/

namespace Collate
namespace Sink

/-! ## One piece -/

variable {sink : Sink} {octets : Bytes} {room : Nat} {idle : Failure}

@[simp] theorem after_nil (sink : Sink) : sink.after [] = sink := by
  obtain ⟨room, cause, written⟩ := sink
  cases room <;> simp [after]

theorem after_append (sink : Sink) (first second : Bytes) :
    (sink.after first).after second = sink.after (first ++ second) := by
  obtain ⟨room, cause, written⟩ := sink
  cases room <;> simp [after, Nat.sub_sub]

/-- There is room for octets, or no limit. -/
def Fits (sink : Sink) (octets : Bytes) : Prop :=
  ∀ room, sink.room = some room -> octets.length ≤ room

theorem fits_or_exceeds (sink : Sink) (octets : Bytes) :
    sink.Fits octets ∨ ∃ room, sink.room = some room ∧ room < octets.length := by
  simp only [Fits, ← Nat.not_lt]
  by_cases exceeds : ∃ room, sink.room = some room ∧ room < octets.length
  · exact .inr exceeds
  · exact .inl fun room limited beyond => exceeds ⟨room, limited, beyond⟩

@[simp] theorem pour_nil (idle : Failure) (sink : Sink) :
    sink.pour idle [] = .ok sink := by
  rw [pour]

/-- If some octets fit, those are taken, and the others are poured after them. -/
theorem pour_of_fitting (someFit : sink.fitting octets ≠ []) :
    sink.pour idle octets =
      (sink.after (sink.fitting octets)).pour idle
        (octets.drop (sink.fitting octets).length) := by
  obtain ⟨first, others, taken⟩ := List.exists_cons_of_ne_nil someFit
  have wrote : sink.write octets =
      .ok ((sink.fitting octets).length, sink.after (sink.fitting octets)) := by
    unfold write
    split
    case h_1 roomless _ => simp [fitting, roomless] at someFit
    case h_2 => rfl
  cases octets with
  | nil => cases limit : sink.room <;> simp [fitting, limit] at someFit
  | cons octet rest =>
      rw [pour, wrote, taken, List.length_cons]
      rfl

/-- Octets that fit are all taken. -/
theorem pour_of_fits (fits : sink.Fits octets) :
    sink.pour idle octets = .ok (sink.after octets) := by
  have whole : sink.fitting octets = octets := by
    cases limit : sink.room with
    | none => simp only [fitting, limit]
    | some room => simp only [fitting, limit, List.take_of_length_le (fits room limit)]
  cases octets with
  | nil => rw [pour_nil, after_nil]
  | cons octet rest =>
      have someFit : sink.fitting (octet :: rest) ≠ [] := by
        rw [whole]
        exact List.cons_ne_nil octet rest
      rw [pour_of_fitting someFit, whole, List.drop_length, pour_nil]

/-- Without room nothing is taken, and the failure is the sink's own if it has one. -/
theorem pour_of_roomless
    (roomless : sink.room = some 0)
    (filled : octets ≠ []) :
    sink.pour idle octets = .error ⟨sink.cause.getD idle, sink.written⟩ := by
  obtain ⟨octet, rest, rfl⟩ := List.exists_cons_of_ne_nil filled
  rw [pour]
  cases told : sink.cause with
  | none =>
      have idled : sink.write (octet :: rest) = .ok (0, sink) := by
        simp [write, fitting, roomless, told]
      simp [idled]
  | some failure =>
      have failed : sink.write (octet :: rest) = .error failure := by
        simp [write, roomless, told]
      simp [failed]

/-- Of octets that exceed the room, those that fit are taken. -/
theorem pour_of_lt
    (limited : sink.room = some room)
    (exceeds : room < octets.length) :
    sink.pour idle octets =
      .error ⟨sink.cause.getD idle, sink.written ++ octets.take room⟩ := by
  rcases Nat.eq_zero_or_pos room with rfl | positive
  · have filled : octets ≠ [] := List.ne_nil_of_length_pos exceeds
    rw [pour_of_roomless limited filled, List.take_zero, List.append_nil]
  · have taken : sink.fitting octets = octets.take room := by
      simp only [fitting, limited]
    have length : (octets.take room).length = room :=
      List.length_take_of_le (Nat.le_of_lt exceeds)
    have someFit : sink.fitting octets ≠ [] := by
      rw [taken]
      exact List.ne_nil_of_length_pos (length.symm ▸ positive)
    have roomless : (sink.after (octets.take room)).room = some 0 := by
      simp [after, limited, length]
    have left : octets.drop room ≠ [] := by
      simpa using exceeds
    rw [pour_of_fitting someFit, taken, length, pour_of_roomless roomless left]
    rfl

/-! ## Pieces run together -/

/-- Two pieces poured one after the other are taken like one. -/
theorem pour_append
    (idle : Failure)
    (sink : Sink)
    (first second : Bytes) :
    sink.pour idle (first ++ second) =
      (sink.pour idle first).bind (·.pour idle second) := by
  have length : (first ++ second).length = first.length + second.length :=
    List.length_append
  rcases sink.fits_or_exceeds first with fits | ⟨room, limited, exceeds⟩
  · rw [pour_of_fits fits]
    change _ = (sink.after first).pour idle second
    rcases (sink.after first).fits_or_exceeds second with restFits | ⟨left, remaining, cut⟩
    · have together : sink.Fits (first ++ second) := by
        intro room limited
        have firstFits := fits room limited
        have secondFits := restFits (room - first.length) (by simp [after, limited])
        omega
      rw [pour_of_fits together, pour_of_fits restFits, after_append]
    · obtain ⟨room, limited, rfl⟩ := Option.map_eq_some_iff.mp remaining
      have firstFits := fits room limited
      have together : room < (first ++ second).length := by omega
      rw [pour_of_lt limited together, pour_of_lt remaining cut, List.take_append,
        List.take_of_length_le firstFits, ← List.append_assoc]
      rfl
  · -- The room ends inside the first piece, and the second is not reached.
    have together : room < (first ++ second).length := by omega
    rw [pour_of_lt limited exceeds, pour_of_lt limited together,
      List.take_append_of_le_length (Nat.le_of_lt exceeds)]
    rfl

/-- Pieces written in order are taken like all of them run together. -/
theorem foldlM_writeAll
    (sink : Sink)
    (pieces : List Bytes) :
    pieces.foldlM writeAll sink = sink.writeAll pieces.flatten := by
  induction pieces generalizing sink with
  | nil => exact (pour_nil .nothingTaken sink).symm
  | cons piece rest hypothesis =>
      have joined : sink.writeAll (piece ++ rest.flatten) =
          (sink.writeAll piece).bind (·.writeAll rest.flatten) :=
        pour_append .nothingTaken sink piece rest.flatten
      rw [List.foldlM_cons, List.flatten_cons, joined]
      cases sink.writeAll piece with
      | error error => rfl
      | ok next => exact hypothesis next

/-! ## Pieces held back -/

/-- A sink that cannot be idle, because it has no limit or tells a cause. -/
def TellsCause (sink : Sink) : Prop :=
  sink.room = none ∨ sink.cause.isSome

theorem TellsCause.after (tells : sink.TellsCause) (taken : Bytes) :
    (sink.after taken).TellsCause := by
  rcases tells with unlimited | told
  · exact .inl (by simp [Sink.after, unlimited])
  · exact .inr told

/-- What succeeds has taken all octets. -/
theorem eq_of_map_pour
    {build : Sink -> α}
    {next : α}
    (poured : (sink.pour idle octets).map build = .ok next) :
    next = build (sink.after octets) := by
  rcases sink.fits_or_exceeds octets with fits | ⟨room, limited, exceeds⟩
  · rw [pour_of_fits fits] at poured
    exact (Except.ok.inj poured).symm
  · rw [pour_of_lt limited exceeds] at poured
    cases poured

/-- Which failure stands for an idle sink makes no difference. -/
theorem TellsCause.pour_eq
    (tells : sink.TellsCause)
    (idle other : Failure)
    (octets : Bytes) :
    sink.pour idle octets = sink.pour other octets := by
  rcases sink.fits_or_exceeds octets with fits | ⟨room, limited, exceeds⟩
  · rw [pour_of_fits fits, pour_of_fits fits]
  · rcases tells with unlimited | told
    · rw [limited] at unlimited
      cases unlimited
    · obtain ⟨failure, given⟩ := Option.isSome_iff_exists.mp told
      rw [pour_of_lt limited exceeds, pour_of_lt limited exceeds, given]
      rfl

end Sink

namespace Buffer

variable {buffer : Buffer}

/-- The sink once the buffer is written out, with later octets behind what it holds. -/
def emptied (buffer : Buffer) (later : Bytes) : Except WriteError Sink :=
  buffer.sink.pour .heldBack (buffer.held ++ later)

theorem flush_bind_emptied (buffer : Buffer) (later : Bytes) :
    buffer.flush.bind (·.emptied later) = buffer.emptied later := by
  rw [flush, emptied, Sink.pour_append]
  cases buffer.sink.pour .heldBack buffer.held <;> rfl

theorem flush_bind_written (buffer : Buffer) :
    (buffer.flush.bind fun flushed => .ok flushed.sink.written) =
      (buffer.emptied []).map Sink.written := by
  rw [flush, emptied, List.append_nil]
  cases buffer.sink.pour .heldBack buffer.held <;> rfl

theorem flush_eq_ok
    {flushed : Buffer}
    (tells : buffer.sink.TellsCause)
    (succeeded : buffer.flush = .ok flushed) :
    flushed.held = [] ∧ flushed.sink.TellsCause := by
  obtain rfl := Sink.eq_of_map_pour succeeded
  exact ⟨rfl, tells.after buffer.held⟩

theorem tellsCause_of_take
    {piece : Bytes}
    {next : Buffer}
    (tells : buffer.sink.TellsCause)
    (taken : buffer.take piece = .ok next) :
    next.sink.TellsCause := by
  unfold take at taken
  split at taken
  case isTrue =>
      obtain rfl := Sink.eq_of_map_pour taken
      exact tells.after piece
  case isFalse =>
      cases taken
      exact tells

/-- A piece may go to the sink at once if nothing is held back. -/
theorem take_bind_emptied
    {piece : Bytes}
    (tells : buffer.sink.TellsCause)
    (ahead : capacity ≤ piece.length -> buffer.held = [])
    (later : Bytes) :
    (buffer.take piece).bind (·.emptied later) = buffer.emptied (piece ++ later) := by
  unfold take
  split
  case isTrue large =>
      rw [emptied, ahead large, List.nil_append, Sink.pour_append, Sink.writeAll,
        tells.pour_eq .nothingTaken .heldBack]
      cases buffer.sink.pour .heldBack piece <;> rfl
  case isFalse =>
      change Sink.pour _ _ _ = _
      rw [emptied, List.append_assoc]

/-- One piece: once written out, it stands between what was held back and what comes
later. -/
theorem writeAll_bind_emptied
    (tells : buffer.sink.TellsCause)
    (piece later : Bytes) :
    (buffer.writeAll piece).bind (·.emptied later) = buffer.emptied (piece ++ later) := by
  unfold writeAll
  split
  case isTrue =>
      rw [← flush_bind_emptied]
      cases flushed : buffer.flush with
      | error error => rfl
      | ok ready =>
          obtain ⟨empty, tellsAfter⟩ := flush_eq_ok tells flushed
          exact take_bind_emptied tellsAfter (fun _ => empty) later
  case isFalse roomy =>
      apply take_bind_emptied tells
      -- A piece as large as the buffer has enough space behind nothing only.
      intro large
      rw [← List.length_eq_zero_iff]
      have positive : 0 < capacity := by decide
      omega

theorem tellsCause_of_writeAll
    {piece : Bytes}
    {next : Buffer}
    (tells : buffer.sink.TellsCause)
    (wrote : buffer.writeAll piece = .ok next) :
    next.sink.TellsCause := by
  unfold writeAll at wrote
  split at wrote
  case isTrue =>
      cases flushed : buffer.flush with
      | error error =>
          rw [flushed] at wrote
          cases wrote
      | ok ready =>
          rw [flushed] at wrote
          exact tellsCause_of_take (flush_eq_ok tells flushed).2 wrote
  case isFalse => exact tellsCause_of_take tells wrote

/-- All pieces: once written out, they stand in order behind what was held back. -/
theorem foldlM_writeAll_bind_emptied
    (tells : buffer.sink.TellsCause)
    (pieces : List Bytes) :
    (pieces.foldlM writeAll buffer).bind (·.emptied []) = buffer.emptied pieces.flatten := by
  induction pieces generalizing buffer with
  | nil => rfl
  | cons piece rest hypothesis =>
      rw [List.flatten_cons, ← writeAll_bind_emptied tells, List.foldlM_cons]
      cases wrote : buffer.writeAll piece with
      | error error => rfl
      | ok next => exact hypothesis (tellsCause_of_writeAll tells wrote)

end Buffer

namespace Table

theorem writeTo_eq (table : Table) (sink : Sink) :
    table.writeTo sink = (sink.writeAll table.render).map Sink.written := by
  rw [writeTo, writeWith, Sink.foldlM_writeAll]
  rfl

theorem writeTo_of_fits
    {table : Table}
    {sink : Sink}
    (fits : sink.Fits table.render) :
    table.writeTo sink = .ok (sink.written ++ table.render) := by
  rw [writeTo_eq, Sink.writeAll, Sink.pour_of_fits fits]
  rfl

theorem writeTo_of_unlimited
    {sink : Sink}
    (unlimited : sink.room = none)
    (table : Table) :
    table.writeTo sink = .ok (sink.written ++ table.render) := by
  apply writeTo_of_fits
  intro room limited
  rw [unlimited] at limited
  cases limited

theorem writeTo_of_lt
    {table : Table}
    {sink : Sink}
    {room : Nat}
    (limited : sink.room = some room)
    (exceeds : room < table.render.length) :
    table.writeTo sink =
      .error ⟨sink.cause.getD .nothingTaken, sink.written ++ table.render.take room⟩ := by
  rw [writeTo_eq, Sink.writeAll, Sink.pour_of_lt limited exceeds]
  rfl

/-- A buffer does not change what a sink takes of a table, nor how it fails. -/
theorem printTo_eq_writeTo
    {sink : Sink}
    (tells : sink.TellsCause)
    (table : Table) :
    table.printTo sink = table.writeTo sink := by
  have emptied : (table.pieces.foldlM Buffer.writeAll { sink }).bind (·.emptied []) =
      Buffer.emptied { sink } table.pieces.flatten :=
    Buffer.foldlM_writeAll_bind_emptied tells table.pieces
  rw [writeTo_eq, Sink.writeAll, tells.pour_eq .nothingTaken .heldBack]
  change _ = (Buffer.emptied { sink } table.pieces.flatten).map Sink.written
  rw [← emptied]
  change (table.pieces.foldlM Buffer.writeAll { sink }).bind _ = _
  cases table.pieces.foldlM Buffer.writeAll { sink } with
  | error error => rfl
  | ok buffer => exact buffer.flush_bind_written

/-- A table is written in full where there is no limit, or where its text is no longer
than the limit. Otherwise the text is cut there, and the error is the one that the
sink was given, or that nothing more was taken. -/
theorem writeTo_succeeds_within_limit
    (table : Table)
    (limit : Nat)
    (cause : Option Failure) :
    let sink : Sink := { room := some limit, cause := cause }
    table.writeTo { room := none, cause := cause } = .ok table.render ∧
      ((∃ written, table.writeTo sink = .ok written) ↔ table.render.length ≤ limit) ∧
      (table.render.length ≤ limit -> table.writeTo sink = .ok table.render) ∧
      (limit < table.render.length ->
        table.writeTo sink =
          .error
            ⟨cause.getD ⟨.writeZero, Bytes.ofText "failed to write whole buffer"⟩,
              table.render.take limit⟩) := by
  intro sink
  have unlimited : table.writeTo { room := none, cause := cause } = .ok table.render :=
    writeTo_of_unlimited rfl table
  have within : table.render.length ≤ limit ->
      table.writeTo sink = .ok table.render := by
    intro fits
    apply writeTo_of_fits
    intro room limited
    cases limited
    exact fits
  have beyond : limit < table.render.length ->
      table.writeTo sink =
        .error ⟨cause.getD .nothingTaken, table.render.take limit⟩ :=
    writeTo_of_lt rfl
  refine ⟨unlimited, ⟨?_, ?_⟩, within, beyond⟩
  · rintro ⟨written, succeeded⟩
    rcases Nat.lt_or_ge limit table.render.length with exceeds | fits
    · rw [beyond exceeds] at succeeded
      cases succeeded
    · exact fits
  · intro fits
    exact ⟨table.render, within fits⟩

/-- The text has eleven octets. With room for all it is written; with one less
its last line feed is missing; and the room may end inside a value. -/
theorem narrow_room_cuts_inside_value :
    let table : Table :=
      ⟨[⟨[], Entries.ofPairs [(Bytes.ofText "a", Bytes.ofText "100")]⟩,
        ⟨[], Entries.ofPairs [([], []), (Bytes.ofText "a", [])]⟩]⟩
    let given : Failure := ⟨.storageFull, Bytes.ofText "full"⟩
    table.render = Bytes.ofText "\t0\t\na\t100\t\n" ∧
      table.writeTo { room := some 11 } = .ok (Bytes.ofText "\t0\t\na\t100\t\n") ∧
      table.writeTo { room := some 10, cause := some given } =
        .error ⟨given, Bytes.ofText "\t0\t\na\t100\t"⟩ ∧
      table.writeTo { room := some 7 } =
        .error
          ⟨⟨.writeZero, Bytes.ofText "failed to write whole buffer"⟩,
            Bytes.ofText "\t0\t\na\t1"⟩ := by
  intro table given
  have text : table.render = Bytes.ofText "\t0\t\na\t100\t\n" := rfl
  have length : table.render.length = 11 := rfl
  refine ⟨text, ?_, ?_, ?_⟩
  · exact (writeTo_succeeds_within_limit table 11 none).2.2.1 (by omega)
  · exact (writeTo_succeeds_within_limit table 10 (some given)).2.2.2 (by omega)
  · exact (writeTo_succeeds_within_limit table 7 none).2.2.2 (by omega)

end Table
end Collate
