import Collate.Table

/-!
# Writing

A sink takes octets until its room is used up. One write takes what fits and
tells how much that was, so whoever writes goes on with the rest until nothing is
left. Without room, a sink that has a cause to tell fails with it; one that has
none takes nothing, and whoever writes gives up.

A buffer stands before a sink. It holds octets back until they become too many,
or until it is flushed.
-/

namespace Collate

/-- Where octets are written. -/
structure Sink where
  /-- How many octets it still takes, if there is a limit. -/
  room : Option Nat := none
  /-- How it fails without room, if it says so. -/
  cause : Option Failure := none
  /-- What it has taken. -/
  written : Bytes := []
  deriving DecidableEq

/-- A write that broke off: why, and what had been taken by then. -/
structure WriteError where
  failure : Failure
  written : Bytes
  deriving DecidableEq

namespace Sink

/-- As much of some octets as there is room for. -/
def fitting (sink : Sink) (octets : Bytes) : Bytes :=
  match sink.room with
  | none => octets
  | some room => octets.take room

/-- The sink after it has taken octets. -/
def after (sink : Sink) (taken : Bytes) : Sink :=
  { sink with
    room := sink.room.map (· - taken.length)
    written := sink.written ++ taken }

/-- One write: how many octets the sink takes, and the sink after that. -/
def write (sink : Sink) (octets : Bytes) : Except Failure (Nat × Sink) :=
  match sink.room, sink.cause with
  | some 0, some failure => .error failure
  | _, _ =>
      let taken := sink.fitting octets
      .ok (taken.length, sink.after taken)

/-- Write until no octet is left. If the sink takes none of those that are, the
failure is the one for an idle sink. -/
def pour
    (idle : Failure)
    (sink : Sink)
    (octets : Bytes) : Except WriteError Sink :=
  match octets with
  | [] => .ok sink
  | octet :: rest =>
      match sink.write (octet :: rest) with
      | .error failure => .error ⟨failure, sink.written⟩
      | .ok (0, next) => .error ⟨idle, next.written⟩
      | .ok (more + 1, next) => next.pour idle (rest.drop more)
termination_by octets.length

/-- Write all octets of a piece. -/
def writeAll (sink : Sink) (piece : Bytes) : Except WriteError Sink :=
  sink.pour .nothingTaken piece

end Sink

/-- Octets that are held back from a sink. -/
structure Buffer where
  /-- What is held back. -/
  held : Bytes := []
  /-- Where it goes. -/
  sink : Sink
  deriving DecidableEq

namespace Buffer

/-- How many octets are held back at most. -/
def capacity : Nat := 8192

/-- Write out what is held back. -/
def flush (buffer : Buffer) : Except WriteError Buffer :=
  (buffer.sink.pour .heldBack buffer.held).map (Buffer.mk [])

/-- Take a piece behind what is held back. One that would fill the buffer by itself
is not held back. -/
def take (buffer : Buffer) (piece : Bytes) : Except WriteError Buffer :=
  if capacity ≤ piece.length then
    (buffer.sink.writeAll piece).map (Buffer.mk buffer.held)
  else
    .ok { buffer with held := buffer.held ++ piece }

/-- Write all octets of a piece. What is held back goes first if the piece does
not fit behind it. -/
def writeAll (buffer : Buffer) (piece : Bytes) : Except WriteError Buffer :=
  if capacity - buffer.held.length < piece.length then
    buffer.flush.bind (·.take piece)
  else
    buffer.take piece

end Buffer

namespace Table

/-- Give the pieces of the table to a writer one by one, up to the first that it
fails on. -/
def writeWith
    (give : ω -> Bytes -> Except WriteError ω)
    (table : Table)
    (writer : ω) : Except WriteError ω :=
  table.pieces.foldlM give writer

/-- Write the table to a sink, and give what the sink has taken. -/
def writeTo (table : Table) (sink : Sink) : Except WriteError Bytes :=
  (table.writeWith Sink.writeAll sink).map Sink.written

/-- Write the table to a sink through a buffer, flush that, and give what the sink
has taken. -/
def printTo (table : Table) (sink : Sink) : Except WriteError Bytes := do
  let buffer ← table.writeWith Buffer.writeAll { sink }
  let flushed ← buffer.flush
  return flushed.sink.written

end Table
end Collate
