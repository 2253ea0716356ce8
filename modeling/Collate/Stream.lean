import Collate.Failure

/-!
# Streams of lines

Reading a file delivers octets and then either the end or a failure. A line
ends at a line feed, and nowhere else. What stands after the last line feed is
a line too if the stream ends there and it is not empty; if the stream fails
there, it is lost.
-/

namespace Collate

/-- The octets that reading delivers, and the failure that cuts them off, if any. -/
structure Stream where
  body : Bytes
  failure : Option Failure := none
  deriving DecidableEq

namespace Stream

/-- A stream that delivers nothing but a failure. -/
def failing (failure : Failure) : Stream := ⟨[], some failure⟩

/-- The lines that a line feed ends, without it. -/
def finishedLines (body : Bytes) : List Bytes :=
  (Bytes.splitOn Bytes.lineFeed body).dropLast

/-- What stands after the last line feed. -/
def unfinishedLine (body : Bytes) : Bytes :=
  (Bytes.splitOn Bytes.lineFeed body).getLastD []

/-- The lines of a whole body. -/
def linesOf (body : Bytes) : List Bytes :=
  if (unfinishedLine body).isEmpty then finishedLines body
  else finishedLines body ++ [unfinishedLine body]

/-- The lines that a stream delivers before it ends or fails. -/
def lines (stream : Stream) : List Bytes :=
  match stream.failure with
  | none => linesOf stream.body
  | some _ => finishedLines stream.body

end Stream

/-- What reading any path delivers. A path that cannot be opened delivers
nothing but a failure. -/
abbrev Storage := Bytes -> Stream

end Collate
