import Collate.CommandLine
import Collate.LogFilter
import Collate.Sink

/-!
# The program

A run takes the arguments, the log setting, what can be read and where the
output goes, and yields an exit status, an output and a record of complaints
and log lines. The output holds a complete table or nothing of one: it is
written only after every file has been read.
-/

namespace Collate

/-- Something that happened during a run, for the log. -/
inductive Event
  /-- A result file was read, with this number of keys. -/
  | fileRead (path : Bytes) (pairs : Nat)
  /-- The table is complete. -/
  | merged (rows columns : Nat)
  deriving DecidableEq

namespace Event

/-- Where all events come from, as the log names it. -/
def target : Bytes := Bytes.ofText "kvmerge::merge"

/-- What an event says in the log. -/
def text : Event -> Bytes
  | fileRead path pairs =>
      Bytes.ofText "read result file path=" ++ Utf8.repair path ++
        Bytes.ofText " pairs=" ++ Bytes.decimal pairs
  | merged rows columns =>
      Bytes.ofText "merged result files rows=" ++ Bytes.decimal rows ++
        Bytes.ofText " columns=" ++ Bytes.decimal columns

/-- The line of the log for an event. -/
def line (event : Event) : Bytes :=
  Bytes.ofText "DEBUG " ++ target ++ Bytes.ofText ": " ++ event.text ++ [Bytes.lineFeed]

end Event

/-- Where the output of a run goes. -/
inductive Destination
  /-- All output is taken. -/
  | accepting
  /-- A device without room. -/
  | full
  /-- A pipe that nobody reads. -/
  | closed
  deriving DecidableEq, Repr

namespace Destination

/-- How writing anything fails, if it does. -/
def refusal? : Destination -> Option Failure
  | accepting => none
  | full => some .storageFull
  | closed => some .brokenPipe

/-- The destination as a sink, which has no limit or no room. -/
def sink (destination : Destination) : Sink :=
  match destination.refusal? with
  | none => {}
  | some failure => { room := some 0, cause := some failure }

/-- What arrives of some output. -/
def arrived (destination : Destination) (output : Bytes) : Bytes :=
  match destination.sink.writeAll output with
  | .ok sink => sink.written
  | .error error => error.written

end Destination

/-- What a run leaves behind. -/
structure Outcome where
  status : ExitStatus
  /-- What arrived on standard output. -/
  output : Bytes
  /-- What was written to standard error. -/
  complaints : Bytes
  deriving DecidableEq

namespace Program

/-- The log lines of events, or nothing if they are not shown. -/
def log (shown : Bool) (events : List Event) : Bytes :=
  if shown then events.flatMap Event.line else []

/-- How a run tells the error that ends it. -/
def complaint (diagnosis : Diagnosis) : Bytes :=
  Bytes.ofText "Error: " ++ diagnosis.report ++ [Bytes.lineFeed]

/-- A table that could not be written. -/
def unwritten (failure : Failure) : Diagnosis :=
  ⟨Bytes.ofText "failed to write table", some failure.text⟩

/-- The event of a result file that was read. -/
def readEvent (column : Column) : Event :=
  .fileRead column.path column.entries.size

/-- The event of a complete table. -/
def mergedEvent (table : Table) : Event :=
  .merged table.keys.length table.columns.length

/-- Write a complete table, after some log lines. -/
def deliver (destination : Destination) (logged : Bytes) (table : Table) : Outcome :=
  match table.printTo destination.sink with
  | .error error =>
      ⟨.failure, error.written, logged ++ complaint (unwritten error.failure)⟩
  | .ok output => ⟨.success, output, logged⟩

/-- Read files in order, and write their table if none fails. -/
def merge
    (storage : Storage)
    (destination : Destination)
    (shown : Bool)
    (files : List Bytes) : Outcome :=
  let reading := Reading.ofPaths storage files
  let events := reading.columns.map readEvent
  match reading.error with
  | some error => ⟨.failure, [], log shown events ++ complaint error.diagnosis⟩
  | none =>
      let table : Table := ⟨reading.columns⟩
      deliver destination (log shown (events ++ [mergedEvent table])) table

/-- Tell why the arguments lead to no merge. -/
def halt (destination : Destination) (halt : Halt) : Outcome :=
  match halt.status with
  | .success => ⟨.success, destination.arrived (halt.message .stream), []⟩
  | status => ⟨status, [], halt.message .stream⟩

/-- Run the program. -/
def run
    (storage : Storage)
    (destination : Destination)
    (setting : Option Bytes)
    (arguments : List Bytes) : Outcome :=
  match Invocation.ofArguments arguments with
  | .error reason => halt destination reason
  | .ok invocation =>
      let filter :=
        LogFilter.ofDirectives (LogFilter.stated setting) invocation.verbose
      merge storage destination (filter.shows Event.target) invocation.files

end Program
end Collate
