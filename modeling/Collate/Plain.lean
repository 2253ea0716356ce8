import Collate.Bytes

/-!
# Plain text

Text can hold orders to a terminal: control characters, and control sequences
that begin with an escape. Error messages are freed of both before they are
shown, and keep tabs, line feeds, form feeds and carriage returns.

A message is freed octet by octet. What a sequence still waits for is dropped
up to the octet that ends it. A blank inside a sequence is kept, and what
follows it is plain up to the next control character. Where that character
finds the sequence depends on where the message goes: in a text the blank has
ended it, and in a stream it goes on.
-/

namespace Collate
namespace Plain

/-- Where a message goes. -/
inductive Medium
  /-- Into a text, where what is kept ends a sequence. -/
  | text
  /-- Into a stream, where a sequence outlasts the blanks kept inside it. -/
  | stream
  deriving DecidableEq, Repr

/-- Where a control sequence stands. -/
inductive Sequence
  /-- No sequence has begun. -/
  | none
  /-- After the escape character. -/
  | escape
  /-- After an escape character and an intermediate one. -/
  | intermediate
  /-- Inside a sequence that a letter or a like character ends. -/
  | control
  /-- Inside a title, which the bell ends. -/
  | title
  /-- Where a string to a device has just begun. -/
  | device
  /-- Among the parameters of a string to a device. -/
  | deviceParameters
  /-- Among the intermediate characters of a string to a device. -/
  | deviceIntermediate
  /-- Inside a string, which its terminator ends. -/
  | string
  deriving DecidableEq, Repr

/-- Tell whether an octet lies in a range. -/
def within (low high octet : UInt8) : Bool :=
  low ≤ octet && octet ≤ high

/-- Tell whether an octet is a control character that is kept. -/
def isBlankControl (octet : UInt8) : Bool :=
  octet == 0x09 || octet == 0x0A || octet == 0x0C || octet == 0x0D

/-- Tell whether an octet is kept where no sequence has begun and no character
waits for it: a blank, a graphic character, or the first octet of a longer one. -/
def isPlain (octet : UInt8) : Bool :=
  isBlankControl octet || within 0x20 0x7E octet || within 0xC2 0xF4 octet

namespace Sequence

/-- What the octet after an escape character begins or ends. -/
def afterEscape (octet : UInt8) : Sequence :=
  if within 0x20 0x2F octet then intermediate
  else if octet = 0x50 then device
  else if octet = 0x58 || octet = 0x5E || octet = 0x5F then string
  else if octet = 0x5B then control
  else if octet = 0x5D then title
  else if within 0x30 0x7E octet then none
  else escape

/-- Where a string to a device stands after an octet among its parameters. A
mark, one of `<`, `=`, `>` and `?`, leads to `onMark`, and an octet that says
nothing here leaves the string where it `stands`. -/
def afterParameter (stands onMark : Sequence) (octet : UInt8) : Sequence :=
  if within 0x20 0x2F octet then deviceIntermediate
  else if within 0x30 0x3B octet then deviceParameters
  else if within 0x3C 0x3F octet then onMark
  else if within 0x40 0x7E octet then string
  else stands

/-- Where a sequence stands after an octet. An escape begins a sequence
anywhere, and the two cancelling characters end any. -/
def next (sequence : Sequence) (octet : UInt8) : Sequence :=
  if octet = 0x1B then escape
  else if octet = 0x18 || octet = 0x1A then none
  else
    match sequence with
    | none => none
    | escape => afterEscape octet
    | intermediate => if within 0x30 0x7E octet then none else intermediate
    | control => if within 0x40 0x7E octet then none else control
    | title => if octet = 0x07 then none else title
    | device => afterParameter device deviceParameters octet
    | deviceParameters => afterParameter deviceParameters string octet
    | deviceIntermediate =>
        if within 0x30 0x7E octet then string else deviceIntermediate
    | string => if octet = 0x9C then none else string

/-- Tell whether an octet is kept where a sequence stands. -/
def keeps (sequence : Sequence) (octet : UInt8) : Bool :=
  match sequence with
  | none => isPlain octet
  | escape => isBlankControl octet
  | intermediate => isBlankControl octet
  | control => isBlankControl octet
  | _ => false

end Sequence

/-- How many octets follow the first one of a character. -/
def followers (octet : UInt8) : Nat :=
  if octet < 0xC0 then 0
  else if octet < 0xE0 then 1
  else if octet < 0xF0 then 2
  else 3

/-- What decides about the next octet. -/
structure Filter where
  /-- The sequence that the next control character goes on with. -/
  sequence : Sequence := .none
  /-- Whether what comes is plain until a control character. -/
  keeping : Bool := false
  /-- How many octets the current character still needs. -/
  owed : Nat := 0
  deriving DecidableEq

namespace Filter

/-- Tell whether a filter keeps an octet. -/
def keeps (filter : Filter) (octet : UInt8) : Bool :=
  0 < filter.owed ||
    (if filter.keeping then isPlain octet else filter.sequence.keeps octet)

/-- The sequence that is left after an octet is kept. In a stream, a whole
character of several octets ends any sequence. -/
def left (medium : Medium) (filter : Filter) : Sequence :=
  match medium with
  | .text => .none
  | .stream => if filter.owed = 1 then .none else filter.sequence

/-- The filter after an octet. -/
def next (medium : Medium) (filter : Filter) (octet : UInt8) : Filter :=
  if filter.keeps octet then
    match filter.owed with
    | 0 => ⟨filter.left medium, true, followers octet⟩
    | more + 1 => ⟨filter.left medium, true, more⟩
  else ⟨filter.sequence.next octet, false, 0⟩

end Filter

/-- What a filter keeps, after octets kept already, which have the newest
first. -/
def keptFrom (medium : Medium) (filter : Filter) (kept : Bytes) : Bytes -> Bytes
  | [] => kept.reverse
  | octet :: rest =>
      keptFrom medium (filter.next medium octet)
        (if filter.keeps octet then octet :: kept else kept) rest

/-- A message without its control characters and sequences. -/
def ofBytes (medium : Medium) (message : Bytes) : Bytes :=
  keptFrom medium {} [] message

end Plain
end Collate
