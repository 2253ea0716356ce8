import Collate.Utf8

/-!
# The log filter

A setting is a comma-separated list of directives. A directive gives a level to
the targets that begin with its own target, or, if it has none, to all. The
directive with the longest target decides, and of several with the same target
the last. Without any directive the level is `warn`. The verbose flag adds a
directive of level `debug` for all targets at the end.
-/

namespace Collate

/-- How much is logged. -/
inductive Level
  | off
  | error
  | warn
  | info
  | debug
  | trace
  deriving DecidableEq, Repr

namespace Level

/-- All levels, each at the place of its number. -/
def all : List Level := [off, error, warn, info, debug, trace]

/-- The name of a level in small letters. -/
def name : Level -> Bytes
  | off => Bytes.ofText "off"
  | error => Bytes.ofText "error"
  | warn => Bytes.ofText "warn"
  | info => Bytes.ofText "info"
  | debug => Bytes.ofText "debug"
  | trace => Bytes.ofText "trace"

/-- The number a word spells. A plus sign may stand before the digits. -/
def number? (word : Bytes) : Option Nat :=
  let digits := if word.head? = some 0x2B then word.tail else word
  if digits.isEmpty || !digits.all Bytes.isDigit then none
  else some (Bytes.numeral digits)

/-- The level that a word names, with letters of either case or by its number. -/
def ofBytes? (word : Bytes) : Option Level :=
  match all.find? (·.name == word.map Bytes.lowerCase) with
  | some level => some level
  | none => (number? word).bind (all[·]?)

/-- Whether lines of level `debug` are shown. -/
def showsDebug : Level -> Bool
  | debug => true
  | trace => true
  | _ => false

end Level

/-- A level, and the start of the targets it is for; none means all targets. -/
structure Directive where
  target : Option Bytes
  level : Level
  deriving DecidableEq

namespace Directive

/-- Read one directive: a level, a target with a level after `=`, or a target
alone, which has level `trace`. -/
def ofBytes? (text : Bytes) : Option Directive :=
  match Bytes.cutAtFirst 0x3D text with
  | ([], _) => none
  | (word, none) =>
      match Level.ofBytes? word with
      | some level => some ⟨none, level⟩
      | none => some ⟨some word, .trace⟩
  | (target, some []) => some ⟨some target, .trace⟩
  | (target, some word) => (Level.ofBytes? word).map (⟨some target, ·⟩)

/-- Whether a directive is for a target. -/
def covers (directive : Directive) (target : Bytes) : Bool :=
  match directive.target with
  | none => true
  | some start => start.isPrefixOf target

/-- How narrow a directive is: the longer its target, the narrower. -/
def narrowness (directive : Directive) : Nat :=
  match directive.target with
  | none => 0
  | some start => start.length + 1

end Directive

/-- The directives in force, in order. -/
abbrev LogFilter := List Directive

namespace LogFilter

/-- The directives in force when some are stated, with or without the verbose
flag. -/
def ofDirectives (stated : List Directive) (verbose : Bool) : LogFilter :=
  (if stated.isEmpty then [⟨none, .warn⟩] else stated) ++
    (if verbose then [⟨none, .debug⟩] else [])

/-- The directives that a setting states. A setting that is not text states
none. -/
def stated (setting : Option Bytes) : List Directive :=
  match setting with
  | none => []
  | some text =>
      if Utf8.Valid text then
        (Bytes.splitOn 0x2C text).filterMap Directive.ofBytes?
      else []

/-- The narrowest directive for a target, the last of several. -/
def deciding (filter : LogFilter) (target : Bytes) : Option Directive :=
  filter.foldl
    (fun best directive =>
      if directive.covers target && best.all (·.narrowness ≤ directive.narrowness)
      then some directive else best)
    none

/-- Whether lines of level `debug` from a target are shown. -/
def shows (filter : LogFilter) (target : Bytes) : Bool :=
  (filter.deciding target).any (·.level.showsDebug)

end LogFilter
end Collate
