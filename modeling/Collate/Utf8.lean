import Collate.Bytes

/-!
# UTF-8

A left-to-right check of the well-formed octet sequences: no overlong form, no
surrogate, nothing above U+10FFFF. The check keeps only where it stands inside
the current character, so it says at once which octet spoils a text. `repair`
uses that to replace every ill-formed part by U+FFFD, where a part is as long
as it still could have begun a character.
-/

namespace Collate
namespace Utf8

/-- Where a check stands inside the current character. -/
inductive Progress
  /-- Between two characters. -/
  | ready
  /-- The next octet lies from `low` to `high`, and `further` octets follow it. -/
  | owing (low high : UInt8) (further : Nat)
  deriving DecidableEq

/-- What the first octet of a character asks of the octets after it. -/
def start (octet : UInt8) : Option Progress :=
  if octet < 0x80 then some .ready
  else if octet < 0xC2 then none
  else if octet < 0xE0 then some (.owing 0x80 0xBF 0)
  else if octet = 0xE0 then some (.owing 0xA0 0xBF 1)
  else if octet = 0xED then some (.owing 0x80 0x9F 1)
  else if octet < 0xF0 then some (.owing 0x80 0xBF 1)
  else if octet = 0xF0 then some (.owing 0x90 0xBF 2)
  else if octet < 0xF4 then some (.owing 0x80 0xBF 2)
  else if octet = 0xF4 then some (.owing 0x80 0x8F 2)
  else none

/-- Take one octet, or refuse it. -/
def step : Progress -> UInt8 -> Option Progress
  | .ready, octet => start octet
  | .owing low high further, octet =>
      if low ≤ octet && octet ≤ high then
        match further with
        | 0 => some .ready
        | more + 1 => some (.owing 0x80 0xBF more)
      else none

/-- Take octets one by one until they end or one is refused. -/
def run : Progress -> Bytes -> Option Progress
  | progress, [] => some progress
  | progress, octet :: rest =>
      match step progress octet with
      | none => none
      | some next => run next rest

@[simp] theorem run_nil (progress : Progress) :
    run progress [] = some progress := rfl

theorem run_cons
    (progress : Progress)
    (octet : UInt8)
    (rest : Bytes) :
    run progress (octet :: rest) =
      (step progress octet).bind (run · rest) := by
  rw [run]
  cases step progress octet <;> rfl

theorem run_append
    (progress : Progress)
    (left right : Bytes) :
    run progress (left ++ right) =
      (run progress left).bind (run · right) := by
  induction left generalizing progress with
  | nil => rfl
  | cons octet rest hypothesis =>
      rw [List.cons_append, run_cons, run_cons]
      cases step progress octet with
      | none => rfl
      | some next => exact hypothesis next

/-- Octets that spell a sequence of whole characters. -/
def Valid (bytes : Bytes) : Prop :=
  run .ready bytes = some .ready

instance : DecidablePred Valid :=
  fun bytes => inferInstanceAs (Decidable (run .ready bytes = some .ready))

/-- The octets of the first character, if the check gets through one. -/
def firstCharacter? : Progress -> Bytes -> Option Bytes
  | _, [] => none
  | progress, octet :: rest =>
      match step progress octet with
      | none => none
      | some .ready => some [octet]
      | some next => (firstCharacter? next rest).map (octet :: ·)

/-! ## Ill-formed parts -/

/-- The octets of U+FFFD. -/
def replacement : Bytes := [0xEF, 0xBF, 0xBD]

/-- A text under repair. Both octet sequences have their newest octet first. -/
structure Repair where
  /-- Where the check stands. -/
  progress : Progress
  /-- The octets of the current character so far. -/
  pending : Bytes
  /-- The repaired text before the current character. -/
  repaired : Bytes

namespace Repair

/-- Nothing read yet. -/
def initial : Repair := ⟨.ready, [], []⟩

/-- Take an octet where a character begins. An octet that begins none is an
ill-formed part by itself. -/
def begin (repaired : Bytes) (octet : UInt8) : Repair :=
  match start octet with
  | none => ⟨.ready, [], replacement.reverse ++ repaired⟩
  | some .ready => ⟨.ready, [], octet :: repaired⟩
  | some next => ⟨next, [octet], repaired⟩

/-- Take an octet. One that cannot go on with the current character makes what
came before it an ill-formed part, and begins anew. -/
def take (repair : Repair) (octet : UInt8) : Repair :=
  match repair.progress with
  | .ready => begin repair.repaired octet
  | progress =>
      match step progress octet with
      | none => begin (replacement.reverse ++ repair.repaired) octet
      | some .ready => ⟨.ready, [], octet :: (repair.pending ++ repair.repaired)⟩
      | some next => ⟨next, octet :: repair.pending, repair.repaired⟩

/-- The repaired text. A character that the text breaks off is an ill-formed
part too. -/
def finish (repair : Repair) : Bytes :=
  match repair.progress with
  | .ready => repair.repaired.reverse
  | _ => (replacement.reverse ++ repair.repaired).reverse

end Repair

/-- The text with each ill-formed part replaced by U+FFFD. -/
def repair (bytes : Bytes) : Bytes :=
  (bytes.foldl Repair.take Repair.initial).finish

end Utf8
end Collate
