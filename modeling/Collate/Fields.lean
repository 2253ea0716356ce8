import Collate.Bytes

/-!
# Fields

The fields of a sequence are its longest runs without a blank. The definition
takes any notion of blank, so it serves octets and characters alike.
-/

namespace Collate
namespace Fields

/-- The run that reaches to the front, which may be empty, and the fields after it. -/
def runs
    (blank : α -> Bool)
    (items : List α) : List α × List (List α) :=
  items.foldr
    (fun item (run, rest) =>
      if blank item then ([], if run.isEmpty then rest else run :: rest)
      else (item :: run, rest))
    ([], [])

/-- The longest runs without a blank, from left to right. -/
def of (blank : α -> Bool) (items : List α) : List (List α) :=
  if (runs blank items).1.isEmpty then (runs blank items).2
  else (runs blank items).1 :: (runs blank items).2

@[simp] theorem of_nil (blank : α -> Bool) : of blank [] = [] := rfl

theorem of_cons_of_blank
    {blank : α -> Bool}
    {item : α}
    (itemBlank : blank item = true)
    (rest : List α) :
    of blank (item :: rest) = of blank rest := by
  simp [of, runs, itemBlank]

theorem of_cons_of_not_blank
    {blank : α -> Bool}
    {item : α}
    (itemNotBlank : blank item = false)
    (rest : List α) :
    of blank (item :: rest) =
      (item :: (runs blank rest).1) :: (runs blank rest).2 := by
  simp [of, runs, itemNotBlank]

/-- The octets that separate fields: tab, line feed, form feed, carriage
return and space. -/
def isBlank (octet : UInt8) : Bool :=
  octet == 0x20 || octet == 0x09 || octet == 0x0A || octet == 0x0C || octet == 0x0D

/-- The fields of some octets. -/
def ofBytes (bytes : Bytes) : List Bytes :=
  of isBlank bytes

end Fields
end Collate
