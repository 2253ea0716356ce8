/-!
# Octets

Files, paths, arguments and everything the program prints are finite sequences
of octets. They are ordered octet by octet, a proper initial segment first,
which is the order `compare` gives on lists.
-/

namespace Collate

/-- A finite sequence of octets. -/
abbrev Bytes := List UInt8

namespace Bytes

/-- The octet that ends a line. -/
def lineFeed : UInt8 := 0x0A

/-- The octet between two cells of a row. -/
def tab : UInt8 := 0x09

/-- The octets of a text in UTF-8. -/
def ofText (text : String) : Bytes :=
  text.toList.flatMap String.utf8EncodeChar

@[simp] theorem ofText_append (left right : String) :
    ofText (left ++ right) = ofText left ++ ofText right := by
  simp [ofText]

/-- A number in decimal, without leading zeros. -/
def decimal (number : Nat) : Bytes :=
  (Nat.toDigits 10 number).flatMap String.utf8EncodeChar

/-- An octet with the letters `A` to `Z` made small. -/
def lowerCase (octet : UInt8) : UInt8 :=
  if 0x41 ≤ octet && octet ≤ 0x5A then octet + 0x20 else octet

/-- Tell whether an octet is one of the digits `0` to `9`. -/
def isDigit (octet : UInt8) : Bool :=
  0x30 ≤ octet && octet ≤ 0x39

/-- The number that a run of digits spells. -/
def numeral (digits : Bytes) : Nat :=
  digits.foldl (fun total digit => 10 * total + (digit.toNat - 0x30)) 0

/-! ## Pieces between separators -/

/-- What stands before the first separator, and what stands after it, if there
is one. -/
def cutAtFirst (separator : UInt8) (bytes : Bytes) : Bytes × Option Bytes :=
  (bytes.takeWhile (· != separator), (bytes.dropWhile (· != separator)).tail?)

/-- The piece before the first separator, and the pieces after it. -/
def pieces (separator : UInt8) (bytes : Bytes) : Bytes × List Bytes :=
  bytes.foldr
    (fun octet (piece, rest) =>
      if octet = separator then ([], piece :: rest) else (octet :: piece, rest))
    ([], [])

/-- Cut at every separator. There is one piece more than there are separators,
and a piece may be empty. -/
def splitOn (separator : UInt8) (bytes : Bytes) : List Bytes :=
  (pieces separator bytes).1 :: (pieces separator bytes).2

@[simp] theorem splitOn_nil (separator : UInt8) :
    splitOn separator [] = [[]] := rfl

@[simp] theorem splitOn_separator_cons (separator : UInt8) (rest : Bytes) :
    splitOn separator (separator :: rest) = [] :: splitOn separator rest := by
  simp [splitOn, pieces]

theorem splitOn_cons_of_ne
    {separator octet : UInt8}
    (different : octet ≠ separator)
    (rest : Bytes) :
    splitOn separator (octet :: rest) =
      (octet :: (pieces separator rest).1) :: (pieces separator rest).2 := by
  simp [splitOn, pieces, different]

@[simp] theorem splitOn_ne_nil (separator : UInt8) (bytes : Bytes) :
    splitOn separator bytes ≠ [] := by
  simp [splitOn]

end Bytes
end Collate
