import TwoLevel.Text.Layout

/-! # Numerals

Reading a decimal integer the way people write one on a command line, and writing an integer in
base two to a fixed number of characters.

Every decimal digit of Unicode stands in a block of ten consecutive code points with the values
`0` to `9`.  The module holds the first code point of each block (Unicode 14); the value of a
digit is its distance from there. -/

namespace TwoLevel.Text

/-! ### Decimal digits -/

/-- The code points of the zeros, ascending. -/
def zeroDigits : List Nat :=
  [
    0x30, 0x660, 0x6f0, 0x7c0, 0x966, 0x9e6, 0xa66, 0xae6, 0xb66, 0xbe6, 0xc66, 0xce6, 0xd66,
    0xde6, 0xe50, 0xed0, 0xf20, 0x1040, 0x1090, 0x17e0, 0x1810, 0x1946, 0x19d0, 0x1a80, 0x1a90,
    0x1b50, 0x1bb0, 0x1c40, 0x1c50, 0xa620, 0xa8d0, 0xa900, 0xa9d0, 0xa9f0, 0xaa50, 0xabf0,
    0xff10, 0x104a0, 0x10d30, 0x11066, 0x110f0, 0x11136, 0x111d0, 0x112f0, 0x11450, 0x114d0,
    0x11650, 0x116c0, 0x11730, 0x118e0, 0x11950, 0x11c50, 0x11d50, 0x11da0, 0x16a60, 0x16ac0,
    0x16b50, 0x1d7ce, 0x1d7d8, 0x1d7e2, 0x1d7ec, 0x1d7f6, 0x1e140, 0x1e2f0, 0x1e950, 0x1fbf0
  ]

/-- The value of a decimal digit of any script. -/
def digitValue? (c : Char) : Option Nat :=
  (zeroDigits.find? fun first => decide (c.toNat < first + 10)).bind fun first =>
    if first ≤ c.toNat then some (c.toNat - first) else none

/-- Whether a character is a decimal digit of any script. -/
def isDigit (c : Char) : Bool :=
  (digitValue? c).isSome

/-! ### Decimal integers -/

/-- The values of digits that may be grouped by single underscores between two of them. -/
def groupedDigits? : List Char → Option (List Nat)
  | [] => none
  | [c] => (digitValue? c).map ([·])
  | c :: '_' :: rest => (digitValue? c).bind fun d => (groupedDigits? rest).map (d :: ·)
  | c :: rest => (digitValue? c).bind fun d => (groupedDigits? rest).map (d :: ·)

/-- Numerals of more digits than this are refused. -/
def maxDigits : Nat := 4300

/-- The number that grouped decimal digits spell. -/
def unsigned? (chars : List Char) : Option Nat :=
  (groupedDigits? chars).bind fun digits =>
    if digits.length ≤ maxDigits then some (digits.foldl (fun n d => 10 * n + d) 0) else none

/-- A decimal integer: blanks around it, one optional sign, digits of any script. -/
def integer? (text : String) : Option Int :=
  match trimmed (fun c => isPageBlank c || isWideBlank c) text.toList with
  | '-' :: digits => (unsigned? digits).map fun n => -(n : Int)
  | '+' :: digits => (unsigned? digits).map Int.ofNat
  | digits => (unsigned? digits).map Int.ofNat

/-! ### Binary numerals -/

/-- The base-two digits of a number, the most significant one first. -/
def binaryDigits (n : Nat) : List Char :=
  Nat.toDigits 2 n

/-- An integer in base two, filled up with zeros after its sign to a number of characters. -/
def binary (width : Nat) (value : Int) : String :=
  let digits := binaryDigits value.natAbs
  if value < 0 then String.ofList ('-' :: digits.leftpad (width - 1) '0')
  else String.ofList (digits.leftpad width '0')

end TwoLevel.Text
