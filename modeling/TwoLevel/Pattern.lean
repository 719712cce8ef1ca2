import TwoLevel.Fault

/-! # Ternary patterns

A pattern fixes some inputs of a function and leaves others free.  Its positions are stored least
significant first, and all positions above the stored ones are zero: `Pattern.tritAt` is that view,
`Pattern.trim` the shortest pattern with the same view, and two patterns are compared, joined and
matched through it.

Patterns are written most significant position first, over the characters `0`, `1` and `*`. -/

namespace TwoLevel

/-! ### Positions -/

/-- What a pattern says about one input: free, fixed to zero or fixed to one. -/
inductive Trit where
  | star
  | zero
  | one
deriving DecidableEq, Repr, Inhabited

namespace Trit

/-- The character a position is written as. -/
def char : Trit → Char
  | star => '*'
  | zero => '0'
  | one => '1'

/-- The position that a character stands for. -/
def ofChar? : Char → Option Trit
  | '*' => some star
  | '0' => some zero
  | '1' => some one
  | _ => none

/-- The position fixed to a bit. -/
def ofBool (b : Bool) : Trit := if b then one else zero

/-- Whether a bit agrees with a position. -/
def allows : Trit → Bool → Bool
  | star, _ => true
  | zero, b => !b
  | one, b => b

/-- The position that two agree on, free where they do not. -/
def blend (a b : Trit) : Trit := if a = b then a else star

/-- The bits that agree with a position, ascending. -/
def bits : Trit → List Nat
  | star => [0, 1]
  | zero => [0]
  | one => [1]

/-- Free positions come before fixed ones, and zero before one. -/
def rank : Trit → Nat
  | star => 0
  | zero => 1
  | one => 2

instance : Ord Trit := ⟨fun a b => compare a.rank b.rank⟩

end Trit

/-- Positions, least significant first. -/
abbrev Pattern := List Trit

namespace Pattern

/-! ### The zero-extended view -/

/-- The position at an index; zero above the stored ones. -/
def tritAt (p : Pattern) (i : Nat) : Trit := p.getD i .zero

/-- The pattern without its leading zeros. -/
def trim : Pattern → Pattern
  | [] => []
  | t :: p =>
    match t, trim p with
    | .zero, [] => []
    | t, p => t :: p

/-- The pattern with zeros added up to a number of positions; never cut. -/
def extend (width : Nat) (p : Pattern) : Pattern := p.rightpad width .zero

/-- The lowest `width` positions, zeros added as needed; a negative width drops that many of the
stored positions from the most significant end. -/
def window (width : Int) (p : Pattern) : Pattern :=
  if 0 ≤ width then (p.extend width.toNat).take width.toNat
  else p.take (p.length - (-width).toNat)

/-! ### Counting -/

/-- The number of positions fixed to one. -/
def ones (p : Pattern) : Nat := p.count .one

/-- The number of fixed positions among the stored ones. -/
def literals (p : Pattern) : Nat := p.countP (· ≠ .star)

/-- The number of positions in which two patterns differ. -/
def distance : Pattern → Pattern → Nat
  | [], q => q.countP (· ≠ .zero)
  | p, [] => p.countP (· ≠ .zero)
  | a :: p, b :: q => (if a = b then 0 else 1) + distance p q

/-! ### Merging -/

/-- The pattern of all positions two patterns share, free where they differ. -/
def blend : Pattern → Pattern → Pattern
  | [], q => q.map (Trit.blend .zero)
  | p, [] => p.map (Trit.blend · .zero)
  | a :: p, b :: q => a.blend b :: blend p q

/-- Two patterns that differ in exactly one position, blended into one. -/
def merge? (p q : Pattern) : Option Pattern :=
  if distance p q = 1 then some (blend p q) else none

/-! ### Inputs -/

/-- Whether the bits of a number agree with a pattern in every position. -/
def allows : Pattern → Nat → Bool
  | [], n => n == 0
  | t :: p, n => t.allows (n % 2 == 1) && allows p (n / 2)

/-- The numbers that agree with a pattern, ascending. -/
def inputs : Pattern → List Nat
  | [] => [0]
  | t :: p => (inputs p).flatMap fun n => t.bits.map fun b => 2 * n + b

/-- The number of bits of a number, none for zero. -/
def bitLength (n : Nat) : Nat := if n = 0 then 0 else n.log2 + 1

/-- The pattern that only one number agrees with, without leading zeros. -/
def ofNat (n : Nat) : Pattern := (List.range (bitLength n)).map fun i => Trit.ofBool (n.testBit i)

/-! ### Text -/

/-- The positions as they are written; a pattern without any is written as a zero. -/
def digits (p : Pattern) : Pattern := if p.isEmpty then [.zero] else p.reverse

/-- The text of a pattern, most significant position first. -/
def text (p : Pattern) : String := String.ofList (p.digits.map Trit.char)

/-- The pattern that characters spell, most significant first; other characters are left out. -/
def ofChars (chars : List Char) : Pattern := (chars.filterMap Trit.ofChar?).reverse

/-- Read a pattern.  The first character that is none of `0`, `1` and `*` is reported before an
empty pattern, and that before one of too many positions. -/
def ofText (text : String) : Except Fault Pattern :=
  match text.toList.findIdx? fun c => (Trit.ofChar? c).isNone with
  | some position => .error (.invalidCharacter text position)
  | none =>
    if text.toList.isEmpty then .error .emptyPattern
    else if maxWidth < text.toList.length then .error (.patternTooWide text)
    else .ok (ofChars text.toList)

/-! ### Order -/

/-- Patterns of fewer digits come first; of one number of digits, the smaller at the first
difference, read most significant first.  Leading zeros do not count. -/
def order : Pattern → Pattern → Ordering :=
  compareLex (compareOn fun p => p.trim.digits.length) (compareOn fun p => p.trim.digits)

end Pattern

end TwoLevel
