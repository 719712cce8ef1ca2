import TwoLevel.Solution

/-! # Expressions of a sum of products

Inputs have names, the most significant one first, and over them a term becomes a product of
literals.  How products and sums are spelled is the
matter of a `Dialect`; the structure is the same in all of them: a product of no literal is the
constant one, a product of one literal is that literal, and only products of two and more are
grouped. -/

namespace TwoLevel

/-! ### Names -/

/-- The capital letter at an index of the alphabet. -/
def letter (i : Nat) : String := (Char.ofNat ('A'.toNat + i)).toString

/-- The names inputs have by default: letters as long as there are enough of them, otherwise
numbers, which then fall to zero. -/
def defaultNames (width : Int) : List String :=
  if width ≤ 26 then (List.range width.toNat).map letter
  else (List.range width.toNat).reverse.map fun i => "x" ++ toString i

/-! ### Literals -/

/-- An input or its complement. -/
structure NamedLiteral where
  name : String
  positive : Bool
deriving DecidableEq, Repr

namespace Term

/-- The literals of a term over named inputs, most significant first.  There are as many inputs as
names, and positions above them are dropped. -/
def namedLiterals (names : List String) (t : Term) : List NamedLiteral :=
  (names.zip (t.pattern.window names.length).reverse).filterMap fun (name, trit) =>
    match trit with
    | .one => some ⟨name, true⟩
    | .zero => some ⟨name, false⟩
    | .star => none

end Term

/-! ### Spelling -/

/-- How an expression is spelled. -/
structure Dialect where
  /-- What stands before and behind a complemented name. -/
  complement : String × String
  /-- What stands between the literals of a product. -/
  conjunction : String
  /-- What stands around a product of two and more literals. -/
  group : String × String
  /-- What stands between the products of a sum. -/
  disjunction : String
  /-- The constant one. -/
  always : String
  /-- The constant zero. -/
  never : String

namespace Dialect

/-- Boolean algebra: products by juxtaposition, a complement by a prime. -/
def algebra : Dialect := ⟨("", "\x27"), "", ("", ""), " + ", "1", "0"⟩

/-- Verilog with one-bit operators. -/
def verilog : Dialect := ⟨("~", ""), " & ", ("(", ")"), " | ", "1\x27b1", "1\x27b0"⟩

/-- C with logical operators. -/
def c : Dialect := ⟨("!", ""), " && ", ("(", ")"), " || ", "1", "0"⟩

variable (d : Dialect)

/-- The text of a literal. -/
def literal (l : NamedLiteral) : String :=
  if l.positive then l.name else d.complement.1 ++ l.name ++ d.complement.2

/-- The text of a product. -/
def product : List NamedLiteral → String
  | [] => d.always
  | [l] => d.literal l
  | ls => d.group.1 ++ d.conjunction.intercalate (ls.map d.literal) ++ d.group.2

/-- The text of a term over named inputs. -/
def term (names : List String) (t : Term) : String := d.product (t.namedLiterals names)

/-- The text of a sum of products over named inputs. -/
def sum (names : List String) : List Term → String
  | [] => d.never
  | terms => d.disjunction.intercalate (terms.map (d.term names))

end Dialect

end TwoLevel
