import Mathlib.Data.List.Basic
import TwoLevel.Proofs.Export.Names

/-! # Reading Verilog and C

What the emitted documents mean is said by reading them back.  A `Language` tells how operators,
constants and the lines of a document are spelled; everything else is shared.  The text of an
expression is cut into tokens by taking the longest name at every letter (`Language.lex`), and the
tokens are read from left to right by the usual precedence, complements before conjunctions before
disjunctions, with parentheses (`Expr.parse`).

A document is read line by line: some lines bind a name to one bit of the packed input, one line
holds the expression of the output, and all others are passed over (`Language.read`).  The `Netlist`
that is read gives a value for every packed input, and none if its expression has a name without a
binding. -/

namespace TwoLevel

/-! ### Expressions -/

/-- Expressions over named bits, parentheses included. -/
inductive Expr where
  | const (b : Bool)
  | var (name : String)
  | not (e : Expr)
  | and (e f : Expr)
  | or (e f : Expr)
  | group (e : Expr)
deriving DecidableEq, Repr

namespace Expr

/-- The value of an expression, none if one of its names has none. -/
def eval (bits : String → Option Bool) : Expr → Option Bool
  | const b => some b
  | var name => bits name
  | not e => (e.eval bits).map (!·)
  | and e f => (e.eval bits).bind fun b => (f.eval bits).map fun c => b && c
  | or e f => (e.eval bits).bind fun b => (f.eval bits).map fun c => b || c
  | group e => e.eval bits

end Expr

/-! ### Tokens -/

/-- The smallest parts of an expression. -/
inductive Token where
  | name (name : String)
  | const (b : Bool)
  | not
  | and
  | or
  | opening
  | closing
deriving DecidableEq, Repr

/-- How a language spells expressions and the lines around them. -/
structure Language where
  /-- Operators, parentheses and constants; no text is the beginning of another one. -/
  symbols : List (String × Token)
  /-- What stands on the line that binds a name to a bit: before the name, between the name and the
  index of the bit, and behind the index. -/
  binding : String × String × String
  /-- What stands before and behind the expression of the output. -/
  output : String × String

namespace Language

def verilog : Language where
  symbols := [("~", .not), ("&", .and), ("|", .or), ("(", .opening), (")", .closing),
    ("1\x27b0", .const false), ("1\x27b1", .const true)]
  binding := ("    wire ", " = in[", "];")
  output := ("    assign f = ", ";")

def c : Language where
  symbols := [("!", .not), ("&&", .and), ("||", .or), ("(", .opening), (")", .closing),
    ("0", .const false), ("1", .const true)]
  binding := ("    int ", " = (in >> ", ") & 1;")
  output := ("    return ", ";")

variable (l : Language)

/-- The tokens of a text, none if a part of it belongs to no token. -/
def lex : List Char → Option (List Token)
  | [] => some []
  | c :: cs =>
    if c = ' ' then lex cs
    else if isNameStart c then
      (lex (cs.dropWhile isNameChar)).map (.name (.ofList (c :: cs.takeWhile isNameChar)) :: ·)
    else
      match l.symbols.find? fun symbol => symbol.1.toList.isPrefixOf (c :: cs) with
      | none => none
      | some (text, token) => (lex (cs.drop (text.length - 1))).map (token :: ·)
termination_by cs => cs.length
decreasing_by
  · exact Nat.lt_succ_self _
  · exact Nat.lt_succ_of_le (List.dropWhile_sublist _).length_le
  · exact Nat.lt_succ_of_le (List.drop_sublist _ _).length_le

end Language

/-! ### Precedence -/

namespace Expr

/-- What has been read of an expression inside of one pair of parentheses. -/
structure Level where
  /-- The disjunction of all operands before the present one. -/
  sum : Option Expr
  /-- The conjunction that has been read of the present operand. -/
  product : Option Expr
  /-- The number of complements that apply to what comes next. -/
  complements : ℕ

namespace Level

def empty : Level := ⟨none, none, 0⟩

/-- Take one more factor. -/
def factor (level : Level) (e : Expr) : Level :=
  let e := Expr.not^[level.complements] e
  ⟨level.sum, some (level.product.elim e (.and · e)), 0⟩

/-- The expression that has been read, none while an operand is missing. -/
def value? (level : Level) : Option Expr :=
  level.product.map fun p => level.sum.elim p (.or · p)

end Level

/-- What has been read of an expression. -/
structure Progress where
  level : Level
  /-- What has been read around each pair of parentheses that is still open. -/
  outer : List Level
  /-- Whether an operand has just ended. -/
  ended : Bool

/-- Read one more token. -/
def step (p : Progress) (token : Token) : Option Progress :=
  match p.ended, token with
  | false, .name name => some ⟨p.level.factor (.var name), p.outer, true⟩
  | false, .const b => some ⟨p.level.factor (.const b), p.outer, true⟩
  | false, .not =>
    some ⟨⟨p.level.sum, p.level.product, p.level.complements + 1⟩, p.outer, false⟩
  | false, .opening => some ⟨.empty, p.level :: p.outer, false⟩
  | true, .and => some ⟨p.level, p.outer, false⟩
  | true, .or => p.level.value?.map fun e => ⟨⟨some e, none, 0⟩, p.outer, false⟩
  | true, .closing =>
    match p.level.value?, p.outer with
    | some e, level :: outer => some ⟨level.factor (.group e), outer, true⟩
    | _, _ => none
  | _, _ => none

/-- The expression that tokens spell. -/
def parse (tokens : List Token) : Option Expr :=
  match tokens.foldlM step ⟨.empty, [], false⟩ with
  | some ⟨level, [], true⟩ => level.value?
  | _ => none

end Expr

/-! ### Documents -/

/-- Names for bits of a packed input, and the expression of the output. -/
structure Netlist where
  inputs : List (String × ℕ)
  output : Expr

/-- The bit of a packed input that a name stands for. -/
def Netlist.bit? (n : Netlist) (input : ℕ) (name : String) : Option Bool :=
  (n.inputs.lookup name).map input.testBit

/-- The output at a packed input. -/
def Netlist.value (n : Netlist) (input : ℕ) : Option Bool := n.output.eval (n.bit? input)

namespace Language

variable (l : Language)

/-- The name and the bit of a line that binds one. -/
def binding? (line : List Char) : Option (String × ℕ) := do
  let named ← line.dropPrefix? l.binding.1.toList
  let indexed ← (named.dropWhile isNameChar).dropPrefix? l.binding.2.1.toList
  if indexed.dropWhile Char.isDigit = l.binding.2.2.toList then
    some (.ofList (named.takeWhile isNameChar),
      Nat.ofDigitChars 10 (indexed.takeWhile Char.isDigit) 0)
  else none

/-- The expression of a line that gives the output. -/
def output? (line : List Char) : Option (List Char) :=
  (line.dropPrefix? l.output.1.toList).bind fun rest => rest.dropSuffix? l.output.2.toList

/-- The netlist of a document, none unless it gives exactly one output. -/
def read (text : String) : Option Netlist :=
  let lines := text.toList.splitOn '\n'
  match lines.filterMap l.output? with
  | [output] =>
    ((l.lex output).bind Expr.parse).map fun e => ⟨lines.filterMap l.binding?, e⟩
  | _ => none

end Language

end TwoLevel
