import TwoLevel.Solution
import TwoLevel.Text.Numeral

/-! # Truth tables

A function can be given as its truth table, one character for each input in ascending order: `1`
and `0` for its value, and `-`, `x` or `X` where it is unconstrained.  In the other direction, a
solution is shown as a table that compares what its function asks for with the value of the sum of
products at every input. -/

namespace TwoLevel

/-! ### Reading -/

namespace TruthTable

/-- What a table asks for at one input. -/
inductive Entry where
  | on
  | off
  | free
deriving DecidableEq, Repr

/-- The entry that a character stands for. -/
def Entry.ofChar? : Char → Option Entry
  | '1' => some on
  | '0' => some off
  | '-' => some free
  | 'x' => some free
  | 'X' => some free
  | _ => none

/-- The character an entry is shown as. -/
def Entry.char : Entry → Char
  | on => '1'
  | off => '0'
  | free => '-'

/-- The indices at which a list has an entry. -/
def indicesOf (entry : Entry) (entries : List Entry) : List Int :=
  (entries.zipIdx.filter fun e => e.1 = entry).map fun e => Int.ofNat e.2

/-- The required and the unconstrained inputs of a table, ascending. -/
def read (text : String) : Except Fault (List Int × List Int) :=
  match text.toList.findIdx? fun c => (Entry.ofChar? c).isNone with
  | some position => .error (.invalidCharacter text position)
  | none =>
    let entries := text.toList.filterMap Entry.ofChar?
    .ok (indicesOf .on entries, indicesOf .free entries)

/-- The least number of bits, at least one, that hold the absolute value of every number. -/
def bitsFor (values : List Int) : Nat :=
  max 1 ((values.map fun v => Pattern.bitLength v.natAbs).foldr max 0)

/-- The least number of inputs, at least one, of a function with a table of this length. -/
def widthOf (text : String) : Nat := max 1 (Pattern.bitLength (text.length - 1))

/-! ### Showing -/

/-- An input in base two, filled up with zeros after its sign to `width` characters. -/
def bits (value width : Int) : Except Fault String :=
  if width < 0 then .error .negativeWidth else .ok (Text.binary width.toNat value)

/-- One line of a comparison. -/
structure Row where
  input : Int
  expected : Entry
  actual : Bool
deriving DecidableEq, Repr

namespace Row

open Text

/-- Whether the value is as expected. -/
def agrees (r : Row) : Bool :=
  match r.expected with
  | .on => r.actual
  | .off => !r.actual
  | .free => true

/-- The characters of the column that shows inputs. -/
def bitColumn (width : Nat) : Nat := max width 5

/-- A line of a table for `width` inputs. -/
def text (width : Nat) (r : Row) : String :=
  " | ".intercalate
    [padLeft 6 ' ' (toString r.input), padLeft (bitColumn width) ' ' (binary width r.input),
      padLeft 8 ' ' (r.expected.char.toString), padLeft 6 ' ' (if r.actual then "1" else "0"),
      if r.agrees then "." else "X"]

end Row

end TruthTable

namespace Solution

open TruthTable Text

/-- The entry for what is asked for; a required input is never unconstrained. -/
def Demand.entry (d : Demand) : Entry :=
  if d.required then .on else if d.free then .free else .off

/-- The comparison at every input, ascending. -/
def rows (s : Solution) : Except Fault (List Row) :=
  s.demands.map fun demands => demands.map fun d => ⟨d.input, d.entry, s.value d.input⟩

/-- The lines of a table with the given rows. -/
def tableLines (width : Nat) (rows : List Row) : List String :=
  ["Truth Table Verification", rule 40 '=',
    " | ".intercalate
      [padLeft 6 ' ' "Value", padLeft (Row.bitColumn width) ' ' "Input", "Expected", "Actual",
        "Match"],
    rule 40 '-'] ++
  rows.map (Row.text width) ++
  [rule 40 '-', "All correct: " ++ if rows.all Row.agrees then "True" else "False"]

/-- The table of a solution, every line ended. -/
def table (s : Solution) : Except Fault String :=
  s.rows.map fun rows => String.join ((tableLines s.width.toNat rows).map (· ++ "\n"))

/-- Whether the sum of products agrees with its function in every row. -/
def allAgree (s : Solution) : Except Fault Bool := s.rows.map fun rows => rows.all Row.agrees

end Solution

end TwoLevel
