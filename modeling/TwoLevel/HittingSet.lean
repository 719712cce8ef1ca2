import TwoLevel.HittingSet.Row
import TwoLevel.MaxSat

/-! # Minimum hitting sets

A hitting set of rows holds a choice of each row.  `minimum?` finds a smallest one: it looks for
a hitting set within a budget that it raises from a lower bound on, by taking or refusing a choice
of a shortest row.  Before that the rows are made smaller: rows that another row takes care of and
choices that another one can stand for are dropped, and rows that share no choices, not even by
way of other rows, are hit apart.

`solve` offers that search as a solver of weighted clauses, for formulas that ask for a smallest
hitting set: their hard clauses are the rows, and each choice is left out at the same price. -/

namespace TwoLevel.HittingSet

/-! ### Smaller rows -/

/-- The rows left when a choice is taken. -/
def take (c : Nat) (rows : List Row) : List Row := rows.filter fun r => !r.offers c

/-- The rows left when a choice is refused. -/
def refuse (c : Nat) (rows : List Row) : List Row := restrict (· ≠ c) rows

/-- The rows that lie around no other row, the last one of equal rows. -/
def minimal : List Row → List Row
  | [] => []
  | r :: rows =>
    let rest := minimal rows
    if rest.any (·.within r) then rest else r :: rest.filter (!r.within ·)

/-- Whether another choice is listed wherever a choice is. -/
def replaceable (rows : List Row) (c : Nat) : Bool :=
  match rows.filter (·.offers c) with
  | [] => false
  | r :: rs => r.choices.any fun d => d ≠ c && rs.all (·.offers d)

/-- Minimal rows without the choices that another one can stand for. -/
def reduce (rows : List Row) : List Row :=
  (choices rows).foldl (fun rows c => if replaceable rows c then refuse c rows else rows)
    (minimal rows)

/-! ### Search -/

/-- The rows that a chain of at most `steps` rows links to a reached choice, and the other ones;
the former are all rows if the chain would have to be longer. -/
def linked : (steps : Nat) → (reached : Array Nat) → List Row → List Row × List Row
  | 0, _, rows => (rows, [])
  | n + 1, reached, rows =>
    let (near, far) := rows.partition fun r => r.choices.any fun c => reached.getD c 0 ≠ 0
    if near.isEmpty then ([], far)
    else
      let (inside, outside) := linked n (degrees near) far
      (near ++ inside, outside)

/-- The shorter one of two rows, the first of two of one length. -/
def shorter (r s : Row) : Row := if s.choices.length < r.choices.length then s else r

/-- The choice of a shortest row that most rows list. -/
def branch? (rows : List Row) : Option Nat :=
  match rows with
  | [] => none
  | r :: rs =>
    let degrees := degrees rows
    match (rs.foldl shorter r).choices with
    | [] => none
    | c :: cs => some (cs.foldl (fun c d => if degrees.getD c 0 < degrees.getD d 0 then d else c) c)

/-- The first result for a budget between two bounds. -/
def deepen (low high : Nat) (attempt : Nat → Option (List Nat)) : Option (List Nat) :=
  (List.range (high + 1 - low)).findSome? fun k => attempt (low + k)

/-- Take a choice of a shortest row, or refuse it. -/
def branch (attempt : Nat → List Row → Option (List Nat)) (budget : Nat) (rows : List Row) :
    Option (List Nat) :=
  match branch? rows with
  | none => none
  | some c =>
    match attempt (budget - 1) (take c rows) with
    | some chosen => some (c :: chosen)
    | none => attempt budget (refuse c rows)

/-- Hit some rows as cheaply as possible, and with what is left of the budget other ones. -/
def join (attempt : Nat → List Row → Option (List Nat)) (budget : Nat)
    (inside outside : List Row) : Option (List Nat) :=
  let near := deepen (bound (fill inside)) (budget - bound (fill outside)) fun k => attempt k inside
  near.bind fun chosen => (attempt (budget - chosen.length) outside).map (chosen ++ ·)

/-- Hit the rows that are linked to a first one apart from the other ones, if there are any. -/
def divide (attempt : Nat → List Row → Option (List Nat)) (budget : Nat) (first : Row)
    (others : List Row) : Option (List Nat) :=
  let (near, outside) := linked others.length (degrees [first]) others
  let inside := first :: near
  if outside.isEmpty then branch attempt budget inside else join attempt budget inside outside

/-- Give rows up whose weights show that the budget is too small, and make the other ones smaller
before they are divided. -/
def descend (attempt : Nat → List Row → Option (List Nat)) (budget : Nat) (rows : List Row) :
    Option (List Nat) :=
  if budget < bound rows then none
  else
    match reduce (strip budget rows) with
    | [] => some []
    | first :: others => if budget = 0 then none else divide attempt budget first others

/-- A hitting set of at most `budget` choices, if there is one and `fuel` exceeds the size of the
rows. -/
def search : (fuel budget : Nat) → List Row → Option (List Nat)
  | 0, _, _ => none
  | fuel + 1, budget, rows =>
    descend (search fuel) budget (refine 30 budget ((budget + 1) * unit) rows)

/-- A number that shrinks with every row and choice that is dropped. -/
def size (rows : List Row) : Nat := rows.foldr (fun r n => r.choices.length + 1 + n) 0

/-- A row before the first one that is longer. -/
def place (r : Row) : List Row → List Row
  | [] => [r]
  | s :: rows =>
    if r.choices.length ≤ s.choices.length then r :: s :: rows else s :: place r rows

/-- Rows of some choices each, short ones first, made smaller and with good weights. -/
def prepared (lists : List (List Nat)) : List Row :=
  let rows := fill (reduce ((lists.map fun cs => ⟨cs, 0⟩).foldr place []))
  refine 200 rows.length (worth rows * 21 / 20 + unit) rows

/-- A smallest hitting set, nothing if a row has no choices. -/
def minimum? (lists : List (List Nat)) : Option (List Nat) :=
  let rows := prepared lists
  deepen (bound rows) rows.length fun budget => search (size rows + 1) budget rows

/-- The variables of a smallest hitting set of the hard clauses. -/
def solve : MaxSat.Solver := fun f =>
  (minimum? (f.hard.map fun c => c.map Int.toNat)).map fun chosen => chosen.map Int.ofNat

end TwoLevel.HittingSet
