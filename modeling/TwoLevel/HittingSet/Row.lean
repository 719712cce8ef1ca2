/-! # Weighed rows

A row lists choices, and a hitting set holds a choice of each row.  Weights on the rows bound the
size of hitting sets from below: all weights together are at most the loads of the choices in a
hitting set, and a load beyond one unit is counted in the excess.  So `bound` holds whatever the
weights are, and `refine` only looks for weights that make it large. -/

namespace TwoLevel.HittingSet

/-- Choices, one of which is to be taken, with a weight. -/
structure Row where
  choices : List Nat
  weight : Nat
deriving DecidableEq, Repr

namespace Row

/-- Whether a row lists a choice. -/
def offers (r : Row) (c : Nat) : Bool := r.choices.contains c

/-- Whether another row lists all choices of a row. -/
def within (r s : Row) : Bool := r.choices.all s.offers

/-- The largest entry at the choices of a row. -/
def fullest (loads : Array Nat) (r : Row) : Nat :=
  r.choices.foldl (fun n c => max n (loads.getD c 0)) 0

/-- A weight more on every choice of a row. -/
def load (weight : Nat) (loads : Array Nat) (r : Row) : Array Nat :=
  r.choices.foldl (fun a c => a.setIfInBounds c (a.getD c 0 + weight)) loads

end Row

/-! ### Rows -/

/-- The rows with only some of their choices. -/
def restrict (keep : Nat → Bool) (rows : List Row) : List Row :=
  rows.map fun r => ⟨r.choices.filter keep, r.weight⟩

/-! ### Loads -/

/-- One more than the largest choice. -/
def width (rows : List Row) : Nat :=
  rows.foldl (fun n r => r.choices.foldl (fun n c => max n (c + 1)) n) 0

/-- The sum for each choice of what the rows that list it count. -/
def tally (count : Row → Nat) (rows : List Row) : Array Nat :=
  rows.foldl (fun a r => r.load (count r) a) (Array.replicate (width rows) 0)

/-- The load of each choice: the weight of the rows that list it. -/
def loads : List Row → Array Nat := tally Row.weight

/-- The degree of each choice: the number of rows that list it. -/
def degrees : List Row → Array Nat := tally fun _ => 1

/-- Some row's choices, each of them once and ascending. -/
def choices (rows : List Row) : List Nat :=
  let degrees := degrees rows
  (List.range degrees.size).filter fun c => degrees.getD c 0 ≠ 0

/-! ### Bound -/

/-- The load up to which a choice has no excess. -/
def unit : Nat := 1000000

/-- What the loads exceed a unit by, in all. -/
def excess (loads : Array Nat) : Nat := loads.foldl (fun n load => n + (load - unit)) 0

/-- The weights of all rows together. -/
def weights (rows : List Row) : Nat := rows.foldr (fun r n => r.weight + n) 0

/-- The weight of the rows less the excess of their choices. -/
def worth (rows : List Row) : Nat := weights rows - excess (loads rows)

/-- A size that every hitting set has: it is worth at most a unit for each choice. -/
def bound (rows : List Row) : Nat := (worth rows + unit - 1) / unit

/-- The rows without the choices that are in no hitting set within the budget: with such a choice,
which leaves a part of its unit unused, a hitting set is worth more than the budget. -/
def strip (budget : Nat) (rows : List Row) : List Row :=
  let loads := loads rows
  let worth := worth rows
  restrict (fun c => worth + (unit - loads.getD c 0) ≤ budget * unit) rows

/-! ### Better weights -/

/-- The rows with new weights, as far as there are any. -/
def reweigh : List Row → List Nat → List Row
  | r :: rows, w :: ws => ⟨r.choices, w⟩ :: reweigh rows ws
  | rows, _ => rows

/-- The weights of rows, one after the other raised by what all choices of the row have left of
their unit. -/
def filled (loads : Array Nat) : List Row → List Nat
  | [] => []
  | r :: rows =>
    let room := unit - r.fullest loads
    (r.weight + room) :: filled (r.load room loads) rows

/-- The rows with weights raised as long as that leaves the excess as it is. -/
def fill (rows : List Row) : List Row := reweigh rows (filled (loads rows) rows)

/-- The weights after a step by which the worth is to rise by `height`: up for a row without an
exceeding choice, down for one with several. -/
def steered (height : Int) (pace : Nat) (loads : Array Nat) (rows : List Row) : List Nat :=
  let slopes : List Int := rows.map fun r => 1 - r.choices.countP fun c => unit < loads.getD c 0
  let steepness : Int := slopes.foldl (fun n s => n + s * s) 0
  let step : Int := height * pace / (100 * max steepness 1)
  rows.zipWith (fun r s => (r.weight + step * s).toNat) slopes

/-- The worthiest rows of some steps toward a worth of `target`, among them the given best ones
with the worth `top`; the steps end when a hitting set needs more than the budget. -/
def climb (budget target : Nat) : Nat → Nat → List Row → Nat → List Row → List Row
  | 0, _, _, _, best => best
  | n + 1, pace, rows, top, best =>
    let loads := loads rows
    let worth := weights rows - excess loads
    let best := if top < worth then rows else best
    if budget * unit < worth then best
    else
      climb budget target n (pace * 95 / 100)
        (reweigh rows (steered (target - worth) pace loads rows)) (max top worth) best

/-- The rows with better weights, after at most `steps` steps. -/
def refine (steps budget target : Nat) (rows : List Row) : List Row :=
  fill (climb budget target steps 200 rows 0 rows)

end TwoLevel.HittingSet
