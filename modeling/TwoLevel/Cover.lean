import TwoLevel.Expansion
import TwoLevel.MaxSat

/-! # Minimum covers

Two backends choose implicants that together stand for every required source, as few as possible.
One expands the chart into products and takes the smallest one; the other writes the chart as
weighted clauses and hands them to a solver.  Both report the smallest source that no implicant
stands for. -/

namespace TwoLevel

namespace Cover

/-- The implicants at the chosen indices, in their order. -/
def pick (chosen : OrdSet Nat) (implicants : List Term) : List Term :=
  (implicants.zipIdx.filter fun entry => entry.2 ∈ chosen).map Prod.fst

/-! ### By products -/

/-- The smallest product of a chart, nothing when nothing is required. -/
def ofChart (chart : Chart Nat) : Except Fault (OrdSet Nat) :=
  if chart.isEmpty then .ok ∅ else (Products.ofChart chart).minimum

/-- The indices of a minimum cover, of all those the lexicographically smallest. -/
def byProducts (implicants minterms : List Term) : Except Fault (OrdSet Nat) :=
  (Chart.ofTerms implicants minterms).bind ofChart

/-- The events of choosing a cover by products. -/
def productEvents (implicants minterms : List Term) : List Event :=
  let rows := (Chart.coverage implicants minterms).rows
  let chosen : List Event :=
    match Chart.ofTerms implicants minterms with
    | .error _ => []
    | .ok chart =>
      let products := Products.ofChart chart
      if chart.isEmpty then []
      else Products.events ∅ rows ++
        [.coverSelected (products.least?.getD ∅).size implicants.length products.size]
  Chart.events rows ++ chosen

/-! ### By weighted clauses -/

/-- The variable of an index, without a sign; variables are counted from one. -/
def literal (i : Nat) : MaxSat.Literal := i + 1

/-- A chart over `count` implicants as weighted clauses: some choice of every row is taken, and each
implicant that is not left out costs one. -/
def formula (count : Nat) (chart : Chart Nat) : MaxSat.Formula where
  hard := chart.rows.map fun row => row.2.toList.map literal
  soft := (List.range count).map fun i => ([-literal i], 1)

/-- The indices below `count` whose variables a model lists without a sign. -/
def listed (count : Nat) (model : List MaxSat.Literal) : OrdSet Nat :=
  .ofList ((List.range count).filter fun i => literal i ∈ model.filter fun l => 0 < l)

/-- The indices that a solver chooses for a chart, none when nothing is required. -/
def solved (solver : MaxSat.Solver) (count : Nat) (chart : Chart Nat) :
    Except Fault (OrdSet Nat) :=
  if chart.isEmpty then .ok ∅
  else
    match solver (formula count chart) with
    | none => .error .noCover
    | some model => .ok (listed count model)

/-- The indices of the cover that a solver chooses. -/
def bySolver (solver : MaxSat.Solver) (implicants minterms : List Term) :
    Except Fault (OrdSet Nat) :=
  (Chart.ofTerms implicants minterms).bind (solved solver implicants.length)

/-- The events of choosing a cover with a solver. -/
def solverEvents (solver : MaxSat.Solver) (implicants minterms : List Term) : List Event :=
  let rows := (Chart.coverage implicants minterms).rows
  let chosen : List Event :=
    match bySolver solver implicants minterms with
    | .error _ => []
    | .ok chosen => if rows.isEmpty then [] else [.searchSelected chosen.size]
  Chart.events rows ++ chosen

end Cover

/-! ### Choice of the backend -/

/-- A backend that chooses covers. -/
inductive Method where
  | products
  | search
deriving DecidableEq, Repr

namespace Method

/-- The name of a backend. -/
def name : Method → String
  | products => "petrick"
  | search => "maxsat"

/-- The backend of a name. -/
def ofName (name : String) : Except Fault Method :=
  if name = products.name then .ok products
  else if name = search.name then .ok search
  else .error (.unknownMethod (some name))

/-- The indices of the cover that a backend chooses, the one by search with a solver. -/
def coverWith (solver : MaxSat.Solver) : Method → List Term → List Term → Except Fault (OrdSet Nat)
  | products => Cover.byProducts
  | search => Cover.bySolver solver

/-- The events of that choice. -/
def eventsWith (solver : MaxSat.Solver) : Method → List Term → List Term → List Event
  | products => Cover.productEvents
  | search => Cover.solverEvents solver

end Method

end TwoLevel
