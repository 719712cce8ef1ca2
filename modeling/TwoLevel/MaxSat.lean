/-! # Weighted clauses

A formula over numbered variables has hard clauses, which have to hold, and soft clauses, each with
a weight that is paid where it does not hold.  A solver is a function from formulas to models: it
gives the literals that hold, or nothing when the hard clauses cannot hold together.  What it has
to do is said by `Solver.OptimalFor`; how it does so is left open. -/

namespace TwoLevel.MaxSat

/-! ### Formulas -/

/-- A variable, or under a minus sign its negation; variables are counted from one. -/
abbrev Literal := Int

/-- Literals, one of which is to hold. -/
abbrev Clause := List Literal

/-- Clauses that have to hold, and clauses with what it costs when they do not. -/
structure Formula where
  hard : List Clause
  soft : List (Clause × Nat)

/-- Whether a literal holds when the variables have the given values. -/
def Literal.holds (value : Nat → Bool) (l : Literal) : Bool :=
  if l < 0 then !value l.natAbs else value l.natAbs

/-- Whether some literal of a clause holds. -/
def Clause.holds (value : Nat → Bool) (c : Clause) : Bool := c.any (Literal.holds value)

namespace Formula

/-- The variables that occur in a formula. -/
def vars (f : Formula) : List Nat :=
  (f.hard ++ f.soft.map Prod.fst).flatten.map Int.natAbs

/-- Whether all hard clauses hold. -/
def holds (f : Formula) (value : Nat → Bool) : Bool := f.hard.all (Clause.holds value)

/-- The weights of the soft clauses that do not hold. -/
def cost (f : Formula) (value : Nat → Bool) : Nat :=
  ((f.soft.filter fun s => !Clause.holds value s.1).map Prod.snd).foldr (· + ·) 0

end Formula

/-! ### Solvers -/

/-- The literals that hold in a model of a formula, nothing when there is none. -/
abbrev Solver := Formula → Option (List Literal)

/-- The solver finds a model of least cost of every formula of some kind that has one. -/
structure Solver.OptimalFor (solver : Solver) (kind : Formula → Prop) : Prop where
  /-- The variables listed are those with the value true, and no other values cost less. -/
  least : ∀ f, kind f → ∀ model, solver f = some model → ∃ value : Nat → Bool,
    (∀ x ∈ f.vars, x ≠ 0 → ((x : Int) ∈ model ↔ value x = true)) ∧ f.holds value = true ∧
      ∀ other, f.holds other = true → f.cost value ≤ f.cost other
  /-- Nothing is found only where there is no model. -/
  none : ∀ f, kind f → solver f = none → ∀ value, f.holds value = false

/-- The solver finds a model of least cost of every formula that has one. -/
def Solver.Optimal (solver : Solver) : Prop := solver.OptimalFor fun _ => True

theorem Solver.Optimal.optimalFor {solver : Solver} (h : solver.Optimal) (kind : Formula → Prop) :
    solver.OptimalFor kind :=
  ⟨fun f _ => h.least f trivial, fun f _ => h.none f trivial⟩

end TwoLevel.MaxSat
