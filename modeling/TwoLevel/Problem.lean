import TwoLevel.Cover
import TwoLevel.HittingSet
import TwoLevel.Primes
import TwoLevel.TruthTable

/-! # Minimisation problems

A problem lists the terms where a function must be one and those where it is unconstrained, and
fixes the number of its inputs.  `Problem.make` checks that number against the terms;
`Problem.solve` goes from a problem and its prime implicants to a solution. -/

namespace TwoLevel

/-- A function to minimise. -/
structure Problem where
  minterms : List Term
  dontCares : List Term
  width : Int

namespace Problem

/-! ### Building -/

/-- All sources of a list of terms, ascending. -/
def sourcesOf (terms : List Term) : OrdSet Int := .unions (terms.map Term.sources)

/-- The number of inputs that hold every source and every stored position, at least one. -/
def widthNeeded (terms : List Term) : Nat :=
  max (TruthTable.bitsFor (sourcesOf terms).toList)
    ((terms.map fun t => t.pattern.length).foldr max 0)

/-- A problem over `width` inputs, or over as many as its terms need.  A given width must hold the
terms and must not be above `maxWidth`; the first of these is checked first. -/
def make (minterms dontCares : List Term) (width : Option Int) : Except Fault Problem :=
  let needed := widthNeeded (minterms ++ dontCares)
  match width with
  | none => .ok ⟨minterms, dontCares, needed⟩
  | some width =>
    if width < needed then .error (.widthTooSmall width needed)
    else if (maxWidth : Int) < width then .error (.widthTooLarge width)
    else .ok ⟨minterms, dontCares, width⟩

/-- Read a problem, the required terms before the unconstrained ones. -/
def read (minterms dontCares : List Term.Spelling) (width : Option Int) : Except Fault Problem := do
  make (← Term.readAll minterms) (← Term.readAll dontCares) width

/-! ### Solving -/

variable (p : Problem)

/-- The inputs where the function must be one. -/
def required : OrdSet Int := sourcesOf p.minterms

/-- The inputs where the function is unconstrained as far as the unconstrained terms go. -/
def unconstrained : OrdSet Int := sourcesOf p.dontCares

/-- The prime implicants of a problem, in canonical order.  `Problem.solve` takes them in any order,
which decides only among covers of one size. -/
def primes : List Term := primeImplicants p.minterms p.dontCares

/-- The solution with the given implicants. -/
def solution (primes implicants : List Term) (method : Method) : Solution where
  implicants := implicants
  primes := primes
  method := method.name
  width := p.width
  cost := (Cost.ofTerms p.width implicants).total
  minterms := p.required.toList
  dontCares := (p.unconstrained \ p.required).toList

/-- Choose a cover from a list of implicants, by search with the given solver. -/
def solveWith (solver : MaxSat.Solver) (primes : List Term) (method : Method) :
    Except Fault Solution :=
  (method.coverWith solver primes p.minterms).map fun chosen =>
    p.solution primes (Cover.pick chosen primes) method

/-- Choose a cover from a list of implicants. -/
def solve : List Term → Method → Except Fault Solution := p.solveWith HittingSet.solve

/-- Find the prime implicants and choose a cover from them. -/
def minimize (method : Method) : Except Fault Solution := p.solve p.primes method

/-- The events of a minimisation, by search with the given solver. -/
def eventsWith (solver : MaxSat.Solver) (method : Method) : List Event :=
  findPrimesEvents p.minterms p.dontCares ++ method.eventsWith solver p.primes p.minterms

end Problem

end TwoLevel
