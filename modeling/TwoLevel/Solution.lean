import TwoLevel.Term

/-! # Minimised functions

A solution is a sum of products together with the function it was made for: the required inputs,
the unconstrained ones, and the number of inputs.  It can come out of a minimisation, or be put
together by hand, so nothing ties its parts to each other but `Solution.mismatches`. -/

namespace TwoLevel

/-! ### Cost -/

/-- What a two-level circuit costs; complements of inputs are free. -/
structure Cost where
  /-- Inputs of AND gates, which only terms of two and more literals need. -/
  andInputs : Int
  /-- Inputs of the OR gate, one for each term. -/
  orInputs : Int
  /-- Terms of two and more literals. -/
  andGates : Int
  /-- All terms. -/
  terms : Int
deriving DecidableEq, Repr

namespace Cost

/-- The number of inputs of all gates. -/
def total (c : Cost) : Int := c.andInputs + c.orInputs

/-- The cost of a sum of products with `width` inputs. -/
def ofTerms (width : Int) (terms : List Term) : Cost :=
  let gates := (terms.map (Term.literals width)).filter fun literals => 2 ≤ literals
  ⟨(gates.foldr (· + ·) 0 : Nat), terms.length, gates.length, terms.length⟩

end Cost

/-! ### Solutions -/

/-- A sum of products and the function it is meant to compute. -/
structure Solution where
  implicants : List Term
  primes : List Term
  /-- The name of the backend that chose the implicants. -/
  method : String
  width : Int
  cost : Int
  /-- The inputs where the function is one. -/
  minterms : List Int
  /-- The inputs where the function is unconstrained. -/
  dontCares : List Int

namespace Solution

/-- The value of the sum of products at an input. -/
def value (s : Solution) (input : Int) : Bool := Term.anyCovers s.implicants input

/-- All inputs of the function, ascending. -/
def inputs (s : Solution) : Except Fault (List Int) :=
  if s.width < 0 then .error .negativeWidth
  else .ok ((List.range (1 <<< s.width.toNat)).map Int.ofNat)

theorem inputs_ascending {s : Solution} {inputs : List Int} (h : s.inputs = .ok inputs) :
    Ascending inputs := by
  rw [Solution.inputs] at h
  split at h
  · exact nomatch h
  · rw [← Except.ok.inj h]
    refine List.pairwise_map.mpr (List.pairwise_lt_range.imp fun hlt => ?_)
    exact Std.compare_eq_lt.mpr (Int.ofNat_lt.mpr hlt)

/-! ### What is asked for -/

/-- An input with whether the function is one there and whether it is unconstrained there. -/
structure Demand where
  input : Int
  required : Bool
  free : Bool
deriving DecidableEq, Repr

/-- What is asked for at an input. -/
def demand (s : Solution) (input : Int) : Demand :=
  ⟨input, decide (input ∈ s.minterms), decide (input ∈ s.dontCares)⟩

/-- What is asked for at each of some ascending inputs. -/
def demandsAt (s : Solution) (inputs : List Int) : List Demand :=
  inputs.zipWith (fun input marks => ⟨input, marks.1, marks.2⟩)
    ((Ascending.marks inputs (Ascending.sort s.minterms)).zip
      (Ascending.marks inputs (Ascending.sort s.dontCares)))

theorem demandsAt_eq_map (s : Solution) {inputs : List Int} (h : Ascending inputs) :
    s.demandsAt inputs = inputs.map s.demand := by
  rw [demandsAt, Ascending.marks_eq_map h (Ascending.sort_ascending _),
    Ascending.marks_eq_map h (Ascending.sort_ascending _), List.zip_map', List.zipWith_map_right,
    List.zipWith_self]
  simp only [Ascending.mem_sort]
  rfl

/-- What is asked for at all inputs, ascending. -/
def demands (s : Solution) : Except Fault (List Demand) := s.inputs.map s.demandsAt

theorem demands_eq_map (s : Solution) :
    s.demands = s.inputs.map fun inputs => inputs.map s.demand := by
  rw [demands]
  cases h : s.inputs with
  | error f => rfl
  | ok inputs => exact congrArg Except.ok (s.demandsAt_eq_map (inputs_ascending h))

/-! ### Verification -/

/-- An input where the sum of products has the wrong value. -/
structure Mismatch where
  input : Int
  expected : Bool
  actual : Bool
deriving DecidableEq, Repr

/-- A mismatch in words. -/
def Mismatch.text (m : Mismatch) : String :=
  "input " ++ toString m.input ++ ": expected " ++ toString m.expected.toNat ++ ", got " ++
    toString m.actual.toNat

/-- The mismatch with what is asked for at an input, where unconstrained inputs have none. -/
def mismatch? (s : Solution) (d : Demand) : Option Mismatch :=
  let actual := s.value d.input
  if d.free ∨ actual = d.required then none else some ⟨d.input, d.required, actual⟩

/-- All mismatches, ascending. -/
def mismatches (s : Solution) : Except Fault (List Mismatch) :=
  s.demands.map fun demands => demands.filterMap s.mismatch?

/-- Whether the sum of products computes its function. -/
def verified (s : Solution) : Except Fault Bool := s.mismatches.map List.isEmpty

end Solution

end TwoLevel
