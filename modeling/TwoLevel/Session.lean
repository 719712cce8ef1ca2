import TwoLevel.Problem

/-! # Sessions

A session works on one problem.  Its terms and its width can change between two questions, and the
prime implicants found last are kept until they are asked for again: a cover is chosen from the
kept ones, also when the terms have changed since.  A step that fails leaves the session as it
was. -/

namespace TwoLevel

/-- A problem and the prime implicants found for it, if any were found yet. -/
structure Session where
  problem : Problem
  primes : Option (List Term)

namespace Session

/-- What a session can be asked to do. -/
inductive Step where
  /-- Find the prime implicants again. -/
  | findPrimes
  /-- Show the kept prime implicants. -/
  | showPrimes
  /-- Show the sources and the width. -/
  | showProblem
  /-- Choose a cover with the backend of a name. -/
  | solve (method : String)
  /-- Append a required term. -/
  | addMinterm (spelling : Term.Spelling)
  /-- Append an unconstrained term. -/
  | addDontCare (spelling : Term.Spelling)
  /-- Remove a required term; negative indices count from the end. -/
  | dropMinterm (index : Int)
  /-- Set the width, without a check. -/
  | setWidth (width : Int)

/-- What a step shows. -/
inductive Answer where
  | primes (terms : Option (List Term))
  | problem (required unconstrained : List Int) (width : Int)
  | solution (s : Solution)
  | done

/-- The session before any question. -/
def start (p : Problem) : Session := ⟨p, none⟩

/-- The kept prime implicants, or those that `find` gives for the problem when none are kept. -/
def primesBy (find : Problem → List Term) (s : Session) : List Term :=
  s.primes.getD (find s.problem)

/-- The kept prime implicants, or those of the problem when none are kept. -/
def primesInUse : Session → List Term := primesBy Problem.primes

/-- The place in a list of `length` entries that a possibly negative index means. -/
def place? (length : Nat) (index : Int) : Option Nat :=
  let place := if index < 0 then index + length else index
  if 0 ≤ place ∧ place < length then some place.toNat else none

/-- The session after a step, and what the step shows or why it failed, when prime implicants are
found by `find` and covers by search are chosen with the given solver. -/
def stepBy (find : Problem → List Term) (solver : MaxSat.Solver) (s : Session) :
    Step → Session × Except Fault Answer
  | .findPrimes =>
    let found := find s.problem
    (⟨s.problem, some found⟩, .ok (.primes (some found)))
  | .showPrimes => (s, .ok (.primes s.primes))
  | .showProblem =>
    (s, .ok (.problem s.problem.required.toList s.problem.unconstrained.toList s.problem.width))
  | .solve name =>
    match Method.ofName name with
    | .error f => (s, .error f)
    | .ok method =>
      let primes := s.primesBy find
      (⟨s.problem, some primes⟩, (s.problem.solveWith solver primes method).map .solution)
  | .addMinterm spelling =>
    match spelling.read with
    | .error f => (s, .error f)
    | .ok t =>
      (⟨{ s.problem with minterms := s.problem.minterms ++ [t] }, s.primes⟩, .ok .done)
  | .addDontCare spelling =>
    match spelling.read with
    | .error f => (s, .error f)
    | .ok t =>
      (⟨{ s.problem with dontCares := s.problem.dontCares ++ [t] }, s.primes⟩, .ok .done)
  | .dropMinterm index =>
    match place? s.problem.minterms.length index with
    | none => (s, .error (.noSuchEntry index))
    | some i =>
      (⟨{ s.problem with minterms := s.problem.minterms.eraseIdx i }, s.primes⟩, .ok .done)
  | .setWidth width => (⟨{ s.problem with width := width }, s.primes⟩, .ok .done)

/-- The session after a step, and what the step shows or why it failed, when covers by search are
chosen with the given solver. -/
def stepWith : MaxSat.Solver → Session → Step → Session × Except Fault Answer :=
  stepBy Problem.primes

/-- The session after a step, and what the step shows or why it failed. -/
def step : Session → Step → Session × Except Fault Answer := stepWith HittingSet.solve

/-- What the steps of a session show, one after the other. -/
def run (s : Session) : List Step → List (Except Fault Answer)
  | [] => []
  | a :: steps => (s.step a).2 :: run (s.step a).1 steps

end Session

end TwoLevel
