import TwoLevel.Proofs.Session

/-! # Steps that fail

A step that fails leaves the session as it was (`eq_of_stepWith_error`).  The cover step is the one
where this takes an argument: it keeps the primes it chooses from before it has an answer.  Kept
primes are kept again, and where none were kept the step cannot fail, because primes just found
stand for every required source (`exists_answer_of_primes_eq_none`).

So the steps that fail can be left out of a run, and the session it ends in stays the same
(`after_answered`). -/

namespace TwoLevel

open MaxSat

variable {solver : Solver}

namespace Session

/-! ### One step -/

/-- Where no primes are kept, a cover step has an answer. -/
theorem exists_answer_of_primes_eq_none (h : solver.OptimalFor Cover.IsFormula) {s : Session}
    (hnone : s.primes = none) {name : String} {m : Method} (hname : Method.ofName name = .ok m) :
    ∃ found, (s.stepWith solver (.solve name)).2 = .ok (.solution found) := by
  have hfresh : s.primesInUse = s.problem.primes := by
    unfold primesInUse primesBy
    rw [hnone]
    rfl
  have hcovered : ¬ ∃ v, Cover.Uncovered s.primesInUse s.problem.minterms v := by
    rw [hfresh]
    exact s.problem.hasPrimes_primes.not_uncovered
  obtain ⟨found, hfound, -⟩ := s.exists_answer_of_covered hname h hcovered
  exact ⟨found, hfound⟩

/-- A cover step that fails had primes to choose from, and keeps them. -/
theorem eq_of_solve_error (h : solver.OptimalFor Cover.IsFormula) {s : Session} {name : String}
    {f : Fault} (hf : (s.stepWith solver (.solve name)).2 = .error f) :
    (s.stepWith solver (.solve name)).1 = s := by
  cases hname : Method.ofName name with
  | error g => simp only [stepWith, stepBy, hname]
  | ok m =>
      cases hprimes : s.primes with
      | none =>
          obtain ⟨found, hfound⟩ := exists_answer_of_primes_eq_none h hprimes hname
          rw [hfound] at hf
          cases hf
      | some kept =>
          have huse : some s.primesInUse = s.primes := by
            unfold primesInUse primesBy
            rw [hprimes]
            rfl
          rw [stepWith_solve s hname, huse]

/-- **A step that fails leaves the session as it was.** -/
theorem eq_of_stepWith_error (h : solver.OptimalFor Cover.IsFormula) {s : Session} {a : Step}
    {f : Fault} (hf : (s.stepWith solver a).2 = .error f) : (s.stepWith solver a).1 = s := by
  cases a with
  | findPrimes => cases hf
  | showPrimes => cases hf
  | showProblem => cases hf
  | setWidth width => cases hf
  | solve name => exact eq_of_solve_error h hf
  | addMinterm spelling =>
      cases hread : spelling.read with
      | error g => simp only [stepWith, stepBy, hread]
      | ok t =>
          simp only [stepWith, stepBy, hread] at hf
          cases hf
  | addDontCare spelling =>
      cases hread : spelling.read with
      | error g => simp only [stepWith, stepBy, hread]
      | ok t =>
          simp only [stepWith, stepBy, hread] at hf
          cases hf
  | dropMinterm index =>
      cases hplace : place? s.problem.minterms.length index with
      | none => simp only [stepWith, stepBy, hplace]
      | some i =>
          simp only [stepWith, stepBy, hplace] at hf
          cases hf

/-! ### A run -/

/-- The session after some steps. -/
def after (solver : Solver) (s : Session) (steps : List Step) : Session :=
  steps.foldl (fun s a => (s.stepWith solver a).1) s

/-- Those of some steps that have an answer when all of them are taken in turn. -/
def answered (solver : Solver) (s : Session) : List Step → List Step
  | [] => []
  | a :: steps =>
    let rest := answered solver (s.stepWith solver a).1 steps
    if (s.stepWith solver a).2.isOk then a :: rest else rest

theorem after_answered (h : solver.OptimalFor Cover.IsFormula) (s : Session) (steps : List Step) :
    after solver s (answered solver s steps) = after solver s steps := by
  induction steps generalizing s with
  | nil => rfl
  | cons a steps ih =>
      have hrest : after solver s (a :: steps) = after solver (s.stepWith solver a).1 steps := rfl
      rw [answered, hrest, ← ih]
      cases ha : (s.stepWith solver a).2 with
      | ok answer => rfl
      | error f =>
          rw [eq_of_stepWith_error h ha]
          rfl

/-- **Failing steps are atomic.**  Whatever terms, width and kept primes a session began with, and
whatever steps it has taken, the next one leaves its terms, its width and the primes kept, or that
there are none, as they were if it fails.  So the session is where it would be if none of the
failing steps had been taken. -/
theorem failing_steps_atomic (h : solver.OptimalFor Cover.IsFormula) (start : Session)
    (steps : List Step) :
    let s := after solver start steps
    (∀ a f, (s.stepWith solver a).2 = .error f → (s.stepWith solver a).1 = s) ∧
      after solver start (answered solver start steps) = s := by
  intro s
  exact ⟨fun a f hf => eq_of_stepWith_error h hf, after_answered h start steps⟩

/-- With the primes of 1 kept and 2 required since, a cover step fails, and so do a removal behind
the last entry and a number that is too large; the primes of 1 are still kept. -/
theorem atomic_after_stale_primes :
    let p : Problem := ⟨[⟨[.one], .singleton 1⟩], [], 2⟩
    let steps : List Step := [.findPrimes, .addMinterm (.value 2)]
    let s := after exhaustive (start p) steps
    exhaustive.OptimalFor Cover.IsFormula ∧
      (∀ a ∈ [.solve "maxsat", .solve "other", .dropMinterm 2, .addMinterm (.value (2 ^ 32))],
        (∃ f, (s.stepWith exhaustive a).2 = .error f) ∧ (s.stepWith exhaustive a).1 = s) ∧
      s.primes = some [⟨[.one], .singleton 1⟩] := by
  intro p steps s
  have hsolver : exhaustive.OptimalFor Cover.IsFormula := exhaustive_optimal.optimalFor _
  obtain ⟨hatomic, -⟩ := failing_steps_atomic hsolver (start p) steps
  have hfails : ∀ a ∈ [Step.solve "maxsat", .solve "other", .dropMinterm 2,
      .addMinterm (.value (2 ^ 32))], (s.stepWith exhaustive a).2.isOk = false := by decide +kernel
  refine ⟨hsolver, fun a ha => ?_, by decide +kernel⟩
  cases hf : (s.stepWith exhaustive a).2 with
  | error f => exact ⟨⟨f, rfl⟩, hatomic a f hf⟩
  | ok answer =>
      have hfail := hfails a ha
      rw [hf] at hfail
      exact nomatch hfail

end Session

end TwoLevel
