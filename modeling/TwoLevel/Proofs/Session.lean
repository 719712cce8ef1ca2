import TwoLevel.Proofs.Cover.Solver
import TwoLevel.Proofs.MaxSat
import TwoLevel.Proofs.Minimization
import TwoLevel.Session

/-! # Sessions

A cover step answers from the primes in use, whatever became of the terms since they were found
(`Session.answer_solve`).  So both backends fail for the same source or give covers of one size, and
where no primes are kept no cover step fails.

The course of a session is followed together with the problem for which primes were found last
(`Course`).  The primes kept are those of that problem at every moment (`Course.Kept`), as a step
that finds no primes leaves both alone.  So a cover step fails exactly for a required source that
was a source of no term at that time (`Course.uncovered_iff`). -/

namespace TwoLevel

open MaxSat

variable {solver : Solver}

namespace Problem

variable (h : solver.OptimalFor Cover.IsFormula) (p : Problem) {primes : List Term} {m : Method}
include h

theorem solveWith_eq_error_iff (f : Fault) :
    p.solveWith solver primes m = .error f ↔
      ∃ v, IsLeast {x | Cover.Uncovered primes p.minterms x} v ∧ f = .uncovered v := by
  rw [← m.coverWith_eq_error_iff h]
  unfold solveWith
  cases m.coverWith solver primes p.minterms with
  | error g => simp [Except.map]
  | ok chosen => simp [Except.map]

theorem minimumCover_of_solveWith {s : Solution} (hs : p.solveWith solver primes m = .ok s) :
    Cover.MinimumCover primes p.minterms s.implicants := by
  obtain ⟨chosen, hcover, rfl⟩ := p.solveWith_eq_ok_iff.mp hs
  exact (m.smallestCovering h hcover).minimumCover

theorem exists_solveWith_eq_ok (hcovered : ¬ ∃ v, Cover.Uncovered primes p.minterms v) :
    ∃ s, p.solveWith solver primes m = .ok s := by
  cases hsolve : p.solveWith solver primes m with
  | error f =>
      obtain ⟨v, hv, -⟩ := (p.solveWith_eq_error_iff h f).mp hsolve
      exact absurd ⟨v, hv.1⟩ hcovered
  | ok s => exact ⟨s, rfl⟩

/-- With fresh primes every backend has a solution, and it computes the function. -/
theorem exists_solveWith_primes (hexact : ∀ t ∈ p.minterms ++ p.dontCares, t.Exact) (m : Method) :
    ∃ s, p.solveWith solver p.primes m = .ok s ∧ s.width = p.width ∧ s.Computes := by
  obtain ⟨s, hs⟩ := p.exists_solveWith_eq_ok h p.hasPrimes_primes.not_uncovered
  obtain ⟨chosen, hchosen, rfl⟩ := p.solveWith_eq_ok_iff.mp hs
  have hcovering := (m.smallestCovering h hchosen).covering
  exact ⟨_, hs, rfl, p.hasPrimes_primes.computes_of_covering hexact hcovering m⟩

end Problem

namespace Session

/-! ### Cover steps -/

section answers

variable (s : Session) {find : Problem → List Term} {name : String} {m : Method}
  (hname : Method.ofName name = .ok m)
include hname

theorem stepBy_solve : s.stepBy find solver (.solve name) =
    (⟨s.problem, some (s.primesBy find)⟩,
      (s.problem.solveWith solver (s.primesBy find) m).map .solution) := by
  simp only [stepBy, hname]

theorem stepWith_solve : s.stepWith solver (.solve name) =
    (⟨s.problem, some s.primesInUse⟩,
      (s.problem.solveWith solver s.primesInUse m).map .solution) :=
  s.stepBy_solve hname

variable (h : solver.OptimalFor Cover.IsFormula)
include h

theorem answer_of_uncovered {v : ℤ}
    (hv : IsLeast {x | Cover.Uncovered (s.primesBy find) s.problem.minterms x} v) :
    (s.stepBy find solver (.solve name)).2 = .error (.uncovered v) := by
  have herror := (s.problem.solveWith_eq_error_iff h (m := m) (.uncovered v)).mpr ⟨v, hv, rfl⟩
  rw [s.stepBy_solve hname, herror]
  rfl

theorem exists_answer_of_covered
    (hcovered : ¬ ∃ v, Cover.Uncovered (s.primesBy find) s.problem.minterms v) :
    ∃ found, (s.stepBy find solver (.solve name)).2 = .ok (.solution found) ∧
      Cover.MinimumCover (s.primesBy find) s.problem.minterms found.implicants := by
  obtain ⟨found, hfound⟩ := s.problem.exists_solveWith_eq_ok h (m := m) hcovered
  refine ⟨found, ?_, s.problem.minimumCover_of_solveWith h hfound⟩
  rw [s.stepBy_solve hname, hfound]
  rfl

/-- A cover step fails exactly for an uncovered source, and chooses as few primes as possible. -/
theorem answer_solve :
    ((∃ f, (s.stepBy find solver (.solve name)).2 = .error f) ↔
      ∃ v, Cover.Uncovered (s.primesBy find) s.problem.minterms v) ∧
    (∀ f, (s.stepBy find solver (.solve name)).2 = .error f → ∃ v, f = .uncovered v) ∧
    ∀ a, (s.stepBy find solver (.solve name)).2 = .ok a → ∃ found, a = .solution found ∧
      Cover.MinimumCover (s.primesBy find) s.problem.minterms found.implicants := by
  by_cases hcovered : ∃ v, Cover.Uncovered (s.primesBy find) s.problem.minterms v
  · obtain ⟨v, hv⟩ := Cover.exists_isLeast_uncovered hcovered.choose_spec
    rw [s.answer_of_uncovered hname h hv]
    refine ⟨⟨fun _ => hcovered, fun _ => ⟨.uncovered v, rfl⟩⟩, ?_, ?_⟩
    · rintro f hf
      obtain rfl := Except.error.inj hf
      exact ⟨v, rfl⟩
    · exact fun a ha => nomatch ha
  · obtain ⟨found, hfound, hcover⟩ := s.exists_answer_of_covered hname h hcovered
    rw [hfound]
    refine ⟨⟨?_, fun hv => absurd hv hcovered⟩, ?_, ?_⟩
    · rintro ⟨f, hf⟩
      exact nomatch hf
    · exact fun f hf => nomatch hf
    · rintro a ha
      obtain rfl := Except.ok.inj ha
      exact ⟨found, rfl, hcover⟩

end answers

/-- **The backends agree.**  In every session, with whatever primes are in use, both backends report
the same uncovered source, or both give solutions of equally many implicants, and the implicants
found by an optimal solver stand for every required source.  That solver always has a model. -/
theorem backends_agree (h : solver.OptimalFor Cover.IsFormula) (s : Session) :
    ((∃ v, Cover.Uncovered s.primesInUse s.problem.minterms v ∧
        (s.stepWith solver (.solve "petrick")).2 = .error (.uncovered v) ∧
        (s.stepWith solver (.solve "maxsat")).2 = .error (.uncovered v)) ∨
      ∃ products search,
        (s.stepWith solver (.solve "petrick")).2 = .ok (.solution products) ∧
        (s.stepWith solver (.solve "maxsat")).2 = .ok (.solution search) ∧
        products.implicants.length = search.implicants.length ∧
        ∀ m ∈ s.problem.minterms, ∀ v ∈ m.sources, ∃ t ∈ search.implicants, v ∈ t.sources) ∧
    ∀ chart, Chart.ofTerms s.primesInUse s.problem.minterms = .ok chart →
      solver (Cover.formula s.primesInUse.length chart) ≠ none := by
  have hproducts : Method.ofName "petrick" = .ok .products := by decide
  have hsearch : Method.ofName "maxsat" = .ok .search := by decide
  constructor
  · by_cases hcovered : ∃ v, Cover.Uncovered s.primesInUse s.problem.minterms v
    · left
      obtain ⟨v, hv⟩ := Cover.exists_isLeast_uncovered hcovered.choose_spec
      exact ⟨v, hv.1, s.answer_of_uncovered hproducts h hv, s.answer_of_uncovered hsearch h hv⟩
    · right
      obtain ⟨a, ha, hcoverA⟩ := s.exists_answer_of_covered hproducts h hcovered
      obtain ⟨b, hb, hcoverB⟩ := s.exists_answer_of_covered hsearch h hcovered
      exact ⟨a, b, ha, hb, hcoverA.length_eq hcoverB, hcoverB.covers⟩
  · intro chart hchart
    obtain ⟨heq, hrows⟩ := Cover.ofTerms_eq_ok hchart
    rw [heq] at hrows ⊢
    exact Cover.solver_ne_none h hrows

/-- Kept primes of which none is prime any more. -/
def stale : Session :=
  ⟨⟨[.ofPattern [.star, .star]], [], 2⟩,
    some [.ofPattern [.star, .zero], .ofPattern [.zero, .star], .ofPattern [.star, .one]]⟩

/-- The halves of two inputs are kept from before the whole square was required: it takes two of
them, with either backend. -/
theorem backends_agree_stale :
    HittingSet.solve.OptimalFor Cover.IsFormula ∧ ∃ products search,
      (stale.step (.solve "petrick")).2 = .ok (.solution products) ∧
      (stale.step (.solve "maxsat")).2 = .ok (.solution search) ∧
      products.implicants.length = 2 ∧ search.implicants.length = 2 := by
  refine ⟨Cover.optimalFor_hittingSet, ?_⟩
  have hsize : ((stale.step (.solve "petrick")).2.toOption.bind fun a =>
      match a with
      | .solution found => some found.implicants.length
      | _ => none) = some 2 := by decide
  obtain ⟨⟨v, -, hproducts, -⟩ | ⟨products, search, hproducts, hsearch, hlength, -⟩, -⟩ :=
    backends_agree Cover.optimalFor_hittingSet stale
  · rw [show (stale.step (.solve "petrick")).2 = .error (.uncovered v) from hproducts] at hsize
    exact nomatch hsize
  · rw [show (stale.step (.solve "petrick")).2 = .ok (.solution products) from hproducts] at hsize
    have htwo : products.implicants.length = 2 := Option.some.inj hsize
    exact ⟨products, search, hproducts, hsearch, htwo, hlength ▸ htwo⟩

/-! ### Fresh sessions -/

theorem answer_start_solve {p : Problem} {name : String} {m : Method}
    (hname : Method.ofName name = .ok m) {found : Solution}
    (hsolve : p.solveWith solver p.primes m = .ok found) :
    ((start p).stepWith solver (.solve name)).2 = .ok (.solution found) := by
  rw [stepWith_solve _ hname]
  exact congrArg (Except.map Answer.solution) hsolve

/-- **The sources are conserved.**  Whatever the given terms are, the sources of each of them lie
together in one term that the passes leave over, and the sources of each term left over are those
of some given terms taken together.  So where no primes are kept, the cover step by products always
has an answer. -/
theorem sources_conserved (minterms dontCares : List Term) :
    (∀ t ∈ minterms ++ dontCares, ∃ u ∈ findPrimes minterms dontCares,
      ∀ v ∈ t.sources, v ∈ u.sources) ∧
    (∀ u ∈ findPrimes minterms dontCares, ∃ parts : List Term, parts ≠ [] ∧
      (∀ s ∈ parts, s ∈ minterms ++ dontCares) ∧
      ∀ v, v ∈ u.sources ↔ ∃ s ∈ parts, v ∈ s.sources) ∧
    ∀ (width : ℤ) (solver : Solver), ∃ found,
      ((start ⟨minterms, dontCares, width⟩).stepWith solver (.solve "petrick")).2 =
        .ok (.solution found) := by
  refine ⟨fun t ht => exists_mem_findPrimes_of_mem ht, exists_union_of_mem_findPrimes, ?_⟩
  intro width solver
  have hname : Method.ofName "petrick" = .ok .products := by decide
  let p : Problem := ⟨minterms, dontCares, width⟩
  obtain ⟨chosen, -, hsolve⟩ := p.hasPrimes_primes.exists_solveWith solver
  exact ⟨_, answer_start_solve hname hsolve⟩

/-- The third term merges with no other; it drops out because the first two, which have the same
sources, merge. -/
example : findPrimes [⟨[.zero], .singleton 5⟩, ⟨[.one], .singleton 5⟩,
    ⟨[.one, .one, .one], .singleton 5⟩] [] = [⟨[.star], .singleton 5⟩] := by decide

/-- **A cover is never larger than what is required.**  Whatever the given terms are, where no
primes are kept the cover by products has at most as many implicants as there are classes of
required terms with a source. -/
theorem fresh_cover_no_larger (minterms dontCares : List Term) (width : ℤ) (solver : Solver) :
    ∃ found, ((start ⟨minterms, dontCares, width⟩).stepWith solver (.solve "petrick")).2 =
        .ok (.solution found) ∧
      found.implicants.length ≤
        (Term.firsts (minterms.filter fun t => ¬ t.sources.isEmpty)).length := by
  have hname : Method.ofName "petrick" = .ok .products := by decide
  let p : Problem := ⟨minterms, dontCares, width⟩
  obtain ⟨chosen, hchosen, hsolve⟩ := p.hasPrimes_primes.exists_solveWith solver
  refine ⟨_, answer_start_solve hname hsolve, ?_⟩
  · have hgiven : ∀ t ∈ Term.firsts (minterms.filter fun t => ¬ t.sources.isEmpty),
        t ∈ p.minterms ++ p.dontCares := fun t ht =>
      List.mem_append_left _ (List.mem_filter.mp (Term.mem_of_mem_firsts ht)).1
    have hrequired : ∀ m ∈ p.minterms, ∀ v ∈ m.sources,
        ∃ t ∈ Term.firsts (minterms.filter fun t => ¬ t.sources.isEmpty), v ∈ t.sources := by
      intro m hm v hv
      have hsource : ¬ m.sources.isEmpty = true := fun hempty =>
        (OrdSet.isEmpty_iff m.sources).mp hempty v hv
      have hkept : m ∈ minterms.filter fun t => ¬ t.sources.isEmpty :=
        List.mem_filter.mpr ⟨hm, decide_eq_true hsource⟩
      obtain ⟨t, ht, htm⟩ := Term.exists_mem_firsts hkept
      exact ⟨t, ht, (Term.equiv_iff.mp htm).1 ▸ hv⟩
    calc (Cover.pick chosen p.primes).length = chosen.size :=
          Cover.length_pick hchosen.covering.lt_length
      _ ≤ _ := p.hasPrimes_primes.size_le_length_of_given hchosen.isSmallest hgiven hrequired

/-- Of four required terms the first two are equivalent and the last one has no source, so that two
implicants are enough; no fewer are, as 9 and 6 lie in no common prime. -/
example : (Term.firsts ([⟨[.one], .singleton 9⟩, ⟨[.one, .zero], .singleton 9⟩,
      ⟨[.one, .one, .one], .singleton 6⟩, ⟨[.zero], ∅⟩].filter
        fun t : Term => ¬ t.sources.isEmpty)).length = 2 ∧
    (Problem.minimize ⟨[⟨[.one], .singleton 9⟩, ⟨[.one, .zero], .singleton 9⟩,
      ⟨[.one, .one, .one], .singleton 6⟩, ⟨[.zero], ∅⟩], [], 3⟩ .products).map
        (·.implicants.length) = .ok 2 := by decide

/-! ### The course of a session -/

/-- Whether a step finds primes: the step that asks for them does, and so does a cover step where
none are kept. -/
def finds (s : Session) : Step → Bool
  | .findPrimes => true
  | .solve name => s.primes.isNone && (Method.ofName name).isOk
  | _ => false

/-- The primes kept are replaced by a step that finds primes, and by no other. -/
theorem primes_stepBy (find : Problem → List Term) (s : Session) (a : Step) :
    (s.stepBy find solver a).1.primes =
      if s.finds a then some (find s.problem) else s.primes := by
  cases a with
  | findPrimes => rfl
  | showPrimes => rfl
  | showProblem => rfl
  | setWidth width => rfl
  | solve name =>
      cases hname : Method.ofName name with
      | error f => simp [stepBy, finds, hname, Except.isOk, Except.toBool]
      | ok m =>
          rw [stepBy_solve s hname]
          cases hprimes : s.primes <;>
            simp [finds, primesBy, hname, hprimes, Except.isOk, Except.toBool]
  | addMinterm spelling => cases hread : spelling.read <;> simp [stepBy, finds, hread]
  | addDontCare spelling => cases hread : spelling.read <;> simp [stepBy, finds, hread]
  | dropMinterm index =>
      cases hplace : place? s.problem.minterms.length index <;> simp [stepBy, finds, hplace]

end Session

/-- A session under way, with the problem for which primes were found last. -/
structure Course where
  session : Session
  found : Option Problem

namespace Course

variable {find : Problem → List Term}

/-- The course after one more step. -/
def next (find : Problem → List Term) (solver : Solver) (c : Course) (a : Session.Step) : Course :=
  ⟨(c.session.stepBy find solver a).1,
    if c.session.finds a then some c.session.problem else c.found⟩

/-- The course of a session on a problem over some steps. -/
def after (find : Problem → List Term) (solver : Solver) (p : Problem)
    (steps : List Session.Step) : Course :=
  steps.foldl (next find solver) ⟨.start p, none⟩

/-- The primes kept are those of the problem for which primes were found last. -/
def Kept (find : Problem → List Term) (c : Course) : Prop := c.session.primes = c.found.map find

/-- The problem whose primes a cover step chooses from. -/
def inUse (c : Course) : Problem := c.found.getD c.session.problem

variable {c : Course}

theorem Kept.next (h : c.Kept find) (a : Session.Step) : (c.next find solver a).Kept find := by
  unfold Kept Course.next
  rw [Session.primes_stepBy, show c.session.primes = _ from h]
  split <;> rfl

theorem Kept.foldl (h : c.Kept find) (steps : List Session.Step) :
    (steps.foldl (Course.next find solver) c).Kept find := by
  induction steps generalizing c with
  | nil => exact h
  | cons a steps ih => exact ih (h.next a)

theorem kept_after (p : Problem) (steps : List Session.Step) :
    (after find solver p steps).Kept find := by
  have hstart : Kept find ⟨.start p, none⟩ := rfl
  exact hstart.foldl steps

theorem Kept.primesBy (h : c.Kept find) : c.session.primesBy find = find c.inUse := by
  unfold Session.primesBy inUse
  rw [show c.session.primes = _ from h]
  cases c.found <;> rfl

theorem found_next_solve {name : String} {m : Method} (hname : Method.ofName name = .ok m)
    (h : c.Kept find) : (c.next find solver (.solve name)).found = some c.inUse := by
  unfold Kept at h
  cases hfound : c.found <;>
    simp [Course.next, Session.finds, inUse, hname, hfound, h, Except.isOk, Except.toBool]

/-- What a cover step leaves uncovered was no source when primes were found last. -/
theorem uncovered_iff {q : Problem} {primes : List Term} (h : q.HasPrimes primes) (p : Problem)
    (v : ℤ) : Cover.Uncovered primes p.minterms v ↔
      v ∈ p.required ∧ v ∉ q.required ∧ v ∉ q.unconstrained := by
  have hsource : (∀ u ∈ primes, v ∉ u.sources) ↔ v ∉ q.required ∧ v ∉ q.unconstrained := by
    have hgiven := not_congr (h.exists_source_iff v)
    unfold Problem.required Problem.unconstrained
    rw [Problem.mem_sourcesOf, Problem.mem_sourcesOf]
    simpa [or_and_right, exists_or] using hgiven
  rw [Cover.uncovered_iff, hsource]
  rfl

/-- **The course of a session.**  Prime implicants may be found in the canonical order, where each
class of what the passes leave over has one of its terms, or in any other one.  Over any steps, the
primes kept are those found for the terms as they were when primes were found last, and only finding
them again or a cover step without kept primes replaces them.  A cover step chooses as few of them
as stand for every source required by now; it fails exactly when such a source was a source of no
term at that time. -/
theorem session_course (h : solver.OptimalFor Cover.IsFormula) (p : Problem)
    (steps : List Session.Step) :
    (∀ q : Problem, q.HasPrimes q.primes ∧ q.primes.Pairwise (fun t u => ¬ t ≈ u) ∧
      (∀ u ∈ q.primes, u ∈ findPrimes q.minterms q.dontCares) ∧
      ∀ t ∈ findPrimes q.minterms q.dontCares, ∃ u ∈ q.primes, u ≈ t) ∧
    ∀ find : Problem → List Term, (∀ q : Problem, q.HasPrimes (find q)) →
      let c := after find solver p steps
      let s := c.session
      s.primes = c.found.map find ∧
      (∀ a, (s.stepBy find solver a).1.primes =
        if s.finds a then some (find s.problem) else s.primes) ∧
      ∀ name m, Method.ofName name = .ok m → ∃ q,
        (c.next find solver (.solve name)).found = some q ∧
        (s.stepBy find solver (.solve name)).1.primes = some (find q) ∧
        ((∃ f, (s.stepBy find solver (.solve name)).2 = .error f) ↔
          ∃ v ∈ s.problem.required, v ∉ q.required ∧ v ∉ q.unconstrained) ∧
        (∀ f, (s.stepBy find solver (.solve name)).2 = .error f → ∃ v, f = .uncovered v) ∧
        ∀ a, (s.stepBy find solver (.solve name)).2 = .ok a → ∃ found, a = .solution found ∧
          Cover.MinimumCover (find q) s.problem.minterms found.implicants := by
  refine ⟨fun q => ⟨q.hasPrimes_primes, pairwise_primeImplicants _ _,
    fun u => mem_of_mem_primeImplicants, fun t => exists_mem_primeImplicants⟩, ?_⟩
  intro find hfind c s
  have hkept : c.Kept find := kept_after p steps
  refine ⟨hkept, s.primes_stepBy find, ?_⟩
  intro name m hname
  have hsome : (c.next find solver (.solve name)).found = some c.inUse :=
    found_next_solve hname hkept
  have hnext : (c.next find solver (.solve name)).session.primes =
      (c.next find solver (.solve name)).found.map find := hkept.next _
  rw [hsome] at hnext
  obtain ⟨hfails, hfault, hok⟩ := s.answer_solve hname h
  rw [hkept.primesBy] at hfails hok
  simp only [uncovered_iff (hfind c.inUse)] at hfails
  exact ⟨c.inUse, hsome, hnext, hfails, hfault, hok⟩

/-- The primes of 1 are kept when 2 is required as well, and 2 is in none of them, in whatever order
the passes read the buckets. -/
theorem session_course_stale :
    let p : Problem := ⟨[⟨[.one], .singleton 1⟩], [], 2⟩
    let steps : List Session.Step := [.findPrimes, .addMinterm (.value 2)]
    let c := after Problem.primes HittingSet.solve p steps
    HittingSet.solve.OptimalFor Cover.IsFormula ∧ (∀ q : Problem, q.HasPrimes q.primes) ∧
      Method.ofName "maxsat" = .ok .search ∧
      (∃ f, (c.session.step (.solve "maxsat")).2 = .error f) ∧
      c.session.primes = some [⟨[.one], .singleton 1⟩] ∧
      ∀ r : Layer.Reading,
        let found (q : Problem) := Term.firsts (r.findPrimes q.minterms q.dontCares)
        let d := after found HittingSet.solve p steps
        (∀ q : Problem, q.HasPrimes (found q)) ∧
          ∃ f, (d.session.stepBy found HittingSet.solve (.solve "maxsat")).2 = .error f := by
  intro p steps c
  have hname : Method.ofName "maxsat" = .ok .search := by decide
  have hcanonical : ∀ q : Problem, q.HasPrimes q.primes := fun q => q.hasPrimes_primes
  have hrequired : (2 : ℤ) ∈ c.session.problem.required := by decide
  have hsource : (2 : ℤ) ∉ p.required ∧ (2 : ℤ) ∉ p.unconstrained := by decide
  have hfails : ∀ find : Problem → List Term, (∀ q : Problem, q.HasPrimes (find q)) →
      ∃ f, ((after find HittingSet.solve p steps).session.stepBy find HittingSet.solve
        (.solve "maxsat")).2 = .error f := by
    intro find hfind
    obtain ⟨-, -, hsolve⟩ := (session_course Cover.optimalFor_hittingSet p steps).2 find hfind
    obtain ⟨q, hq, -, hfails, -⟩ := hsolve "maxsat" .search hname
    obtain rfl : q = p := (Option.some.inj hq).symm
    exact hfails.mpr ⟨2, hrequired, hsource⟩
  exact ⟨Cover.optimalFor_hittingSet, hcanonical, hname, hfails _ hcanonical, by decide, fun r =>
    ⟨fun q => q.hasPrimes_discovered r, hfails _ fun q => q.hasPrimes_discovered r⟩⟩

end Course

end TwoLevel
