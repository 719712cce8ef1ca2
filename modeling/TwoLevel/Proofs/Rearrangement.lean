import TwoLevel.Export.Document
import TwoLevel.Proofs.Minimization
import TwoLevel.Proofs.Primes.Order

/-! # Rearranged problems

What a solution shows of its terms it shows of the trimmed terms: the chart of a cover problem, the
cost of a sum and the expression over named inputs do not see zeros stored in front.  So solving
commutes with trimming the prime implicants (`Problem.solveWith_map_trim`).

Together with the prime implicants of problems whose terms make up the same classes
(`Layer.Reading.map_trim_primeImplicants`) this gives that a minimisation depends neither on the
order and the repetitions of the given terms nor on the order in which buckets are read
(`Problem.minimize_rearranged`). -/

namespace TwoLevel

/-! ### Expressions and costs -/

namespace Term

@[simp] theorem namedLiterals_trim (names : List String) (t : Term) :
    t.trim.namedLiterals names = t.namedLiterals names := by
  unfold namedLiterals
  rw [Pattern.window_congr (p := t.trim.pattern) (Pattern.trim_trim t.pattern)]

theorem literals_trim {width : ℤ} (h : 0 ≤ width) (t : Term) :
    literals width t.trim = literals width t := by
  obtain ⟨w, rfl⟩ := Int.eq_ofNat_of_zero_le h
  unfold literals
  exact congrArg Pattern.literals (Pattern.window_congr (Pattern.trim_trim t.pattern) w)

end Term

theorem Dialect.sum_map_trim (d : Dialect) (names : List String) (terms : List Term) :
    d.sum names (terms.map Term.trim) = d.sum names terms := by
  have hterm : d.term names ∘ Term.trim = d.term names :=
    funext fun t => congrArg d.product (Term.namedLiterals_trim names t)
  cases terms with
  | nil => rfl
  | cons t terms =>
      rw [List.map_cons, sum, sum, ← List.map_cons, List.map_map, hterm]
      · exact List.cons_ne_nil _ _
      · exact List.cons_ne_nil _ _

theorem Cost.ofTerms_map_trim {width : ℤ} (h : 0 ≤ width) (terms : List Term) :
    ofTerms width (terms.map Term.trim) = ofTerms width terms := by
  have hliterals : Term.literals width ∘ Term.trim = Term.literals width :=
    funext (Term.literals_trim h)
  unfold ofTerms
  rw [List.map_map, hliterals, List.length_map]

/-! ### Covers -/

namespace Chart

theorem ext_rows {ι : Type} [Ord ι] {c c' : Chart ι} (h : c.rows = c'.rows) : c = c' := by
  cases c
  cases c'
  simpa using h

theorem indicesOf_map_trim (source : ℤ) (implicants : List Term) :
    indicesOf source (implicants.map Term.trim) = indicesOf source implicants := by
  refine OrdSet.ext fun i => ?_
  rw [mem_indicesOf, mem_indicesOf, List.getElem?_map]
  simp only [Option.map_eq_some_iff]
  constructor
  · rintro ⟨_, ⟨t, ht, rfl⟩, hsource⟩
    exact ⟨t, ht, hsource⟩
  · rintro ⟨t, ht, hsource⟩
    exact ⟨t.trim, ⟨t, ht, rfl⟩, hsource⟩

theorem coverage_map_trim (implicants minterms : List Term) :
    coverage (implicants.map Term.trim) minterms = coverage implicants minterms := by
  apply ext_rows
  rw [rows_coverage, rows_coverage]
  simp only [indicesOf_map_trim]

theorem coverage_congr {implicants ms ms' : List Term}
    (h : Problem.sourcesOf ms = Problem.sourcesOf ms') :
    coverage implicants ms = coverage implicants ms' := by
  apply ext_rows
  rw [rows_coverage, rows_coverage, h]

end Chart

theorem Cover.pick_map_trim (chosen : OrdSet ℕ) (implicants : List Term) :
    pick chosen (implicants.map Term.trim) = (pick chosen implicants).map Term.trim := by
  unfold pick
  rw [List.zipIdx_map, List.filter_map, List.map_map, List.map_map]
  rfl

/-- Both backends see of the terms the chart and the number of the implicants. -/
theorem Method.coverWith_congr {implicants implicants' ms ms' : List Term}
    (hchart : Chart.coverage implicants ms = Chart.coverage implicants' ms')
    (hlength : implicants.length = implicants'.length) (solver : MaxSat.Solver) (method : Method) :
    method.coverWith solver implicants ms = method.coverWith solver implicants' ms' := by
  have hterms : Chart.ofTerms implicants ms = Chart.ofTerms implicants' ms' := by
    unfold Chart.ofTerms
    rw [hchart]
  cases method with
  | products => exact congrArg (Except.bind · Cover.ofChart) hterms
  | search =>
      change Cover.bySolver solver implicants ms = Cover.bySolver solver implicants' ms'
      unfold Cover.bySolver
      rw [hterms, hlength]

/-! ### Solutions -/

/-- The solution with all of its terms trimmed. -/
def Solution.trim (s : Solution) : Solution :=
  { s with implicants := s.implicants.map Term.trim, primes := s.primes.map Term.trim }

theorem Solution.expression_congr {s u : Solution} (h : s.trim = u.trim) (names : List String) :
    s.expression names = u.expression names := by
  have himplicants : s.implicants.map Term.trim = u.implicants.map Term.trim :=
    congrArg Solution.implicants h
  unfold expression
  rw [← Dialect.sum_map_trim, himplicants, Dialect.sum_map_trim]

theorem Solution.cost_congr {s u : Solution} (h : s.trim = u.trim) (hwidth : 0 ≤ s.width) :
    Cost.ofTerms s.width s.implicants = Cost.ofTerms u.width u.implicants := by
  have himplicants : s.implicants.map Term.trim = u.implicants.map Term.trim :=
    congrArg Solution.implicants h
  have hwidths : s.trim.width = u.trim.width := congrArg Solution.width h
  change s.width = u.width at hwidths
  rw [← Cost.ofTerms_map_trim hwidth, himplicants, hwidths,
    Cost.ofTerms_map_trim (hwidths ▸ hwidth)]

namespace Problem

variable {p q : Problem}

theorem trim_solution (hwidth : 0 ≤ p.width) (primes implicants : List Term) (method : Method) :
    (p.solution primes implicants method).trim =
      p.solution (primes.map Term.trim) (implicants.map Term.trim) method := by
  unfold solution Solution.trim
  rw [Cost.ofTerms_map_trim hwidth]

theorem solveWith_map_trim (hwidth : 0 ≤ p.width) (solver : MaxSat.Solver) (primes : List Term)
    (method : Method) : p.solveWith solver (primes.map Term.trim) method =
      (p.solveWith solver primes method).map Solution.trim := by
  unfold solveWith
  rw [Method.coverWith_congr (Chart.coverage_map_trim primes p.minterms) (List.length_map _)]
  cases method.coverWith solver primes p.minterms with
  | error f => rfl
  | ok chosen =>
      simp only [Except.map, trim_solution hwidth, Cover.pick_map_trim]

/-- Problems of one width that require the same inputs and leave the same other ones unconstrained
are solved alike. -/
theorem solveWith_congr (hrequired : p.required = q.required)
    (hfree : p.unconstrained \ p.required = q.unconstrained \ q.required)
    (hwidth : p.width = q.width) (solver : MaxSat.Solver) (primes : List Term) (method : Method) :
    p.solveWith solver primes method = q.solveWith solver primes method := by
  unfold solveWith solution
  rw [hfree, hrequired, hwidth, Method.coverWith_congr (Chart.coverage_congr hrequired) rfl]

theorem sourcesOf_congr {ms ms' : List Term} (h : Term.SameClasses ms ms') :
    sourcesOf ms = sourcesOf ms' := by
  -- one direction serves for both, as the hypothesis is symmetric
  have transfer : ∀ {ts us : List Term}, Term.SameClasses ts us →
      ∀ v, v ∈ sourcesOf ts → v ∈ sourcesOf us := by
    intro ts us h v hv
    obtain ⟨t, ht, hvt⟩ := mem_sourcesOf.mp hv
    obtain ⟨u, hu, hut⟩ := h.left t ht
    exact mem_sourcesOf.mpr ⟨u, hu, by rwa [(Term.equiv_iff.mp hut).1]⟩
  exact OrdSet.ext fun v => ⟨transfer h v, transfer h.symm v⟩

theorem unconstrained_sdiff_required (p : Problem) : p.unconstrained \ p.required =
    sourcesOf (p.minterms ++ p.dontCares) \ sourcesOf p.minterms := by
  refine OrdSet.ext fun v => ?_
  unfold unconstrained required
  simp only [OrdSet.mem_sdiff, mem_sourcesOf, List.mem_append]
  constructor
  · rintro ⟨⟨d, hd, hv⟩, hreq⟩
    exact ⟨⟨d, Or.inr hd, hv⟩, hreq⟩
  · rintro ⟨⟨t, ht | ht, hv⟩, hreq⟩
    · exact absurd ⟨t, ht, hv⟩ hreq
    · exact ⟨⟨t, ht, hv⟩, hreq⟩

/-- **A minimisation does not depend on how its terms are listed.**  When the terms of two problems
make up the same classes, no matter in what order, how often, with how many zeros in front and in
which of its two lists each one stands, the passes find the same prime implicants up to equivalence
and order, even if those of the second problem read their buckets in an order of their own.  When
the required terms of both make up the same classes too, and the widths agree, the solutions by
products from the prime implicants in canonical order are the same up to stored zeros. -/
theorem minimize_rearranged
    (hterms : Term.SameClasses (p.minterms ++ p.dontCares) (q.minterms ++ q.dontCares))
    (r : Layer.Reading) :
    ((findPrimes p.minterms p.dontCares).map Term.trim).Perm
      ((r.findPrimes q.minterms q.dontCares).map Term.trim) ∧
    (Term.SameClasses p.minterms q.minterms → p.width = q.width → 0 ≤ p.width →
      ∃ s u, p.minimize .products = .ok s ∧
        q.solve (r.primeImplicants q.minterms q.dontCares) .products = .ok u ∧
        s.trim = u.trim ∧
        Cost.ofTerms s.width s.implicants = Cost.ofTerms u.width u.implicants ∧
        ∀ names, s.expression names = u.expression names) := by
  constructor
  · rw [← Layer.Reading.stored_findPrimes]
    exact Layer.Reading.stored.perm_findPrimes r hterms
  · intro hminterms hwidth hnonneg
    obtain ⟨chosen, -, hs⟩ := p.exists_minimize
    have hprimes : p.primes.map Term.trim =
        (r.primeImplicants q.minterms q.dontCares).map Term.trim := by
      rw [← Layer.Reading.stored.map_trim_primeImplicants r hterms]
      unfold primes primeImplicants Layer.Reading.primeImplicants
      rw [Layer.Reading.stored_findPrimes]
    have hfree : p.unconstrained \ p.required = q.unconstrained \ q.required := by
      rw [unconstrained_sdiff_required, unconstrained_sdiff_required, sourcesOf_congr hterms,
        sourcesOf_congr hminterms]
    have hsolved : (p.minimize .products).map Solution.trim =
        (q.solve (r.primeImplicants q.minterms q.dontCares) .products).map Solution.trim := by
      unfold minimize solve
      rw [← solveWith_map_trim hnonneg, hprimes,
        solveWith_congr (sourcesOf_congr hminterms) hfree hwidth,
        solveWith_map_trim (hwidth ▸ hnonneg)]
    rw [hs] at hsolved
    cases hu : q.solve (r.primeImplicants q.minterms q.dontCares) .products with
    | error f =>
        rw [hu] at hsolved
        exact nomatch hsolved
    | ok u =>
        rw [hu] at hsolved
        have htrim := Except.ok.inj hsolved
        exact ⟨_, u, hs, rfl, htrim, Solution.cost_congr htrim hnonneg,
          Solution.expression_congr htrim⟩

/-- The inputs 1 and 2 are required and 3 is unconstrained, with 1 listed there once more; or they
are required in the other order, one of them twice, with zeros in front, and every bucket is read
from its end. -/
theorem rearranged_one_two :
    let p : Problem := ⟨[⟨[.one], .singleton 1⟩, ⟨[.zero, .one], .singleton 2⟩],
      [⟨[.one, .one], .singleton 3⟩, ⟨[.one], .singleton 1⟩], 3⟩
    let q : Problem := ⟨[⟨[.zero, .one], .singleton 2⟩, ⟨[.one, .zero], .singleton 1⟩,
      ⟨[.zero, .one, .zero], .singleton 2⟩], [⟨[.one, .one, .zero], .singleton 3⟩], 3⟩
    let r := Layer.Reading.reversed
    Term.SameClasses (p.minterms ++ p.dontCares) (q.minterms ++ q.dontCares) ∧
      Term.SameClasses p.minterms q.minterms ∧
      ((findPrimes p.minterms p.dontCares).map Term.trim).Perm
        ((r.findPrimes q.minterms q.dontCares).map Term.trim) ∧
      ∃ s u, p.minimize .products = .ok s ∧
        q.solve (r.primeImplicants q.minterms q.dontCares) .products = .ok u ∧ s.trim = u.trim ∧
        u.expression ["A", "B", "C"] = "A'C + A'B" := by
  intro p q r
  have hterms : Term.SameClasses (p.minterms ++ p.dontCares) (q.minterms ++ q.dontCares) := by
    decide
  have hminterms : Term.SameClasses p.minterms q.minterms := by decide
  obtain ⟨hfound, hsolved⟩ := minimize_rearranged hterms r
  obtain ⟨s, u, hs, hu, htrim, -, hexpression⟩ := hsolved hminterms rfl (by decide)
  refine ⟨hterms, hminterms, hfound, s, u, hs, hu, htrim, ?_⟩
  rw [← hexpression]
  have hvalue : (p.minimize .products).map (fun s => s.expression ["A", "B", "C"]) =
      .ok "A'C + A'B" := by decide +kernel
  rw [hs] at hvalue
  exact Except.ok.inj hvalue

end Problem

end TwoLevel
