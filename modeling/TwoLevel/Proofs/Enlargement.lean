import TwoLevel.Proofs.Primes.Order
import TwoLevel.Proofs.Resolution

/-! # More unconstrained terms

The layers of some terms lie within those of more terms, pass by pass (`within_layerAfter`).  So a
prime implicant of some terms is in a layer of the run with more terms.  It need not be left over
there, but its sources lie in one term that is (`exists_mem_findPrimes_of_represented`).  A cover by
the former prime implicants becomes one by the latter, and unconstrained terms can be added without
needing more implicants (`Problem.minimize_more_unconstrained`). -/

namespace TwoLevel

/-! ### Layers of more terms -/

/-- **All passes.**  After any number of passes the layer of some terms lies within that of more
terms. -/
theorem within_layerAfter {ts us : List Term} (h : ∀ t ∈ ts, ∃ u ∈ us, u ≈ t) (n : ℕ) :
    Layer.Within (layerAfter ts n) (layerAfter us n) := by
  induction n with
  | zero => exact Layer.within_group h
  | succ n ih =>
      rw [layerAfter_succ, layerAfter_succ]
      exact ih.next

/-- The sources of a prime implicant of some terms lie in one of any terms that represent them. -/
theorem exists_mem_findPrimes_of_represented {ms ds ms' ds' : List Term}
    (h : ∀ t ∈ ms ++ ds, ∃ u ∈ ms' ++ ds', u ≈ t) {t : Term} (ht : t ∈ findPrimes ms ds) :
    ∃ u ∈ findPrimes ms' ds', ∀ v ∈ t.sources, v ∈ u.sources := by
  obtain ⟨n, hn⟩ := mem_findPrimes.mp ht
  obtain ⟨k, hk, -⟩ := Layer.mem_unmerged.mp hn
  obtain ⟨w, hw, hwt⟩ := within_layerAfter h n k t hk
  obtain ⟨u, hu, hwu⟩ := exists_mem_findPrimes_of_mem_layerAfter hw
  refine ⟨u, hu, fun v hv => hwu v ?_⟩
  rwa [(Term.equiv_iff.mp hwt).1]

/-! ### Covers -/

namespace Problem

/-- **More unconstrained terms never hurt.**  Whatever the terms are, the sources of every prime
implicant lie in one prime implicant of the terms with more unconstrained ones, and the minimisation
with these needs no more implicants, in whatever order either of them has its prime implicants. -/
theorem minimize_more_unconstrained (minterms dontCares more : List Term) :
    (∀ t ∈ findPrimes minterms dontCares, ∃ u ∈ findPrimes minterms (dontCares ++ more),
      ∀ v ∈ t.sources, v ∈ u.sources) ∧
    ∃ p q, make minterms dontCares none = .ok p ∧ make minterms (dontCares ++ more) none = .ok q ∧
      (p.HasPrimes p.primes ∧ q.HasPrimes q.primes) ∧
      ∀ primes others, p.HasPrimes primes → q.HasPrimes others →
        ∃ s r, p.solve primes .products = .ok s ∧ q.solve others .products = .ok r ∧
          r.implicants.length ≤ s.implicants.length := by
  have hlarger : ∀ t ∈ findPrimes minterms dontCares,
      ∃ u ∈ findPrimes minterms (dontCares ++ more), ∀ v ∈ t.sources, v ∈ u.sources := by
    intro t ht
    refine exists_mem_findPrimes_of_represented (fun w hw => ⟨w, ?_, Setoid.refl w⟩) ht
    rw [← List.append_assoc]
    exact List.mem_append_left more hw
  let p : Problem := ⟨minterms, dontCares, widthNeeded (minterms ++ dontCares)⟩
  let q : Problem :=
    ⟨minterms, dontCares ++ more, widthNeeded (minterms ++ (dontCares ++ more))⟩
  refine ⟨hlarger, p, q, rfl, rfl, ⟨p.hasPrimes_primes, q.hasPrimes_primes⟩, ?_⟩
  intro primes others hprimes hothers
  have hinside : ∀ t ∈ primes, ∃ u ∈ others, ∀ v ∈ t.sources, v ∈ u.sources := by
    intro t ht
    obtain ⟨s, hs, hst⟩ := hprimes.left t ht
    obtain ⟨w, hw, hsw⟩ := hlarger s hs
    obtain ⟨u, hu, huw⟩ := hothers.exists_mem_of_mem_findPrimes hw
    refine ⟨u, hu, fun v hv => ?_⟩
    rw [huw]
    exact hsw v ((Term.equiv_iff.mp hst).1 ▸ hv)
  obtain ⟨s, hs, hcover⟩ := hprimes.exists_minimumCover
  obtain ⟨r, hr, hfewer⟩ := hothers.exists_minimumCover
  exact ⟨s, r, hs, hr, hcover.length_le hfewer hinside rfl⟩

/-- The inputs 1 and 2 need a term each, and one term together when 0 and 3 are unconstrained. -/
example : (minimize ⟨[⟨[.one], .singleton 1⟩, ⟨[.zero, .one], .singleton 2⟩], [], 2⟩
      .products).map (·.implicants.length) = .ok 2 ∧
    (minimize ⟨[⟨[.one], .singleton 1⟩, ⟨[.zero, .one], .singleton 2⟩],
      [⟨[], .singleton 0⟩, ⟨[.one, .one], .singleton 3⟩], 2⟩ .products).map
      (·.implicants.length) = .ok 1 := by decide

end Problem

end TwoLevel
