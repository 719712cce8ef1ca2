import TwoLevel.Proofs.Export.Function
import TwoLevel.Proofs.Export.Patterns

/-! # Minimising a solution again

The patterns of a solution are themselves a problem.  Its given terms are cubes of any size that may
overlap, and nothing ensures that its primes are maximal.  But each given term lies in a prime, so
no more implicants are needed than terms are given (`HasPrimes.size_le_length_minterms`), and
whatever is chosen has the value of the given terms everywhere (`HasPrimes.anyCovers_pick_eq`).  A
shorter cover would be a shorter sum for the function that was minimised first. -/

namespace TwoLevel

theorem Term.anyCovers_congr {ts us : List Term} (h : List.Forall₂ (· ≈ ·) ts us) (v : ℤ) :
    anyCovers ts v = anyCovers us v := by
  induction h with
  | nil => rfl
  | cons htu _ ih =>
      have hcovers := covers_congr (equiv_iff.mp htu).2 v
      unfold anyCovers at ih ⊢
      rw [List.any_cons, List.any_cons, hcovers, ih]

namespace Problem

variable {p : Problem} {primes : List Term} {chosen : OrdSet ℕ}

namespace HasPrimes

section given

variable (h : p.HasPrimes primes)
include h

/-- No more implicants are needed than terms are required, as each of these lies in a prime. -/
theorem size_le_length_minterms (hchosen : Cover.FirstCovering primes p.minterms chosen) :
    chosen.size ≤ p.minterms.length :=
  h.size_le_length_of_given hchosen.isSmallest (fun _ ht => List.mem_append_left _ ht)
    fun m hm _ hv => ⟨m, hm, hv⟩

/-- Where nothing is unconstrained, a cover has the value of the required terms everywhere. -/
theorem anyCovers_pick_eq (hexact : ∀ t ∈ p.minterms, t.Exact) (hnone : p.dontCares = [])
    (hchosen : Cover.Covering primes p.minterms chosen) (v : ℤ) :
    Term.anyCovers (Cover.pick chosen primes) v = Term.anyCovers p.minterms v := by
  have hgiven : p.minterms ++ p.dontCares = p.minterms := by rw [hnone, List.append_nil]
  have hall : ∀ t ∈ p.minterms ++ p.dontCares, t.Exact := by rwa [hgiven]
  by_cases hv : v ∈ p.required
  · obtain ⟨t, ht, hvt⟩ := mem_sourcesOf.mp hv
    rw [h.anyCovers_of_covering hall hchosen hv]
    exact (Term.anyCovers_iff.mpr ⟨t, ht, (hexact t ht v).mp hvt⟩).symm
  · have hout : ¬ ∃ t ∈ p.minterms ++ p.dontCares, v ∈ t.sources := by
      rwa [hgiven, ← mem_sourcesOf]
    rw [h.anyCovers_eq_false hall hout]
    symm
    rw [Bool.eq_false_iff]
    intro hcovers
    obtain ⟨t, ht, htv⟩ := Term.anyCovers_iff.mp hcovers
    exact hv (mem_sourcesOf.mpr ⟨t, ht, (hexact t ht v).mpr htv⟩)

end given

section integers

variable (h : p.HasPrimes primes) (hlength : ∀ t ∈ primes, (t.pattern.length : ℤ) ≤ p.width)
  {minterms dontCares : List ℤ} {width : Option ℤ}
  (hp : read (minterms.map .value) (dontCares.map .value) width = .ok p)
include h hlength hp

/-- The patterns of a solution are a problem again, with its implicants as required terms. -/
theorem exists_read_patterns (method : Method) {again : Option ℤ}
    (hagain : again = width ∨ again = some p.width) :
    ∃ q, read ((Text.lines (p.solution primes (Cover.pick chosen primes) method).patterns).map
        .text) [] again = .ok q ∧
      List.Forall₂ (· ≈ ·) q.minterms (Cover.pick chosen primes) ∧ q.dontCares = [] := by
  have hplain : ∀ x ∈ minterms.map .value ++ dontCares.map .value, Term.Spelling.Plain x := by
    rw [← List.map_append, List.forall_mem_map]
    exact fun _ _ => trivial
  have hmem : ∀ t ∈ Cover.pick chosen primes, t ∈ primes :=
    fun t ht => (Cover.pick_sublist chosen primes).subset ht
  refine Solution.exists_read_patterns (s := p.solution primes (Cover.pick chosen primes) method)
    (one_le_width hp) (width_le_maxWidth hplain hp) (fun t ht => hlength t (hmem t ht))
    (fun t ht => h.exact_of_mem (fun t => Problem.exact_of_mem hp) (hmem t ht)) ?_
  rintro w rfl
  rcases hagain with rfl | h
  · exact (width_eq_of_read hp).symm
  · exact Option.some.inj h

end integers

end HasPrimes

/-- **Minimising the patterns of a solution again** keeps its size.  For any integers over any width
that is accepted, the patterns of the solution are accepted with nothing unconstrained and the same
width, whether that is asked for again or not.  Their minimisation has as many implicants again,
which are one on every required integer and zero on every integer that is neither required nor
unconstrained.  Both times the prime implicants may be in any order, the first time those that have
no more positions than the width, as all have that are found. -/
theorem minimize_patterns_again (minterms dontCares : List ℤ) (width : Option ℤ) {p : Problem}
    (hp : read (minterms.map .value) (dontCares.map .value) width = .ok p) :
    (p.HasPrimes p.primes ∧ ∀ t ∈ p.primes, (t.pattern.length : ℤ) ≤ p.width) ∧
    ∀ primes, p.HasPrimes primes → (∀ t ∈ primes, (t.pattern.length : ℤ) ≤ p.width) →
      ∃ s, p.solve primes .products = .ok s ∧ ∀ again, again = width ∨ again = some s.width →
        ∃ q, read ((Text.lines s.patterns).map .text) [] again = .ok q ∧
          q.HasPrimes q.primes ∧ ∀ others, q.HasPrimes others →
            ∃ r, q.solve others .products = .ok r ∧ r.implicants.length = s.implicants.length ∧
              (∀ v ∈ minterms, Term.anyCovers r.implicants v = true) ∧
              ∀ v, v ∉ minterms → v ∉ dontCares → Term.anyCovers r.implicants v = false := by
  obtain ⟨-, -, hneeded⟩ := read_eq_ok hp
  refine ⟨⟨p.hasPrimes_primes, length_pattern_le_width hneeded⟩, fun primes hprimes hlength => ?_⟩
  obtain ⟨chosen, hchosen, hsolve⟩ := hprimes.exists_solve
  refine ⟨_, hsolve, fun again hagain => ?_⟩
  obtain ⟨q, hq, hequiv, hnone⟩ := hprimes.exists_read_patterns hlength hp .products hagain
  refine ⟨q, hq, q.hasPrimes_primes, fun more hmore => ?_⟩
  obtain ⟨others, hothers, hsolveAgain⟩ := hmore.exists_solve
  have hexact : ∀ t ∈ q.minterms, t.Exact := by
    intro t ht
    obtain ⟨u, hu, htu⟩ := exists_partner_of_mem_left hequiv ht
    have huprime := (Cover.pick_sublist chosen primes).subset hu
    have huExact := hprimes.exact_of_mem (fun t => exact_of_mem hp) huprime
    exact (Term.exact_congr htu).mpr huExact
  have hvalue : ∀ v, Term.anyCovers (Cover.pick others more) v =
      Term.anyCovers (Cover.pick chosen primes) v := by
    intro v
    rw [hmore.anyCovers_pick_eq hexact hnone hothers.covering, Term.anyCovers_congr hequiv]
  have hagrees := hprimes.agrees_of_covering hp hchosen.covering
  simp only [← hvalue] at hagrees
  have hsize : chosen.size = (Cover.pick chosen primes).length :=
    (Cover.length_pick hchosen.covering.lt_length).symm
  have hothersSize : (Cover.pick others more).length = others.size :=
    Cover.length_pick hothers.covering.lt_length
  refine ⟨_, hsolveAgain, le_antisymm ?_ ?_, hagrees⟩
  · calc (Cover.pick others more).length = others.size := hothersSize
      _ ≤ q.minterms.length := hmore.size_le_length_minterms hothers
      _ = (Cover.pick chosen primes).length := hequiv.length_eq
  · calc (Cover.pick chosen primes).length = chosen.size := hsize.symm
      _ ≤ (Cover.pick others more).length :=
        hprimes.size_le_length_of_agrees hp hchosen hagrees.1 fun n _ => hagrees.2 n

/-- With 1 and 2 required, 3 unconstrained and three inputs, the two implicants overlap in 3, which
is required the second time. -/
theorem patterns_again_one_two :
    ∃ p s q r, read ([1, 2].map .value) ([3].map .value) (some 3) = .ok p ∧
      p.minimize .products = .ok s ∧ s.patterns = "0*1\n01*" ∧
      read [.text "0*1", .text "01*"] [] (some 3) = .ok q ∧ q.minimize .products = .ok r ∧
      r.implicants.length = 2 ∧ Term.anyCovers r.implicants 2 = true ∧
      Term.anyCovers r.implicants 0 = false := by
  let p : Problem := ⟨[⟨[.one], .singleton 1⟩, ⟨[.zero, .one], .singleton 2⟩],
    [⟨[.one, .one], .singleton 3⟩], 3⟩
  have hread : read ([1, 2].map .value) ([3].map .value) (some 3) = .ok p := rfl
  obtain ⟨⟨hprimes, hfits⟩, hany⟩ := minimize_patterns_again _ _ _ hread
  obtain ⟨s, hs, hagain⟩ := hany _ hprimes hfits
  have hs : p.minimize .products = .ok s := hs
  obtain ⟨q, hq, hothers, hanyAgain⟩ := hagain (some 3) (Or.inl rfl)
  obtain ⟨r, hr, hlength, hone, hzero⟩ := hanyAgain _ hothers
  have hvalues : (p.minimize .products).map (fun s => (s.patterns, s.implicants.length)) =
      .ok ("0*1\n01*", 2) := by decide +kernel
  rw [hs] at hvalues
  simp only [Except.map, Except.ok.injEq, Prod.mk.injEq] at hvalues
  obtain ⟨hpatterns, himplicants⟩ := hvalues
  have hlines : Text.lines "0*1\n01*" = ["0*1", "01*"] := by decide +kernel
  rw [hpatterns, hlines] at hq
  exact ⟨p, s, q, r, hread, hs, hpatterns, hq, hr, hlength.trans himplicants,
    hone 2 (by decide), hzero 0 (by decide) (by decide)⟩

end Problem

end TwoLevel
