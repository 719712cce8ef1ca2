import TwoLevel.Proofs.Minimization

/-! # Patterns and their integers

A pattern means the integers it allows.  Putting these integers in its place keeps what is required
and what is unconstrained (`Term.sourcesOf_integers`), and every prime implicant stays inside one
(`Problem.exists_prime_around`), so that no more implicants are needed.

The passes compare patterns as they are given, and no cube is taken apart.  So fewer implicants may
be needed for the integers, unless every source of a pattern is given by itself as well; and the
prime implicants are the same when each pattern comes with its halves
(`Problem.exists_prime_equiv`). -/

namespace TwoLevel

/-! ### The integers of a spelling -/

namespace Term

/-- The integers that a spelling means, a pattern all those it allows. -/
def Spelling.integers : Spelling → List ℤ
  | value n => [n]
  | text s =>
    match ofText s with
    | .ok t => t.sources.toList
    | .error _ => []
  | term t => t.sources.toList

theorem mem_integers_iff {x : Spelling} {t : Term} (h : x.read = .ok t) (v : ℤ) :
    v ∈ x.integers ↔ v ∈ t.sources := by
  cases x with
  | value n =>
      obtain ⟨k, rfl, rfl⟩ := ofInt_eq_ok h
      rw [OrdSet.mem_singleton]
      exact List.mem_singleton
  | text s =>
      have hread : ofText s = .ok t := h
      simp only [Spelling.integers, hread]
      exact Iff.rfl
  | term u =>
      obtain rfl : u = t := Except.ok.inj h
      exact Iff.rfl

theorem range_of_mem_sources {x : Spelling} (hx : x.Plain) {t : Term} (h : x.read = .ok t) {v : ℤ}
    (hv : v ∈ t.sources) : 0 ≤ v ∧ v < 2 ^ maxWidth := by
  obtain ⟨n, rfl⟩ := exists_natCast_of_covers ((exact_of_read hx h v).mp hv)
  have hfits := (x.exists_read_iff.mp ⟨t, h⟩).fits hx
  have hlt := ((Spelling.fits_iff h maxWidth).mp hfits).2 n hv
  exact ⟨Int.natCast_nonneg n, by exact_mod_cast hlt⟩

section readAll

variable {spellings : List Spelling} {ts : List Term} (h : readAll spellings = .ok ts)
include h

theorem mem_flatMap_integers_iff (v : ℤ) :
    v ∈ spellings.flatMap Spelling.integers ↔ ∃ t ∈ ts, v ∈ t.sources := by
  rw [List.mem_flatMap]
  constructor
  · rintro ⟨x, hx, hv⟩
    obtain ⟨t, ht, hread⟩ := exists_mem_readAll h hx
    exact ⟨t, ht, (mem_integers_iff hread v).mp hv⟩
  · rintro ⟨t, ht, hv⟩
    obtain ⟨x, hx, hread⟩ := exists_spelling_of_mem_readAll h ht
    exact ⟨x, hx, (mem_integers_iff hread v).mpr hv⟩

theorem sourcesOf_integers {us : List Term}
    (hus : readAll ((spellings.flatMap Spelling.integers).map .value) = .ok us) :
    Problem.sourcesOf us = Problem.sourcesOf ts := by
  apply OrdSet.ext
  intro v
  rw [Problem.mem_sourcesOf, Problem.mem_sourcesOf, exists_source_iff hus,
    mem_flatMap_integers_iff h]

end readAll

end Term

/-! ### Covers from larger implicants -/

/-- Where every implicant of one list lies in one of another, the other needs no more of them. -/
theorem Cover.MinimumCover.length_le {implicants minterms cover larger required others : List Term}
    (h : MinimumCover implicants minterms cover) (hlarger : MinimumCover larger required others)
    (hprimes : ∀ t ∈ implicants, ∃ u ∈ larger, ∀ v ∈ t.sources, v ∈ u.sources)
    (hrequired : Problem.sourcesOf required = Problem.sourcesOf minterms) :
    others.length ≤ cover.length := by
  choose around haround hinside using hprimes
  have hmem : ∀ t ∈ cover, t ∈ implicants := fun t ht => h.sublist.subset ht
  calc others.length ≤ (cover.attach.map fun t => around t.1 (hmem t.1 t.2)).length := ?_
    _ = cover.length := by rw [List.length_map, List.length_attach]
  apply hlarger.fewest
  · intro u hu
    obtain ⟨t, -, rfl⟩ := List.mem_map.mp hu
    exact haround t.1 (hmem t.1 t.2)
  · intro m hm v hv
    have hsource : v ∈ Problem.sourcesOf required := Problem.mem_sourcesOf.mpr ⟨m, hm, hv⟩
    rw [hrequired] at hsource
    obtain ⟨m', hm', hv'⟩ := Problem.mem_sourcesOf.mp hsource
    obtain ⟨t, ht, hvt⟩ := h.covers m' hm' v hv'
    refine ⟨around t (hmem t ht), ?_, hinside t (hmem t ht) v hvt⟩
    exact List.mem_map.mpr ⟨⟨t, ht⟩, List.mem_attach _ _, rfl⟩

namespace Problem

/-! ### Minimisation -/

section primes

variable {p q : Problem}
  (hsources : sourcesOf (q.minterms ++ q.dontCares) = sourcesOf (p.minterms ++ p.dontCares))
include hsources

/-- The cube of an exact prime lies in a prime for the same sources each given by itself. -/
theorem exists_prime_around (hq : Term.Resolved (q.minterms ++ q.dontCares))
    (hexact : ∀ t ∈ p.minterms ++ p.dontCares, t.Exact) {t : Term} (ht : t ∈ p.primes) :
    ∃ u ∈ q.primes, ∀ v ∈ t.sources, v ∈ u.sources := by
  have hprime := p.mem_findPrimes_of_mem_primes ht
  have htExact := exact_of_mem_findPrimes hexact t hprime
  have hinside : ∀ m : ℕ, t.pattern.allows m = true →
      (m : ℤ) ∈ sourcesOf (q.minterms ++ q.dontCares) := by
    intro m hm
    rw [hsources, mem_sourcesOf]
    exact exists_source_of_mem_findPrimes t hprime m ((htExact.allows_iff m).mpr hm)
  obtain ⟨w, hw, htw⟩ := hq.exists_mem_findPrimes_of_cube hinside
  obtain ⟨u, hu, huw⟩ := q.hasPrimes_primes.exists_mem_of_mem_findPrimes hw
  refine ⟨u, hu, fun v hv => ?_⟩
  obtain ⟨m, rfl⟩ := Term.exists_natCast_of_covers ((htExact v).mp hv)
  rw [huw]
  exact htw m ((htExact.allows_iff m).mp hv)

/-- The primes of terms given with their halves are found for the same sources each given by
itself. -/
theorem exists_prime_equiv (hq : Term.Subdivided (q.minterms ++ q.dontCares))
    (hp : Term.Resolved (p.minterms ++ p.dontCares)) {u : Term} (hu : u ∈ q.primes) :
    ∃ t ∈ p.primes, t ≈ u := by
  have hmaximal := (hq.exists_mem_findPrimes_iff u).mp
    ⟨u, q.mem_findPrimes_of_mem_primes hu, Setoid.refl u⟩
  rw [hsources] at hmaximal
  obtain ⟨w, hw, hwu⟩ := hp.exists_mem_findPrimes hmaximal
  obtain ⟨t, ht, htw⟩ := exists_mem_primeImplicants hw
  exact ⟨t, ht, Setoid.trans htw hwu⟩

end primes

section read

variable {minterms dontCares : List Term.Spelling} {width : Option ℤ} {p : Problem}

theorem exists_read_integers (hplain : ∀ x ∈ minterms ++ dontCares, x.Plain)
    (hp : read minterms dontCares width = .ok p) :
    ∃ q, read ((minterms.flatMap Term.Spelling.integers).map .value)
      ((dontCares.flatMap Term.Spelling.integers).map .value) width = .ok q := by
  obtain ⟨ms, ds, hm, hd, hmake⟩ := read_eq_ok_iff.mp hp
  obtain ⟨-, hwidth⟩ := make_eq_ok_iff.mp hmake
  have hread := Term.readAll_append hm hd
  have hrange : ∀ v ∈ (minterms ++ dontCares).flatMap Term.Spelling.integers,
      (0 ≤ v ∧ v < 2 ^ maxWidth) ∧ v ∈ sourcesOf (ms ++ ds) := by
    intro v hv
    obtain ⟨t, ht, hvt⟩ := (Term.mem_flatMap_integers_iff hread v).mp hv
    obtain ⟨x, hx, hxt⟩ := Term.exists_spelling_of_mem_readAll hread ht
    exact ⟨Term.range_of_mem_sources (hplain x hx) hxt hvt, mem_sourcesOf.mpr ⟨t, ht, hvt⟩⟩
  rw [exists_read_integers_iff, ← List.flatMap_append]
  refine ⟨fun v hv => (hrange v hv).1, fun w hw => ?_⟩
  obtain ⟨hneeded, hmax⟩ := hwidth w hw
  obtain ⟨hone, hlt, -⟩ := (widthNeeded_le_iff (ms ++ ds) w.toNat).mp (by omega)
  refine ⟨by omega, hmax, fun v hv => ?_⟩
  have habs : (v.natAbs : ℤ) < 2 ^ w.toNat := by exact_mod_cast hlt v (hrange v hv).2
  have hnonneg := (hrange v hv).1.1
  omega

theorem subdivided_of_read_integers {ms ds : List ℤ}
    (hp : read (ms.map .value) (ds.map .value) width = .ok p) :
    Term.Subdivided (p.minterms ++ p.dontCares) :=
  .of_integers fun _ ht => exists_ofInt_of_mem hp ht

end read

/-- **Patterns and their integers.**  A problem spelled with integers and patterns can be spelled
with the integers of its patterns instead, for the same function.  Every prime implicant then lies
in one, and no more implicants are needed.  They are as many if every source is given by itself to
begin with, and the prime implicants are the same if the terms are given with their halves. -/
theorem minimize_resolved (minterms dontCares : List Term.Spelling) (width : Option ℤ)
    {p : Problem} (hplain : ∀ x ∈ minterms ++ dontCares, x.Plain)
    (hp : read minterms dontCares width = .ok p) :
    ∃ q, read ((minterms.flatMap Term.Spelling.integers).map .value)
        ((dontCares.flatMap Term.Spelling.integers).map .value) width = .ok q ∧
      q.required = p.required ∧ q.unconstrained = p.unconstrained ∧
      (∀ t ∈ p.primes, ∃ u ∈ q.primes, ∀ v ∈ t.sources, v ∈ u.sources) ∧
      ∃ s r, p.minimize .products = .ok s ∧ q.minimize .products = .ok r ∧
        r.implicants.length ≤ s.implicants.length ∧
        (Term.Resolved (p.minterms ++ p.dontCares) →
          (∀ u ∈ q.primes, ∃ t ∈ p.primes, t ≈ u) ∧
            r.implicants.length = s.implicants.length) ∧
        (Term.Subdivided (p.minterms ++ p.dontCares) →
          ∀ t, (∃ u ∈ q.primes, u ≈ t) ↔ ∃ u ∈ p.primes, u ≈ t) := by
  obtain ⟨q, hq⟩ := exists_read_integers hplain hp
  obtain ⟨hpm, hpd, -⟩ := read_eq_ok hp
  obtain ⟨hqm, hqd, -⟩ := read_eq_ok hq
  have hrequired : q.required = p.required := Term.sourcesOf_integers hpm hqm
  have hunconstrained : q.unconstrained = p.unconstrained := Term.sourcesOf_integers hpd hqd
  have hsources :
      sourcesOf (q.minterms ++ q.dontCares) = sourcesOf (p.minterms ++ p.dontCares) := by
    have hread := Term.readAll_append hqm hqd
    rw [← List.map_append, ← List.flatMap_append] at hread
    exact Term.sourcesOf_integers (Term.readAll_append hpm hpd) hread
  have hsub := subdivided_of_read_integers hq
  have hexact := exact_of_read hp hplain
  have haround : ∀ t ∈ p.primes, ∃ u ∈ q.primes, ∀ v ∈ t.sources, v ∈ u.sources :=
    fun t ht => exists_prime_around hsources hsub.resolved hexact ht
  obtain ⟨s, hs, hcover⟩ := p.hasPrimes_primes.exists_minimumCover
  obtain ⟨r, hr, hothers⟩ := q.hasPrimes_primes.exists_minimumCover
  have hle : r.implicants.length ≤ s.implicants.length :=
    hcover.length_le hothers haround hrequired
  refine ⟨q, hq, hrequired, hunconstrained, haround, s, r, hs, hr, hle, fun hresolved => ?_,
    fun hsubP t => ?_⟩
  · have hequiv : ∀ u ∈ q.primes, ∃ t ∈ p.primes, t ≈ u :=
      fun u hu => exists_prime_equiv hsources hsub hresolved hu
    refine ⟨hequiv, le_antisymm hle ?_⟩
    refine hothers.length_le hcover (fun u hu => ?_) hrequired.symm
    obtain ⟨t, ht, htu⟩ := hequiv u hu
    exact ⟨t, ht, fun v hv => (Term.equiv_iff.mp htu).1 ▸ hv⟩
  · constructor
    · rintro ⟨u, hu, hut⟩
      obtain ⟨w, hw, hwu⟩ := exists_prime_equiv hsources hsub hsubP.resolved hu
      exact ⟨w, hw, Setoid.trans hwu hut⟩
    · rintro ⟨u, hu, hut⟩
      obtain ⟨w, hw, hwu⟩ := exists_prime_equiv hsources.symm hsubP hsub.resolved hu
      exact ⟨w, hw, Setoid.trans hwu hut⟩

/-- The pattern `1*` is given with its halves 2 and 3. -/
theorem resolved_two_three :
    (∀ x ∈ [.value 2, .value 3, .text "1*"] ++ [], Term.Spelling.Plain x) ∧
      ∃ p q, read [.value 2, .value 3, .text "1*"] [] none = .ok p ∧
        read ([2, 3, 2, 3].map .value) [] none = .ok q ∧
        Term.Subdivided (p.minterms ++ p.dontCares) ∧
        ∀ t, (∃ u ∈ q.primes, u ≈ t) ↔ ∃ u ∈ p.primes, u ≈ t := by
  have hplain : ∀ x ∈ [.value 2, .value 3, .text "1*"] ++ [], Term.Spelling.Plain x := by
    simp [Term.Spelling.Plain]
  have hread : read [.value 2, .value 3, .text "1*"] [] none =
      .ok ⟨[⟨[.zero, .one], .singleton 2⟩, ⟨[.one, .one], .singleton 3⟩,
        .ofPattern [.star, .one]], [], 2⟩ := rfl
  obtain ⟨q, hq, -, -, -, s, r, -, -, -, -, hequiv⟩ := minimize_resolved _ _ _ hplain hread
  have hsub : Term.Subdivided ([⟨[.zero, .one], .singleton 2⟩, ⟨[.one, .one], .singleton 3⟩,
      .ofPattern [.star, .one]] ++ []) := by
    constructor
    · exact exact_of_read hread hplain
    · intro t ht i hi c hc
      simp only [List.append_nil, List.mem_cons, List.not_mem_nil, or_false] at ht
      rcases ht with rfl | rfl | rfl
      · exact absurd hi (Pattern.tritAt_ne_star (by decide) i)
      · exact absurd hi (Pattern.tritAt_ne_star (by decide) i)
      · rcases i with _ | _ | i
        · cases c with
          | star => exact absurd rfl hc
          | zero => exact ⟨⟨[.zero, .one], .singleton 2⟩, by simp, by decide⟩
          | one => exact ⟨⟨[.one, .one], .singleton 3⟩, by simp, by decide⟩
        · exact absurd hi (by decide)
        · exact absurd hi (by simp [Term.ofPattern])
  exact ⟨hplain, _, q, hread, hq, hsub, hequiv hsub⟩

/-- No two of three patterns merge, and all of them are needed, while one implicant is enough for
the integers they allow. -/
theorem unresolved_overlapping :
    ∃ p q s r, read [.text "0*", .text "*0", .text "11"] [] none = .ok p ∧
      read (([.text "0*", .text "*0", .text "11"].flatMap Term.Spelling.integers).map .value) []
        none = .ok q ∧
      p.minimize .products = .ok s ∧ q.minimize .products = .ok r ∧
      (¬ ∀ t ∈ p.primes, ∃ u ∈ q.primes, u ≈ t) ∧
      s.implicants.length = 3 ∧ r.implicants.length = 1 := by
  refine ⟨_, _, _, _, rfl, rfl, rfl, rfl, ?_, ?_, ?_⟩
  · decide
  · decide
  · decide

end Problem

end TwoLevel
