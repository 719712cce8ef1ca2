import TwoLevel.Proofs.Cover.Minimum
import TwoLevel.Proofs.Primes.Maximal
import TwoLevel.Proofs.Primes.Order
import TwoLevel.Proofs.Problem
import TwoLevel.Proofs.Verification

/-! # What a minimisation returns

The passes find prime implicants in no particular order, and `Problem.primes` puts them into the
canonical one.  What is said here of a minimisation holds for any list of them
(`Problem.HasPrimes`), so for the order in which they are found as well (`hasPrimes_discovered`).

A problem always has a solution by products, as the primes stand for every source
(`HasPrimes.exists_solve`).  For terms spelled as integers or patterns the solution computes the
function (`HasPrimes.computes_of_covering`).  For integers no sum of products that agrees with the
function below two to the power of the width has fewer terms (`HasPrimes.size_le_length_of_sum`):
cut to that range, each of its terms is a cube inside the given set and lies in a prime, and a prime
for each term is a cover. -/

namespace TwoLevel.Problem

/-! ### Prime implicants in any order -/

/-- The classes of what the passes leave over, in any order, each of them once or more. -/
def HasPrimes (p : Problem) (primes : List Term) : Prop :=
  Term.SameClasses primes (findPrimes p.minterms p.dontCares)

variable (p : Problem)

theorem hasPrimes_primes : p.HasPrimes p.primes :=
  (Term.sameClasses_of_mem_iff fun _ => Term.mem_sort).trans (Term.sameClasses_firsts _)

/-- The prime implicants in the order of their discovery, in whatever order buckets are read. -/
theorem hasPrimes_discovered (r : Layer.Reading) :
    p.HasPrimes (Term.firsts (r.findPrimes p.minterms p.dontCares)) := by
  have hperm := r.perm_findPrimes .stored
    (Term.sameClasses_of_mem_iff fun t => Iff.refl (t ∈ p.minterms ++ p.dontCares))
  rw [Layer.Reading.stored_findPrimes] at hperm
  exact (Term.sameClasses_firsts _).trans (Term.sameClasses_of_perm hperm)

theorem mem_findPrimes_of_mem_primes {t : Term} (h : t ∈ p.primes) :
    t ∈ findPrimes p.minterms p.dontCares := mem_of_mem_primeImplicants h

theorem ofWidth_of_mem_primes {w : ℕ} (h : ∀ t ∈ p.minterms ++ p.dontCares, t.OfWidth w) :
    ∀ t ∈ p.primes, t.OfWidth w :=
  fun t ht => forall_mem_findPrimes h (fun _ _ _ hs ht hm => hs.merge ht hm) t
    (p.mem_findPrimes_of_mem_primes ht)

/-! ### Solving -/

theorem solveWith_eq_ok_iff {solver : MaxSat.Solver} {primes : List Term} {m : Method}
    {s : Solution} : p.solveWith solver primes m = .ok s ↔
      ∃ chosen, m.coverWith solver primes p.minterms = .ok chosen ∧
        p.solution primes (Cover.pick chosen primes) m = s := by
  unfold solveWith
  cases m.coverWith solver primes p.minterms with
  | error f => simp [Except.map]
  | ok chosen => simp [Except.map]

variable {p} {primes : List Term}

namespace HasPrimes

section sources

variable (h : p.HasPrimes primes)
include h

theorem exists_mem_of_mem_findPrimes {t : Term} (ht : t ∈ findPrimes p.minterms p.dontCares) :
    ∃ u ∈ primes, u.sources = t.sources := by
  obtain ⟨u, hu, hut⟩ := h.right t ht
  exact ⟨u, hu, (Term.equiv_iff.mp hut).1⟩

theorem exists_mem_of_mem {t : Term} (ht : t ∈ p.minterms ++ p.dontCares) :
    ∃ u ∈ primes, ∀ v ∈ t.sources, v ∈ u.sources := by
  obtain ⟨s, hs, hts⟩ := exists_mem_findPrimes_of_mem ht
  obtain ⟨u, hu, hus⟩ := h.exists_mem_of_mem_findPrimes hs
  exact ⟨u, hu, hus ▸ hts⟩

theorem exists_source_iff (v : ℤ) :
    (∃ u ∈ primes, v ∈ u.sources) ↔ ∃ t ∈ p.minterms ++ p.dontCares, v ∈ t.sources := by
  constructor
  · rintro ⟨u, hu, hv⟩
    obtain ⟨t, ht, htu⟩ := h.left u hu
    exact exists_source_of_mem_findPrimes t ht v ((Term.equiv_iff.mp htu).1 ▸ hv)
  · rintro ⟨t, ht, hv⟩
    obtain ⟨u, hu, htu⟩ := h.exists_mem_of_mem ht
    exact ⟨u, hu, htu v hv⟩

theorem not_uncovered : ¬ ∃ v, Cover.Uncovered primes p.minterms v := by
  rintro ⟨v, ⟨m, hm, hv⟩, hnone⟩
  have hgiven : ∃ t ∈ p.minterms ++ p.dontCares, v ∈ t.sources :=
    ⟨m, List.mem_append_left _ hm, hv⟩
  obtain ⟨u, hu, hvu⟩ := (h.exists_source_iff v).mpr hgiven
  exact hnone u hu hvu

/-- By products the first covering set of the primes is chosen, whatever the solver. -/
theorem exists_solveWith (solver : MaxSat.Solver) :
    ∃ chosen, Cover.FirstCovering primes p.minterms chosen ∧
      p.solveWith solver primes .products =
        .ok (p.solution primes (Cover.pick chosen primes) .products) := by
  obtain ⟨chosen, hchosen⟩ := Cover.exists_byProducts_eq_ok h.not_uncovered
  exact ⟨chosen, ((Cover.byProducts_eq_ok_iff chosen).mp hchosen).2,
    p.solveWith_eq_ok_iff.mpr ⟨chosen, hchosen, rfl⟩⟩

theorem exists_solve : ∃ chosen, Cover.FirstCovering primes p.minterms chosen ∧
    p.solve primes .products = .ok (p.solution primes (Cover.pick chosen primes) .products) :=
  h.exists_solveWith HittingSet.solve

theorem exists_minimumCover : ∃ s, p.solve primes .products = .ok s ∧
    Cover.MinimumCover primes p.minterms s.implicants := by
  obtain ⟨chosen, hchosen, hsolve⟩ := h.exists_solve
  exact ⟨_, hsolve, hchosen.isSmallest.minimumCover⟩

/-- Given terms that together stand for everything required are no fewer than the indices of a
smallest covering set, as each of them lies in a prime. -/
theorem size_le_length_of_given {chosen : OrdSet ℕ}
    (hchosen : Cover.SmallestCovering primes p.minterms chosen) {given : List Term}
    (hgiven : ∀ t ∈ given, t ∈ p.minterms ++ p.dontCares)
    (hrequired : ∀ m ∈ p.minterms, ∀ v ∈ m.sources, ∃ t ∈ given, v ∈ t.sources) :
    chosen.size ≤ given.length := by
  refine hchosen.size_le_length (fun t v => v ∈ t.sources) (fun t ht => Or.inl ?_) hrequired
  exact h.exists_mem_of_mem (hgiven t ht)

end sources

/-! ### The function computed -/

section computes

variable (h : p.HasPrimes primes) (hexact : ∀ t ∈ p.minterms ++ p.dontCares, t.Exact)
  {chosen : OrdSet ℕ}
include h hexact

theorem exact_of_mem {t : Term} (ht : t ∈ primes) : t.Exact := by
  obtain ⟨u, hu, hut⟩ := h.left t ht
  exact (Term.exact_congr hut).mp (exact_of_mem_findPrimes hexact u hu)

theorem anyCovers_of_covering (hchosen : Cover.Covering primes p.minterms chosen) {v : ℤ}
    (hv : v ∈ p.required) : Term.anyCovers (Cover.pick chosen primes) v = true := by
  obtain ⟨m, hm, hvm⟩ := mem_sourcesOf.mp hv
  obtain ⟨i, hi, t, ht, hvt⟩ := hchosen.covers m hm v hvm
  have hpick : t ∈ Cover.pick chosen primes := Cover.mem_pick.mpr ⟨i, hi, ht⟩
  have htExact := h.exact_of_mem hexact (List.mem_of_getElem? ht)
  exact Term.anyCovers_iff.mpr ⟨t, hpick, (htExact v).mp hvt⟩

theorem anyCovers_eq_false {v : ℤ} (hv : ¬ ∃ t ∈ p.minterms ++ p.dontCares, v ∈ t.sources) :
    Term.anyCovers (Cover.pick chosen primes) v = false := by
  rw [Bool.eq_false_iff]
  intro hcovers
  obtain ⟨t, ht, htv⟩ := Term.anyCovers_iff.mp hcovers
  have hprime := (Cover.pick_sublist chosen primes).subset ht
  exact hv ((h.exists_source_iff v).mp ⟨t, hprime, (h.exact_of_mem hexact hprime v).mpr htv⟩)

/-- The solution with a covering set, whoever chose it, computes the function. -/
theorem computes_of_covering (hchosen : Cover.Covering primes p.minterms chosen) (m : Method) :
    (p.solution primes (Cover.pick chosen primes) m).Computes where
  one v hv := h.anyCovers_of_covering hexact hchosen hv
  zero v hrequired hfree := by
    apply h.anyCovers_eq_false hexact
    rintro ⟨t, ht, hv⟩
    rcases List.mem_append.mp ht with ht | ht
    · exact hrequired (mem_sourcesOf.mpr ⟨t, ht, hv⟩)
    · exact hfree (OrdSet.mem_sdiff.mpr ⟨mem_sourcesOf.mpr ⟨t, ht, hv⟩, hrequired⟩)

end computes

end HasPrimes

theorem exists_minimize (p : Problem) : ∃ chosen, Cover.FirstCovering p.primes p.minterms chosen ∧
    p.minimize .products =
      .ok (p.solution p.primes (Cover.pick chosen p.primes) .products) :=
  p.hasPrimes_primes.exists_solve

/-- **Every minimisation computes its function.**  For terms spelled as integers or patterns, in any
mix, the solution from the prime implicants, in the canonical order or in any other one, is one on
every source of a required term and zero on every integer, negative or of any size, that is a source
of no term; so the verifier finds no mismatch and the truth table agrees in every row. -/
theorem minimize_computes (minterms dontCares : List Term.Spelling) (width : Option ℤ) {p : Problem}
    (hplain : ∀ x ∈ minterms ++ dontCares, x.Plain)
    (hp : read minterms dontCares width = .ok p) :
    p.HasPrimes p.primes ∧ ∀ primes, p.HasPrimes primes →
      ∃ s, p.solve primes .products = .ok s ∧
        (∀ v, (∃ t ∈ p.minterms, v ∈ t.sources) → Term.anyCovers s.implicants v = true) ∧
        (∀ v, (¬ ∃ t ∈ p.minterms ++ p.dontCares, v ∈ t.sources) →
          Term.anyCovers s.implicants v = false) ∧
        s.mismatches = .ok [] ∧ s.verified = .ok true ∧ s.allAgree = .ok true := by
  have hexact := exact_of_read hp hplain
  have hpos : 0 ≤ p.width := zero_le_one.trans (one_le_width hp)
  refine ⟨p.hasPrimes_primes, fun primes hprimes => ?_⟩
  obtain ⟨chosen, hchosen, hsolve⟩ := hprimes.exists_solve
  have hcomputes := hprimes.computes_of_covering hexact hchosen.covering .products
  refine ⟨_, hsolve, fun v hv => ?_, fun v hv => hprimes.anyCovers_eq_false hexact hv,
    hcomputes.mismatches hpos, hcomputes.verified hpos, hcomputes.allAgree hpos⟩
  exact hprimes.anyCovers_of_covering hexact hchosen.covering (mem_sourcesOf.mpr hv)

/-- An input can be required and unconstrained at once, and patterns can overlap: here `1*` with 2
is required, and `*1` with 2 is unconstrained.  The primes are in canonical order, or in the order
in which any reading of the buckets finds them. -/
theorem computes_overlapping :
    (∀ x ∈ [.text "1*", .value 2] ++ [.text "*1", .value 2], Term.Spelling.Plain x) ∧
      ∃ p, read [.text "1*", .value 2] [.text "*1", .value 2] none = .ok p ∧
        (∃ s, p.minimize .products = .ok s ∧ Term.anyCovers s.implicants 2 = true ∧
          Term.anyCovers s.implicants 0 = false ∧ Term.anyCovers s.implicants (-1) = false ∧
          s.verified = .ok true ∧ s.allAgree = .ok true) ∧
        ∀ r : Layer.Reading,
          ∃ s, p.solve (Term.firsts (r.findPrimes p.minterms p.dontCares)) .products = .ok s ∧
            Term.anyCovers s.implicants 2 = true ∧ Term.anyCovers s.implicants 0 = false := by
  have hplain : ∀ x ∈ [.text "1*", .value 2] ++ [.text "*1", .value 2], Term.Spelling.Plain x := by
    simp [Term.Spelling.Plain]
  have hread : read [.text "1*", .value 2] [.text "*1", .value 2] none =
      .ok ⟨[.ofPattern [.star, .one], .ofPattern [.zero, .one]],
        [.ofPattern [.one, .star], .ofPattern [.zero, .one]], 2⟩ := rfl
  obtain ⟨hcanonical, hany⟩ := minimize_computes _ _ _ hplain hread
  refine ⟨hplain, _, hread, ?_, fun r => ?_⟩
  · obtain ⟨s, hs, hone, hzero, -, hverified, hagree⟩ := hany _ hcanonical
    exact ⟨s, hs, hone 2 (by decide), hzero 0 (by decide), hzero (-1) (by decide), hverified,
      hagree⟩
  · obtain ⟨s, hs, hone, hzero, -⟩ := hany _ (hasPrimes_discovered _ r)
    exact ⟨s, hs, hone 2 (by decide), hzero 0 (by decide)⟩

/-! ### The fewest terms -/

namespace HasPrimes

section fewest

variable (h : p.HasPrimes primes)
  (hint : ∀ t ∈ p.minterms ++ p.dontCares, ∃ n, Term.ofInt n = .ok t)
  {terms : List Term} (hzero : ∀ n : ℕ, n < 2 ^ p.width.toNat →
    (n : ℤ) ∉ sourcesOf (p.minterms ++ p.dontCares) → Term.anyCovers terms n = false)
include h hint hzero

/-- A term of a sum that is zero off the sources covers no input, or all it covers lies in one
prime: its positions below the width are a cube inside the sources. -/
theorem exists_mem_or_covers_none {l : Term} (hl : l ∈ terms) :
    (∃ u ∈ primes, ∀ n : ℕ, n < 2 ^ p.width.toNat → l.covers n = true → (n : ℤ) ∈ u.sources) ∨
      ∀ n : ℕ, n < 2 ^ p.width.toNat → l.covers n = false := by
  simp only [Term.covers_natCast]
  rcases Pattern.allows_take_iff l.pattern p.width.toNat with hnone | hcube
  · exact Or.inr hnone
  · left
    have hinside : ∀ n : ℕ, Pattern.allows (l.pattern.take p.width.toNat) n = true →
        (n : ℤ) ∈ sourcesOf (p.minterms ++ p.dontCares) := by
      intro n hn
      obtain ⟨hlt, hallows⟩ := (hcube n).mp hn
      by_contra hout
      have hcovers : Term.anyCovers terms n = true := Term.anyCovers_iff.mpr ⟨l, hl, hallows⟩
      rw [hzero n hlt hout] at hcovers
      exact absurd hcovers (by decide)
    have hgiven := (Term.Subdivided.of_integers hint).resolved
    obtain ⟨t, ht, hcubet⟩ := hgiven.exists_mem_findPrimes_of_cube hinside
    obtain ⟨u, hu, hut⟩ := h.exists_mem_of_mem_findPrimes ht
    refine ⟨u, hu, fun n hlt hn => ?_⟩
    rw [hut]
    exact hcubet n ((hcube n).mpr ⟨hlt, hn⟩)

theorem size_le_length_of_sum {chosen : OrdSet ℕ}
    (hchosen : Cover.FirstCovering primes p.minterms chosen)
    (hrequired : ∀ v ∈ p.required, ∃ n : ℕ, v = n ∧ n < 2 ^ p.width.toNat)
    (hone : ∀ v ∈ p.required, Term.anyCovers terms v = true) : chosen.size ≤ terms.length := by
  refine hchosen.isSmallest.size_le_length
    (fun l v => ∃ n : ℕ, v = n ∧ n < 2 ^ p.width.toNat ∧ l.covers n = true) ?_ ?_
  · intro l hl
    rcases h.exists_mem_or_covers_none hint hzero hl with ⟨u, hu, hlu⟩ | hnone
    · left
      refine ⟨u, hu, ?_⟩
      rintro _ ⟨n, rfl, hlt, hn⟩
      exact hlu n hlt hn
    · right
      rintro _ ⟨n, rfl, hlt, hn⟩
      rw [hnone n hlt] at hn
      exact absurd hn (by decide)
  · intro m hm v hv
    have hv : v ∈ p.required := mem_sourcesOf.mpr ⟨m, hm, hv⟩
    obtain ⟨n, rfl, hlt⟩ := hrequired v hv
    obtain ⟨l, hl, hn⟩ := Term.anyCovers_iff.mp (hone n hv)
    exact ⟨l, hl, n, rfl, hlt, hn⟩

end fewest

section integers

variable (h : p.HasPrimes primes) {minterms dontCares : List ℤ} {width : Option ℤ}
  (hp : read (minterms.map .value) (dontCares.map .value) width = .ok p) {chosen : OrdSet ℕ}
include h hp

theorem agrees_of_covering (hchosen : Cover.Covering primes p.minterms chosen) :
    (∀ v ∈ minterms, Term.anyCovers (Cover.pick chosen primes) v = true) ∧
      ∀ v, v ∉ minterms → v ∉ dontCares → Term.anyCovers (Cover.pick chosen primes) v = false := by
  have hexact : ∀ t ∈ p.minterms ++ p.dontCares, t.Exact := fun t => Problem.exact_of_mem hp
  constructor
  · intro v hv
    exact h.anyCovers_of_covering hexact hchosen ((mem_required_iff hp v).mpr hv)
  · intro v hm hd
    apply h.anyCovers_eq_false hexact
    rw [exists_source_integers_iff hp]
    exact not_or.mpr ⟨hm, hd⟩

/-- A sum of products that agrees with the function below two to the power of the width has no fewer
terms than the first covering set has indices. -/
theorem size_le_length_of_agrees (hchosen : Cover.FirstCovering primes p.minterms chosen)
    {terms : List Term} (hone : ∀ v ∈ minterms, Term.anyCovers terms v = true)
    (hzero : ∀ n : ℕ, n < 2 ^ p.width.toNat → (n : ℤ) ∉ minterms → (n : ℤ) ∉ dontCares →
      Term.anyCovers terms n = false) : chosen.size ≤ terms.length := by
  refine h.size_le_length_of_sum (fun t => exists_ofInt_of_mem hp) (fun n hlt hn => ?_) hchosen
    (fun v => exists_natCast_of_required hp) (fun v hv => ?_)
  · rw [mem_sourcesOf, exists_source_integers_iff hp, not_or] at hn
    exact hzero n hlt hn.1 hn.2
  · exact hone v ((mem_required_iff hp v).mp hv)

end integers

end HasPrimes

/-- **No sum of products is shorter.**  Integers of at most 32 bits, over any width that holds them,
have a solution from their prime implicants, in the canonical order or in any other one.  It is one
on every required integer and zero on every integer that is neither required nor unconstrained.  A
sum of products that is one on every required integer, and zero on every number below two to the
power of the width that is neither required nor unconstrained, has at least as many terms as that
solution. -/
theorem minimize_fewest_terms (minterms dontCares : List ℤ) (width : Option ℤ)
    (hrange : ∀ n ∈ minterms ++ dontCares, 0 ≤ n ∧ n < 2 ^ 32)
    (hwidth : ∀ w, width = some w →
      1 ≤ w ∧ w ≤ 32 ∧ ∀ n ∈ minterms ++ dontCares, n < 2 ^ w.toNat) :
    ∃ p, read (minterms.map .value) (dontCares.map .value) width = .ok p ∧
      p.HasPrimes p.primes ∧ ∀ primes, p.HasPrimes primes →
        ∃ s, p.solve primes .products = .ok s ∧
          (∀ v ∈ minterms, Term.anyCovers s.implicants v = true) ∧
          (∀ v, v ∉ minterms → v ∉ dontCares → Term.anyCovers s.implicants v = false) ∧
          ∀ terms : List Term, (∀ v ∈ minterms, Term.anyCovers terms v = true) →
            (∀ n : ℕ, n < 2 ^ p.width.toNat → (n : ℤ) ∉ minterms → (n : ℤ) ∉ dontCares →
              Term.anyCovers terms n = false) →
            s.implicants.length ≤ terms.length := by
  obtain ⟨p, hp⟩ := (exists_read_integers_iff minterms dontCares width).mpr ⟨hrange, hwidth⟩
  refine ⟨p, hp, p.hasPrimes_primes, fun primes hprimes => ?_⟩
  obtain ⟨chosen, hchosen, hsolve⟩ := hprimes.exists_solve
  obtain ⟨hone, hzero⟩ := hprimes.agrees_of_covering hp hchosen.covering
  refine ⟨_, hsolve, hone, hzero, fun terms htermsOne htermsZero => ?_⟩
  calc (Cover.pick chosen primes).length = chosen.size :=
        Cover.length_pick hchosen.covering.lt_length
    _ ≤ terms.length := hprimes.size_le_length_of_agrees hp hchosen htermsOne htermsZero

/-- With 1 and 3 required and 2 and 3 unconstrained, one term is enough over three inputs. -/
theorem fewest_terms_one_three :
    (∀ n ∈ [1, 3] ++ [3, 2], (0 : ℤ) ≤ n ∧ n < 2 ^ 32) ∧
      (∀ w : ℤ, some 3 = some w →
        1 ≤ w ∧ w ≤ 32 ∧ ∀ n ∈ [1, 3] ++ [3, 2], (n : ℤ) < 2 ^ w.toNat) ∧
      ∃ p, read ([1, 3].map .value) ([3, 2].map .value) (some 3) = .ok p ∧
        ∃ s, p.minimize .products = .ok s ∧ s.implicants.length ≤ 1 ∧
          Term.anyCovers s.implicants 3 = true ∧ Term.anyCovers s.implicants 5 = false := by
  have hrange : ∀ n ∈ [1, 3] ++ [3, 2], (0 : ℤ) ≤ n ∧ n < 2 ^ 32 := by decide
  have hwidth : ∀ w : ℤ, some 3 = some w →
      1 ≤ w ∧ w ≤ 32 ∧ ∀ n ∈ [1, 3] ++ [3, 2], (n : ℤ) < 2 ^ w.toNat := by
    rintro _ ⟨⟩
    decide
  obtain ⟨p, hp, hcanonical, hany⟩ := minimize_fewest_terms [1, 3] [3, 2] (some 3) hrange hwidth
  obtain ⟨s, hs, hone, hzero, hfewest⟩ := hany _ hcanonical
  refine ⟨hrange, hwidth, p, hp, s, hs, hfewest [.ofPattern [.one, .star, .zero]] ?_ ?_,
    hone 3 (by decide), hzero 5 (by decide) (by decide)⟩
  · decide
  · obtain rfl : p = _ := (Except.ok.inj hp).symm
    decide

end TwoLevel.Problem
