import TwoLevel.Proofs.Primes.Sources
import TwoLevel.Proofs.Term.Reading

/-! # Prime implicants and maximal cubes

When every source is given by itself, the layer after `n` passes holds the cubes with `n` free
positions inside the given set, each in the bucket of its ones, beside cubes with more
(`Layer.Cubes`).  The step of that invariant takes a cube with `n + 1` free positions apart into the
two halves of one free position: both are in the layer, in neighbouring buckets, and they merge into
the cube again (`Layer.Cubes.exists_halves`).

The same argument decides which of the cubes with `n` free positions a pass leaves over.  One with a
larger cube around it can be extended at some fixed position, hence merges with the neighbour there;
so exactly the maximal ones are left over (`Layer.Cubes.mem_unmerged_iff`).

Of the cubes with more free positions none is left over if each of them is given together with its
halves (`Layer.Split`), as it then merges with its upper half into itself.  So the prime implicants
are the maximal cubes (`Term.Subdivided.exists_mem_findPrimes_iff`), in particular those of
integers, which have no free positions at all. -/

namespace TwoLevel

variable {S : OrdSet ℤ}

/-! ### Maximal cubes -/

/-- The cube of a term is a maximal one inside a set of inputs. -/
structure Term.MaximalIn (S : OrdSet ℤ) (t : Term) : Prop where
  /-- The sources are the numbers that the pattern covers. -/
  exact : ∀ v, v ∈ t.sources ↔ t.covers v = true
  /-- The cube lies in the set. -/
  within : ∀ v ∈ t.sources, v ∈ S
  /-- No strictly larger cube lies in the set. -/
  maximal : ¬ ∃ q : Term, (∀ v ∈ t.sources, q.covers v = true) ∧
    (∃ v, q.covers v = true ∧ v ∉ t.sources) ∧ ∀ v, q.covers v = true → v ∈ S

theorem Term.MaximalIn.congr {s t : Term} (h : s ≈ t) (hs : s.MaximalIn S) : t.MaximalIn S := by
  obtain ⟨hsources, htrim⟩ := Term.equiv_iff.mp h
  refine ⟨(Term.exact_congr h).mp hs.exact, ?_, ?_⟩
  · rw [← hsources]
    exact hs.within
  · rw [← hsources]
    exact hs.maximal

namespace Layer

variable {n : ℕ} {layer : Layer}

/-! ### The invariant -/

/-- The layer holds the cubes with `n` free positions inside a set, in the buckets of their ones,
and no cubes with fewer. -/
structure Cubes (S : OrdSet ℤ) (n : ℕ) (layer : Layer) : Prop where
  exact : ∀ k, ∀ t ∈ bucket layer k, t.Exact
  within : ∀ k, ∀ t ∈ bucket layer k, ∀ v ∈ t.sources, v ∈ S
  stars : ∀ k, ∀ t ∈ bucket layer k, n ≤ t.pattern.stars
  graded : Graded layer
  complete : ∀ p : Pattern, p.stars = n → (∀ m : ℕ, p.allows m = true → (m : ℤ) ∈ S) →
    ∃ t ∈ bucket layer p.ones, t.pattern.trim = p.trim

/-- With each cube of more than `n` free positions the layer holds its upper half at each of
these. -/
def Split (n : ℕ) (layer : Layer) : Prop :=
  ∀ k, ∀ t ∈ bucket layer k, n < t.pattern.stars → ∀ i, Pattern.tritAt t.pattern i = .star →
    ∃ u ∈ bucket layer (k + 1), u.pattern.trim = (Pattern.setTrit t.pattern i .one).trim

theorem Graded.ones_eq (h : Graded layer) {k : ℕ} {a b : Term} (ha : a ∈ bucket layer k)
    (hb : b ∈ bucket layer (k + 1)) : b.pattern.ones = a.pattern.ones + 1 := by
  have hak : a.pattern.ones = k := h k a ha
  have hbk : b.pattern.ones = k + 1 := h (k + 1) b hb
  omega

namespace Cubes

theorem exists_halves (h : Cubes S n layer) {p : Pattern} {i : ℕ} (hstars : p.stars = n + 1)
    (hi : p.tritAt i = .star) (hp : ∀ m : ℕ, p.allows m = true → (m : ℤ) ∈ S) :
    ∃ s ∈ bucket layer p.ones, ∃ t ∈ bucket layer (p.ones + 1),
      s.pattern.trim = (Pattern.setTrit p i .zero).trim ∧
      t.pattern.trim = (Pattern.setTrit p i .one).trim := by
  have hhalf : ∀ m : ℕ, (Pattern.setTrit p i .zero).allows m = true ∨
      (Pattern.setTrit p i .one).allows m = true → (m : ℤ) ∈ S := by
    intro m hm
    apply hp m
    rw [← Pattern.allows_congr (Pattern.trim_setTrit_self hi)]
    exact (Pattern.allows_setTrit_star_iff p i m).mpr hm
  have hzero := Pattern.stars_setTrit_of_star hi (c := .zero) (by decide)
  have hone := Pattern.stars_setTrit_of_star hi (c := .one) (by decide)
  obtain ⟨s, hs, hsTrim⟩ := h.complete (Pattern.setTrit p i .zero) (by omega)
    fun m hm => hhalf m (Or.inl hm)
  obtain ⟨t, ht, htTrim⟩ := h.complete (Pattern.setTrit p i .one) (by omega)
    fun m hm => hhalf m (Or.inr hm)
  rw [Pattern.ones_setTrit_of_star hi] at hs ht
  exact ⟨s, hs, t, ht, hsTrim, htTrim⟩

theorem next (h : Cubes S n layer) : Cubes S (n + 1) layer.next where
  exact k u hu := by
    obtain ⟨s, hs, t, ht, hm⟩ := mem_bucket_next hu
    exact (h.exact k s hs).merge (h.exact (k + 1) t ht) hm
  within k u hu v hv := by
    obtain ⟨s, hs, t, ht, hm⟩ := mem_bucket_next hu
    rcases (Term.mem_sources_merge hm v).mp hv with hv | hv
    · exact h.within k s hs v hv
    · exact h.within (k + 1) t ht v hv
  stars k u hu := by
    obtain ⟨s, hs, t, ht, hm⟩ := mem_bucket_next hu
    have htn := h.stars (k + 1) t ht
    rw [Pattern.stars_merge (Term.merge?_eq_some hm).1 (h.graded.ones_eq hs ht)]
    omega
  graded := h.graded.next
  complete p hstars hp := by
    obtain ⟨i, hi⟩ := Pattern.exists_tritAt_eq_star (p := p) (by omega)
    obtain ⟨s, hs, t, ht, hsTrim, htTrim⟩ := h.exists_halves hstars hi hp
    obtain ⟨u, hu, htrim⟩ :=
      exists_mem_next_of_differAt hs ht (Pattern.differAt_of_halves hsTrim htTrim)
    exact ⟨u, hu, htrim.trans (Pattern.trim_setTrit_star_of_half hi hsTrim)⟩

theorem exists_mem_sources_merge (h : Cubes S n layer) {j k : ℕ} {a b t u : Term}
    (ha : a ∈ bucket layer j) (hb : b ∈ bucket layer (j + 1)) (hu : a.merge? b = some u)
    (ht : t ∈ bucket layer k) (hn : t.pattern.stars = n) (hsub : ∀ v ∈ t.sources, v ∈ u.sources) :
    ∃ v ∈ u.sources, v ∉ t.sources := by
  have huExact := (h.exact j a ha).merge (h.exact (j + 1) b hb) hu
  by_contra hall
  push Not at hall
  have heq : t.sources = u.sources := OrdSet.ext fun v => ⟨hsub v, hall v⟩
  -- equal cubes have equally many free positions, but the merge has more than `n`
  have htu : t.pattern.stars = u.pattern.stars :=
    Pattern.count_congr ((h.exact k t ht).trim_eq_of_sources_eq huExact heq) (by decide)
  have hbn := h.stars (j + 1) b hb
  rw [hn, Pattern.stars_merge (Term.merge?_eq_some hu).1 (h.graded.ones_eq ha hb)] at htu
  omega

/-- A cube that took part in a merge has a larger one around it. -/
theorem exists_larger_of_mergedUpTo (h : Cubes S n layer) {k : ℕ} {t : Term}
    (ht : t ∈ bucket layer k) (hn : t.pattern.stars = n) (hm : MergedUpTo layer k t.sources) :
    ∃ q : Term, (∀ v ∈ t.sources, q.covers v = true) ∧
      (∃ v, q.covers v = true ∧ v ∉ t.sources) ∧ ∀ v, q.covers v = true → v ∈ S := by
  obtain ⟨j, -, hj⟩ := hm
  obtain ⟨a, ha, b, hb, hsome, hsources⟩ := mem_mergedSources.mp hj
  obtain ⟨u, hu⟩ := Option.isSome_iff_exists.mp hsome
  have huExact := (h.exact j a ha).merge (h.exact (j + 1) b hb) hu
  have hsub : ∀ v ∈ t.sources, v ∈ u.sources := by
    intro v hv
    rw [Term.mem_sources_merge hu]
    rcases hsources with e | e
    · exact Or.inl (e ▸ hv)
    · exact Or.inr (e ▸ hv)
  obtain ⟨w, hw, hwt⟩ := h.exists_mem_sources_merge ha hb hu ht hn hsub
  refine ⟨u, fun v hv => (huExact v).mp (hsub v hv), ⟨w, (huExact w).mp hw, hwt⟩, fun v hv => ?_⟩
  rcases (Term.mem_sources_merge hu v).mp ((huExact v).mpr hv) with hv | hv
  · exact h.within j a ha v hv
  · exact h.within (j + 1) b hb v hv

/-- A cube with a larger one around it merges with its neighbour at a position that the larger one
leaves free. -/
theorem mergedUpTo_of_larger (h : Cubes S n layer) {k : ℕ} {t q : Term} (ht : t ∈ bucket layer k)
    (hn : t.pattern.stars = n)
    (hsub : ∀ v ∈ t.sources, q.covers v = true) (hne : ∃ v, q.covers v = true ∧ v ∉ t.sources)
    (hqS : ∀ v, q.covers v = true → v ∈ S) : MergedUpTo layer k t.sources := by
  have htExact := h.exact k t ht
  obtain ⟨i, hti, hfreed⟩ := Pattern.exists_setTrit_star_subset (p := t.pattern) (q := q.pattern)
    (fun m hm => hsub m ((htExact.allows_iff m).mpr hm)) (by
      obtain ⟨w, hw, hwt⟩ := hne
      obtain ⟨m, rfl⟩ := Term.exists_natCast_of_covers hw
      exact fun hall => hwt ((htExact.allows_iff m).mpr (hall m hw)))
  have hstars : (Pattern.setTrit t.pattern i .star).stars = n + 1 := by
    rw [Pattern.stars_setTrit_star hti, hn]
  obtain ⟨a, ha, b, hb, hazero, hbone⟩ :=
    h.exists_halves hstars (Pattern.tritAt_setTrit_same _ _ _) fun m hm => hqS m (hfreed m hm)
  have hmerge := (Term.isSome_merge?_iff a b).mpr ⟨i, Pattern.differAt_of_halves hazero hbone⟩
  have hle : (Pattern.setTrit t.pattern i .star).ones ≤ k := by
    rw [← h.graded k t ht]
    exact Pattern.ones_setTrit_star_le t.pattern i
  refine ⟨_, hle, mem_mergedSources.mpr ⟨a, ha, b, hb, hmerge, ?_⟩⟩
  rw [Pattern.trim_setTrit_setTrit] at hazero hbone
  cases hc : t.pattern.tritAt i with
  | star => exact absurd hc hti
  | zero =>
      rw [Pattern.trim_setTrit_self hc] at hazero
      exact Or.inl (htExact.sources_eq_of_trim_eq (h.exact _ a ha) hazero.symm)
  | one =>
      rw [Pattern.trim_setTrit_self hc] at hbone
      exact Or.inr (htExact.sources_eq_of_trim_eq (h.exact _ b hb) hbone.symm)

theorem mem_unmerged_iff (h : Cubes S n layer) {t : Term} (hn : t.pattern.stars = n) :
    t ∈ unmerged layer ↔ (∃ k, t ∈ bucket layer k) ∧ t.MaximalIn S := by
  rw [mem_unmerged]
  constructor
  · rintro ⟨k, hk, hm⟩
    refine ⟨⟨k, hk⟩, h.exact k t hk, h.within k t hk, ?_⟩
    rintro ⟨q, hsub, hne, hqS⟩
    exact hm (h.mergedUpTo_of_larger hk hn hsub hne hqS)
  · rintro ⟨⟨k, hk⟩, hmax⟩
    exact ⟨k, hk, fun hm => hmax.maximal (h.exists_larger_of_mergedUpTo hk hn hm)⟩

theorem exists_mem_unmerged (h : Cubes S n layer) {t : Term} (hn : t.pattern.stars = n)
    (ht : t.MaximalIn S) : ∃ u ∈ unmerged layer, u ≈ t := by
  obtain ⟨u, hu, htrim⟩ := h.complete t.pattern hn fun m hm => ht.within m ((ht.exact m).mpr hm)
  have hut : u ≈ t := ((h.exact _ u hu).equiv_iff_trim_eq ht.exact).mpr htrim
  have hun : u.pattern.stars = n := (Pattern.count_congr htrim (by decide)).trans hn
  exact ⟨u, (h.mem_unmerged_iff hun).mpr ⟨⟨_, hu⟩, ht.congr (Setoid.symm hut)⟩, hut⟩

end Cubes

/-! ### Cubes with more free positions -/

namespace Split

theorem exists_differAt (h : Split n layer) {k i : ℕ} {t : Term} (ht : t ∈ bucket layer k)
    (hn : n < t.pattern.stars) (hi : Pattern.tritAt t.pattern i = .star) :
    ∃ u ∈ bucket layer (k + 1), Pattern.DifferAt t.pattern u.pattern i := by
  obtain ⟨u, hu, htrim⟩ := h k t ht hn i hi
  have hdiffer := Pattern.differAt_setTrit t.pattern i (c := .star) (d := .one) (by decide)
  exact ⟨u, hu, hdiffer.congr (Pattern.trim_setTrit_self hi).symm htrim⟩

theorem mergedUpTo (h : Split n layer) {k : ℕ} {t : Term} (ht : t ∈ bucket layer k)
    (hn : n < t.pattern.stars) : MergedUpTo layer k t.sources := by
  obtain ⟨i, hi⟩ := Pattern.exists_tritAt_eq_star (p := t.pattern) (by omega)
  obtain ⟨u, hu, hdiffer⟩ := h.exists_differAt ht hn hi
  have hmerge := (Term.isSome_merge?_iff t u).mpr ⟨i, hdiffer⟩
  exact ⟨k, le_refl k, mem_mergedSources.mpr ⟨t, ht, u, hu, hmerge, Or.inl rfl⟩⟩

/-- One pass.  The upper half of a merge is the upper term itself at the position that was freed,
and the merge of the upper halves at any other. -/
theorem next (h : Split n layer) (hgraded : Graded layer) : Split (n + 1) layer.next := by
  intro k e he hn i hi
  obtain ⟨a, ha, b, hb, hm⟩ := mem_bucket_next he
  have hmerge := (Term.merge?_eq_some hm).1
  have hones := hgraded.ones_eq ha hb
  have hbn : n < b.pattern.stars := by
    have hstars := Pattern.stars_merge hmerge hones
    omega
  have han : n < a.pattern.stars := lt_of_lt_of_le hbn (Pattern.stars_le_of_merge hmerge hones)
  obtain ⟨j, hj, hone, hbTrim⟩ := Pattern.exists_one_of_merge hmerge hones
  have haTrim := hbTrim.trans (hj.trim_setTrit .star).symm
  by_cases hij : i = j
  · subst hij
    -- the upper term has more free positions, and merges into itself at any of them
    obtain ⟨m, hbm⟩ := Pattern.exists_tritAt_eq_star (p := b.pattern) (by omega)
    obtain ⟨u, hu, hdiffer⟩ := h.exists_differAt hb hbn hbm
    obtain ⟨w, hw, hwTrim⟩ := exists_mem_next_of_differAt hb hu hdiffer
    refine ⟨w, hw, ?_⟩
    rw [hwTrim, Pattern.trim_setTrit_self hbm, Pattern.trim_setTrit_congr hbTrim,
      Pattern.trim_setTrit_setTrit, Pattern.trim_setTrit_self hone]
  · have hai : Pattern.tritAt a.pattern i = .star := by
      rw [(Pattern.trim_eq_trim_iff _ _).mp haTrim i, Pattern.tritAt_setTrit_ne _ _ hij] at hi
      exact hi
    have hbi : Pattern.tritAt b.pattern i = .star := (hj.2 i hij).symm.trans hai
    obtain ⟨s, hs, hsTrim⟩ := h k a ha han i hai
    obtain ⟨t, ht, htTrim⟩ := h (k + 1) b hb hbn i hbi
    have hdiffer : Pattern.DifferAt s.pattern t.pattern j :=
      (hj.replace hij .one).congr hsTrim htTrim
    obtain ⟨w, hw, hwTrim⟩ := exists_mem_next_of_differAt hs ht hdiffer
    refine ⟨w, hw, ?_⟩
    calc w.pattern.trim = (Pattern.setTrit s.pattern j .star).trim := hwTrim
      _ = (Pattern.setTrit (Pattern.setTrit a.pattern i .one) j .star).trim :=
          Pattern.trim_setTrit_congr hsTrim _ _
      _ = (Pattern.setTrit (Pattern.setTrit a.pattern j .star) i .one).trim :=
          Pattern.trim_setTrit_comm _ hij _ _
      _ = (Pattern.setTrit e.pattern i .one).trim := Pattern.trim_setTrit_congr haTrim.symm _ _

end Split

theorem Cubes.maximalIn_of_mem_unmerged (h : Cubes S n layer) (hsplit : Split n layer) {t : Term}
    (ht : t ∈ unmerged layer) : t.pattern.stars = n ∧ t.MaximalIn S := by
  obtain ⟨k, hk, hm⟩ := mem_unmerged.mp ht
  have hn : t.pattern.stars = n := by
    by_contra hne
    have hle := h.stars k t hk
    exact hm (hsplit.mergedUpTo hk (by omega))
  exact ⟨hn, ((h.mem_unmerged_iff hn).mp ht).2⟩

end Layer

/-! ### The given terms -/

namespace Term

/-- Exact terms of which each source is given by itself. -/
structure Resolved (terms : List Term) : Prop where
  exact : ∀ t ∈ terms, t.Exact
  single : ∀ t ∈ terms, ∀ v ∈ t.sources, ∃ u ∈ terms, u.pattern.stars = 0 ∧ v ∈ u.sources

/-- Exact terms which are given together with their halves at every free position. -/
structure Subdivided (terms : List Term) : Prop where
  exact : ∀ t ∈ terms, t.Exact
  halves : ∀ t ∈ terms, ∀ i, Pattern.tritAt t.pattern i = .star → ∀ c : Trit, c ≠ .star →
    ∃ u ∈ terms, u.pattern.trim = (Pattern.setTrit t.pattern i c).trim

variable {terms : List Term}

theorem Subdivided.resolved (h : Subdivided terms) : Resolved terms where
  exact := h.exact
  single t ht v hv := by
    induction hstars : t.pattern.stars generalizing t with
    | zero => exact ⟨t, ht, hstars, hv⟩
    | succ n ih =>
        obtain ⟨i, hi⟩ := Pattern.exists_tritAt_eq_star (p := t.pattern) (by omega)
        obtain ⟨m, rfl⟩ := exists_natCast_of_covers ((h.exact t ht v).mp hv)
        have hm : Pattern.allows (Pattern.setTrit t.pattern i .star) m = true := by
          rw [Pattern.allows_congr (Pattern.trim_setTrit_self hi)]
          exact ((h.exact t ht).allows_iff m).mp hv
        have hhalf : ∃ c : Trit, c ≠ .star ∧
            Pattern.allows (Pattern.setTrit t.pattern i c) m = true := by
          rcases (Pattern.allows_setTrit_star_iff _ _ _).mp hm with hzero | hone
          · exact ⟨.zero, by decide, hzero⟩
          · exact ⟨.one, by decide, hone⟩
        obtain ⟨c, hc, hallows⟩ := hhalf
        obtain ⟨u, hu, htrim⟩ := h.halves t ht i hi c hc
        have hstarsU : u.pattern.stars = (Pattern.setTrit t.pattern i c).stars :=
          Pattern.count_congr htrim (by decide)
        have hfixed := Pattern.stars_setTrit_of_star hi hc
        refine ih u hu (((h.exact u hu).allows_iff m).mpr ?_) (by omega)
        rw [Pattern.allows_congr htrim]
        exact hallows

theorem Subdivided.of_integers (h : ∀ t ∈ terms, ∃ n, ofInt n = .ok t) : Subdivided terms where
  exact t ht := by
    obtain ⟨n, hn⟩ := h t ht
    exact exact_ofInt hn
  halves t ht i hi := by
    obtain ⟨n, hn⟩ := h t ht
    obtain ⟨m, -, rfl⟩ := ofInt_eq_ok hn
    exact absurd hi (Pattern.tritAt_ne_star (Pattern.stars_ofNat m) i)

end Term

/-! ### Layers of the given terms -/

theorem Term.Resolved.cubes_zero {terms : List Term} (h : Term.Resolved terms) :
    (layerAfter terms 0).Cubes (Problem.sourcesOf terms) 0 where
  exact k t ht := h.exact t (Layer.mem_of_mem_bucket_group ht).1
  within k t ht v hv :=
    Problem.mem_sourcesOf.mpr ⟨t, (Layer.mem_of_mem_bucket_group ht).1, hv⟩
  stars k t _ := Nat.zero_le _
  graded := graded_layerAfter terms 0
  complete p hstars hp := by
    -- a cube without free positions holds one number, which is given by itself
    obtain ⟨m, hm⟩ := Pattern.exists_allows p
    obtain ⟨t, ht, hmt⟩ := Problem.mem_sourcesOf.mp (hp m hm)
    obtain ⟨u, hu, huStars, hmu⟩ := h.single t ht m hmt
    have hum : u.pattern.allows m = true := ((h.exact u hu).allows_iff m).mp hmu
    have htrim : u.pattern.trim = p.trim :=
      (Pattern.trim_eq_ofNat huStars hum).trans (Pattern.trim_eq_ofNat hstars hm).symm
    have hones : u.ones = p.ones := Pattern.count_congr htrim (by decide)
    obtain ⟨w, hw, hequiv⟩ := Layer.exists_mem_bucket_group hu
    rw [hones] at hw
    exact ⟨w, hw, (Term.equiv_iff.mp hequiv).2.trans htrim⟩

theorem Term.Resolved.cubes {terms : List Term} (h : Term.Resolved terms) (n : ℕ) :
    (layerAfter terms n).Cubes (Problem.sourcesOf terms) n := by
  induction n with
  | zero => exact h.cubes_zero
  | succ n ih =>
      rw [layerAfter_succ]
      exact ih.next

theorem Term.Subdivided.split_zero {terms : List Term} (h : Term.Subdivided terms) :
    (layerAfter terms 0).Split 0 := by
  intro k t ht _ i hi
  obtain ⟨hgiven, hones⟩ := Layer.mem_of_mem_bucket_group ht
  obtain ⟨u, hu, htrim⟩ := h.halves t hgiven i hi .one (by decide)
  have huOnes : u.ones = k + 1 := by
    have hhalf := Pattern.ones_setTrit_of_star hi .one
    have hcongr : u.ones = (Pattern.setTrit t.pattern i .one).ones :=
      Pattern.count_congr htrim (by decide)
    rw [hcongr, hhalf, ← hones]
    rfl
  obtain ⟨w, hw, hequiv⟩ := Layer.exists_mem_bucket_group hu
  rw [huOnes] at hw
  exact ⟨w, hw, (Term.equiv_iff.mp hequiv).2.trans htrim⟩

theorem Term.Subdivided.split {terms : List Term} (h : Term.Subdivided terms) (n : ℕ) :
    (layerAfter terms n).Split n := by
  induction n with
  | zero => exact h.split_zero
  | succ n ih =>
      rw [layerAfter_succ]
      exact ih.next (graded_layerAfter terms n)

/-! ### The prime implicants -/

section primes

variable {minterms dontCares : List Term}

/-- Where every source is given by itself, each cube inside the given set lies in a prime
implicant. -/
theorem Term.Resolved.exists_mem_findPrimes_of_cube (h : Term.Resolved (minterms ++ dontCares))
    {q : Pattern}
    (hq : ∀ m : ℕ, q.allows m = true → (m : ℤ) ∈ Problem.sourcesOf (minterms ++ dontCares)) :
    ∃ u ∈ findPrimes minterms dontCares, ∀ m : ℕ, q.allows m = true → (m : ℤ) ∈ u.sources := by
  obtain ⟨t, ht, htrim⟩ := (h.cubes q.stars).complete q rfl hq
  obtain ⟨u, hu, htu⟩ := exists_mem_findPrimes_of_mem_layerAfter ht
  refine ⟨u, hu, fun m hm => htu m ?_⟩
  rw [((h.cubes q.stars).exact _ t ht).allows_iff, Pattern.allows_congr htrim]
  exact hm

theorem Term.Resolved.exists_mem_findPrimes (h : Term.Resolved (minterms ++ dontCares)) {t : Term}
    (ht : t.MaximalIn (Problem.sourcesOf (minterms ++ dontCares))) :
    ∃ u ∈ findPrimes minterms dontCares, u ≈ t := by
  obtain ⟨u, hu, hut⟩ := (h.cubes t.pattern.stars).exists_mem_unmerged rfl ht
  exact ⟨u, mem_findPrimes.mpr ⟨_, hu⟩, hut⟩

namespace Term.Subdivided

/-- Where terms are given with their halves, the prime implicants are the maximal cubes. -/
theorem exists_mem_findPrimes_iff (h : Subdivided (minterms ++ dontCares)) (t : Term) :
    (∃ u ∈ findPrimes minterms dontCares, u ≈ t) ↔
      t.MaximalIn (Problem.sourcesOf (minterms ++ dontCares)) := by
  constructor
  · rintro ⟨u, hu, hut⟩
    obtain ⟨n, hn⟩ := mem_findPrimes.mp hu
    exact ((h.resolved.cubes n).maximalIn_of_mem_unmerged (h.split n) hn).2.congr hut
  · exact h.resolved.exists_mem_findPrimes

/-- Where terms are given with their halves, no two prime implicants are equivalent: what is left
over by different passes differs in the number of free positions. -/
theorem pairwise_findPrimes (h : Subdivided (minterms ++ dontCares)) :
    (findPrimes minterms dontCares).Pairwise fun s t => ¬ s ≈ t := by
  obtain ⟨m, -, hpasses, -⟩ := Layer.passes_eq (Layer.group (minterms ++ dontCares))
  unfold findPrimes
  rw [hpasses, List.flatMap_map, List.pairwise_flatMap]
  refine ⟨fun n _ => pairwise_unmerged_layerAfter _ n, ?_⟩
  refine List.pairwise_lt_range.imp fun {i j} hij s hs t ht hst => ?_
  have hsi := ((h.resolved.cubes i).maximalIn_of_mem_unmerged (h.split i) hs).1
  have htj := ((h.resolved.cubes j).maximalIn_of_mem_unmerged (h.split j) ht).1
  have hstars : s.pattern.stars = t.pattern.stars :=
    Pattern.count_congr (Term.equiv_iff.mp hst).2 (by decide)
  omega

end Term.Subdivided

variable (h : ∀ t ∈ minterms ++ dontCares, ∃ n, Term.ofInt n = .ok t)
include h

theorem pairwise_findPrimes : (findPrimes minterms dontCares).Pairwise fun s t => ¬ s ≈ t :=
  (Term.Subdivided.of_integers h).pairwise_findPrimes

theorem exists_mem_findPrimes_iff_maximal (t : Term) :
    (∃ u ∈ findPrimes minterms dontCares, u ≈ t) ↔
      t.MaximalIn (Problem.sourcesOf (minterms ++ dontCares)) :=
  (Term.Subdivided.of_integers h).exists_mem_findPrimes_iff t

end primes

/-- **The prime implicants of integers** are the maximal cubes inside the set of these integers,
each of them found once. -/
theorem findPrimes_integers (minterms dontCares : List ℤ) {ms ds : List Term}
    (hm : Term.readAll (minterms.map .value) = .ok ms)
    (hd : Term.readAll (dontCares.map .value) = .ok ds) :
    (findPrimes ms ds).Pairwise (fun s t => ¬ s ≈ t) ∧
      ∀ t, (∃ u ∈ findPrimes ms ds, u ≈ t) ↔ t.MaximalIn (.ofList (minterms ++ dontCares)) := by
  have hint : ∀ t ∈ ms ++ ds, ∃ n, Term.ofInt n = .ok t := by
    intro t ht
    rcases List.mem_append.mp ht with ht | ht
    · exact Term.exists_ofInt_of_mem_readAll hm ht
    · exact Term.exists_ofInt_of_mem_readAll hd ht
  have hset : Problem.sourcesOf (ms ++ ds) = .ofList (minterms ++ dontCares) := by
    apply OrdSet.ext
    intro v
    rw [Problem.mem_sourcesOf, OrdSet.mem_ofList, List.mem_append, ← Term.exists_source_iff hm,
      ← Term.exists_source_iff hd]
    simp only [List.mem_append, or_and_right, exists_or]
  rw [← hset]
  exact ⟨pairwise_findPrimes hint, exists_mem_findPrimes_iff_maximal hint⟩

/-- The don't-care `5` joins with `1` and with `7`; the cube of `1` and `5` is found and maximal. -/
theorem maximalIn_one_five :
    Term.readAll ([0, 1, 7].map .value) =
        .ok [⟨[], .singleton 0⟩, ⟨[.one], .singleton 1⟩, ⟨[.one, .one, .one], .singleton 7⟩] ∧
      Term.readAll ([5, 1].map .value) =
        .ok [⟨[.one, .zero, .one], .singleton 5⟩, ⟨[.one], .singleton 1⟩] ∧
      Term.MaximalIn (.ofList ([0, 1, 7] ++ [5, 1])) (.ofPattern [.one, .zero, .star]) := by
  refine ⟨rfl, rfl, ((findPrimes_integers [0, 1, 7] [5, 1] rfl rfl).2 _).mp ?_⟩
  decide

end TwoLevel
