import TwoLevel.Proofs.Primes.Layer

/-! # Sources through the passes

What the passes do to the sources of the given terms, whatever these terms are.  Nothing is
invented: a property of terms that merging keeps holds in every layer (`forall_mem_layerAfter`), so
that the sources of a prime implicant are those of some given terms taken together
(`exists_union_of_mem_findPrimes`).  Nothing is lost either.  A term drops out of a pass when its
*sources* took part in a merge, which may have been the merge of another term with the same sources;
but that merge stands for all of these sources and is represented in the next layer, so that the
sources of every given term stay together in one term until a pass leaves it over
(`exists_mem_findPrimes_of_mem`). -/

namespace TwoLevel

/-! ### Nothing is invented -/

theorem forall_mem_layerAfter {P : Term → Prop} {terms : List Term} (hterms : ∀ t ∈ terms, P t)
    (hmerge : ∀ s t u, P s → P t → s.merge? t = some u → P u) (n : ℕ) :
    ∀ k, ∀ t ∈ (layerAfter terms n).bucket k, P t := by
  induction n with
  | zero =>
      intro k t ht
      exact hterms t (Layer.mem_of_mem_bucket_group ht).1
  | succ n ih =>
      intro k u hu
      rw [layerAfter_succ] at hu
      obtain ⟨s, hs, t, ht, hm⟩ := Layer.mem_bucket_next hu
      exact hmerge s t u (ih k s hs) (ih (k + 1) t ht) hm

/-- A property of the given terms that merging keeps holds of the prime implicants. -/
theorem forall_mem_findPrimes {P : Term → Prop} {minterms dontCares : List Term}
    (hterms : ∀ t ∈ minterms ++ dontCares, P t)
    (hmerge : ∀ s t u, P s → P t → s.merge? t = some u → P u) :
    ∀ t ∈ findPrimes minterms dontCares, P t := by
  intro t ht
  obtain ⟨n, hn⟩ := mem_findPrimes.mp ht
  obtain ⟨k, hk, -⟩ := Layer.mem_unmerged.mp hn
  exact forall_mem_layerAfter hterms hmerge n k t hk

theorem exact_of_mem_findPrimes {minterms dontCares : List Term}
    (h : ∀ t ∈ minterms ++ dontCares, t.Exact) : ∀ t ∈ findPrimes minterms dontCares, t.Exact :=
  forall_mem_findPrimes h fun _ _ _ hs ht hm => hs.merge ht hm

/-- The sources of a prime implicant are those of some given terms taken together. -/
theorem exists_union_of_mem_findPrimes {minterms dontCares : List Term} :
    ∀ t ∈ findPrimes minterms dontCares, ∃ parts : List Term, parts ≠ [] ∧
      (∀ s ∈ parts, s ∈ minterms ++ dontCares) ∧
      ∀ v, v ∈ t.sources ↔ ∃ s ∈ parts, v ∈ s.sources := by
  refine forall_mem_findPrimes (fun t ht => ⟨[t], ?_, ?_, ?_⟩) ?_
  · exact List.cons_ne_nil t []
  · simpa using ht
  · simp
  · rintro s t u ⟨parts, hne, hparts, hs⟩ ⟨others, -, hothers, ht⟩ hm
    refine ⟨parts ++ others, List.append_ne_nil_of_left_ne_nil hne _, ?_, fun v => ?_⟩
    · exact List.forall_mem_append.mpr ⟨hparts, hothers⟩
    · rw [Term.mem_sources_merge hm, hs, ht]
      simp only [List.mem_append, or_and_right, exists_or]

theorem exists_source_of_mem_findPrimes {minterms dontCares : List Term} :
    ∀ t ∈ findPrimes minterms dontCares, ∀ v ∈ t.sources,
      ∃ s ∈ minterms ++ dontCares, v ∈ s.sources := by
  intro t ht v hv
  obtain ⟨parts, -, hparts, hunion⟩ := exists_union_of_mem_findPrimes t ht
  obtain ⟨s, hs, hvs⟩ := (hunion v).mp hv
  exact ⟨s, hparts s hs, hvs⟩

/-! ### Nothing is lost -/

namespace Layer

theorem exists_mem_next_of_mergedUpTo {layer : Layer} {k : ℕ} {sources : OrdSet ℤ}
    (h : MergedUpTo layer k sources) :
    ∃ j, ∃ u ∈ bucket layer.next j, ∀ v ∈ sources, v ∈ u.sources := by
  obtain ⟨j, -, hj⟩ := h
  obtain ⟨s, hs, t, ht, hm, hsources⟩ := mem_mergedSources.mp hj
  obtain ⟨u, hu⟩ := Option.isSome_iff_exists.mp hm
  obtain ⟨u', hu', hequiv⟩ := exists_mem_bucket_next hs ht hu
  refine ⟨j, u', hu', fun v hv => ?_⟩
  rw [(Term.equiv_iff.mp hequiv).1, Term.mem_sources_merge hu]
  rcases hsources with rfl | rfl
  · exact Or.inl hv
  · exact Or.inr hv

/-- One pass: a term is left over, or its sources lie in one term of the next layer. -/
theorem mem_unmerged_or_exists_mem_next {layer : Layer} {k : ℕ} {t : Term}
    (ht : t ∈ bucket layer k) :
    t ∈ unmerged layer ∨ ∃ j, ∃ u ∈ bucket layer.next j, ∀ v ∈ t.sources, v ∈ u.sources := by
  by_cases h : MergedUpTo layer k t.sources
  · exact Or.inr (exists_mem_next_of_mergedUpTo h)
  · exact Or.inl (mem_unmerged.mpr ⟨k, ht, h⟩)

end Layer

/-- All passes: the sources of a term of any layer lie in one prime implicant. -/
theorem exists_mem_findPrimes_of_mem_layerAfter {minterms dontCares : List Term} {n k : ℕ}
    {t : Term} (ht : t ∈ (layerAfter (minterms ++ dontCares) n).bucket k) :
    ∃ u ∈ findPrimes minterms dontCares, ∀ v ∈ t.sources, v ∈ u.sources := by
  -- the passes that are still to come bound the number of terms the sources can move through
  induction hfuel : (Layer.group (minterms ++ dontCares)).length + 1 - n
    generalizing n k t with
  | zero =>
      have hvoid : (layerAfter (minterms ++ dontCares) n).isVoid = true :=
        Layer.isVoid_of_length_le (by omega)
      rw [(Layer.isVoid_iff _).mp hvoid k] at ht
      exact absurd ht List.not_mem_nil
  | succ fuel ih =>
      rcases Layer.mem_unmerged_or_exists_mem_next ht with h | ⟨j, u, hu, htu⟩
      · exact ⟨t, mem_findPrimes.mpr ⟨n, h⟩, fun v hv => hv⟩
      · rw [← layerAfter_succ] at hu
        obtain ⟨w, hw, huw⟩ := ih hu (by omega)
        exact ⟨w, hw, fun v hv => huw v (htu v hv)⟩

/-- **Nothing is lost.**  The sources of a given term lie in one prime implicant. -/
theorem exists_mem_findPrimes_of_mem {minterms dontCares : List Term} {t : Term}
    (ht : t ∈ minterms ++ dontCares) :
    ∃ u ∈ findPrimes minterms dontCares, ∀ v ∈ t.sources, v ∈ u.sources := by
  obtain ⟨s, hs, hst⟩ := Layer.exists_mem_bucket_group ht
  obtain ⟨u, hu, hsu⟩ := exists_mem_findPrimes_of_mem_layerAfter (n := 0) hs
  rw [(Term.equiv_iff.mp hst).1] at hsu
  exact ⟨u, hu, hsu⟩

end TwoLevel
