import TwoLevel.Proofs.Pattern.Normal
import TwoLevel.Proofs.Primes.Choice

/-! # Stored patterns of integer searches

The terms of integers are normal: their sources are the numbers that their patterns cover, and no
zero is stored in front.  Merging keeps terms normal (`Term.Normal.merge`), so that every search
from integers holds normal terms only.

The pattern of a normal term is as long as the greatest source has bits
(`Term.Normal.exists_isGreatest`), and equivalent normal terms are the same term
(`Term.Normal.eq_of_equiv`).  So nothing that a search from integers holds or reports depends on
which of equivalent terms its buckets keep. -/

namespace TwoLevel

/-! ### Normal terms -/

namespace Term

/-- The sources are the numbers that the pattern covers, and no zero is stored in front. -/
structure Normal (t : Term) : Prop where
  exact : t.Exact
  pattern : t.pattern.Normal

variable {s t u : Term}

theorem normal_ofInt {n : ℤ} (h : ofInt n = .ok t) : t.Normal := by
  refine ⟨exact_ofInt h, ?_⟩
  obtain ⟨k, -, rfl⟩ := ofInt_eq_ok h
  exact Pattern.normal_ofNat k

namespace Normal

theorem merge (hs : s.Normal) (ht : t.Normal) (h : s.merge? t = some u) : u.Normal :=
  ⟨hs.exact.merge ht.exact h, hs.pattern.merge ht.pattern (merge?_eq_some h).1⟩

theorem eq_of_equiv (hs : s.Normal) (ht : t.Normal) (h : s ≈ t) : s = t := by
  obtain ⟨hsources, htrim⟩ := equiv_iff.mp h
  have hpattern := hs.pattern.eq_of_trim_eq ht.pattern htrim
  rw [mk.injEq]
  exact ⟨hpattern, hsources⟩

/-- The stored pattern has as many positions as the greatest source has bits. -/
theorem exists_isGreatest (h : t.Normal) :
    ∃ n : ℕ, IsGreatest {v | v ∈ t.sources} (n : ℤ) ∧
      t.pattern.length = Pattern.bitLength n := by
  obtain ⟨n, hn⟩ := Pattern.exists_isGreatest_allows t.pattern
  refine ⟨n, ⟨(h.exact n).mpr hn.1, fun v hv => ?_⟩, h.pattern.length_eq hn⟩
  have hcovers := (h.exact v).mp hv
  obtain ⟨m, rfl⟩ := exists_natCast_of_covers hcovers
  exact_mod_cast hn.2 hcovers

theorem pattern_eq_nil_iff (h : t.Normal) : t.pattern = [] ↔ t.sources = .singleton 0 := by
  have hzero : Exact ⟨[], .singleton 0⟩ := exact_ofInt (n := 0) rfl
  constructor
  · intro hnil
    exact h.exact.sources_eq_of_trim_eq hzero (congrArg Pattern.trim hnil)
  · intro hsources
    exact h.pattern.eq_of_trim_eq (p := t.pattern) (q := []) (by simp [Pattern.Normal])
      (h.exact.trim_eq_of_sources_eq hzero hsources)

theorem getLast? (h : t.Normal) {a : Trit} (ha : t.pattern.getLast? = some a) :
    a = .one ∨ a = .star := by
  cases a with
  | star => exact .inr rfl
  | zero => exact absurd ha h.pattern
  | one => exact .inl rfl

end Normal

end Term

/-! ### Searches from integers -/

namespace Layer

variable {terms : List Term} {layers others : List Layer}

theorem SearchOf.normal (h : SearchOf terms layers) (hterms : ∀ t ∈ terms, t.Normal) :
    ∀ l ∈ layers, ∀ k, ∀ t ∈ bucket l k, t.Normal := by
  obtain ⟨layer, hholds, hsearch⟩ := h
  exact hsearch.forall_mem (fun _ _ _ hs ht hm => hs.merge ht hm) (hholds.forall_mem hterms)

/-- All searches from the same normal terms go over the same terms. -/
theorem SearchOf.sameTerms (h : SearchOf terms layers) (k : SearchOf terms others)
    (hterms : ∀ t ∈ terms, t.Normal) : List.Forall₂ SameTerms layers others := by
  have hsame : ∀ s t : Term, s.Normal → t.Normal → s ≈ t → s = t :=
    fun _ _ hs ht hst => hs.eq_of_equiv ht hst
  obtain ⟨layer, hholds, hsearch⟩ := h
  obtain ⟨other, hholds', hsearch'⟩ := k
  exact hsearch.forall₂_sameTerms (fun _ _ _ hs ht hm => hs.merge ht hm) hsame hsearch'
    (hholds.forall_mem hterms) (hholds.sameTerms hsame hholds' hterms)

end Layer

/-- **Stored patterns of integer searches.**  Consider any search from terms of integers, whichever
of equivalent terms its buckets keep; the passes of every reading are one.  In each bucket of each
pass the stored pattern of a term has exactly as many positions as its greatest source has bits, so
that the top position is a one or free and only zero has none.  Equivalent terms, of one pass or of
several, are stored in the same way.  And the search goes over the same terms as `Layer.passes`,
bucket by bucket, and reports the same events up to their order. -/
theorem integer_patterns_normalised {minterms dontCares : List Term}
    (hgiven : ∀ t ∈ minterms ++ dontCares, ∃ n, Term.ofInt n = .ok t) :
    (∀ r : Layer.Reading, Layer.SearchOf (minterms ++ dontCares)
      (r.passes (Layer.group (minterms ++ dontCares)))) ∧
    ∀ layers, Layer.SearchOf (minterms ++ dontCares) layers →
      (∀ l ∈ layers, ∀ k, ∀ t ∈ Layer.bucket l k,
        (∃ n : ℕ, IsGreatest {v | v ∈ t.sources} (n : ℤ) ∧
          t.pattern.length = Pattern.bitLength n) ∧
        (∀ a, t.pattern.getLast? = some a → a = .one ∨ a = .star) ∧
        (t.pattern = [] ↔ t.sources = .singleton 0)) ∧
      (∀ l ∈ layers, ∀ k, ∀ s ∈ Layer.bucket l k, ∀ l' ∈ layers, ∀ k', ∀ t ∈ Layer.bucket l' k',
        s ≈ t → s = t) ∧
      List.Forall₂ Layer.SameTerms (Layer.group (minterms ++ dontCares)).passes layers ∧
      (findPrimesEvents minterms dontCares).Perm (Layer.eventsOf layers) := by
  have hterms : ∀ t ∈ minterms ++ dontCares, t.Normal := by
    intro t ht
    obtain ⟨n, hn⟩ := hgiven t ht
    exact Term.normal_ofInt hn
  refine ⟨fun r => r.searchOf _, fun layers hsearch => ?_⟩
  have hnormal := hsearch.normal hterms
  have hsame := (Layer.searchOf_passes _).sameTerms hsearch hterms
  refine ⟨fun l hl k t ht => ?_, fun l hl k s hs l' hl' k' t ht hst => ?_, hsame, ?_⟩
  · have h := hnormal l hl k t ht
    exact ⟨h.exists_isGreatest, fun a => h.getLast?, h.pattern_eq_nil_iff⟩
  · exact (hnormal l hl k s hs).eq_of_equiv (hnormal l' hl' k' t ht) hst
  · rw [Layer.findPrimesEvents_eq]
    exact Layer.perm_eventsOf hsame

/-- From 0, 1, 2, 3 and 1 again, two merges make `**`, of which one is kept.  Read from the last
term of every bucket to the first, the passes hold the same terms, and no zero is stored in front.
-/
theorem normalised_zero_to_three :
    let integer (n : ℕ) : Term := ⟨.ofNat n, .singleton n⟩
    let layer := Layer.group ([integer 0, integer 1, integer 2] ++ [integer 3, integer 1])
    layer.passes.map (List.map (List.map Term.text)) =
        [[["0"], ["1", "10"], ["11"]], [["*", "*0"], ["*1", "1*"]], [["**"]]] ∧
      List.Forall₂ Layer.SameTerms layer.passes (Layer.Reading.reversed.passes layer) ∧
      ∀ l ∈ Layer.Reading.reversed.passes layer, ∀ k, ∀ t ∈ Layer.bucket l k,
        ∃ n : ℕ, IsGreatest {v | v ∈ t.sources} (n : ℤ) ∧
          t.pattern.length = Pattern.bitLength n := by
  intro integer layer
  have hgiven : ∀ t ∈ [integer 0, integer 1, integer 2] ++ [integer 3, integer 1],
      ∃ n, Term.ofInt n = .ok t := by
    have hnone : ∀ t ∈ ([] : List Term), ∃ n, Term.ofInt n = .ok t :=
      fun t ht => absurd ht List.not_mem_nil
    simp only [List.forall_mem_append, List.forall_mem_cons]
    exact ⟨⟨⟨0, rfl⟩, ⟨1, rfl⟩, ⟨2, rfl⟩, hnone⟩, ⟨3, rfl⟩, ⟨1, rfl⟩, hnone⟩
  obtain ⟨hread, hsearch⟩ := integer_patterns_normalised hgiven
  obtain ⟨hlength, -, hsame, -⟩ := hsearch _ (hread Layer.Reading.reversed)
  exact ⟨by decide, hsame, fun l hl k t ht => (hlength l hl k t ht).1⟩

end TwoLevel
