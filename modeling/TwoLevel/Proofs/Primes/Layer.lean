import Mathlib.Data.List.GetD
import Mathlib.Data.List.Pairwise
import Mathlib.Logic.Function.Iterate
import TwoLevel.Primes
import TwoLevel.Proofs.Term.Classes
import TwoLevel.Proofs.Term.Exact

/-! # Layers and passes

A layer is read through `bucket`, which gives the terms at every index and nothing above the stored
ones.  Each operation on layers is described by what it does to the buckets: `bucket_group`,
`bucket_next`, `mem_unmerged`.

The passes are the iterates of `next` up to the last one with a term (`passes_eq`); as iterates
behind it are void, the prime implicants are what any iterate leaves over (`mem_findPrimes`). -/

namespace TwoLevel
namespace Layer

/-! ### Buckets -/

/-- The terms at an index, none above the stored buckets. -/
def bucket (layer : Layer) (k : ℕ) : List Term := layer.getD k []

@[simp] theorem bucket_nil (k : ℕ) : bucket [] k = [] := by simp [bucket]

@[simp] theorem bucket_cons_zero (low : List Term) (layer : Layer) :
    bucket (low :: layer) 0 = low := rfl

@[simp] theorem bucket_cons_succ (low : List Term) (layer : Layer) (k : ℕ) :
    bucket (low :: layer) (k + 1) = bucket layer k := rfl

theorem headD_eq_bucket (layer : Layer) : layer.headD [] = bucket layer 0 := by
  cases layer <;> simp

theorem bucket_eq_nil_of_length_le {layer : Layer} {k : ℕ} (h : layer.length ≤ k) :
    bucket layer k = [] := by
  unfold bucket
  rw [List.getD_eq_getElem?_getD, List.getElem?_eq_none h]
  rfl

theorem ones_lt_height {t : Term} {terms : List Term} (h : t ∈ terms) : t.ones < height terms := by
  induction terms with
  | nil => exact absurd h List.not_mem_nil
  | cons u terms ih =>
      unfold height
      rw [List.foldr_cons]
      rcases List.mem_cons.mp h with rfl | h
      · omega
      · have := ih h
        unfold height at this
        omega

theorem bucket_group (terms : List Term) (k : ℕ) :
    bucket (group terms) k = Term.firsts (terms.filter fun t => t.ones = k) := by
  by_cases hk : k < height terms
  · simp [bucket, group, hk]
  · rw [bucket_eq_nil_of_length_le (by simpa [group] using hk)]
    symm
    rw [Term.firsts_eq_nil_iff, List.filter_eq_nil_iff]
    intro t ht
    have := ones_lt_height ht
    simp only [decide_eq_true_eq]
    omega

theorem mem_of_mem_bucket_group {terms : List Term} {k : ℕ} {t : Term}
    (h : t ∈ bucket (group terms) k) : t ∈ terms ∧ t.ones = k := by
  rw [bucket_group] at h
  simpa using Term.mem_of_mem_firsts h

theorem exists_mem_bucket_group {terms : List Term} {t : Term} (h : t ∈ terms) :
    ∃ u ∈ bucket (group terms) t.ones, u ≈ t := by
  rw [bucket_group]
  apply Term.exists_mem_firsts
  simpa using h

theorem isVoid_iff (layer : Layer) : layer.isVoid = true ↔ ∀ k, bucket layer k = [] := by
  unfold isVoid
  rw [List.all_eq_true]
  constructor
  · intro h k
    by_cases hk : k < layer.length
    · unfold bucket
      rw [List.getD_eq_getElem _ _ hk]
      exact List.isEmpty_iff.mp (h _ (List.getElem_mem hk))
    · exact bucket_eq_nil_of_length_le (by omega)
  · intro h low hlow
    obtain ⟨k, hk, rfl⟩ := List.mem_iff_getElem.mp hlow
    have hb := h k
    unfold bucket at hb
    rw [List.getD_eq_getElem _ _ hk] at hb
    exact List.isEmpty_iff.mpr hb

/-! ### One pass -/

theorem mem_merges {low high : List Term} {u : Term} :
    u ∈ merges low high ↔ ∃ s ∈ low, ∃ t ∈ high, s.merge? t = some u := by
  unfold merges
  simp only [List.mem_flatMap, List.mem_filterMap]

theorem merges_nil_left (high : List Term) : merges [] high = [] := rfl

theorem merges_nil_right (low : List Term) : merges low [] = [] := by
  unfold merges
  simp

/-- The next bucket at an index comes from the bucket there and the one above. -/
theorem bucket_next (layer : Layer) (k : ℕ) :
    bucket layer.next k = Term.firsts (merges (bucket layer k) (bucket layer (k + 1))) := by
  induction layer generalizing k with
  | nil => simp [next, merges_nil_left, Term.firsts]
  | cons low layer ih =>
      cases layer with
      | nil => simp [next, merges_nil_right, Term.firsts]
      | cons high layer =>
          rw [next]
          cases k with
          | zero => rfl
          | succ k => exact ih k

theorem mem_bucket_next {layer : Layer} {k : ℕ} {u : Term} (h : u ∈ bucket layer.next k) :
    ∃ s ∈ bucket layer k, ∃ t ∈ bucket layer (k + 1), s.merge? t = some u := by
  rw [bucket_next] at h
  exact mem_merges.mp (Term.mem_of_mem_firsts h)

/-- Every merge is represented in the next layer. -/
theorem exists_mem_bucket_next {layer : Layer} {k : ℕ} {s t u : Term} (hs : s ∈ bucket layer k)
    (ht : t ∈ bucket layer (k + 1)) (h : s.merge? t = some u) :
    ∃ u' ∈ bucket layer.next k, u' ≈ u := by
  rw [bucket_next]
  exact Term.exists_mem_firsts (mem_merges.mpr ⟨s, hs, t, ht, h⟩)

/-- Neighbours that differ in one position have the term with that position freed in the next
layer. -/
theorem exists_mem_next_of_differAt {layer : Layer} {k i : ℕ} {s t : Term}
    (hs : s ∈ bucket layer k) (ht : t ∈ bucket layer (k + 1))
    (h : Pattern.DifferAt s.pattern t.pattern i) :
    ∃ u ∈ bucket layer.next k, u.pattern.trim = (Pattern.setTrit s.pattern i .star).trim := by
  obtain ⟨u, hu, htrim⟩ := Term.exists_merge_of_differAt h
  obtain ⟨w, hw, hequiv⟩ := exists_mem_bucket_next hs ht hu
  exact ⟨w, hw, (Term.equiv_iff.mp hequiv).2.trans htrim⟩

theorem length_next (layer : Layer) : layer.next.length = layer.length - 1 := by
  induction layer with
  | nil => rfl
  | cons low layer ih =>
      cases layer with
      | nil => rfl
      | cons high layer =>
          rw [next, List.length_cons, ih]
          rfl

theorem isVoid_next {layer : Layer} (h : layer.isVoid = true) : layer.next.isVoid = true := by
  rw [isVoid_iff] at h ⊢
  intro k
  rw [bucket_next, h k]
  rfl

theorem pairwise_bucket_next (layer : Layer) (k : ℕ) :
    (bucket layer.next k).Pairwise fun s t => ¬ s ≈ t := by
  rw [bucket_next]
  exact Term.pairwise_firsts _

/-- The index of every bucket is the number of ones of its terms. -/
def Graded (layer : Layer) : Prop := ∀ k, ∀ t ∈ bucket layer k, t.ones = k

theorem graded_group (terms : List Term) : Graded (group terms) :=
  fun _ _ ht => (mem_of_mem_bucket_group ht).2

theorem Graded.ones_merge {layer : Layer} (h : Graded layer) {k : ℕ} {s t u : Term}
    (hs : s ∈ bucket layer k) (ht : t ∈ bucket layer (k + 1)) (hm : s.merge? t = some u) :
    u.ones = k := by
  have hsk : s.pattern.ones = k := h k s hs
  have htk : t.pattern.ones = k + 1 := h (k + 1) t ht
  have hus := Pattern.ones_merge (Term.merge?_eq_some hm).1 (by rw [htk, hsk])
  exact hus.trans hsk

theorem Graded.next {layer : Layer} (h : Graded layer) : Graded layer.next := by
  intro k u hu
  obtain ⟨s, hs, t, ht, hm⟩ := mem_bucket_next hu
  exact h.ones_merge hs ht hm

/-- Every bucket holds terms of its own number of ones, no two of them equivalent. -/
structure Tidy (layer : Layer) : Prop where
  graded : Graded layer
  pairwise : ∀ k, (bucket layer k).Pairwise fun s t => ¬ s ≈ t

theorem tidy_group (terms : List Term) : Tidy (group terms) := by
  refine ⟨graded_group terms, fun k => ?_⟩
  rw [bucket_group]
  exact Term.pairwise_firsts _

theorem Graded.tidy_next {layer : Layer} (h : Graded layer) : Tidy layer.next :=
  ⟨h.next, pairwise_bucket_next layer⟩

theorem Tidy.pairwise_flatten {layer : Layer} (h : Tidy layer) :
    layer.flatten.Pairwise fun s t => ¬ s ≈ t := by
  have hget : ∀ k (hk : k < layer.length), bucket layer k = layer[k] :=
    fun k hk => List.getD_eq_getElem _ _ hk
  rw [List.pairwise_flatten]
  constructor
  · intro low hlow
    obtain ⟨k, hk, rfl⟩ := List.mem_iff_getElem.mp hlow
    rw [← hget k hk]
    exact h.pairwise k
  · rw [List.pairwise_iff_getElem]
    intro i j hi hj hij s hs t ht hst
    rw [← hget i hi] at hs
    rw [← hget j hj] at ht
    have hones := Term.ones_congr hst
    rw [h.graded i s hs, h.graded j t ht] at hones
    omega

/-- Equivalent terms of a tidy layer are one term of one bucket. -/
theorem Tidy.eq_of_equiv {layer : Layer} (h : Tidy layer) {j k : ℕ} {s t : Term}
    (hs : s ∈ bucket layer j) (ht : t ∈ bucket layer k) (hst : s ≈ t) : j = k ∧ s = t := by
  have hjk : j = k := by
    rw [← h.graded j s hs, ← h.graded k t ht]
    exact Term.ones_congr hst
  subst hjk
  refine ⟨rfl, ?_⟩
  have hsymm : Std.Symm fun s t : Term => ¬ s ≈ t := ⟨fun _ _ hxy hyx => hxy (Setoid.symm hyx)⟩
  by_contra hne
  exact (h.pairwise j).forall hs ht hne hst

theorem mem_mergedSources {low high : List Term} {sources : OrdSet ℤ} :
    sources ∈ mergedSources low high ↔
      ∃ s ∈ low, ∃ t ∈ high, (s.merge? t).isSome ∧ (sources = s.sources ∨ sources = t.sources) := by
  unfold mergedSources
  simp only [List.mem_map, List.mem_append, List.mem_filter, List.any_eq_true]
  constructor
  · rintro ⟨t, ⟨ht, u, hu, hm⟩ | ⟨ht, u, hu, hm⟩, rfl⟩
    · exact ⟨t, ht, u, hu, hm, Or.inl rfl⟩
    · exact ⟨u, hu, t, ht, hm, Or.inr rfl⟩
  · rintro ⟨s, hs, t, ht, hm, rfl | rfl⟩
    · exact ⟨s, Or.inl ⟨hs, t, ht, hm⟩, rfl⟩
    · exact ⟨t, Or.inr ⟨ht, s, hs, hm⟩, rfl⟩

/-- The sources that took part in a merge of some bucket up to an index with the bucket above. -/
def MergedUpTo (layer : Layer) (k : ℕ) (sources : OrdSet ℤ) : Prop :=
  ∃ j, j ≤ k ∧ sources ∈ mergedSources (bucket layer j) (bucket layer (j + 1))

theorem mergedUpTo_zero_iff (low : List Term) (layer : Layer) (sources : OrdSet ℤ) :
    MergedUpTo (low :: layer) 0 sources ↔ sources ∈ mergedSources low (bucket layer 0) := by
  unfold MergedUpTo
  constructor
  · rintro ⟨j, hj, h⟩
    obtain rfl : j = 0 := by omega
    exact h
  · intro h
    exact ⟨0, le_refl 0, h⟩

theorem mergedUpTo_succ_iff (low : List Term) (layer : Layer) (k : ℕ) (sources : OrdSet ℤ) :
    MergedUpTo (low :: layer) (k + 1) sources ↔
      sources ∈ mergedSources low (bucket layer 0) ∨ MergedUpTo layer k sources := by
  unfold MergedUpTo
  constructor
  · rintro ⟨j, hj, h⟩
    cases j with
    | zero => exact Or.inl h
    | succ j => exact Or.inr ⟨j, by omega, h⟩
  · rintro (h | ⟨j, hj, h⟩)
    · exact ⟨0, by omega, h⟩
    · exact ⟨j + 1, by omega, h⟩

theorem mem_unmergedFrom {merged : List (OrdSet ℤ)} {layer : Layer} {t : Term} :
    t ∈ unmergedFrom merged layer ↔
      ∃ k, t ∈ bucket layer k ∧ t.sources ∉ merged ∧ ¬ MergedUpTo layer k t.sources := by
  induction layer generalizing merged with
  | nil => simp [unmergedFrom]
  | cons low layer ih =>
      rw [unmergedFrom, headD_eq_bucket]
      simp only [List.mem_append, ih, kept, List.mem_filter, decide_eq_true_eq, not_or]
      constructor
      · rintro (⟨ht, hlow, hm⟩ | ⟨k, ht, ⟨hlow, hm⟩, hk⟩)
        · exact ⟨0, ht, hm, by rw [mergedUpTo_zero_iff]; exact hlow⟩
        · exact ⟨k + 1, ht, hm, by rw [mergedUpTo_succ_iff]; exact not_or.mpr ⟨hlow, hk⟩⟩
      · rintro ⟨k, ht, hm, hk⟩
        cases k with
        | zero =>
            rw [mergedUpTo_zero_iff] at hk
            exact Or.inl ⟨ht, hk, hm⟩
        | succ k =>
            rw [mergedUpTo_succ_iff, not_or] at hk
            exact Or.inr ⟨k, ht, ⟨hk.1, hm⟩, hk.2⟩

/-- **What a pass leaves over**: the terms whose sources took part in no merge so far. -/
theorem mem_unmerged {layer : Layer} {t : Term} :
    t ∈ unmerged layer ↔ ∃ k, t ∈ bucket layer k ∧ ¬ MergedUpTo layer k t.sources := by
  unfold unmerged
  rw [mem_unmergedFrom]
  simp

theorem unmergedFrom_sublist (merged : List (OrdSet ℤ)) (layer : Layer) :
    (unmergedFrom merged layer).Sublist layer.flatten := by
  induction layer generalizing merged with
  | nil => exact List.Sublist.refl _
  | cons low layer ih =>
      rw [unmergedFrom, List.flatten_cons]
      exact List.Sublist.append List.filter_sublist (ih _)

theorem Tidy.pairwise_unmerged {layer : Layer} (h : Tidy layer) :
    layer.unmerged.Pairwise fun s t => ¬ s ≈ t :=
  h.pairwise_flatten.sublist (unmergedFrom_sublist [] layer)

/-! ### All passes -/

theorem isVoid_iterate {layer : Layer} {m n : ℕ} (h : (next^[m] layer).isVoid = true)
    (hmn : m ≤ n) : (next^[n] layer).isVoid = true := by
  induction n, hmn using Nat.le_induction with
  | base => exact h
  | succ n _ ih =>
      rw [Function.iterate_succ_apply']
      exact isVoid_next ih

theorem passesFrom_eq {fuel : ℕ} {layer : Layer} (h : layer.length ≤ fuel) :
    ∃ m, m ≤ fuel ∧ passesFrom fuel layer = (List.range (m + 1)).map (fun n => next^[n] layer) ∧
      (next^[m + 1] layer).isVoid = true := by
  induction fuel generalizing layer with
  | zero =>
      obtain rfl : layer = [] := List.length_eq_zero_iff.mp (by omega)
      exact ⟨0, le_refl 0, rfl, rfl⟩
  | succ fuel ih =>
      rw [passesFrom]
      by_cases hv : layer.next.isVoid = true
      · exact ⟨0, Nat.zero_le _, by simp [hv], hv⟩
      · obtain ⟨m, hm, hpasses, hvoid⟩ := @ih layer.next (by rw [length_next]; omega)
        refine ⟨m + 1, by omega, ?_, hvoid⟩
        rw [List.range_succ_eq_map, List.map_cons, List.map_map]
        simp only [hv, hpasses]
        rfl

/-- **The passes** are the iterates up to the last one with a term. -/
theorem passes_eq (layer : Layer) :
    ∃ m, m ≤ layer.length ∧ passes layer = (List.range (m + 1)).map (fun n => next^[n] layer) ∧
      (next^[m + 1] layer).isVoid = true :=
  passesFrom_eq (le_refl _)

theorem isVoid_of_length_le {layer : Layer} {n : ℕ} (h : layer.length < n) :
    (next^[n] layer).isVoid = true := by
  obtain ⟨m, hm, -, hv⟩ := passes_eq layer
  exact isVoid_iterate hv (by omega)

theorem mem_flatMap_passes {layer : Layer} {t : Term} :
    t ∈ layer.passes.flatMap unmerged ↔ ∃ n, t ∈ unmerged (next^[n] layer) := by
  obtain ⟨m, -, hpasses, hvoid⟩ := passes_eq layer
  rw [hpasses]
  simp only [List.mem_flatMap, List.mem_map, List.mem_range]
  constructor
  · rintro ⟨_, ⟨n, _, rfl⟩, ht⟩
    exact ⟨n, ht⟩
  · rintro ⟨n, ht⟩
    refine ⟨_, ⟨n, ?_, rfl⟩, ht⟩
    by_contra hn
    obtain ⟨k, hk, -⟩ := mem_unmerged.mp ht
    rw [(isVoid_iff _).mp (isVoid_iterate hvoid (by omega)) k] at hk
    exact absurd hk List.not_mem_nil

end Layer

/-- The layer after a number of passes over some terms. -/
def layerAfter (terms : List Term) (n : ℕ) : Layer := Layer.next^[n] (Layer.group terms)

theorem layerAfter_succ (terms : List Term) (n : ℕ) :
    layerAfter terms (n + 1) = (layerAfter terms n).next :=
  Function.iterate_succ_apply' _ _ _

theorem graded_layerAfter (terms : List Term) (n : ℕ) : (layerAfter terms n).Graded := by
  induction n with
  | zero => exact Layer.graded_group terms
  | succ n ih =>
      rw [layerAfter_succ]
      exact ih.next

theorem tidy_layerAfter (terms : List Term) (n : ℕ) : (layerAfter terms n).Tidy := by
  cases n with
  | zero => exact Layer.tidy_group terms
  | succ n =>
      rw [layerAfter_succ]
      exact (graded_layerAfter terms n).tidy_next

theorem pairwise_unmerged_layerAfter (terms : List Term) (n : ℕ) :
    (layerAfter terms n).unmerged.Pairwise fun s t => ¬ s ≈ t :=
  (tidy_layerAfter terms n).pairwise_unmerged

theorem mem_findPrimes {minterms dontCares : List Term} {t : Term} :
    t ∈ findPrimes minterms dontCares ↔
      ∃ n, t ∈ (layerAfter (minterms ++ dontCares) n).unmerged :=
  Layer.mem_flatMap_passes

theorem mem_of_mem_primeImplicants {minterms dontCares : List Term} {t : Term}
    (h : t ∈ primeImplicants minterms dontCares) : t ∈ findPrimes minterms dontCares :=
  Term.mem_of_mem_firsts (Term.mem_sort.mp h)

theorem pairwise_primeImplicants (minterms dontCares : List Term) :
    (primeImplicants minterms dontCares).Pairwise fun s t => ¬ s ≈ t :=
  ((Term.sort_perm _).pairwise_iff fun h k => h (Setoid.symm k)).mpr (Term.pairwise_firsts _)

theorem exists_mem_primeImplicants {minterms dontCares : List Term} {t : Term}
    (h : t ∈ findPrimes minterms dontCares) : ∃ u ∈ primeImplicants minterms dontCares, u ≈ t := by
  obtain ⟨u, hu, hut⟩ := Term.exists_mem_firsts h
  exact ⟨u, Term.mem_sort.mpr hu, hut⟩

end TwoLevel
