import TwoLevel.Proofs.Primes.Layer
import TwoLevel.Proofs.Term.Trim

/-! # Buckets read in any order

The terms of a bucket form a set, so a pass may come upon them in any order, and which of several
equivalent merges is kept depends on that order.  A `Layer.Reading` fixes the order of every bucket;
`Layer.Reading.passes` are the passes that read by it, of which `Layer.passes` are one case
(`stored_passes`).

A layer lies within another one when the classes of its buckets are found in the buckets of the
other, and one pass keeps that (`Within.next`).  Two layers are alike when each lies within the
other, so that their buckets at every index have the same classes of terms.  Then one pass leaves
over the same classes (`Alike.sameClasses_unmerged`), and the runs over both layers find the same
prime implicants, up to equivalence and order, however each of them is read (`Alike.perm_passes`).
-/

namespace TwoLevel
namespace Layer

/-! ### Readings -/

/-- An order for the terms of every bucket.  The layers of one run differ in their numbers of
buckets, so that each of its passes can read in its own order. -/
structure Reading where
  read : Layer → Layer
  perm : ∀ layer, List.Forall₂ List.Perm layer (read layer)

namespace Reading

/-- The buckets in the order in which they are stored. -/
def stored : Reading := ⟨id, fun _ => List.forall₂_same.mpr fun low _ => List.Perm.refl low⟩

/-- Every bucket from its last term to its first. -/
def reversed : Reading where
  read layer := layer.map List.reverse
  perm _ := List.forall₂_map_right_iff.mpr
    (List.forall₂_same.mpr fun low _ => (List.reverse_perm low).symm)

variable (r : Reading)

theorem length_read (layer : Layer) : (r.read layer).length = layer.length :=
  (r.perm layer).length_eq.symm

theorem length_next_read_lt {layer : Layer} (h : ¬ (r.read layer).next.isVoid = true) :
    (r.read layer).next.length < layer.length := by
  rw [length_next, length_read]
  by_contra hle
  have hlayer : (r.read layer).length = 0 := by
    rw [length_read]
    omega
  rw [List.length_eq_zero_iff.mp hlayer] at h
  exact h rfl

/-- A layer as it is read and the layers after it, up to the last one with a term. -/
def passes (layer : Layer) : List Layer :=
  if (r.read layer).next.isVoid then [r.read layer]
  else r.read layer :: passes (r.read layer).next
termination_by layer.length
decreasing_by exact r.length_next_read_lt ‹_›

theorem passes_of_isVoid {layer : Layer} (h : (r.read layer).next.isVoid = true) :
    r.passes layer = [r.read layer] := by
  rw [passes, if_pos h]

theorem passes_of_not_isVoid {layer : Layer} (h : ¬ (r.read layer).next.isVoid = true) :
    r.passes layer = r.read layer :: r.passes (r.read layer).next := by
  rw [passes, if_neg h]

/-- The terms that the passes leave over. -/
def findPrimes (minterms dontCares : List Term) : List Term :=
  (r.passes (group (minterms ++ dontCares))).flatMap unmerged

/-- The prime implicants in canonical order, one of each class of equivalent terms. -/
def primeImplicants (minterms dontCares : List Term) : List Term :=
  Term.sort (Term.firsts (r.findPrimes minterms dontCares))

theorem stored_passesFrom {fuel : ℕ} {layer : Layer} (h : layer.length ≤ fuel) :
    stored.passes layer = passesFrom fuel layer := by
  induction fuel generalizing layer with
  | zero =>
      obtain rfl : layer = [] := List.length_eq_zero_iff.mp (by omega)
      rw [passes]
      rfl
  | succ fuel ih =>
      rw [passes, passesFrom]
      split
      · next hvoid => exact (if_pos hvoid).symm
      · next hvoid =>
        rw [ih (by rw [length_next, length_read]; omega)]
        exact (if_neg hvoid).symm

theorem stored_passes (layer : Layer) : stored.passes layer = layer.passes :=
  stored_passesFrom (le_refl _)

/-- The prime implicants that are found when no bucket is read out of its order. -/
theorem stored_findPrimes (minterms dontCares : List Term) :
    stored.findPrimes minterms dontCares = TwoLevel.findPrimes minterms dontCares := by
  unfold findPrimes TwoLevel.findPrimes
  rw [stored_passes]

end Reading

/-! ### Reordered layers -/

section Reordered

variable {layer read : Layer}

theorem perm_bucket (h : List.Forall₂ List.Perm layer read) (k : ℕ) :
    (bucket layer k).Perm (bucket read k) := by
  induction h generalizing k with
  | nil => exact List.Perm.refl _
  | cons hlow _ ih =>
      cases k with
      | zero => exact hlow
      | succ k => exact ih k

theorem Tidy.reorder (h : Tidy layer) (hperm : List.Forall₂ List.Perm layer read) : Tidy read := by
  refine ⟨fun k t ht => h.graded k t ((perm_bucket hperm k).mem_iff.mpr ht), fun k => ?_⟩
  exact ((perm_bucket hperm k).pairwise_iff fun hst hts => hst (Setoid.symm hts)).mp (h.pairwise k)

end Reordered

/-! ### Layers within layers -/

/-- The classes of every bucket are found in the bucket of the other layer. -/
def Within (layer other : Layer) : Prop :=
  ∀ k, ∀ t ∈ bucket layer k, ∃ u ∈ bucket other k, u ≈ t

/-- What two buckets merge into, up to equivalence, two buckets with their classes merge into. -/
theorem exists_mem_merges {low high low' high' : List Term} (hlow : ∀ s ∈ low, ∃ s' ∈ low', s' ≈ s)
    (hhigh : ∀ t ∈ high, ∃ t' ∈ high', t' ≈ t) :
    ∀ u ∈ merges low high, ∃ u' ∈ merges low' high', u' ≈ u := by
  intro u hu
  obtain ⟨s, hs, t, ht, hm⟩ := mem_merges.mp hu
  obtain ⟨s', hs', hss⟩ := hlow s hs
  obtain ⟨t', ht', htt⟩ := hhigh t ht
  obtain ⟨u', hu', huu⟩ := Term.exists_merge?_of_equiv (Setoid.symm hss) (Setoid.symm htt) hm
  exact ⟨u', mem_merges.mpr ⟨s', hs', t', ht', hu'⟩, huu⟩

theorem exists_mem_firsts_of_represented {ts us : List Term} (h : ∀ t ∈ ts, ∃ u ∈ us, u ≈ t) :
    ∀ t ∈ Term.firsts ts, ∃ u ∈ Term.firsts us, u ≈ t := by
  intro t ht
  obtain ⟨u, hu, hut⟩ := h t (Term.mem_of_mem_firsts ht)
  obtain ⟨w, hw, hwu⟩ := Term.exists_mem_firsts hu
  exact ⟨w, hw, Setoid.trans hwu hut⟩

theorem within_group {ts us : List Term} (h : ∀ t ∈ ts, ∃ u ∈ us, u ≈ t) :
    Within (group ts) (group us) := by
  intro k
  rw [bucket_group, bucket_group]
  apply exists_mem_firsts_of_represented
  intro t ht
  obtain ⟨hmem, hones⟩ := List.mem_filter.mp ht
  obtain ⟨u, hu, hut⟩ := h t hmem
  exact ⟨u, List.mem_filter.mpr ⟨hu, by rwa [Term.ones_congr hut]⟩, hut⟩

/-- One pass: what merges in the inner layer merges in the outer one. -/
theorem Within.next {layer other : Layer} (h : Within layer other) :
    Within layer.next other.next := by
  intro k
  rw [bucket_next, bucket_next]
  exact exists_mem_firsts_of_represented (exists_mem_merges (h k) (h (k + 1)))

/-! ### Alike layers -/

/-- Layers with the same classes of terms at every index. -/
def Alike (layer other : Layer) : Prop :=
  ∀ k, Term.SameClasses (bucket layer k) (bucket other k)

theorem alike_iff_within {layer other : Layer} :
    Alike layer other ↔ Within layer other ∧ Within other layer := by
  constructor
  · intro h
    exact ⟨fun k => (h k).left, fun k => (h k).right⟩
  · rintro ⟨hleft, hright⟩ k
    exact ⟨hleft k, hright k⟩

section Alike

variable {layer other : Layer}

theorem Alike.read (h : Alike layer other) (r r' : Reading) :
    Alike (r.read layer) (r'.read other) := by
  intro k
  have hlayer := Term.sameClasses_of_mem_iff fun t => (perm_bucket (r.perm layer) k).mem_iff (a := t)
  have hother := Term.sameClasses_of_mem_iff fun t => (perm_bucket (r'.perm other) k).mem_iff (a := t)
  exact (hlayer.symm.trans (h k)).trans hother

theorem Alike.symm (h : Alike layer other) : Alike other layer := fun k => (h k).symm

theorem alike_group {ts us : List Term} (h : Term.SameClasses ts us) :
    Alike (group ts) (group us) :=
  alike_iff_within.mpr ⟨within_group h.left, within_group h.right⟩

theorem Alike.next (h : Alike layer other) : Alike layer.next other.next := by
  obtain ⟨hleft, hright⟩ := alike_iff_within.mp h
  exact alike_iff_within.mpr ⟨hleft.next, hright.next⟩

theorem Alike.isVoid (h : Alike layer other) (hv : layer.isVoid = true) :
    other.isVoid = true := by
  rw [isVoid_iff] at hv ⊢
  intro k
  rw [List.eq_nil_iff_forall_not_mem]
  intro u hu
  obtain ⟨t, ht, -⟩ := (h k).right u hu
  rw [hv k] at ht
  exact List.not_mem_nil ht

theorem Alike.isVoid_eq (h : Alike layer other) : layer.isVoid = other.isVoid :=
  Bool.eq_iff_iff.mpr ⟨h.isVoid, h.symm.isVoid⟩

theorem Alike.mergedUpTo (h : Alike layer other) {k : ℕ} {sources : OrdSet ℤ}
    (hm : MergedUpTo layer k sources) : MergedUpTo other k sources := by
  obtain ⟨j, hj, hmem⟩ := hm
  obtain ⟨s, hs, t, ht, hmerge, hsources⟩ := mem_mergedSources.mp hmem
  obtain ⟨s', hs', hss⟩ := (h j).left s hs
  obtain ⟨t', ht', htt⟩ := (h (j + 1)).left t ht
  refine ⟨j, hj, mem_mergedSources.mpr ⟨s', hs', t', ht', ?_, ?_⟩⟩
  · rwa [Term.isSome_merge?_congr hss htt]
  · rwa [(Term.equiv_iff.mp hss).1, (Term.equiv_iff.mp htt).1]

theorem Alike.exists_mem_unmerged (h : Alike layer other) {t : Term} (ht : t ∈ layer.unmerged) :
    ∃ u ∈ other.unmerged, u ≈ t := by
  obtain ⟨k, hk, hm⟩ := mem_unmerged.mp ht
  obtain ⟨u, hu, hut⟩ := (h k).left t hk
  refine ⟨u, mem_unmerged.mpr ⟨k, hu, fun hmu => hm ?_⟩, hut⟩
  rw [← (Term.equiv_iff.mp hut).1]
  exact h.symm.mergedUpTo hmu

theorem Alike.sameClasses_unmerged (h : Alike layer other) :
    Term.SameClasses layer.unmerged other.unmerged :=
  ⟨fun _ => h.exists_mem_unmerged, fun _ => h.symm.exists_mem_unmerged⟩

theorem Alike.perm_unmerged (h : Alike layer other) (hlayer : Tidy layer) (hother : Tidy other) :
    (layer.unmerged.map Term.trim).Perm (other.unmerged.map Term.trim) :=
  h.sameClasses_unmerged.perm hlayer.pairwise_unmerged hother.pairwise_unmerged

/-- **All passes** over tidy layers that are alike, each run reading in its own order. -/
theorem Alike.perm_passes (h : Alike layer other) (hlayer : Tidy layer) (hother : Tidy other)
    (r r' : Reading) : (((r.passes layer).flatMap unmerged).map Term.trim).Perm
      (((r'.passes other).flatMap unmerged).map Term.trim) := by
  -- induction on the passes of the first run; the second one stops with it
  induction layer using Reading.passes.induct r generalizing other with
  | case1 layer hvoid =>
      have hread := h.read r r'
      rw [r.passes_of_isVoid hvoid, r'.passes_of_isVoid (hread.next.isVoid hvoid)]
      simpa using hread.perm_unmerged (hlayer.reorder (r.perm layer)) (hother.reorder (r'.perm other))
  | case2 layer hvoid ih =>
      have hread := h.read r r'
      have htidy := hlayer.reorder (r.perm layer)
      have htidy' := hother.reorder (r'.perm other)
      have hvoid' : ¬ (r'.read other).next.isVoid = true := by rwa [← hread.next.isVoid_eq]
      rw [r.passes_of_not_isVoid hvoid, r'.passes_of_not_isVoid hvoid', List.flatMap_cons,
        List.flatMap_cons, List.map_append, List.map_append]
      exact (hread.perm_unmerged htidy htidy').append
        (ih hread.next htidy.graded.tidy_next htidy'.graded.tidy_next)

end Alike

/-- **The order of reading does not matter**, and neither do the order and the repetitions of the
given terms, nor which of them are unconstrained. -/
theorem Reading.perm_findPrimes (r r' : Reading) {ms ds ms' ds' : List Term}
    (h : Term.SameClasses (ms ++ ds) (ms' ++ ds')) :
    ((r.findPrimes ms ds).map Term.trim).Perm ((r'.findPrimes ms' ds').map Term.trim) :=
  (alike_group h).perm_passes (tidy_group _) (tidy_group _) r r'

/-- In canonical order the prime implicants are the same, up to equivalence. -/
theorem Reading.map_trim_primeImplicants (r r' : Reading) {ms ds ms' ds' : List Term}
    (h : Term.SameClasses (ms ++ ds) (ms' ++ ds')) :
    (r.primeImplicants ms ds).map Term.trim = (r'.primeImplicants ms' ds').map Term.trim := by
  have hfound := Term.sameClasses_of_perm (r.perm_findPrimes r' h)
  have hfirsts := ((Term.sameClasses_firsts _).trans hfound).trans (Term.sameClasses_firsts _).symm
  exact Term.map_trim_sort_congr
    (hfirsts.perm (Term.pairwise_firsts _) (Term.pairwise_firsts _))

end Layer

end TwoLevel
