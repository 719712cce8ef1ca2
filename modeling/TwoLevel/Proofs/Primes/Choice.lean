import TwoLevel.Proofs.Primes.Order
import TwoLevel.Proofs.Primes.Passes

/-! # Whichever of equivalent terms is kept

A bucket is a set: of the equivalent terms that are put into it, it keeps one (`Term.OneOfEach`).
Which one that is depends on the order in which the buckets of the pass before are read.  A
`Layer.Search` goes over the layers as `Layer.Run` does, but its buckets may keep any one of
equivalent terms and hold them in any order; the passes of every `Layer.Reading` are such a search
(`Reading.searchOf`).

Where equivalent terms are the same term, there is nothing to choose.  Then all searches go over the
same terms, bucket by bucket (`Search.forall₂_sameTerms`), and report the same events up to their
order (`perm_eventsOf`). -/

namespace TwoLevel

/-! ### Sets of terms -/

namespace Term

/-- One term of each class of a list, whichever, in any order. -/
structure OneOfEach (ts kept : List Term) : Prop where
  mem : ∀ t ∈ kept, t ∈ ts
  represented : ∀ t ∈ ts, ∃ u ∈ kept, u ≈ t
  pairwise : kept.Pairwise fun s t => ¬ s ≈ t

variable {ts us kept other : List Term}

theorem oneOfEach_firsts (ts : List Term) : OneOfEach ts (firsts ts) :=
  ⟨fun _ => mem_of_mem_firsts, fun _ => exists_mem_firsts, pairwise_firsts ts⟩

theorem OneOfEach.reorder (h : OneOfEach ts kept) (hperm : kept.Perm other) :
    OneOfEach ts other := by
  refine ⟨fun t ht => h.mem t (hperm.mem_iff.mpr ht), fun t ht => ?_, ?_⟩
  · obtain ⟨u, hu, hut⟩ := h.represented t ht
    exact ⟨u, hperm.mem_iff.mp hu, hut⟩
  · exact (hperm.pairwise_iff fun hst hts => hst (Setoid.symm hts)).mp h.pairwise

theorem OneOfEach.nodup (h : OneOfEach ts kept) : kept.Nodup := by
  rw [List.Nodup]
  refine h.pairwise.imp fun {s t} hst heq => hst ?_
  exact heq ▸ Setoid.refl s

/-- Where equivalent terms are the same term, a set holds the terms that were put into it. -/
theorem OneOfEach.mem_iff (h : OneOfEach ts kept) (hsame : ∀ s ∈ ts, ∀ t ∈ ts, s ≈ t → s = t)
    (t : Term) : t ∈ kept ↔ t ∈ ts := by
  refine ⟨h.mem t, fun ht => ?_⟩
  obtain ⟨u, hu, hut⟩ := h.represented t ht
  rwa [← hsame u (h.mem u hu) t ht hut]

end Term

/-! ### Searches -/

/-- The term that an event reports as left over. -/
def Event.leftOver? : Event → Option Term
  | prime t => some t
  | _ => none

namespace Layer

/-- Every bucket holds the given terms with its number of ones. -/
def Holds (terms : List Term) (layer : Layer) : Prop :=
  ∀ k, Term.OneOfEach (terms.filter fun t => t.ones = k) (bucket layer k)

/-- Every bucket holds what the bucket below it and the one there merge into. -/
def Follows (layer above : Layer) : Prop :=
  ∀ k, Term.OneOfEach (merges (bucket layer k) (bucket layer (k + 1))) (bucket above k)

/-- The layers that a search goes over from one layer on, whichever of equivalent terms its buckets
keep. -/
inductive Search : Layer → List Layer → Prop
  | last {layer : Layer} (h : layer.Stuck) : Search layer [layer]
  | more {layer above : Layer} {layers : List Layer} (h : ¬ layer.Stuck)
      (hfollows : Follows layer above) (hsearch : Search above layers) :
      Search layer (layer :: layers)

/-- The layers of a search from some terms. -/
def SearchOf (terms : List Term) (layers : List Layer) : Prop :=
  ∃ layer, Holds terms layer ∧ Search layer layers

/-- The same terms in every bucket. -/
def SameTerms (layer other : Layer) : Prop := ∀ k, (bucket layer k).Perm (bucket other k)

/-- What a search over these layers reports. -/
def eventsOf (layers : List Layer) : List Event :=
  layers.flatMap (eventsFrom 0 []) ++ [.primesFound (layers.flatMap unmerged).length]

theorem findPrimesEvents_eq (minterms dontCares : List Term) :
    findPrimesEvents minterms dontCares = eventsOf (group (minterms ++ dontCares)).passes := rfl

variable {terms : List Term} {layer other above : Layer} {layers others : List Layer}

theorem holds_group (terms : List Term) : Holds terms (group terms) := by
  intro k
  rw [bucket_group]
  exact Term.oneOfEach_firsts _

theorem follows_next (layer : Layer) : Follows layer layer.next := by
  intro k
  rw [bucket_next]
  exact Term.oneOfEach_firsts _

namespace Reading

variable (r : Reading)

theorem search (layer : Layer) : Search (r.read layer) (r.passes layer) := by
  induction layer using Reading.passes.induct r with
  | case1 layer hvoid =>
      rw [r.passes_of_isVoid hvoid]
      exact .last (isVoid_next_iff.mp hvoid)
  | case2 layer hvoid ih =>
      rw [r.passes_of_not_isVoid hvoid]
      refine .more (mt isVoid_next_iff.mpr hvoid) (fun k => ?_) ih
      exact (follows_next _ k).reorder (perm_bucket (r.perm _) k)

/-- In whatever order the buckets are read, and so whichever of equivalent terms comes first, the
passes are a search. -/
theorem searchOf (terms : List Term) : SearchOf terms (r.passes (group terms)) :=
  ⟨_, fun k => (holds_group terms k).reorder (perm_bucket (r.perm _) k), r.search _⟩

end Reading

theorem searchOf_passes (terms : List Term) : SearchOf terms (group terms).passes := by
  rw [← Reading.stored_passes]
  exact Reading.stored.searchOf terms

/-! ### What a search keeps -/

theorem Holds.forall_mem {P : Term → Prop} (h : Holds terms layer) (hterms : ∀ t ∈ terms, P t) :
    ∀ k, ∀ t ∈ bucket layer k, P t :=
  fun k t ht => hterms t (List.mem_filter.mp ((h k).mem t ht)).1

theorem Follows.forall_mem {P : Term → Prop} (h : Follows layer above)
    (hmerge : ∀ s t u, P s → P t → s.merge? t = some u → P u)
    (hlayer : ∀ k, ∀ t ∈ bucket layer k, P t) : ∀ k, ∀ t ∈ bucket above k, P t := by
  intro k u hu
  obtain ⟨s, hs, t, ht, hm⟩ := mem_merges.mp ((h k).mem u hu)
  exact hmerge s t u (hlayer k s hs) (hlayer (k + 1) t ht) hm

theorem Search.forall_mem {P : Term → Prop} (h : Search layer layers)
    (hmerge : ∀ s t u, P s → P t → s.merge? t = some u → P u)
    (hlayer : ∀ k, ∀ t ∈ bucket layer k, P t) :
    ∀ l ∈ layers, ∀ k, ∀ t ∈ bucket l k, P t := by
  induction h with
  | last _ => exact List.forall_mem_singleton.mpr hlayer
  | more _ hfollows _ ih =>
      exact List.forall_mem_cons.mpr ⟨hlayer, ih (hfollows.forall_mem hmerge hlayer)⟩

/-! ### Searches over the same terms -/

theorem SameTerms.symm (h : SameTerms layer other) : SameTerms other layer := fun k => (h k).symm

theorem SameTerms.stuck (h : SameTerms layer other) (hstuck : layer.Stuck) : other.Stuck :=
  fun k s hs t ht => hstuck k s ((h k).mem_iff.mpr hs) t ((h (k + 1)).mem_iff.mpr ht)

theorem SameTerms.mem_merges_iff (h : SameTerms layer other) (k : ℕ) (u : Term) :
    u ∈ merges (bucket layer k) (bucket layer (k + 1)) ↔
      u ∈ merges (bucket other k) (bucket other (k + 1)) := by
  simp only [mem_merges, (h k).mem_iff, (h (k + 1)).mem_iff]

section Determined

/-! A property of terms that merging keeps, and which tells equivalent terms apart. -/

variable {P : Term → Prop} (hmerge : ∀ s t u, P s → P t → s.merge? t = some u → P u)
  (hsame : ∀ s t, P s → P t → s ≈ t → s = t)

include hsame

theorem perm_of_oneOfEach {ts us kept other : List Term} (h : Term.OneOfEach ts kept)
    (k : Term.OneOfEach us other) (hts : ∀ t ∈ ts, P t) (htsus : ∀ t, t ∈ ts ↔ t ∈ us) :
    kept.Perm other := by
  have hus : ∀ t ∈ us, P t := fun t ht => hts t ((htsus t).mpr ht)
  rw [List.perm_ext_iff_of_nodup h.nodup k.nodup]
  intro t
  rw [h.mem_iff fun s hs t ht => hsame s t (hts s hs) (hts t ht), htsus,
    k.mem_iff fun s hs t ht => hsame s t (hus s hs) (hus t ht)]

theorem Holds.sameTerms (h : Holds terms layer) (k : Holds terms other)
    (hterms : ∀ t ∈ terms, P t) : SameTerms layer other :=
  fun n => perm_of_oneOfEach hsame (h n) (k n)
    (fun t ht => hterms t (List.mem_filter.mp ht).1) fun _ => Iff.rfl

include hmerge

/-- **There is one search**, up to the order in every bucket: where equivalent terms are the same
term, it makes no difference which of them is kept. -/
theorem Search.forall₂_sameTerms (h : Search layer layers) (k : Search other others)
    (hlayer : ∀ k, ∀ t ∈ bucket layer k, P t) (hsameTerms : SameTerms layer other) :
    List.Forall₂ SameTerms layers others := by
  induction h generalizing other others with
  | last hstuck =>
      cases k with
      | last _ => exact .cons hsameTerms .nil
      | more hmerging _ _ => exact absurd (hsameTerms.stuck hstuck) hmerging
  | more hmerging hfollows _ ih =>
      cases k with
      | last hstuck => exact absurd (hsameTerms.symm.stuck hstuck) hmerging
      | more _ hfollows' hsearch' =>
          refine .cons hsameTerms (ih hsearch' (hfollows.forall_mem hmerge hlayer) fun n => ?_)
          refine perm_of_oneOfEach hsame (hfollows n) (hfollows' n) ?_ (hsameTerms.mem_merges_iff n)
          intro u hu
          obtain ⟨s, hs, t, ht, hm⟩ := mem_merges.mp hu
          exact hmerge s t u (hlayer n s hs) (hlayer (n + 1) t ht) hm

end Determined

/-! ### Events -/

theorem bucketEvents_perm {low high low' high' : List Term} (hlow : low.Perm low')
    (hhigh : high.Perm high') (ones : ℕ) :
    (bucketEvents ones low high).Perm (bucketEvents ones low' high') := by
  unfold bucketEvents
  rw [hlow.isEmpty_eq, hhigh.isEmpty_eq]
  split_ifs
  · exact .refl _
  · exact .refl _
  · exact (hlow.flatMap fun s _ => hhigh.map _).cons _

theorem kept_perm {merged merged' : List (OrdSet ℤ)} (hmerged : ∀ s, s ∈ merged ↔ s ∈ merged')
    {low low' : List Term} (hlow : low.Perm low') : (kept merged low).Perm (kept merged' low') := by
  unfold kept
  simp only [hmerged]
  exact hlow.filter _

theorem mem_mergedSources_congr {low high low' high' : List Term} (hlow : low.Perm low')
    (hhigh : high.Perm high') (sources : OrdSet ℤ) :
    sources ∈ mergedSources low high ↔ sources ∈ mergedSources low' high' := by
  simp only [mem_mergedSources, hlow.mem_iff, hhigh.mem_iff]

theorem eventsFrom_eq_nil {ones : ℕ} {merged : List (OrdSet ℤ)}
    (h : ∀ k, bucket layer k = []) : eventsFrom ones merged layer = [] := by
  induction layer generalizing ones merged with
  | nil => rfl
  | cons low layer ih =>
      obtain rfl : low = [] := h 0
      rw [eventsFrom, ih fun k => h (k + 1)]
      rfl

/-- One pass over the same terms reports the same events. -/
theorem SameTerms.perm_eventsFrom (h : SameTerms layer other) {merged merged' : List (OrdSet ℤ)}
    (hmerged : ∀ s, s ∈ merged ↔ s ∈ merged') (ones : ℕ) :
    (eventsFrom ones merged layer).Perm (eventsFrom ones merged' other) := by
  induction layer generalizing other merged merged' ones with
  | nil =>
      rw [eventsFrom_eq_nil fun k => (h k).symm.eq_nil]
      exact .refl _
  | cons low layer ih =>
      cases other with
      | nil =>
          rw [eventsFrom_eq_nil fun k => (h k).eq_nil]
          exact .refl _
      | cons low' other =>
          have hlow : low.Perm low' := h 0
          have hlayer : SameTerms layer other := fun k => h (k + 1)
          rw [eventsFrom, eventsFrom, headD_eq_bucket, headD_eq_bucket]
          have hall : ∀ s, s ∈ mergedSources low (bucket layer 0) ++ merged ↔
              s ∈ mergedSources low' (bucket other 0) ++ merged' := by
            intro s
            rw [List.mem_append, List.mem_append, mem_mergedSources_congr hlow (hlayer 0), hmerged]
          exact ((bucketEvents_perm hlow (hlayer 0) ones).append
            ((kept_perm hall hlow).map _)).append (ih hlayer hall (ones + 1))

theorem filterMap_bucketEvents (ones : ℕ) (low high : List Term) :
    (bucketEvents ones low high).filterMap Event.leftOver? = [] := by
  have htried : ∀ s : Term, (high.map fun t => Event.tried s t (s.merge? t)).filterMap
      Event.leftOver? = [] := by
    intro s
    rw [List.filterMap_map]
    exact List.filterMap_none ..
  unfold bucketEvents
  split_ifs
  · rfl
  · rfl
  · rw [List.filterMap_cons_none rfl, List.filterMap_flatMap]
    simp only [htried, List.flatMap_eq_nil_iff, implies_true]

theorem filterMap_eventsFrom (ones : ℕ) (merged : List (OrdSet ℤ)) (layer : Layer) :
    (eventsFrom ones merged layer).filterMap Event.leftOver? = unmergedFrom merged layer := by
  induction layer generalizing ones merged with
  | nil => rfl
  | cons low layer ih =>
      rw [eventsFrom, unmergedFrom, List.filterMap_append, List.filterMap_append,
        filterMap_bucketEvents, List.filterMap_map, ih, List.nil_append]
      exact congrArg (· ++ _) (List.filterMap_some)

theorem SameTerms.perm_unmerged (h : SameTerms layer other) :
    layer.unmerged.Perm other.unmerged := by
  unfold unmerged
  rw [← filterMap_eventsFrom 0, ← filterMap_eventsFrom 0]
  exact (h.perm_eventsFrom (fun _ => Iff.rfl) 0).filterMap _

/-- **Searches over the same terms report the same events.** -/
theorem perm_eventsOf (h : List.Forall₂ SameTerms layers others) :
    (eventsOf layers).Perm (eventsOf others) := by
  have hflat : ∀ {α : Type} (f : Layer → List α),
      (∀ layer other, SameTerms layer other → (f layer).Perm (f other)) →
      (layers.flatMap f).Perm (others.flatMap f) := by
    intro α f hf
    rw [List.flatMap_def, List.flatMap_def]
    apply List.Perm.flatten_congr
    rw [List.forall₂_map_left_iff, List.forall₂_map_right_iff]
    exact h.imp hf
  unfold eventsOf
  rw [(hflat unmerged fun _ _ hsame => hsame.perm_unmerged).length_eq]
  exact (hflat _ fun _ _ hsame => hsame.perm_eventsFrom (fun _ => Iff.rfl) 0).append_right _

end Layer

end TwoLevel
