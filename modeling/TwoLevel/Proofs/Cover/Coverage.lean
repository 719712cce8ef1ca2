import Mathlib.Data.List.GetD
import TwoLevel.Proofs.Cover.Expansion
import TwoLevel.Proofs.Term.Reading

/-! # Covering sets

A set of indices covers when the implicants at these indices together stand for every required
source.  In terms of the chart of a cover problem such a set is one that meets every row
(`Covering.hits`, `covering_of_hits`), and the source reported as uncovered is the least one without
an implicant (`Chart.uncovered?_coverage_eq_some_iff`).  `Cover.pick` reads the implicants off a set
of indices in their order (`pick_eq_filterMap`). -/

namespace TwoLevel

/-! ### Coverage charts -/

namespace Chart

theorem mem_indicesOf {source : ℤ} {implicants : List Term} {i : ℕ} :
    i ∈ indicesOf source implicants ↔ ∃ t, implicants[i]? = some t ∧ source ∈ t.sources := by
  unfold indicesOf indicesFrom
  rw [OrdSet.mem_ofList]
  simp only [List.mem_map, List.mem_filter, decide_eq_true_eq, Prod.exists,
    List.mem_zipIdx_iff_getElem?]
  constructor
  · rintro ⟨t, j, ⟨hj, ht⟩, rfl⟩
    exact ⟨t, hj, ht⟩
  · rintro ⟨t, hi, ht⟩
    exact ⟨t, i, ⟨hi, ht⟩, rfl⟩

variable {implicants minterms : List Term}

theorem rows_coverage : (coverage implicants minterms).rows =
    (Problem.sourcesOf minterms).toList.map fun source => (source, indicesOf source implicants) :=
  coverageRows_eq_map implicants minterms

theorem mem_rows_coverage {row : ℤ × OrdSet ℕ} :
    row ∈ (coverage implicants minterms).rows ↔
      row.1 ∈ Problem.sourcesOf minterms ∧ row.2 = indicesOf row.1 implicants := by
  rw [rows_coverage, List.mem_map]
  constructor
  · rintro ⟨source, hsource, rfl⟩
    exact ⟨hsource, rfl⟩
  · rintro ⟨hsource, hrow⟩
    exact ⟨row.1, hsource, Prod.ext rfl hrow.symm⟩

theorem isEmpty_coverage_iff :
    (coverage implicants minterms).isEmpty = true ↔ Problem.sourcesOf minterms = ∅ := by
  unfold isEmpty
  rw [rows_coverage, List.isEmpty_map, List.isEmpty_iff]
  constructor
  · intro h
    exact OrdSet.ext fun a => by rw [OrdSet.mem_def, h]; rfl
  · intro h
    rw [h]
    rfl

theorem not_mem_sources_of_isEmpty (h : (coverage implicants minterms).isEmpty = true) :
    ∀ m ∈ minterms, ∀ v, v ∉ m.sources := by
  intro m hm v hv
  have hmem : v ∈ Problem.sourcesOf minterms := Problem.mem_sourcesOf.mpr ⟨m, hm, hv⟩
  rw [isEmpty_coverage_iff.mp h] at hmem
  exact OrdSet.not_mem_empty v hmem

theorem lt_length_of_mem_rows {row : ℤ × OrdSet ℕ}
    (hrow : row ∈ (coverage implicants minterms).rows) {i : ℕ} (hi : i ∈ row.2) :
    i < implicants.length := by
  rw [(mem_rows_coverage.mp hrow).2] at hi
  obtain ⟨t, ht, -⟩ := mem_indicesOf.mp hi
  exact (List.getElem?_eq_some_iff.mp ht).1

/-- The source reported is the least one that lies in no implicant. -/
theorem uncovered?_coverage_eq_some_iff (v : ℤ) :
    (coverage implicants minterms).uncovered? = some v ↔
      IsLeast {x | x ∈ Problem.sourcesOf minterms ∧ ∀ t ∈ implicants, x ∉ t.sources} v := by
  have hempty : ∀ source, (indicesOf source implicants).isEmpty = true ↔
      ∀ t ∈ implicants, source ∉ t.sources := by
    intro source
    rw [OrdSet.isEmpty_iff]
    simp only [mem_indicesOf, not_exists, not_and]
    constructor
    · intro h t ht
      obtain ⟨i, hi⟩ := List.mem_iff_getElem?.mp ht
      exact h i t hi
    · intro h i t hi
      exact h t (List.mem_of_getElem? hi)
  have hfind : (coverage implicants minterms).uncovered? =
      (Problem.sourcesOf minterms).toList.find? fun source =>
        (indicesOf source implicants).isEmpty := by
    unfold uncovered?
    rw [rows_coverage, List.find?_map, Option.map_map]
    exact Option.map_id'
  rw [hfind, OrdSet.find?_toList_eq_some_iff]
  simp only [hempty]

end Chart

namespace Cover

/-! ### Covering sets -/

/-- A source that is required but lies in no implicant. -/
def Uncovered (implicants minterms : List Term) (source : ℤ) : Prop :=
  (∃ m ∈ minterms, source ∈ m.sources) ∧ ∀ t ∈ implicants, source ∉ t.sources

/-- A set of indices whose implicants together stand for every required source. -/
structure Covering (implicants minterms : List Term) (chosen : OrdSet ℕ) : Prop where
  lt_length : ∀ i ∈ chosen, i < implicants.length
  covers : ∀ m ∈ minterms, ∀ v ∈ m.sources, ∃ i ∈ chosen, ∃ t,
    implicants[i]? = some t ∧ v ∈ t.sources

variable {implicants minterms : List Term}

theorem uncovered_iff {v : ℤ} : Uncovered implicants minterms v ↔
    v ∈ Problem.sourcesOf minterms ∧ ∀ t ∈ implicants, v ∉ t.sources := by
  unfold Uncovered
  rw [Problem.mem_sourcesOf]

theorem Covering.hits {chosen : OrdSet ℕ} (h : Covering implicants minterms chosen) :
    (Chart.coverage implicants minterms).Hits chosen := by
  intro row hrow
  obtain ⟨hsource, hchoices⟩ := Chart.mem_rows_coverage.mp hrow
  obtain ⟨m, hm, hv⟩ := Problem.mem_sourcesOf.mp hsource
  obtain ⟨i, hi, t, ht, hvt⟩ := h.covers m hm row.1 hv
  exact ⟨i, by rw [hchoices]; exact Chart.mem_indicesOf.mpr ⟨t, ht, hvt⟩, hi⟩

theorem covering_of_hits {chosen : OrdSet ℕ} (hlt : ∀ i ∈ chosen, i < implicants.length)
    (hhits : (Chart.coverage implicants minterms).Hits chosen) :
    Covering implicants minterms chosen where
  lt_length := hlt
  covers m hm v hv := by
    have hrow : (v, Chart.indicesOf v implicants) ∈ (Chart.coverage implicants minterms).rows :=
      Chart.mem_rows_coverage.mpr ⟨Problem.mem_sourcesOf.mpr ⟨m, hm, hv⟩, rfl⟩
    obtain ⟨i, hi, hmem⟩ := hhits _ hrow
    exact ⟨i, hmem, Chart.mem_indicesOf.mp hi⟩

/-! ### The implicants of a set of indices -/

section pick

variable {chosen : OrdSet ℕ}

theorem mem_pick {t : Term} : t ∈ pick chosen implicants ↔ ∃ i ∈ chosen, implicants[i]? = some t := by
  unfold pick
  simp only [List.mem_map, List.mem_filter, decide_eq_true_eq, Prod.exists,
    List.mem_zipIdx_iff_getElem?]
  constructor
  · rintro ⟨u, i, ⟨hu, hi⟩, rfl⟩
    exact ⟨i, hi, hu⟩
  · rintro ⟨i, hi, ht⟩
    exact ⟨t, i, ⟨ht, hi⟩, rfl⟩

theorem pick_sublist (chosen : OrdSet ℕ) (implicants : List Term) :
    (pick chosen implicants).Sublist implicants := by
  have hmap := (List.filter_sublist (p := fun entry : Term × ℕ => decide (entry.2 ∈ chosen))
    (l := implicants.zipIdx)).map Prod.fst
  rw [List.zipIdx_map_fst] at hmap
  exact hmap

theorem map_snd_filter_zipIdx (h : ∀ i ∈ chosen, i < implicants.length) :
    (implicants.zipIdx.filter fun entry => entry.2 ∈ chosen).map Prod.snd = chosen.toList := by
  have hrange : implicants.zipIdx.map Prod.snd = List.range implicants.length := by
    rw [List.zipIdx_map_snd, List.range_eq_range']
  have hfilter : (implicants.zipIdx.filter fun entry => entry.2 ∈ chosen).map Prod.snd =
      (List.range implicants.length).filter fun i => i ∈ chosen := by
    rw [← hrange, List.filter_map]
    rfl
  rw [hfilter]
  refine Ascending.eq_of_mem_iff ?_ chosen.ascending fun i => ?_
  · exact (OrdSet.ascending_range _).sublist List.filter_sublist
  · rw [List.mem_filter, List.mem_range, decide_eq_true_eq]
    exact ⟨fun hi => hi.2, fun hi => ⟨h i hi, hi⟩⟩

theorem pick_eq_filterMap (h : ∀ i ∈ chosen, i < implicants.length) :
    pick chosen implicants = chosen.toList.filterMap (implicants[·]?) := by
  rw [← map_snd_filter_zipIdx h, List.filterMap_map]
  unfold pick
  rw [← List.filterMap_eq_map]
  apply List.filterMap_congr
  intro entry hentry
  have hmem := (List.mem_filter.mp hentry).1
  exact (List.mem_zipIdx_iff_getElem?.mp hmem).symm

theorem length_pick (h : ∀ i ∈ chosen, i < implicants.length) :
    (pick chosen implicants).length = chosen.size := by
  unfold pick OrdSet.size
  rw [List.length_map, ← map_snd_filter_zipIdx h, List.length_map]

end pick

end Cover

end TwoLevel
