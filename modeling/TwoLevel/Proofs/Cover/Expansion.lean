import Mathlib.Data.List.DropRight
import TwoLevel.Cover
import TwoLevel.Proofs.Sets

/-! # Products are choices

Multiplying out rows gives the products that take one choice out of every row behind the last one
without a choice (`images_foldl_multiply`), for such a row leaves no product and the expansion
begins again.  Rows that all have a choice count without exception (`mem_ofChart_iff`).  There is no
absorption, so every set that meets all rows contains a product (`exists_product_subset`), and the
first product in the order of sets is the first one among *all* sets that meet the rows, not only
among the products (`minimum_spec`). -/

namespace TwoLevel

open Std

variable {ι : Type} [Ord ι]

/-- One choice out of every row, row by row. -/
def Chart.Choice (choices : List ι) (rows : List (ℤ × OrdSet ι)) : Prop :=
  List.Forall₂ (fun c row => c ∈ row.2) choices rows

/-- A set that meets every row of a chart. -/
def Chart.Hits (chart : Chart ι) (chosen : OrdSet ι) : Prop :=
  ∀ row ∈ chart.rows, ∃ c ∈ row.2, c ∈ chosen

namespace Chart.Choice

theorem exists_of_rows {rows : List (ℤ × OrdSet ι)} {p : ι → Prop}
    (h : ∀ row ∈ rows, ∃ c ∈ row.2, p c) : ∃ cs, Choice cs rows ∧ ∀ c ∈ cs, p c := by
  induction rows with
  | nil => exact ⟨[], List.Forall₂.nil, fun c hc => absurd hc List.not_mem_nil⟩
  | cons row rows ih =>
      obtain ⟨c, hc, hpc⟩ := h row List.mem_cons_self
      obtain ⟨cs, hcs, hp⟩ := ih fun row hrow => h row (List.mem_cons_of_mem _ hrow)
      refine ⟨c :: cs, List.Forall₂.cons hc hcs, fun d hd => ?_⟩
      rcases List.mem_cons.mp hd with rfl | hd
      · exact hpc
      · exact hp d hd

variable {cs : List ι} {rows : List (ℤ × OrdSet ι)}

theorem exists_mem_of_mem_rows (h : Choice cs rows) {row : ℤ × OrdSet ι} (hrow : row ∈ rows) :
    ∃ c ∈ row.2, c ∈ cs := by
  obtain ⟨c, hc, hmem⟩ := exists_partner_of_mem_right h hrow
  exact ⟨c, hmem, hc⟩

theorem concat_iff {row : ℤ × OrdSet ι} : Choice cs (rows ++ [row]) ↔
    ∃ ds c, Choice ds rows ∧ c ∈ row.2 ∧ cs = ds ++ [c] := by
  constructor
  · intro h
    have hreverse : List.Forall₂ (fun c row => c ∈ row.2) cs.reverse (row :: rows.reverse) := by
      rw [← List.reverse_concat]
      exact List.forall₂_reverse_iff.mpr h
    obtain ⟨c, ds, hc, hds, hcs⟩ := List.forall₂_cons_right_iff.mp hreverse
    refine ⟨ds.reverse, c, ?_, hc, ?_⟩
    · exact List.forall₂_reverse_iff.mp (by rwa [List.reverse_reverse])
    · rw [← List.reverse_cons, ← hcs, List.reverse_reverse]
  · rintro ⟨ds, c, hds, hc, rfl⟩
    exact List.rel_append hds (.cons hc .nil)

theorem exists_mem_of_mem (h : Choice cs rows) {c : ι} (hc : c ∈ cs) : ∃ row ∈ rows, c ∈ row.2 :=
  exists_partner_of_mem_left h hc

end Chart.Choice

/-! ### Rows without a choice -/

namespace Chart

/-- The rows behind the last one without a choice, all rows if each has one. -/
def effectiveRows (rows : List (ℤ × OrdSet ι)) : List (ℤ × OrdSet ι) :=
  rows.rtakeWhile fun row => !row.2.isEmpty

variable {rows : List (ℤ × OrdSet ι)} {row : ℤ × OrdSet ι}

theorem effectiveRows_concat_of_isEmpty (rows : List (ℤ × OrdSet ι)) (h : row.2.isEmpty = true) :
    effectiveRows (rows ++ [row]) = [] := List.rtakeWhile_concat_neg _ _ _ (by simp [h])

theorem effectiveRows_concat (rows : List (ℤ × OrdSet ι)) (h : ¬ row.2.isEmpty = true) :
    effectiveRows (rows ++ [row]) = effectiveRows rows ++ [row] :=
  List.rtakeWhile_concat_pos _ _ _ (by simp [h])

theorem not_isEmpty_of_mem_effectiveRows (h : row ∈ effectiveRows rows) :
    ¬ row.2.isEmpty = true := by
  simpa using List.mem_rtakeWhile_imp h

theorem effectiveRows_eq_self (h : ∀ row ∈ rows, ¬ row.2.isEmpty = true) :
    effectiveRows rows = rows :=
  List.rtakeWhile_eq_self_iff.mpr fun row hrow => by simpa using h row hrow

end Chart

namespace Products

variable [TransOrd ι] [LawfulEqOrd ι]

/-! ### Multiplying out -/

theorem mem_multiply_of_isEmpty {products : Products ι} (h : products.isEmpty = true)
    (choices : OrdSet ι) (p : Product ι) :
    p ∈ products.multiply choices ↔ ∃ c ∈ choices, p = .singleton c := by
  unfold multiply
  rw [if_pos h, OrdSet.mem_ofList, List.mem_map]
  simp only [eq_comm (a := p)]
  rfl

theorem mem_multiply {products : Products ι} (h : ¬ products.isEmpty = true)
    (choices : OrdSet ι) (p : Product ι) :
    p ∈ products.multiply choices ↔ ∃ q ∈ products, ∃ c ∈ choices, p = q.insert c := by
  unfold multiply
  rw [if_neg h, OrdSet.mem_ofList, List.mem_flatMap]
  simp only [List.mem_map, eq_comm (a := p)]
  rfl

/-- The products are the images of the choices out of some rows; where there is no row, there is no
product either, as at the beginning. -/
def Images (products : Products ι) (rows : List (ℤ × OrdSet ι)) : Prop :=
  ∀ p, p ∈ products ↔ rows ≠ [] ∧ ∃ cs, Chart.Choice cs rows ∧ p = .ofList cs

section Images

variable {products : Products ι} {rows : List (ℤ × OrdSet ι)} {row : ℤ × OrdSet ι}

theorem Images.isEmpty_iff (h : Images products rows) (hrows : ∀ r ∈ rows, ¬ r.2.isEmpty = true) :
    products.isEmpty = true ↔ rows = [] := by
  rw [OrdSet.isEmpty_iff]
  constructor
  · intro hnone
    by_contra hne
    obtain ⟨cs, hcs, -⟩ := Chart.Choice.exists_of_rows (p := fun _ => True) fun r hr => by
      obtain ⟨c, hc⟩ := OrdSet.exists_mem_of_not_isEmpty (hrows r hr)
      exact ⟨c, hc, trivial⟩
    exact hnone _ ((h _).mpr ⟨hne, cs, hcs, rfl⟩)
  · rintro rfl p hp
    exact ((h p).mp hp).1 rfl

/-- One row more: every choice so far is continued by every choice of the row. -/
theorem Images.multiply (h : Images products rows) (hrows : ∀ r ∈ rows, ¬ r.2.isEmpty = true) :
    Images (products.multiply row.2) (rows ++ [row]) := by
  intro p
  simp only [ne_eq, List.append_eq_nil_iff, List.cons_ne_nil, and_false, not_false_eq_true,
    true_and, Chart.Choice.concat_iff]
  by_cases hempty : products.isEmpty = true
  · obtain rfl := (h.isEmpty_iff hrows).mp hempty
    rw [mem_multiply_of_isEmpty hempty]
    have hsingle : ∀ c : ι, OrdSet.singleton c = .ofList [c] := fun c => OrdSet.ext fun a => by simp
    constructor
    · rintro ⟨c, hc, rfl⟩
      exact ⟨[c], ⟨[], c, List.Forall₂.nil, hc, rfl⟩, hsingle c⟩
    · rintro ⟨_, ⟨_, c, hnil, hc, rfl⟩, rfl⟩
      obtain rfl := List.forall₂_nil_right_iff.mp hnil
      exact ⟨c, hc, (hsingle c).symm⟩
  · have hne : rows ≠ [] := fun e => hempty ((h.isEmpty_iff hrows).mpr e)
    have hinsert : ∀ (cs : List ι) c, (OrdSet.ofList cs).insert c = .ofList (cs ++ [c]) :=
      fun cs c => OrdSet.ext fun a => by simp [or_comm]
    rw [mem_multiply hempty]
    constructor
    · rintro ⟨q, hq, c, hc, rfl⟩
      obtain ⟨-, cs, hcs, rfl⟩ := (h q).mp hq
      exact ⟨cs ++ [c], ⟨cs, c, hcs, hc, rfl⟩, hinsert cs c⟩
    · rintro ⟨_, ⟨cs, c, hcs, hc, rfl⟩, rfl⟩
      exact ⟨.ofList cs, (h _).mpr ⟨hne, cs, hcs, rfl⟩, c, hc, (hinsert cs c).symm⟩

/-- A row without a choice leaves no product, and so begins the expansion again. -/
theorem images_multiply_of_isEmpty (products : Products ι) (hrow : row.2.isEmpty = true) :
    Images (products.multiply row.2) [] := by
  rw [OrdSet.isEmpty_iff] at hrow
  refine fun p => iff_of_false (fun hp => ?_) (fun hp => hp.1 rfl)
  by_cases hempty : products.isEmpty = true
  · obtain ⟨c, hc, -⟩ := (mem_multiply_of_isEmpty hempty _ p).mp hp
    exact hrow c hc
  · obtain ⟨q, -, c, hc, -⟩ := (mem_multiply hempty _ p).mp hp
    exact hrow c hc

end Images

/-- **All rows**: what was multiplied out before the last row without a choice is lost, and of the
rows behind it one choice each is taken. -/
theorem images_foldl_multiply (rows : List (ℤ × OrdSet ι)) :
    Images (rows.foldl (fun products row => products.multiply row.2) ∅)
      (Chart.effectiveRows rows) := by
  induction rows using List.reverseRecOn with
  | nil => exact fun p => iff_of_false (OrdSet.not_mem_empty p) fun hp => hp.1 rfl
  | append_singleton rows row ih =>
      rw [List.foldl_append, List.foldl_cons, List.foldl_nil]
      by_cases hrow : row.2.isEmpty = true
      · rw [Chart.effectiveRows_concat_of_isEmpty rows hrow]
        exact images_multiply_of_isEmpty _ hrow
      · rw [Chart.effectiveRows_concat rows hrow]
        exact ih.multiply fun r hr => Chart.not_isEmpty_of_mem_effectiveRows hr

/-- **The products of a chart** with a choice in every row take one choice out of every row. -/
theorem mem_ofChart_iff {chart : Chart ι} (hrows : ∀ row ∈ chart.rows, ¬ row.2.isEmpty = true)
    (hne : ¬ chart.isEmpty = true) (p : Product ι) :
    p ∈ ofChart chart ↔ ∃ cs, Chart.Choice cs chart.rows ∧ p = .ofList cs := by
  have himages := images_foldl_multiply chart.rows p
  rw [Chart.effectiveRows_eq_self hrows] at himages
  exact himages.trans (and_iff_right (mt List.isEmpty_iff.mpr hne))

/-! ### The first product -/

section minimum

variable {chart : Chart ι} (hrows : ∀ row ∈ chart.rows, ¬ row.2.isEmpty = true)
  (hne : ¬ chart.isEmpty = true)
include hrows hne

theorem hits_of_mem_ofChart {p : Product ι} (hp : p ∈ ofChart chart) : chart.Hits p := by
  obtain ⟨cs, hcs, rfl⟩ := (mem_ofChart_iff hrows hne p).mp hp
  intro row hrow
  obtain ⟨c, hc, hmem⟩ := hcs.exists_mem_of_mem_rows hrow
  exact ⟨c, hc, OrdSet.mem_ofList.mpr hmem⟩

theorem exists_row_of_mem_ofChart {p : Product ι} (hp : p ∈ ofChart chart) :
    ∀ c ∈ p, ∃ row ∈ chart.rows, c ∈ row.2 := by
  obtain ⟨cs, hcs, rfl⟩ := (mem_ofChart_iff hrows hne p).mp hp
  intro c hc
  exact hcs.exists_mem_of_mem (OrdSet.mem_ofList.mp hc)

/-- Every set that meets all rows contains a product. -/
theorem exists_product_subset {chosen : OrdSet ι} (h : chart.Hits chosen) :
    ∃ p ∈ ofChart chart, ∀ c ∈ p, c ∈ chosen := by
  obtain ⟨cs, hcs, hmem⟩ := Chart.Choice.exists_of_rows h
  exact ⟨.ofList cs, (mem_ofChart_iff hrows hne _).mpr ⟨cs, hcs, rfl⟩,
    fun c hc => hmem c (OrdSet.mem_ofList.mp hc)⟩

theorem exists_minimum : ∃ p, (ofChart chart).minimum = .ok p := by
  obtain ⟨cs, hcs, -⟩ := Chart.Choice.exists_of_rows (p := fun _ => True) fun row hrow => by
    obtain ⟨c, hc⟩ := OrdSet.exists_mem_of_not_isEmpty (hrows row hrow)
    exact ⟨c, hc, trivial⟩
  have hmem := (mem_ofChart_iff hrows hne _).mpr ⟨cs, hcs, rfl⟩
  unfold minimum OrdSet.least?
  rw [OrdSet.mem_def] at hmem
  cases hlist : (ofChart chart).toList with
  | nil =>
      rw [hlist] at hmem
      exact absurd hmem List.not_mem_nil
  | cons p ps => exact ⟨p, rfl⟩

/-- **The first product is the first set that meets all rows.**  A smaller set would contain a
smaller product, and one of the same size that contains a product is that product. -/
theorem minimum_spec {p : Product ι} (hp : (ofChart chart).minimum = .ok p) :
    p ∈ ofChart chart ∧ ∀ chosen, chart.Hits chosen → chosen = p ∨ compare p chosen = .lt := by
  unfold minimum at hp
  split at hp
  · next least hleast =>
    obtain rfl := Except.ok.inj hp
    obtain ⟨hmem, hle⟩ := OrdSet.least?_eq_some hleast
    refine ⟨hmem, fun chosen hchosen => ?_⟩
    obtain ⟨q, hq, hsub⟩ := exists_product_subset hrows hne hchosen
    by_cases hsize : chosen.size ≤ q.size
    · rw [← OrdSet.eq_of_subset_of_size_le hsub hsize]
      exact hle q hq
    · right
      have hqc : compare q chosen = .lt := by
        rw [OrdSet.compare_def, Ordering.then_eq_lt]
        exact Or.inl (Std.compare_eq_lt.mpr (by omega))
      rcases hle q hq with rfl | hlt
      · exact hqc
      · exact TransCmp.lt_trans hlt hqc
  · exact nomatch hp

end minimum

end Products

end TwoLevel
