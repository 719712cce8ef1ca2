import TwoLevel.Proofs.Cover.Minimum
import TwoLevel.Proofs.HittingSet.Search
import TwoLevel.Proofs.MaxSat

/-! # Covers chosen by a solver

In the weighted clauses of a chart there is one variable for each implicant.  Values of the
variables and sets of indices stand for each other: the hard clauses hold exactly when the true
variables meet every row (`holds_formula_iff`), and the cost is the number of true variables
(`cost_formula`).  So an optimal solver always finds a model of the chart of a cover problem, and
the indices it lists are a smallest covering set (`exists_solved_eq_ok`).  The search for hitting
sets is optimal for all formulas that are made of charts (`optimalFor_hittingSet`).

Together with the search by products, which gives a smallest covering set as well, this settles
both backends at once (`Method.coverWith_eq_error_iff`, `Method.smallestCovering`). -/

namespace TwoLevel

open MaxSat

namespace Cover

/-! ### Values and sets of indices -/

/-- The indices below `count` whose variables are true. -/
def trueIndices (count : ℕ) (value : ℕ → Bool) : OrdSet ℕ :=
  .ofList ((List.range count).filter fun i => value (i + 1))

/-- The values under which the variables of a set of indices are true, and no others. -/
def indicator (chosen : OrdSet ℕ) : ℕ → Bool
  | 0 => false
  | i + 1 => decide (i ∈ chosen)

@[simp] theorem indicator_succ (chosen : OrdSet ℕ) (i : ℕ) :
    indicator chosen (i + 1) = decide (i ∈ chosen) := rfl

theorem mem_trueIndices {count : ℕ} {value : ℕ → Bool} {i : ℕ} :
    i ∈ trueIndices count value ↔ i < count ∧ value (i + 1) = true := by
  unfold trueIndices
  rw [OrdSet.mem_ofList, List.mem_filter, List.mem_range]

theorem size_trueIndices (count : ℕ) (value : ℕ → Bool) :
    (trueIndices count value).size = (List.range count).countP fun i => value (i + 1) := by
  unfold trueIndices OrdSet.size
  rw [OrdSet.toList_ofList ((OrdSet.ascending_range count).sublist List.filter_sublist),
    List.countP_eq_length_filter]

theorem trueIndices_indicator {count : ℕ} {chosen : OrdSet ℕ} (h : ∀ i ∈ chosen, i < count) :
    trueIndices count (indicator chosen) = chosen := by
  apply OrdSet.ext
  intro i
  rw [mem_trueIndices, indicator_succ, decide_eq_true_eq]
  exact ⟨fun hi => hi.2, fun hi => ⟨h i hi, hi⟩⟩

/-! ### The weighted clauses of a chart -/

theorem literal_pos (i : ℕ) : (0 : ℤ) < literal i := Int.natCast_succ_pos i

theorem natAbs_literal (i : ℕ) : Int.natAbs (literal i) = i + 1 := Int.natAbs_natCast (i + 1)

theorem natAbs_neg_literal (i : ℕ) : Int.natAbs (-literal i) = i + 1 := by
  rw [Int.natAbs_neg, natAbs_literal]

@[simp] theorem holds_literal (value : ℕ → Bool) (i : ℕ) :
    Literal.holds value (literal i) = value (i + 1) := by
  unfold Literal.holds
  rw [if_neg (Int.not_lt.mpr (literal_pos i).le), natAbs_literal]

@[simp] theorem holds_neg_literal (value : ℕ → Bool) (i : ℕ) :
    Literal.holds value (-literal i) = !value (i + 1) := by
  unfold Literal.holds
  rw [if_pos (Int.neg_neg_of_pos (literal_pos i)), natAbs_neg_literal]

/-- The weighted clauses of a chart over so many implicants. -/
def IsFormula (f : Formula) : Prop :=
  ∃ count chart, (∀ row ∈ chart.rows, ∀ i ∈ row.2, i < count) ∧ f = formula count chart

/-- The hard clauses hold when the true variables meet every row. -/
theorem holds_formula_iff (count : ℕ) (chart : Chart ℕ) (value : ℕ → Bool) :
    (formula count chart).holds value = true ↔
      ∀ row ∈ chart.rows, ∃ i ∈ row.2, value (i + 1) = true := by
  unfold Formula.holds formula Clause.holds
  simp only [List.all_map, List.all_eq_true, Function.comp_apply, List.any_map, List.any_eq_true,
    holds_literal]
  rfl

/-- The soft clauses cost one for each true variable. -/
theorem cost_formula (count : ℕ) (chart : Chart ℕ) (value : ℕ → Bool) :
    (formula count chart).cost value = (trueIndices count value).size := by
  rw [size_trueIndices, List.countP_eq_length_filter]
  unfold Formula.cost formula Clause.holds
  rw [← List.sum_eq_foldr]
  simp [List.filter_map, Function.comp_def]

theorem succ_mem_vars {count i : ℕ} (h : i < count) (chart : Chart ℕ) :
    i + 1 ∈ (formula count chart).vars := by
  have hclause : [-literal i] ∈ (formula count chart).soft.map Prod.fst := by
    unfold formula
    rw [List.map_map, List.mem_map]
    exact ⟨i, List.mem_range.mpr h, rfl⟩
  unfold Formula.vars
  rw [List.mem_map]
  refine ⟨-literal i, ?_, natAbs_neg_literal i⟩
  exact List.mem_flatten.mpr ⟨_, List.mem_append_right _ hclause, List.mem_singleton.mpr rfl⟩

theorem listed_eq_trueIndices {count : ℕ} {chart : Chart ℕ} {model : List Literal}
    {value : ℕ → Bool}
    (h : ∀ x ∈ (formula count chart).vars, x ≠ 0 → ((x : ℤ) ∈ model ↔ value x = true)) :
    listed count model = trueIndices count value := by
  unfold listed trueIndices
  congr 1
  apply List.filter_congr
  intro i hi
  have hvariable := h (i + 1) (succ_mem_vars (List.mem_range.mp hi) chart) (Nat.succ_ne_zero i)
  rw [Bool.eq_iff_iff, decide_eq_true_iff, ← hvariable, List.mem_filter, decide_eq_true_iff]
  exact and_iff_left (literal_pos i)

/-! ### Optimal solvers -/

variable {solver : Solver} {implicants minterms : List Term}

theorem isFormula_coverage (implicants minterms : List Term) :
    IsFormula (formula implicants.length (Chart.coverage implicants minterms)) :=
  ⟨_, _, fun _ hrow _ hi => Chart.lt_length_of_mem_rows hrow hi, rfl⟩

theorem solver_ne_none (h : solver.OptimalFor IsFormula)
    (hrows : ∀ row ∈ (Chart.coverage implicants minterms).rows, ¬ row.2.isEmpty = true) :
    solver (formula implicants.length (Chart.coverage implicants minterms)) ≠ none := by
  intro hnone
  have hall : (formula implicants.length (Chart.coverage implicants minterms)).holds
      (fun _ => true) = true := by
    rw [holds_formula_iff]
    intro row hrow
    obtain ⟨i, hi⟩ := OrdSet.exists_mem_of_not_isEmpty (hrows row hrow)
    exact ⟨i, hi, rfl⟩
  rw [h.none _ (isFormula_coverage implicants minterms) hnone] at hall
  exact absurd hall (by decide)

/-- The indices that a model of least cost lists are a smallest covering set. -/
theorem smallestCovering_of_least {value : ℕ → Bool}
    (hholds : (formula implicants.length (Chart.coverage implicants minterms)).holds value = true)
    (hleast : ∀ other,
      (formula implicants.length (Chart.coverage implicants minterms)).holds other = true →
      (formula implicants.length (Chart.coverage implicants minterms)).cost value ≤
        (formula implicants.length (Chart.coverage implicants minterms)).cost other) :
    SmallestCovering implicants minterms (trueIndices implicants.length value) where
  covering := by
    rw [holds_formula_iff] at hholds
    refine covering_of_hits (fun i hi => (mem_trueIndices.mp hi).1) fun row hrow => ?_
    obtain ⟨i, hi, htrue⟩ := hholds row hrow
    exact ⟨i, hi, mem_trueIndices.mpr ⟨Chart.lt_length_of_mem_rows hrow hi, htrue⟩⟩
  fewest other hother := by
    -- the other set makes its own variables true, and costs as much as it has indices
    have hother' := hleast (indicator other) <| by
      rw [holds_formula_iff]
      intro row hrow
      obtain ⟨i, hi, hmem⟩ := hother.hits row hrow
      exact ⟨i, hi, decide_eq_true hmem⟩
    rw [cost_formula, cost_formula, trueIndices_indicator hother.lt_length] at hother'
    exact hother'

theorem exists_solved_eq_ok (h : solver.OptimalFor IsFormula)
    (hrows : ∀ row ∈ (Chart.coverage implicants minterms).rows, ¬ row.2.isEmpty = true) :
    ∃ chosen, solved solver implicants.length (Chart.coverage implicants minterms) = .ok chosen ∧
      SmallestCovering implicants minterms chosen := by
  unfold solved
  split
  · next hempty =>
    have hnothing := Chart.not_mem_sources_of_isEmpty hempty
    exact ⟨∅, rfl, (firstCovering_empty hnothing).isSmallest⟩
  · cases hsolver : solver (formula implicants.length (Chart.coverage implicants minterms)) with
    | none => exact absurd hsolver (solver_ne_none h hrows)
    | some model =>
        obtain ⟨value, hlists, hholds, hleast⟩ :=
          h.least _ (isFormula_coverage implicants minterms) _ hsolver
        refine ⟨_, rfl, ?_⟩
        rw [listed_eq_trueIndices hlists]
        exact smallestCovering_of_least hholds hleast

theorem bySolver_eq_error_iff (h : solver.OptimalFor IsFormula) (f : Fault) :
    bySolver solver implicants minterms = .error f ↔
      ∃ v, IsLeast {x | Uncovered implicants minterms x} v ∧ f = .uncovered v := by
  refine bind_ofTerms_eq_error_iff (fun hrows => ?_) f
  obtain ⟨chosen, hchosen, -⟩ := exists_solved_eq_ok h hrows
  exact ⟨chosen, hchosen⟩

theorem smallestCovering_of_bySolver (h : solver.OptimalFor IsFormula) {chosen : OrdSet ℕ}
    (hchosen : bySolver solver implicants minterms = .ok chosen) :
    SmallestCovering implicants minterms chosen := by
  obtain ⟨hrows, hsolved⟩ := bind_ofTerms_eq_ok hchosen
  obtain ⟨found, hfound, hsmallest⟩ := exists_solved_eq_ok h hrows
  rw [hfound] at hsolved
  obtain rfl := Except.ok.inj hsolved
  exact hsmallest

/-! ### The search as a solver -/

section search

variable {count : ℕ} {chart : Chart ℕ}

/-- The hard clauses of a chart as the search sees them. -/
def lists (chart : Chart ℕ) : List (List ℕ) := chart.rows.map fun row => row.2.toList.map (· + 1)

theorem map_toNat_hard (count : ℕ) (chart : Chart ℕ) :
    (formula count chart).hard.map (fun c => c.map Int.toNat) = lists chart := by
  unfold formula lists
  rw [List.map_map]
  refine List.map_congr_left fun row _ => ?_
  rw [Function.comp_apply, List.map_map]
  exact List.map_congr_left fun i _ => Int.toNat_natCast (i + 1)

/-- Choices that hit all rows are variables that make the hard clauses hold. -/
theorem hits_lists_iff (chart : Chart ℕ) (chosen : Finset ℕ) :
    HittingSet.Hits chosen ((lists chart).map fun cs => ⟨cs, 0⟩) ↔
      ∀ row ∈ chart.rows, ∃ i ∈ row.2, i + 1 ∈ chosen := by
  unfold HittingSet.Hits lists
  simp only [List.map_map, List.forall_mem_map, Function.comp_apply]
  refine forall₂_congr fun row _ => ?_
  constructor
  · rintro ⟨c, hc, hmem⟩
    obtain ⟨i, hi, rfl⟩ := List.mem_map.mp hc
    exact ⟨i, hi, hmem⟩
  · rintro ⟨i, hi, hmem⟩
    exact ⟨i + 1, List.mem_map_of_mem hi, hmem⟩

theorem size_trueIndices_le_length (count : ℕ) (found : List ℕ) :
    (trueIndices count (valuation found)).size ≤ found.length := by
  have hnodup : ((trueIndices count (valuation found)).toList.map (· + 1)).Nodup :=
    (OrdSet.nodup_toList _).map (add_left_injective 1)
  have hsub : (trueIndices count (valuation found)).toList.map (· + 1) ⊆ found := by
    intro x hx
    obtain ⟨i, hi, rfl⟩ := List.mem_map.mp hx
    exact of_decide_eq_true (mem_trueIndices.mp hi).2
  have hlength := (List.subperm_of_subset hnodup hsub).length_le
  rwa [List.length_map] at hlength

/-- **The search for hitting sets is optimal** for the formulas of charts. -/
theorem optimalFor_hittingSet : HittingSet.solve.OptimalFor IsFormula where
  least := by
    rintro _ ⟨count, chart, hlt, rfl⟩ model hmodel
    unfold HittingSet.solve at hmodel
    rw [map_toNat_hard] at hmodel
    obtain ⟨found, hfound, rfl⟩ := Option.map_eq_some_iff.mp hmodel
    have hsmallest := HittingSet.smallest_of_minimum? hfound
    refine ⟨valuation found, fun x _ _ => ?_, ?_, fun other hother => ?_⟩
    · simp [valuation]
    · rw [holds_formula_iff]
      intro row hrow
      obtain ⟨i, hi, hmem⟩ := (hits_lists_iff chart _).mp hsmallest.hits row hrow
      exact ⟨i, hi, decide_eq_true (List.mem_toFinset.mp hmem)⟩
    · rw [holds_formula_iff] at hother
      rw [cost_formula, cost_formula]
      refine (size_trueIndices_le_length count found).trans (hsmallest.fewest _ ?_)
      -- the true variables of the other values hit all rows
      refine ⟨((trueIndices count other).toList.map (· + 1)).toFinset, ?_, ?_⟩
      · rw [hits_lists_iff]
        intro row hrow
        obtain ⟨i, hi, htrue⟩ := hother row hrow
        refine ⟨i, hi, List.mem_toFinset.mpr (List.mem_map_of_mem ?_)⟩
        exact mem_trueIndices.mpr ⟨hlt row hrow i hi, htrue⟩
      · exact (List.toFinset_card_le _).trans (List.length_map _).le
  none := by
    rintro _ ⟨count, chart, -, rfl⟩ hnone value
    unfold HittingSet.solve at hnone
    rw [map_toNat_hard, Option.map_eq_none_iff] at hnone
    obtain ⟨row, hrow, hempty⟩ := List.mem_map.mp (HittingSet.exists_eq_nil_of_minimum? hnone)
    rw [Bool.eq_false_iff]
    intro hholds
    obtain ⟨i, hi, -⟩ := (holds_formula_iff count chart value).mp hholds row hrow
    have hnil := List.map_eq_nil_iff.mp hempty
    rw [OrdSet.mem_def, hnil] at hi
    exact List.not_mem_nil hi

end search

end Cover

/-! ### Both backends -/

namespace Method

variable {solver : Solver} (h : solver.OptimalFor Cover.IsFormula) (m : Method)
  {implicants minterms : List Term}
include h

theorem coverWith_eq_error_iff (f : Fault) :
    m.coverWith solver implicants minterms = .error f ↔
      ∃ v, IsLeast {x | Cover.Uncovered implicants minterms x} v ∧ f = .uncovered v := by
  cases m with
  | products => exact Cover.byProducts_eq_error_iff f
  | search => exact Cover.bySolver_eq_error_iff h f

theorem smallestCovering {chosen : OrdSet ℕ}
    (hchosen : m.coverWith solver implicants minterms = .ok chosen) :
    Cover.SmallestCovering implicants minterms chosen := by
  cases m with
  | products => exact ((Cover.byProducts_eq_ok_iff chosen).mp hchosen).2.isSmallest
  | search => exact Cover.smallestCovering_of_bySolver h hchosen

end Method

end TwoLevel
