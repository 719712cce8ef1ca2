import Mathlib.Data.List.MinMax
import Mathlib.Data.List.Sublists
import TwoLevel.MaxSat
import TwoLevel.OrdSet

/-! # Optimal solvers exist

Whether a formula holds and what it costs depends on the values of its own variables only
(`Formula.holds_congr`, `Formula.cost_congr`).  So the solver that tries out all sets of these
variables, and takes one of least cost among those under which the hard clauses hold, is optimal
(`exhaustive_optimal`). -/

namespace TwoLevel.MaxSat

/-! ### The variables of a formula -/

theorem Clause.holds_congr {v w : ℕ → Bool} {c : Clause}
    (h : ∀ l ∈ c, v (Int.natAbs l) = w (Int.natAbs l)) : Clause.holds v c = Clause.holds w c := by
  unfold Clause.holds
  induction c with
  | nil => rfl
  | cons l c ih =>
      have hl : Literal.holds v l = Literal.holds w l := by
        unfold Literal.holds
        rw [h l List.mem_cons_self]
      have hc := ih fun k hk => h k (List.mem_cons_of_mem l hk)
      rw [List.any_cons, List.any_cons, hl, hc]

namespace Formula

variable {f : Formula}

theorem natAbs_mem_vars_of_hard {c : Clause} (hc : c ∈ f.hard) {l : Literal} (hl : l ∈ c) :
    Int.natAbs l ∈ f.vars := by
  unfold vars
  exact List.mem_map_of_mem (List.mem_flatten.mpr ⟨c, List.mem_append_left _ hc, hl⟩)

theorem natAbs_mem_vars_of_soft {s : Clause × ℕ} (hs : s ∈ f.soft) {l : Literal}
    (hl : l ∈ s.1) : Int.natAbs l ∈ f.vars := by
  have hclause : s.1 ∈ f.soft.map Prod.fst := List.mem_map_of_mem hs
  unfold vars
  exact List.mem_map_of_mem (List.mem_flatten.mpr ⟨s.1, List.mem_append_right _ hclause, hl⟩)

variable {v w : ℕ → Bool} (h : ∀ x ∈ f.vars, v x = w x)
include h

theorem holds_congr : f.holds v = f.holds w := by
  unfold holds
  rw [Bool.eq_iff_iff, List.all_eq_true, List.all_eq_true]
  refine forall₂_congr fun c hc => ?_
  rw [Clause.holds_congr fun l hl => h _ (natAbs_mem_vars_of_hard hc hl)]

theorem cost_congr : f.cost v = f.cost w := by
  have hfilter : (f.soft.filter fun s => !Clause.holds v s.1) =
      f.soft.filter fun s => !Clause.holds w s.1 := by
    apply List.filter_congr
    intro s hs
    rw [Clause.holds_congr fun l hl => h _ (natAbs_mem_vars_of_soft hs hl)]
  unfold cost
  rw [hfilter]

end Formula

/-! ### Trying out all values -/

/-- The values under which the listed variables are true, and no others. -/
def valuation (trues : List ℕ) (x : ℕ) : Bool := decide (x ∈ trues)

/-- The literals of the variables of a formula that hold under these values, ascending. -/
def Formula.literals (f : Formula) (trues : List ℕ) : List Literal :=
  (OrdSet.ofList f.vars).toList.map fun x => if x ∈ trues then (x : ℤ) else -x

/-- The sets of variables of a formula under which its hard clauses hold. -/
def Formula.models (f : Formula) : List (List ℕ) :=
  f.vars.sublists.filter fun trues => f.holds (valuation trues)

/-- A set of true variables of least cost, by trying out all of them. -/
def exhaustive : Solver := fun f =>
  (f.models.argmin fun trues => f.cost (valuation trues)).map f.literals

theorem valuation_filter_eq {f : Formula} (value : ℕ → Bool) :
    ∀ x ∈ f.vars, valuation (f.vars.filter value) x = value x := by
  intro x hx
  unfold valuation
  rw [Bool.eq_iff_iff, decide_eq_true_iff, List.mem_filter]
  exact and_iff_right hx

theorem filter_mem_models {f : Formula} {value : ℕ → Bool} (h : f.holds value = true) :
    f.vars.filter value ∈ f.models := by
  unfold Formula.models
  rw [List.mem_filter, List.mem_sublists, Formula.holds_congr (valuation_filter_eq value)]
  exact ⟨List.filter_sublist, h⟩

theorem natCast_mem_literals_iff {f : Formula} {trues : List ℕ} {x : ℕ} (hx : x ∈ f.vars)
    (hne : x ≠ 0) : (x : ℤ) ∈ f.literals trues ↔ x ∈ trues := by
  unfold Formula.literals
  rw [List.mem_map]
  constructor
  · rintro ⟨y, -, hy⟩
    split_ifs at hy with hmem
    · rwa [Int.ofNat_inj.mp hy] at hmem
    · replace hy : -(y : ℤ) = x := hy
      omega
  · intro hmem
    exact ⟨x, OrdSet.mem_ofList.mpr hx, if_pos hmem⟩

/-- **Optimal solvers exist**: trying out all values is one. -/
theorem exhaustive_optimal : exhaustive.Optimal where
  least f _ model hmodel := by
    obtain ⟨trues, hargmin, rfl⟩ := Option.map_eq_some_iff.mp hmodel
    have hmem := List.mem_filter.mp (List.argmin_mem hargmin)
    refine ⟨valuation trues, fun x hx hne => ?_, hmem.2, fun other hother => ?_⟩
    · rw [natCast_mem_literals_iff hx hne]
      exact decide_eq_true_iff.symm
    · have hle := List.le_of_mem_argmin (filter_mem_models hother) hargmin
      rwa [Formula.cost_congr (valuation_filter_eq other)] at hle
  none f _ hnone value := by
    have hmodels : f.models = [] := List.argmin_eq_none.mp (Option.map_eq_none_iff.mp hnone)
    rw [Bool.eq_false_iff]
    intro hholds
    have hmem := filter_mem_models hholds
    rw [hmodels] at hmem
    exact List.not_mem_nil hmem

end TwoLevel.MaxSat
