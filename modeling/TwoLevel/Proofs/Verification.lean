import Mathlib.Algebra.Order.Ring.Int
import TwoLevel.TruthTable

/-! # Verification

The verifier and the truth table look at all inputs of a solution, and each of their answers says
what the solution does there: the verifier finds nothing exactly when the value is right at every
input that is not unconstrained (`mismatches_eq_nil_iff`), and the table agrees exactly when every
row does (`allAgree_iff`).  A solution that computes its function passes both.

In a solution put together by hand a required number need not be looked at by the verifier: it can
be unconstrained as well, or no input of the function.  So the verifier decides whether a solution
implements its lists up to these numbers (`verifier_decides`). -/

namespace TwoLevel.Solution

variable (s : Solution)

/-! ### Inputs -/

theorem inputs_of_nonneg (h : 0 ≤ s.width) :
    s.inputs = .ok ((List.range (2 ^ s.width.toNat)).map Int.ofNat) := by
  unfold inputs
  rw [if_neg (by omega), Nat.one_shiftLeft]

theorem inputs_of_neg (h : s.width < 0) : s.inputs = .error .negativeWidth := by
  unfold inputs
  rw [if_pos h]

theorem forall_mem_inputs_iff {P : ℤ → Prop} :
    (∀ v ∈ (List.range (2 ^ s.width.toNat)).map Int.ofNat, P v) ↔
      ∀ n : ℕ, n < 2 ^ s.width.toNat → P n := by
  simp only [List.mem_map, List.mem_range]
  constructor
  · intro h n hn
    exact h n ⟨n, hn, rfl⟩
  · rintro h _ ⟨n, hn, rfl⟩
    exact h n hn

/-! ### The verifier -/

theorem mismatch?_eq_none_iff (v : ℤ) :
    s.mismatch? (s.demand v) = none ↔ (v ∉ s.dontCares → s.value v = decide (v ∈ s.minterms)) := by
  unfold mismatch? demand
  by_cases hfree : v ∈ s.dontCares
  · simp [hfree]
  · by_cases hvalue : s.value v = decide (v ∈ s.minterms)
    · simp [hvalue]
    · simp [hfree, hvalue]

/-- The verifier finds nothing exactly when the value is right wherever it is constrained. -/
theorem mismatches_eq_nil_iff :
    s.mismatches = .ok [] ↔ 0 ≤ s.width ∧ ∀ n : ℕ, n < 2 ^ s.width.toNat →
      (n : ℤ) ∉ s.dontCares → s.value n = decide ((n : ℤ) ∈ s.minterms) := by
  unfold mismatches
  rw [demands_eq_map]
  rcases lt_or_ge s.width 0 with hneg | hpos
  · rw [inputs_of_neg s hneg]
    constructor
    · intro h
      exact nomatch h
    · rintro ⟨hpos, -⟩
      omega
  · rw [inputs_of_nonneg s hpos, ← forall_mem_inputs_iff s
      (P := fun v => v ∉ s.dontCares → s.value v = decide (v ∈ s.minterms))]
    simp [Except.map, hpos, List.filterMap_eq_nil_iff, mismatch?_eq_none_iff]

theorem verified_of_mismatches (h : s.mismatches = .ok []) : s.verified = .ok true := by
  unfold verified
  rw [h]
  rfl

theorem verified_iff_mismatches : s.verified = .ok true ↔ s.mismatches = .ok [] := by
  unfold verified
  cases s.mismatches with
  | error f => simp [Except.map]
  | ok ms => simp [Except.map]

theorem exists_verified (h : 0 ≤ s.width) : ∃ b, s.verified = .ok b := by
  unfold verified mismatches demands
  rw [inputs_of_nonneg s h]
  exact ⟨_, rfl⟩

/-! ### The table -/

/-- The row of the table at an input. -/
def row (v : ℤ) : TruthTable.Row := ⟨v, (s.demand v).entry, s.value v⟩

theorem rows_eq_map : s.rows = s.inputs.map fun inputs => inputs.map s.row := by
  unfold rows
  rw [demands_eq_map]
  cases s.inputs with
  | error f => rfl
  | ok inputs => exact congrArg Except.ok (List.map_map)

theorem agrees_row_iff (v : ℤ) :
    (s.row v).agrees = true ↔ (v ∈ s.minterms → s.value v = true) ∧
      (v ∉ s.minterms → v ∉ s.dontCares → s.value v = false) := by
  unfold TruthTable.Row.agrees row Demand.entry demand
  by_cases hone : v ∈ s.minterms
  · simp [hone]
  · by_cases hfree : v ∈ s.dontCares
    · simp [hone, hfree]
    · simp [hone, hfree]

/-- The table agrees exactly when the value is right at every required input and at every input
that is neither required nor unconstrained. -/
theorem allAgree_iff :
    s.allAgree = .ok true ↔ 0 ≤ s.width ∧ ∀ n : ℕ, n < 2 ^ s.width.toNat →
      ((n : ℤ) ∈ s.minterms → s.value n = true) ∧
        ((n : ℤ) ∉ s.minterms → (n : ℤ) ∉ s.dontCares → s.value n = false) := by
  unfold allAgree
  rw [rows_eq_map]
  rcases lt_or_ge s.width 0 with hneg | hpos
  · rw [inputs_of_neg s hneg]
    constructor
    · intro h
      exact nomatch h
    · rintro ⟨hpos, -⟩
      omega
  · have hrow : ∀ n : ℕ, (s.row n).agrees = true ↔ _ := fun n => s.agrees_row_iff n
    simp only [← hrow]
    rw [inputs_of_nonneg s hpos,
      ← forall_mem_inputs_iff s (P := fun v => (s.row v).agrees = true)]
    simp [Except.map, hpos]

/-! ### Computing the function -/

/-- The value is right at every required number and at every number that is not unconstrained. -/
structure Computes : Prop where
  one : ∀ v ∈ s.minterms, s.value v = true
  zero : ∀ v, v ∉ s.minterms → v ∉ s.dontCares → s.value v = false

variable {s}

theorem Computes.mismatches (h : s.Computes) (hw : 0 ≤ s.width) : s.mismatches = .ok [] := by
  rw [mismatches_eq_nil_iff]
  refine ⟨hw, fun n _ hfree => ?_⟩
  by_cases hone : (n : ℤ) ∈ s.minterms
  · rw [h.one n hone, decide_eq_true hone]
  · rw [h.zero n hone hfree, decide_eq_false hone]

theorem Computes.verified (h : s.Computes) (hw : 0 ≤ s.width) : s.verified = .ok true :=
  verified_of_mismatches s (h.mismatches hw)

theorem Computes.allAgree (h : s.Computes) (hw : 0 ≤ s.width) : s.allAgree = .ok true := by
  rw [allAgree_iff]
  exact ⟨hw, fun n _ => ⟨h.one n, h.zero n⟩⟩

theorem Computes.exists_table (h : s.Computes) (hw : 0 ≤ s.width) :
    ∃ front, s.table = .ok (front ++ "All correct: True\n") := by
  have hagree := h.allAgree hw
  unfold Solution.allAgree at hagree
  unfold Solution.table
  cases hrows : s.rows with
  | error f =>
      rw [hrows] at hagree
      exact nomatch hagree
  | ok rows =>
      rw [hrows] at hagree
      have hall : rows.all TruthTable.Row.agrees = true := Except.ok.inj hagree
      obtain ⟨lines, hlines⟩ : ∃ lines,
          tableLines s.width.toNat rows = lines ++ ["All correct: True"] := by
        unfold tableLines
        rw [if_pos hall]
        exact ⟨_, (List.append_assoc _ [Text.rule 40 '-'] _).symm⟩
      refine ⟨String.join (lines.map (· ++ "\n")), congrArg Except.ok ?_⟩
      apply String.toList_injective
      dsimp only
      rw [hlines, String.toList_append, String.toList_join, String.toList_join, List.map_append,
        List.flatMap_append]
      rfl

/-! ### What the verifier decides -/

variable (s)

/-- The value is right at every required number, and at every input that is in neither list. -/
structure Implements : Prop where
  one : ∀ v ∈ s.minterms, s.value v = true
  zero : ∀ n : ℕ, n < 2 ^ s.width.toNat → (n : ℤ) ∉ s.minterms → (n : ℤ) ∉ s.dontCares →
    s.value n = false

/-- A number that the verifier compares: an input that is not unconstrained. -/
def Inspected (v : ℤ) : Prop := (∃ n : ℕ, v = n ∧ n < 2 ^ s.width.toNat) ∧ v ∉ s.dontCares

variable {s}

theorem Implements.value_eq (h : s.Implements) {n : ℕ} (hn : n < 2 ^ s.width.toNat)
    (hfree : (n : ℤ) ∉ s.dontCares) : s.value n = decide ((n : ℤ) ∈ s.minterms) := by
  by_cases hone : (n : ℤ) ∈ s.minterms
  · rw [h.one n hone, decide_eq_true hone]
  · rw [h.zero n hn hone hfree, decide_eq_false hone]

/-- Right values wherever the verifier looks implement the lists, if they are right at the required
numbers that it does not look at. -/
theorem implements_of_value_eq
    (h : ∀ n : ℕ, n < 2 ^ s.width.toNat → (n : ℤ) ∉ s.dontCares →
      s.value n = decide ((n : ℤ) ∈ s.minterms))
    (hrest : ∀ v ∈ s.minterms, ¬ s.Inspected v → s.value v = true) : s.Implements where
  one v hv := by
    by_cases hlook : s.Inspected v
    · obtain ⟨⟨n, rfl, hn⟩, hfree⟩ := hlook
      rw [h n hn hfree, decide_eq_true hv]
    · exact hrest v hv hlook
  zero n hn hone hfree := by rw [h n hn hfree, decide_eq_false hone]

/-- **What the verifier decides.**  Over any number of inputs, and for any implicants and lists, the
verifier has an answer.  It accepts exactly when the value is right at every input that is not
unconstrained.  So a solution implements its lists exactly when it is accepted and is one at each
required number that the verifier passes over; where there is no such number, accepting is the same
as implementing. -/
theorem verifier_decides (hw : 0 ≤ s.width) :
    (∃ b, s.verified = .ok b) ∧
    (s.verified = .ok true ↔ ∀ n : ℕ, n < 2 ^ s.width.toNat → (n : ℤ) ∉ s.dontCares →
      s.value n = decide ((n : ℤ) ∈ s.minterms)) ∧
    (s.Implements ↔
      s.verified = .ok true ∧ ∀ v ∈ s.minterms, ¬ s.Inspected v → s.value v = true) ∧
    ((∀ v ∈ s.minterms, s.Inspected v) → (s.verified = .ok true ↔ s.Implements)) := by
  have haccept : s.verified = .ok true ↔ ∀ n : ℕ, n < 2 ^ s.width.toNat →
      (n : ℤ) ∉ s.dontCares → s.value n = decide ((n : ℤ) ∈ s.minterms) := by
    rw [verified_iff_mismatches, mismatches_eq_nil_iff]
    exact and_iff_right hw
  have hiff : s.Implements ↔
      s.verified = .ok true ∧ ∀ v ∈ s.minterms, ¬ s.Inspected v → s.value v = true := by
    rw [haccept]
    constructor
    · intro h
      exact ⟨fun n hn hfree => h.value_eq hn hfree, fun v hv _ => h.one v hv⟩
    · rintro ⟨hvalue, hrest⟩
      exact implements_of_value_eq hvalue hrest
  refine ⟨s.exists_verified hw, haccept, hiff, fun hall => ?_⟩
  rw [hiff]
  constructor
  · intro h
    exact ⟨h, fun v hv hlook => absurd (hall v hv) hlook⟩
  · intro h
    exact h.1

/-- The term `1*` implements the function that is one on 2 and 3 and unconstrained on 1. -/
theorem verifier_decides_upper_half :
    let s : Solution := ⟨[.ofPattern [.star, .one]], [], "petrick", 2, 1, [2, 3], [1]⟩
    0 ≤ s.width ∧ (∀ v ∈ s.minterms, s.Inspected v) ∧ s.verified = .ok true ∧ s.Implements := by
  intro s
  have hw : 0 ≤ s.width := by decide
  have hall : ∀ v ∈ s.minterms, s.Inspected v := by
    intro v hv
    have hpair : v = 2 ∨ v = 3 := by simpa [s] using hv
    rcases hpair with rfl | rfl
    · exact ⟨⟨2, rfl, by decide⟩, by decide⟩
    · exact ⟨⟨3, rfl, by decide⟩, by decide⟩
  have hverified : s.verified = .ok true := by decide
  obtain ⟨-, -, -, hiff⟩ := verifier_decides hw
  exact ⟨hw, hall, hverified, (hiff hall).mp hverified⟩

/-- The verifier accepts the empty sum for two functions of one input that it does not implement:
one that requires 0 and leaves it unconstrained as well, which the table does not pass, and one that
requires 2. -/
theorem verified_without_implementing :
    let overlapping : Solution := ⟨[], [], "petrick", 1, 0, [0], [0]⟩
    let beyond : Solution := ⟨[], [], "petrick", 1, 0, [2], []⟩
    (0 ≤ overlapping.width ∧ overlapping.verified = .ok true ∧ overlapping.allAgree = .ok false ∧
      ¬ overlapping.Implements) ∧
    0 ≤ beyond.width ∧ beyond.verified = .ok true ∧ ¬ beyond.Implements := by
  intro overlapping beyond
  have hoverlapping : ¬ overlapping.Implements := fun h =>
    absurd (h.one 0 (List.mem_singleton.mpr rfl)) (by decide)
  have hbeyond : ¬ beyond.Implements := fun h =>
    absurd (h.one 2 (List.mem_singleton.mpr rfl)) (by decide)
  exact ⟨⟨by decide, by decide, by decide, hoverlapping⟩, by decide, by decide, hbeyond⟩

end TwoLevel.Solution
