import Mathlib.Algebra.BigOperators.Group.Finset.Piecewise
import Mathlib.Algebra.Order.BigOperators.Group.Finset
import TwoLevel.HittingSet.Row

/-! # Lower bounds by weights

The weights of all rows together are at most the loads of the choices in a hitting set
(`Hits.weights_le`), as each row gives its weight to one of them.  A load is at most a unit and its
excess, so a hitting set is worth at most a unit for each of its choices, and what one of them
leaves of its unit is missing from that (`Hits.worth_add_room_le`).

Hence `bound` is a size that every hitting set has (`Hits.bound_le`), and a choice dropped by
`strip` is in no hitting set within the budget (`Hits.strip`).  Both hold for any weights, so that
nothing has to be known about `refine` but that it leaves the choices of the rows as they are
(`map_choices_refine`). -/

namespace TwoLevel.HittingSet

/-! ### Hitting sets -/

/-- Every row lists one of the choices. -/
def Hits (chosen : Finset ℕ) (rows : List Row) : Prop := ∀ r ∈ rows, ∃ c ∈ r.choices, c ∈ chosen

variable {chosen : Finset ℕ} {rows others : List Row}

theorem hits_cons_iff {r : Row} :
    Hits chosen (r :: rows) ↔ (∃ c ∈ r.choices, c ∈ chosen) ∧ Hits chosen rows :=
  List.forall_mem_cons

theorem Hits.mono (h : Hits chosen rows) (hsub : ∀ r ∈ others, r ∈ rows) : Hits chosen others :=
  fun r hr => h r (hsub r hr)

theorem hits_iff_map_choices :
    Hits chosen rows ↔ ∀ cs ∈ rows.map Row.choices, ∃ c ∈ cs, c ∈ chosen := by
  rw [List.forall_mem_map]
  rfl

/-- The weights of rows do not matter for what hits them. -/
theorem hits_congr (h : rows.map Row.choices = others.map Row.choices) :
    Hits chosen rows ↔ Hits chosen others := by
  rw [hits_iff_map_choices, h, ← hits_iff_map_choices]

theorem hits_of_restrict {keep : ℕ → Bool} (h : Hits chosen (restrict keep rows)) :
    Hits chosen rows := by
  intro r hr
  obtain ⟨c, hc, hmem⟩ := h _ (List.mem_map_of_mem hr)
  exact ⟨c, (List.mem_filter.mp hc).1, hmem⟩

/-! ### Loads -/

theorem size_load (weight : ℕ) (loads : Array ℕ) (r : Row) :
    (r.load weight loads).size = loads.size := by
  obtain ⟨cs, w⟩ := r
  unfold Row.load
  dsimp only
  induction cs generalizing loads with
  | nil => rfl
  | cons c cs ih => rw [List.foldl_cons, ih, Array.size_setIfInBounds]

theorem getD_load (weight : ℕ) {loads : Array ℕ} (r : Row) {c : ℕ} (hc : c < loads.size) :
    (r.load weight loads).getD c 0 = loads.getD c 0 + weight * r.choices.count c := by
  obtain ⟨cs, w⟩ := r
  unfold Row.load
  dsimp only
  induction cs generalizing loads with
  | nil => rfl
  | cons d cs ih =>
      rw [List.foldl_cons, ih (by rwa [Array.size_setIfInBounds]), List.count_cons,
        Array.getD_eq_getD_getElem?, Array.getElem?_setIfInBounds]
      by_cases hd : d = c
      · subst hd
        simp [hc, Nat.mul_add]
        omega
      · simp [hd, Array.getD_eq_getD_getElem?]

/-- What the rows that list a choice count together, as often as they list it. -/
def counted (count : Row → ℕ) (rows : List Row) (c : ℕ) : ℕ :=
  rows.foldr (fun r n => count r * r.choices.count c + n) 0

theorem counted_cons (count : Row → ℕ) (r : Row) (rows : List Row) (c : ℕ) :
    counted count (r :: rows) c = count r * r.choices.count c + counted count rows c := rfl

theorem getD_foldl_load (count : Row → ℕ) {loads : Array ℕ} {c : ℕ} (hc : c < loads.size) :
    (rows.foldl (fun a r => r.load (count r) a) loads).getD c 0 =
      loads.getD c 0 + counted count rows c := by
  induction rows generalizing loads with
  | nil => rfl
  | cons r rows ih =>
      rw [List.foldl_cons, ih (by rwa [size_load]), getD_load _ _ hc, counted_cons]
      omega

theorem size_tally (count : Row → ℕ) (rows : List Row) : (tally count rows).size = width rows := by
  have hfold : ∀ loads : Array ℕ,
      (rows.foldl (fun a r => r.load (count r) a) loads).size = loads.size := by
    intro loads
    induction rows generalizing loads with
    | nil => rfl
    | cons r rows ih => rw [List.foldl_cons, ih, size_load]
  unfold tally
  rw [hfold, Array.size_replicate]

theorem succ_le_foldl_max {cs : List ℕ} {c : ℕ} (hc : c ∈ cs) (n : ℕ) :
    c + 1 ≤ cs.foldl (fun n c => max n (c + 1)) n := by
  have hgrow : ∀ (ds : List ℕ) (n : ℕ), n ≤ ds.foldl (fun n c => max n (c + 1)) n := by
    intro ds
    induction ds with
    | nil => exact fun n => le_refl n
    | cons d ds ih => exact fun n => (le_max_left n (d + 1)).trans (ih _)
  induction cs generalizing n with
  | nil => exact absurd hc List.not_mem_nil
  | cons d cs ih =>
      rcases List.mem_cons.mp hc with rfl | hc
      · exact (le_max_right n (c + 1)).trans (hgrow cs _)
      · exact ih hc _

theorem lt_width {r : Row} (hr : r ∈ rows) {c : ℕ} (hc : c ∈ r.choices) : c < width rows := by
  have hwidth : width rows = (rows.flatMap Row.choices).foldl (fun n c => max n (c + 1)) 0 :=
    List.foldl_flatMap.symm
  rw [hwidth]
  exact succ_le_foldl_max (List.mem_flatMap.mpr ⟨r, hr, hc⟩) 0

theorem counted_eq_zero (count : Row → ℕ) {c : ℕ} (h : ∀ r ∈ rows, c ∉ r.choices) :
    counted count rows c = 0 := by
  induction rows with
  | nil => rfl
  | cons r rows ih =>
      obtain ⟨hr, hrows⟩ := List.forall_mem_cons.mp h
      rw [counted_cons, ih hrows, List.count_eq_zero_of_not_mem hr, Nat.mul_zero]

theorem getD_tally (count : Row → ℕ) (rows : List Row) (c : ℕ) :
    (tally count rows).getD c 0 = counted count rows c := by
  by_cases hc : c < width rows
  · unfold tally
    rw [getD_foldl_load count (by rwa [Array.size_replicate]), Array.getD_eq_getD_getElem?,
      Array.getElem?_replicate, if_pos hc]
    exact Nat.zero_add _
  · have hnone : ∀ r ∈ rows, c ∉ r.choices := fun r hr hmem => hc (lt_width hr hmem)
    rw [counted_eq_zero count hnone, Array.getD_eq_getD_getElem?,
      Array.getElem?_eq_none (by rw [size_tally]; omega)]
    rfl

/-! ### Worth -/

theorem Hits.weights_le (h : Hits chosen rows) :
    weights rows ≤ ∑ c ∈ chosen, (loads rows).getD c 0 := by
  unfold loads
  simp only [getD_tally]
  induction rows with
  | nil => exact Nat.zero_le _
  | cons r rows ih =>
      obtain ⟨⟨c, hc, hmem⟩, hrows⟩ := hits_cons_iff.mp h
      have hcount : 1 ≤ r.choices.count c := List.one_le_count_iff.mpr hc
      have hrow : r.weight ≤ ∑ d ∈ chosen, r.weight * r.choices.count d :=
        calc r.weight ≤ r.weight * r.choices.count c := Nat.le_mul_of_pos_right _ hcount
          _ ≤ _ := Finset.single_le_sum (f := fun d => r.weight * r.choices.count d)
            (fun _ _ => Nat.zero_le _) hmem
      simp only [counted_cons, Finset.sum_add_distrib]
      exact Nat.add_le_add hrow (ih hrows)

theorem excess_eq_sum (loads : Array ℕ) :
    excess loads = ∑ c ∈ Finset.range loads.size, (loads.getD c 0 - unit) := by
  have hfold : ∀ (ls : List ℕ) (n : ℕ), ls.foldl (fun n load => n + (load - unit)) n =
      n + ∑ c ∈ Finset.range ls.length, (ls.getD c 0 - unit) := by
    intro ls
    induction ls with
    | nil => exact fun n => rfl
    | cons load ls ih =>
        intro n
        rw [List.foldl_cons, ih, List.length_cons, Finset.sum_range_succ']
        simp only [List.getD_cons_zero, List.getD_cons_succ]
        omega
  unfold excess
  rw [← Array.foldl_toList, hfold, Nat.zero_add, Array.length_toList]
  simp only [Array.getD_eq_getD_getElem?, List.getD_eq_getElem?_getD, Array.getElem?_toList]

theorem sum_excess_le (loads : Array ℕ) (chosen : Finset ℕ) :
    ∑ c ∈ chosen, (loads.getD c 0 - unit) ≤ excess loads := by
  rw [excess_eq_sum]
  apply Finset.sum_le_sum_of_ne_zero
  intro c _ hne
  rw [Finset.mem_range]
  by_contra hc
  rw [Array.getD_eq_getD_getElem?, Array.getElem?_eq_none (by omega)] at hne
  exact hne (Nat.zero_sub unit)

/-- A hitting set is worth at most a unit for each choice, less what one of them leaves of its
unit. -/
theorem Hits.worth_add_room_le (h : Hits chosen rows) {d : ℕ} (hd : d ∈ chosen) :
    worth rows + (unit - (loads rows).getD d 0) ≤ chosen.card * unit := by
  -- a load with what is left of its unit is a unit with its excess
  have hload : ∀ c ∈ chosen, (loads rows).getD c 0 +
      (if c = d then unit - (loads rows).getD d 0 else 0) ≤
        unit + ((loads rows).getD c 0 - unit) := by
    intro c _
    split_ifs with hc
    · subst hc
      omega
    · omega
  have hsum := Finset.sum_le_sum hload
  rw [Finset.sum_add_distrib, Finset.sum_add_distrib, Finset.sum_const_nat fun _ _ => rfl,
    Finset.sum_ite_eq', if_pos hd] at hsum
  have hweights := h.weights_le
  have hexcess := sum_excess_le (loads rows) chosen
  have hunit : unit ≤ chosen.card * unit :=
    Nat.le_mul_of_pos_left unit (Finset.card_pos.mpr ⟨d, hd⟩)
  unfold worth
  omega

theorem Hits.worth_le (h : Hits chosen rows) : worth rows ≤ chosen.card * unit := by
  rcases chosen.eq_empty_or_nonempty with rfl | ⟨d, hd⟩
  · have hweights := h.weights_le
    rw [Finset.sum_empty] at hweights
    unfold worth
    omega
  · exact (Nat.le_add_right _ _).trans (h.worth_add_room_le hd)

/-- **The bound is a lower bound** for the size of every hitting set. -/
theorem Hits.bound_le (h : Hits chosen rows) : bound rows ≤ chosen.card := by
  have hworth := h.worth_le
  unfold bound
  rw [← Nat.lt_succ_iff, Nat.div_lt_iff_lt_mul (by decide), Nat.succ_mul]
  have hunit : 0 < unit := by decide
  omega

/-- No hitting set within the budget holds a choice that is dropped. -/
theorem Hits.strip {budget : ℕ} (h : Hits chosen rows) (hcard : chosen.card ≤ budget) :
    Hits chosen (strip budget rows) := by
  unfold HittingSet.strip restrict
  refine List.forall_mem_map.mpr fun r hr => ?_
  obtain ⟨c, hc, hmem⟩ := h r hr
  refine ⟨c, List.mem_filter.mpr ⟨hc, decide_eq_true ?_⟩, hmem⟩
  exact (h.worth_add_room_le hmem).trans (Nat.mul_le_mul_right unit hcard)

/-! ### Other weights -/

theorem map_choices_reweigh (rows : List Row) (ws : List ℕ) :
    (reweigh rows ws).map Row.choices = rows.map Row.choices := by
  induction rows generalizing ws with
  | nil => cases ws <;> rfl
  | cons r rows ih =>
      cases ws with
      | nil => rfl
      | cons w ws => rw [reweigh, List.map_cons, List.map_cons, ih]

theorem map_choices_fill (rows : List Row) :
    (fill rows).map Row.choices = rows.map Row.choices := map_choices_reweigh _ _

theorem map_choices_climb (budget target steps pace : ℕ) (rows : List Row) (top : ℕ)
    {best : List Row} (h : best.map Row.choices = rows.map Row.choices) :
    (climb budget target steps pace rows top best).map Row.choices = rows.map Row.choices := by
  induction steps generalizing pace rows top best with
  | zero => exact h
  | succ steps ih =>
      have hbest : ∀ worth : ℕ, (if top < worth then rows else best).map Row.choices =
          rows.map Row.choices := by
        intro worth
        split_ifs
        · rfl
        · exact h
      rw [climb]
      split
      · exact hbest _
      · rw [ih, map_choices_reweigh]
        exact (hbest _).trans (map_choices_reweigh _ _).symm

theorem map_choices_refine (steps budget target : ℕ) (rows : List Row) :
    (refine steps budget target rows).map Row.choices = rows.map Row.choices := by
  unfold HittingSet.refine
  rw [map_choices_fill, map_choices_climb _ _ _ _ _ _ rfl]

end TwoLevel.HittingSet
