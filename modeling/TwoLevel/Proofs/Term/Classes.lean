import Mathlib.Data.List.Perm.Basic
import TwoLevel.Proofs.Pattern.Cubes
import TwoLevel.Term

/-! # Lists of terms up to equivalence

`Term.firsts` represents every class of a list by its first member: nothing is added, no class is
lost, and no class is represented twice.  `Term.sort` only rearranges. -/

namespace TwoLevel.Term

theorem ones_congr {s t : Term} (h : s ≈ t) : s.ones = t.ones :=
  Pattern.count_congr (equiv_iff.mp h).2 (by decide)

/-! ### First members -/

theorem mem_of_mem_firsts {t : Term} {ts : List Term} (h : t ∈ firsts ts) : t ∈ ts := by
  induction ts with
  | nil => exact h
  | cons u ts ih =>
      rw [firsts, List.mem_cons, List.mem_filter] at h
      rcases h with rfl | h
      · exact List.mem_cons_self
      · exact List.mem_cons_of_mem _ (ih h.1)

theorem exists_mem_firsts {t : Term} {ts : List Term} (h : t ∈ ts) : ∃ u ∈ firsts ts, u ≈ t := by
  induction ts with
  | nil => exact absurd h List.not_mem_nil
  | cons v ts ih =>
      rw [firsts]
      by_cases hv : v ≈ t
      · exact ⟨v, List.mem_cons_self, hv⟩
      · rcases List.mem_cons.mp h with rfl | h
        · exact absurd (Setoid.refl t) hv
        · obtain ⟨u, hu, hut⟩ := ih h
          refine ⟨u, List.mem_cons_of_mem _ (List.mem_filter.mpr ⟨hu, ?_⟩), hut⟩
          rw [decide_eq_true_iff]
          exact fun hvu => hv (Setoid.trans hvu hut)

theorem pairwise_firsts (ts : List Term) : (firsts ts).Pairwise fun s t => ¬ s ≈ t := by
  induction ts with
  | nil => exact List.Pairwise.nil
  | cons t ts ih =>
      rw [firsts, List.pairwise_cons]
      refine ⟨fun u hu => ?_, ih.filter _⟩
      simpa using (List.mem_filter.mp hu).2

/-- The first members are those terms of a list that come before all others of their class. -/
theorem mem_firsts_iff (ts : List Term) (t : Term) :
    t ∈ firsts ts ↔ ts.find? (fun u => u ≈ t) = some t := by
  induction ts with
  | nil => simp [firsts]
  | cons v ts ih =>
      rw [firsts, List.mem_cons, List.mem_filter, decide_eq_true_iff, ih, List.find?_cons]
      by_cases hv : v ≈ t
      · simp [hv, eq_comm]
      · have hne : t ≠ v := fun h => hv (h ▸ Setoid.refl v)
        simp [hv, hne]

theorem firsts_concat (ts : List Term) (t : Term) :
    firsts (ts ++ [t]) = if ts.any fun u => u ≈ t then firsts ts else firsts ts ++ [t] := by
  induction ts with
  | nil => rfl
  | cons v ts ih =>
      rw [List.cons_append, firsts, ih, firsts, List.any_cons]
      by_cases hts : (ts.any fun u => u ≈ t) = true
      · rw [hts, Bool.or_true]
        rfl
      · rw [if_neg hts, List.filter_append, Bool.eq_false_iff.mpr hts, Bool.or_false]
        by_cases hv : v ≈ t <;> simp [hv]

theorem filter_equiv_eq_singleton {ts : List Term} (h : ts.Pairwise fun s t => ¬ s ≈ t) {t u : Term}
    (ht : t ∈ ts) (htu : t ≈ u) : ts.filter (fun s => s ≈ u) = [t] := by
  induction ts with
  | nil => exact absurd ht List.not_mem_nil
  | cons v ts ih =>
      obtain ⟨hv, hts⟩ := List.pairwise_cons.mp h
      rcases List.mem_cons.mp ht with rfl | ht
      · have hnone : ts.filter (fun s => s ≈ u) = [] := by
          rw [List.filter_eq_nil_iff]
          intro s hs
          rw [decide_eq_true_iff]
          exact fun hsu => hv s hs (Setoid.trans htu (Setoid.symm hsu))
        rw [List.filter_cons_of_pos (by simpa using htu), hnone]
      · have hvu : ¬ v ≈ u := fun hvu => hv t ht (Setoid.trans hvu (Setoid.symm htu))
        rw [List.filter_cons_of_neg (by simpa using hvu), ih hts ht]

theorem firsts_eq_nil_iff (ts : List Term) : firsts ts = [] ↔ ts = [] := by
  cases ts <;> simp [firsts]

/-! ### Sorting -/

theorem place_perm (t : Term) (ts : List Term) : (place t ts).Perm (t :: ts) := by
  induction ts with
  | nil => exact List.Perm.refl _
  | cons u us ih =>
      rw [place]
      split
      · exact (ih.cons u).trans (List.Perm.swap t u us)
      · exact List.Perm.refl _

theorem sort_perm (ts : List Term) : (sort ts).Perm ts := by
  induction ts with
  | nil => exact List.Perm.refl _
  | cons t ts ih => exact (place_perm t (sort ts)).trans (ih.cons t)

theorem mem_sort {t : Term} {ts : List Term} : t ∈ sort ts ↔ t ∈ ts := (sort_perm ts).mem_iff

end TwoLevel.Term
