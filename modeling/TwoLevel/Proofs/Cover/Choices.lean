import Mathlib.Data.List.Perm.Basic
import TwoLevel.Proofs.Cover.Expansion

/-! # Choice functions

A function that picks a choice for each source takes one choice out of every row, and as no source
has two rows, every such choice comes from a function (`Chart.Choice.exists_function`).  So the
products of a chart are the images of the choice functions on its effective rows, those of the
sources behind the last one without a choice (`Chart.mem_effectiveRows_iff`).

When every row has a choice, only the rows matter and not the sources they belong to
(`Products.ofChart_congr`).  Otherwise they do: which rows count depends on their order. -/

namespace TwoLevel

open Std

variable {ι : Type} [Ord ι]

namespace Chart

/-! ### Effective rows -/

/-- A row counts when neither it nor a row of a later source is without a choice. -/
theorem mem_effectiveRows_iff {rows : List (ℤ × OrdSet ι)} (h : Ascending (rows.map Prod.fst))
    {row : ℤ × OrdSet ι} : row ∈ effectiveRows rows ↔
      row ∈ rows ∧ ∀ other ∈ rows, row.1 ≤ other.1 → ¬ other.2.isEmpty = true := by
  induction rows using List.reverseRecOn with
  | nil => simp [effectiveRows]
  | append_singleton rows last ih =>
      obtain ⟨hrows, -, hlast⟩ := List.pairwise_append.mp (List.map_append ▸ h)
      have hlt : ∀ other ∈ rows, other.1 < last.1 := fun other hother =>
        Std.compare_eq_lt.mp
          (hlast _ (List.mem_map_of_mem hother) _ (List.mem_singleton.mpr rfl))
      have hle : row ∈ rows ++ [last] → row.1 ≤ last.1 := by
        intro hrow
        rcases List.mem_append.mp hrow with hrow | hrow
        · exact (hlt row hrow).le
        · rw [List.mem_singleton.mp hrow]
      by_cases hempty : last.2.isEmpty = true
      · rw [effectiveRows_concat_of_isEmpty rows hempty]
        refine iff_of_false List.not_mem_nil fun ⟨hrow, hall⟩ => ?_
        exact hall last (by simp) (hle hrow) hempty
      · rw [effectiveRows_concat rows hempty, List.mem_append, ih hrows, List.mem_append,
          List.mem_singleton, List.forall_mem_append, List.forall_mem_singleton]
        constructor
        · rintro (⟨hrow, hall⟩ | rfl)
          · exact ⟨Or.inl hrow, hall, fun _ => hempty⟩
          · refine ⟨Or.inr rfl, fun other hother hle => ?_, fun _ => hempty⟩
            have := hlt other hother
            omega
        · rintro ⟨hrow | hrow, hall, -⟩
          · exact Or.inl ⟨hrow, hall⟩
          · exact Or.inr hrow

theorem nodup_effectiveRows (chart : Chart ι) :
    ((effectiveRows chart.rows).map Prod.fst).Nodup := by
  have hrows : (chart.rows.map Prod.fst).Nodup :=
    chart.ascending.imp fun h e => by simp [e] at h
  exact hrows.sublist ((List.rtakeWhile_suffix _ _).sublist.map _)

/-! ### Functions -/

section choice

variable {cs : List ι} {rows rows' : List (ℤ × OrdSet ι)}

theorem choice_map_iff (f : ℤ → ι) :
    Choice (rows.map fun row => f row.1) rows ↔ ∀ row ∈ rows, f row.1 ∈ row.2 := by
  unfold Choice
  rw [List.forall₂_map_left_iff, List.forall₂_same]

theorem Choice.exists_function (h : Choice cs rows) (hnodup : (rows.map Prod.fst).Nodup)
    (elsewhere : ℤ → ι) : ∃ f : ℤ → ι, cs = rows.map fun row => f row.1 := by
  induction h with
  | nil => exact ⟨elsewhere, rfl⟩
  | @cons c row cs rows _ _ ih =>
      rw [List.map_cons, List.nodup_cons] at hnodup
      obtain ⟨f, rfl⟩ := ih hnodup.2
      refine ⟨Function.update f row.1 c, ?_⟩
      rw [List.map_cons, Function.update_self, List.cons_inj_right]
      refine List.map_congr_left fun other hother => ?_
      rw [Function.update_of_ne]
      rintro e
      exact hnodup.1 (e ▸ List.mem_map_of_mem hother)

theorem Choice.exists_perm (h : Choice cs rows)
    (hperm : (rows'.map Prod.snd).Perm (rows.map Prod.snd)) :
    ∃ cs', Choice cs' rows' ∧ cs'.Perm cs := by
  have hsets : List.Forall₂ (fun (s : OrdSet ι) c => c ∈ s) (rows.map Prod.snd) cs :=
    List.forall₂_map_left_iff.mpr h.flip
  obtain ⟨cs', hcs', hperm'⟩ := List.perm_comp_forall₂ hperm hsets
  exact ⟨cs', (List.forall₂_map_left_iff.mp hcs').flip, hperm'⟩

end choice

variable [TransOrd ι] [LawfulEqOrd ι]

/-- What a function picks for the sources of some rows, taken together. -/
def image (f : ℤ → ι) (rows : List (ℤ × OrdSet ι)) : Product ι :=
  .ofList (rows.map fun row => f row.1)

/-- The choices out of some rows, taken together, are the images of the choice functions. -/
theorem exists_choice_iff {rows : List (ℤ × OrdSet ι)} (hne : rows ≠ [])
    (hnodup : (rows.map Prod.fst).Nodup) (p : Product ι) :
    (∃ cs, Choice cs rows ∧ p = .ofList cs) ↔
      ∃ f : ℤ → ι, (∀ row ∈ rows, f row.1 ∈ row.2) ∧ p = image f rows := by
  constructor
  · rintro ⟨cs, hcs, rfl⟩
    obtain ⟨row, hrow⟩ := List.exists_mem_of_ne_nil rows hne
    obtain ⟨c, -, -⟩ := hcs.exists_mem_of_mem_rows hrow
    obtain ⟨f, rfl⟩ := hcs.exists_function hnodup fun _ => c
    exact ⟨f, (choice_map_iff f).mp hcs, rfl⟩
  · rintro ⟨f, hf, rfl⟩
    exact ⟨_, (choice_map_iff f).mpr hf, rfl⟩

end Chart

namespace Products

variable [TransOrd ι] [LawfulEqOrd ι]

/-! ### Numbering -/

theorem exists_mem_ofChart_of_perm {chart other : Chart ι}
    (hrows : ∀ row ∈ chart.rows, ¬ row.2.isEmpty = true)
    (hothers : ∀ row ∈ other.rows, ¬ row.2.isEmpty = true)
    (hperm : (other.rows.map Prod.snd).Perm (chart.rows.map Prod.snd)) {p : Product ι}
    (hp : p ∈ ofChart chart) : p ∈ ofChart other := by
  have himages := images_foldl_multiply chart.rows p
  have hothers' := images_foldl_multiply other.rows p
  rw [Chart.effectiveRows_eq_self hrows] at himages
  rw [Chart.effectiveRows_eq_self hothers] at hothers'
  obtain ⟨hne, cs, hcs, rfl⟩ := himages.mp hp
  obtain ⟨cs', hcs', hcsperm⟩ := hcs.exists_perm hperm
  refine hothers'.mpr ⟨fun e => hne ?_, cs', hcs', OrdSet.ext fun c => ?_⟩
  · rw [e] at hperm
    exact List.map_eq_nil_iff.mp hperm.symm.eq_nil
  · rw [OrdSet.mem_ofList, OrdSet.mem_ofList, hcsperm.mem_iff]

/-- Charts with the same rows, each of them with a choice, have the same products, whichever sources
the rows belong to. -/
theorem ofChart_congr {chart other : Chart ι} (hrows : ∀ row ∈ chart.rows, ¬ row.2.isEmpty = true)
    (hperm : (other.rows.map Prod.snd).Perm (chart.rows.map Prod.snd)) :
    ofChart other = ofChart chart := by
  have hothers : ∀ row ∈ other.rows, ¬ row.2.isEmpty = true := by
    intro row hrow
    obtain ⟨row', hrow', e⟩ := List.mem_map.mp (hperm.mem_iff.mp (List.mem_map_of_mem hrow))
    rw [← e]
    exact hrows row' hrow'
  refine OrdSet.ext fun p => ⟨fun hp => ?_, fun hp => ?_⟩
  · exact exists_mem_ofChart_of_perm hothers hrows hperm.symm hp
  · exact exists_mem_ofChart_of_perm hrows hothers hperm hp

/-- **The products of any chart**, also with rows without a choice.  The effective rows are those of
the sources behind the last one whose row has no choice.  The products are the images of the
functions that pick a choice of every effective row; there is none when no row is effective.  When
every row has a choice, all rows are effective, and the products do not depend on the numbering: any
chart with the same rows for other sources, in whatever order this puts them, has the same products.
-/
theorem ofChart_images (chart : Chart ι) :
    (∀ row, row ∈ Chart.effectiveRows chart.rows ↔ row ∈ chart.rows ∧
      ∀ other ∈ chart.rows, row.1 ≤ other.1 → ¬ other.2.isEmpty = true) ∧
    (Chart.effectiveRows chart.rows ≠ [] → ∀ p, p ∈ ofChart chart ↔
      ∃ f : ℤ → ι, (∀ row ∈ Chart.effectiveRows chart.rows, f row.1 ∈ row.2) ∧
        p = Chart.image f (Chart.effectiveRows chart.rows)) ∧
    (Chart.effectiveRows chart.rows = [] → ofChart chart = ∅) ∧
    ((∀ row ∈ chart.rows, ¬ row.2.isEmpty = true) →
      Chart.effectiveRows chart.rows = chart.rows ∧
        ∀ other : Chart ι, (other.rows.map Prod.snd).Perm (chart.rows.map Prod.snd) →
          ofChart other = ofChart chart) := by
  have himages := images_foldl_multiply chart.rows
  refine ⟨fun row => Chart.mem_effectiveRows_iff chart.ascending, fun hne p => ?_, fun hnil => ?_,
    fun hrows => ⟨Chart.effectiveRows_eq_self hrows, fun other => ofChart_congr hrows⟩⟩
  · rw [← Chart.exists_choice_iff hne chart.nodup_effectiveRows]
    exact (himages p).trans (and_iff_right hne)
  · refine OrdSet.ext fun p => iff_of_false (fun hp => ?_) (OrdSet.not_mem_empty p)
    exact ((himages p).mp hp).1 hnil

/-- Behind the row without a choice only the rows of 5 and 7 count, where a function that picks 1
twice leaves the product of 1 alone; nothing is left where the last row has no choice.  The rows of
5 and 7 have the same products when they belong to 9 and −4. -/
theorem images_behind_gap :
    let gap : Chart ℕ :=
      .ofRows [(-1, .singleton 3), (2, ∅), (5, .ofList [0, 1]), (7, .ofList [1, 2])]
    let full : Chart ℕ := .ofRows [(5, .ofList [0, 1]), (7, .ofList [1, 2])]
    let renumbered : Chart ℕ := .ofRows [(9, .ofList [0, 1]), (-4, .ofList [1, 2])]
    Chart.effectiveRows gap.rows = full.rows ∧ .singleton 1 ∈ ofChart gap ∧
      ofChart (.ofRows [(5, .ofList [0, 1]), (7, (∅ : OrdSet ℕ))]) = ∅ ∧
      ofChart renumbered = ofChart full := by
  intro gap full renumbered
  have heffective : Chart.effectiveRows gap.rows = full.rows := by decide
  obtain ⟨-, hgap, -, -⟩ := ofChart_images gap
  obtain ⟨-, -, hnone, -⟩ :=
    ofChart_images (.ofRows [(5, .ofList [0, 1]), (7, (∅ : OrdSet ℕ))])
  obtain ⟨-, -, -, hfull⟩ := ofChart_images full
  refine ⟨heffective, ?_, hnone (by decide), (hfull (by decide)).2 renumbered (by decide)⟩
  exact (hgap (by decide) _).mpr ⟨fun _ => 1, by decide, by decide⟩

end Products

end TwoLevel
