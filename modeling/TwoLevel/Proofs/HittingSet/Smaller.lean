import Mathlib.Data.Finset.Card
import Mathlib.Data.List.Perm.Basic
import TwoLevel.HittingSet
import TwoLevel.Proofs.HittingSet.Bound

/-! # Smaller rows

Before it branches, a search puts simpler rows in the place of the given ones: what hits them hits
the given rows, they can be hit within the budget if these can, and they are no larger (`Simpler`).
Dropping rows around others is such a step (`simpler_minimal`), and so are dropping choices that
another one can stand for (`simpler_refuse`) or that are too expensive (`simpler_strip`).

Rows that are linked to a first one, and the other rows, have no choice in common
(`apart_linked`).  So the budget of a hitting set can be divided between them
(`HitWithin.split`). -/

namespace TwoLevel.HittingSet

variable {chosen : Finset ℕ} {rows others smaller : List Row} {budget : ℕ}

/-! ### Sizes -/

theorem size_cons (r : Row) (rows : List Row) :
    size (r :: rows) = r.choices.length + 1 + size rows := rfl

theorem size_congr (h : rows.map Row.choices = others.map Row.choices) :
    size rows = size others := by
  have hsize : ∀ rows : List Row,
      size rows = (rows.map Row.choices).foldr (fun cs n => cs.length + 1 + n) 0 := by
    intro rows
    rw [List.foldr_map]
    rfl
  rw [hsize, hsize, h]

theorem size_le_of_sublist (h : rows.Sublist others) : size rows ≤ size others := by
  induction h with
  | slnil => exact le_refl 0
  | cons r _ ih => exact ih.trans (Nat.le_add_left _ _)
  | cons_cons r _ ih => exact Nat.add_le_add_left ih _

theorem size_append (rows others : List Row) : size (rows ++ others) = size rows + size others := by
  induction rows with
  | nil => exact (Nat.zero_add _).symm
  | cons r rows ih =>
      rw [List.cons_append, size_cons, size_cons, ih]
      omega

theorem size_perm (h : rows.Perm others) : size rows = size others := by
  induction h with
  | nil => rfl
  | cons r _ ih => rw [size_cons, size_cons, ih]
  | swap r s rows =>
      simp only [size_cons]
      omega
  | trans _ _ ih ih' => exact ih.trans ih'

theorem size_restrict_le (keep : ℕ → Bool) (rows : List Row) :
    size (restrict keep rows) ≤ size rows := by
  induction rows with
  | nil => exact le_refl 0
  | cons r rows ih =>
      have hlength := List.length_filter_le keep r.choices
      change (r.choices.filter keep).length + 1 + size (restrict keep rows) ≤ _
      rw [size_cons]
      omega

theorem size_refuse_lt {c : ℕ} (h : ∃ r ∈ rows, c ∈ r.choices) :
    size (refuse c rows) < size rows := by
  obtain ⟨r, hr, hc⟩ := h
  have hdropped : (r.choices.filter (· ≠ c)).length < r.choices.length :=
    List.length_filter_lt_length_iff_exists.mpr ⟨c, hc, by simp⟩
  obtain ⟨front, back, rfl⟩ := List.append_of_mem hr
  have hfront := size_restrict_le (· ≠ c) front
  have hback := size_restrict_le (· ≠ c) back
  unfold refuse
  rw [restrict, List.map_append, List.map_cons, size_append, size_append, size_cons, size_cons]
  unfold restrict at hfront hback
  dsimp only
  omega

theorem size_take_lt {c : ℕ} (h : ∃ r ∈ rows, c ∈ r.choices) : size (take c rows) < size rows := by
  obtain ⟨r, hr, hc⟩ := h
  obtain ⟨front, back, rfl⟩ := List.append_of_mem hr
  have hfront := size_le_of_sublist (List.filter_sublist (l := front) (p := fun r => !r.offers c))
  have hback := size_le_of_sublist (List.filter_sublist (l := back) (p := fun r => !r.offers c))
  have hoffers : r.offers c = true := List.contains_iff_mem.mpr hc
  unfold take
  rw [List.filter_append, List.filter_cons_of_neg (by simp [hoffers]), size_append, size_append,
    size_cons]
  omega

/-! ### Simpler rows -/

/-- Some choices within the budget hit all rows. -/
def HitWithin (budget : ℕ) (rows : List Row) : Prop :=
  ∃ chosen : Finset ℕ, Hits chosen rows ∧ chosen.card ≤ budget

theorem HitWithin.mono {n : ℕ} (h : HitWithin n rows) (hle : n ≤ budget) :
    HitWithin budget rows := by
  obtain ⟨chosen, hhits, hcard⟩ := h
  exact ⟨chosen, hhits, hcard.trans hle⟩

/-- Rows that can be hit in the place of others, within a budget. -/
structure Simpler (budget : ℕ) (rows smaller : List Row) : Prop where
  hits : ∀ chosen, Hits chosen smaller → Hits chosen rows
  within : HitWithin budget rows → HitWithin budget smaller
  size_le : size smaller ≤ size rows

theorem Simpler.trans (h : Simpler budget rows others) (k : Simpler budget others smaller) :
    Simpler budget rows smaller :=
  ⟨fun chosen hchosen => h.hits chosen (k.hits chosen hchosen), k.within ∘ h.within,
    k.size_le.trans h.size_le⟩

theorem simpler_of_perm (h : rows.Perm others) : Simpler budget rows others :=
  ⟨fun _ hhits => hhits.mono fun _ hr => h.mem_iff.mp hr,
    fun ⟨chosen, hhits, hcard⟩ => ⟨chosen, hhits.mono fun _ hr => h.mem_iff.mpr hr, hcard⟩,
    (size_perm h).ge⟩

theorem simpler_of_map_choices (h : rows.map Row.choices = others.map Row.choices) :
    Simpler budget rows others :=
  ⟨fun _ => (hits_congr h).mpr,
    fun ⟨chosen, hhits, hcard⟩ => ⟨chosen, (hits_congr h).mp hhits, hcard⟩, (size_congr h).ge⟩

theorem simpler_fill (budget : ℕ) (rows : List Row) : Simpler budget rows (fill rows) :=
  simpler_of_map_choices (map_choices_fill rows).symm

theorem simpler_refine (budget steps limit target : ℕ) (rows : List Row) :
    Simpler budget rows (HittingSet.refine steps limit target rows) :=
  simpler_of_map_choices (map_choices_refine steps limit target rows).symm

theorem simpler_strip (budget : ℕ) (rows : List Row) : Simpler budget rows (strip budget rows) :=
  ⟨fun _ => hits_of_restrict, fun ⟨chosen, hhits, hcard⟩ => ⟨chosen, hhits.strip hcard, hcard⟩,
    size_restrict_le _ _⟩

/-! ### Rows around others -/

theorem Row.offers_iff (r : Row) (c : ℕ) : r.offers c = true ↔ c ∈ r.choices :=
  List.contains_iff_mem

theorem Row.within_iff (r s : Row) : r.within s = true ↔ ∀ c ∈ r.choices, c ∈ s.choices := by
  unfold within
  simp only [List.all_eq_true, offers_iff]

theorem minimal_sublist (rows : List Row) : (minimal rows).Sublist rows := by
  induction rows with
  | nil => exact List.Sublist.refl _
  | cons r rows ih =>
      rw [minimal]
      split_ifs
      · exact ih.cons r
      · exact (List.filter_sublist.trans ih).cons_cons r

theorem hits_of_minimal (h : Hits chosen (minimal rows)) : Hits chosen rows := by
  have haround : ∀ {r s : Row}, r.within s = true → (∃ c ∈ r.choices, c ∈ chosen) →
      ∃ c ∈ s.choices, c ∈ chosen := by
    rintro r s hrs ⟨c, hc, hmem⟩
    exact ⟨c, (r.within_iff s).mp hrs c hc, hmem⟩
  induction rows with
  | nil => exact h
  | cons r rows ih =>
      rw [minimal] at h
      split_ifs at h with hany
      · obtain ⟨s, hs, hsr⟩ := List.any_eq_true.mp hany
        exact hits_cons_iff.mpr ⟨haround hsr (h s hs), ih h⟩
      · obtain ⟨hr, hrest⟩ := hits_cons_iff.mp h
        refine hits_cons_iff.mpr ⟨hr, ih fun s hs => ?_⟩
        by_cases hrs : r.within s = true
        · exact haround hrs hr
        · exact hrest s (List.mem_filter.mpr ⟨hs, by simp [hrs]⟩)

theorem simpler_minimal (budget : ℕ) (rows : List Row) : Simpler budget rows (minimal rows) :=
  ⟨fun _ => hits_of_minimal,
    fun ⟨chosen, hhits, hcard⟩ =>
      ⟨chosen, hhits.mono fun _ hr => (minimal_sublist rows).subset hr, hcard⟩,
    size_le_of_sublist (minimal_sublist rows)⟩

/-! ### Choices that are taken -/

theorem Hits.insert {c : ℕ} (h : Hits chosen (take c rows)) : Hits (insert c chosen) rows := by
  intro r hr
  by_cases hoffers : r.offers c = true
  · exact ⟨c, (r.offers_iff c).mp hoffers, Finset.mem_insert_self c chosen⟩
  · obtain ⟨d, hd, hmem⟩ := h r (List.mem_filter.mpr ⟨hr, by simp [hoffers]⟩)
    exact ⟨d, hd, Finset.mem_insert_of_mem hmem⟩

theorem Hits.erase {c : ℕ} (h : Hits chosen rows) : Hits (chosen.erase c) (take c rows) := by
  intro r hr
  obtain ⟨hr, hoffers⟩ := List.mem_filter.mp hr
  obtain ⟨d, hd, hmem⟩ := h r hr
  refine ⟨d, hd, Finset.mem_erase.mpr ⟨?_, hmem⟩⟩
  rintro rfl
  rw [(r.offers_iff d).mpr hd] at hoffers
  exact absurd hoffers (by decide)

/-! ### Choices that another one can stand for -/

theorem exists_of_replaceable {c : ℕ} (h : replaceable rows c = true) :
    ∃ d, d ≠ c ∧ ∀ r ∈ rows, c ∈ r.choices → d ∈ r.choices := by
  unfold replaceable at h
  split at h
  · exact absurd h (by decide)
  · next r rs hrows =>
    obtain ⟨d, hd, hdc⟩ := List.any_eq_true.mp h
    rw [Bool.and_eq_true, decide_eq_true_iff, List.all_eq_true] at hdc
    refine ⟨d, hdc.1, fun s hs hcs => ?_⟩
    have hmem : s ∈ rows.filter (·.offers c) :=
      List.mem_filter.mpr ⟨hs, (s.offers_iff c).mpr hcs⟩
    rw [hrows] at hmem
    rcases List.mem_cons.mp hmem with rfl | hmem
    · exact hd
    · exact (s.offers_iff d).mp (hdc.2 s hmem)

theorem hits_refuse {c : ℕ} (h : ∀ r ∈ rows, ∃ d ∈ r.choices, d ∈ chosen ∧ d ≠ c) :
    Hits chosen (refuse c rows) := by
  unfold refuse restrict
  refine List.forall_mem_map.mpr fun r hr => ?_
  obtain ⟨d, hd, hmem, hne⟩ := h r hr
  exact ⟨d, List.mem_filter.mpr ⟨hd, decide_eq_true hne⟩, hmem⟩

/-- Where another choice is listed wherever a choice is, it takes its place in any hitting set. -/
theorem simpler_refuse (budget : ℕ) {c : ℕ} (h : replaceable rows c = true) :
    Simpler budget rows (refuse c rows) := by
  refine ⟨fun _ => hits_of_restrict, ?_, size_restrict_le _ _⟩
  rintro ⟨chosen, hhits, hcard⟩
  obtain ⟨d, hdc, hlisted⟩ := exists_of_replaceable h
  by_cases hc : c ∈ chosen
  · refine ⟨insert d (chosen.erase c), hits_refuse fun r hr => ?_, ?_⟩
    · obtain ⟨e, he, hmem⟩ := hhits r hr
      by_cases hec : e = c
      · subst hec
        exact ⟨d, hlisted r hr he, Finset.mem_insert_self _ _, hdc⟩
      · exact ⟨e, he, Finset.mem_insert_of_mem (Finset.mem_erase.mpr ⟨hec, hmem⟩), hec⟩
    · have hinsert := Finset.card_insert_le d (chosen.erase c)
      have herase := Finset.card_erase_add_one hc
      omega
  · refine ⟨chosen, hits_refuse fun r hr => ?_, hcard⟩
    obtain ⟨e, he, hmem⟩ := hhits r hr
    exact ⟨e, he, hmem, fun hec => hc (hec ▸ hmem)⟩

theorem simpler_reduce (budget : ℕ) (rows : List Row) : Simpler budget rows (reduce rows) := by
  have hfold : ∀ (cs : List ℕ) (smaller : List Row), Simpler budget rows smaller →
      Simpler budget rows
        (cs.foldl (fun rows c => if replaceable rows c then refuse c rows else rows) smaller) := by
    intro cs
    induction cs with
    | nil => exact fun _ h => h
    | cons c cs ih =>
        intro smaller h
        refine ih _ ?_
        dsimp only
        split_ifs with hc
        · exact h.trans (simpler_refuse budget hc)
        · exact h
  exact hfold _ _ (simpler_minimal budget rows)

/-! ### Linked rows -/

theorem getD_degrees_eq_zero_iff (rows : List Row) (c : ℕ) :
    (degrees rows).getD c 0 = 0 ↔ ∀ r ∈ rows, c ∉ r.choices := by
  unfold degrees
  rw [getD_tally]
  constructor
  · intro h
    induction rows with
    | nil => exact List.forall_mem_nil _
    | cons r rows ih =>
        rw [counted_cons, Nat.one_mul, Nat.add_eq_zero_iff] at h
        exact List.forall_mem_cons.mpr ⟨List.count_eq_zero.mp h.1, ih h.2⟩
  · exact counted_eq_zero _

/-- Rows in two parts: the rows of the second part list no reached choice, and none that a row of
the first part lists. -/
structure Apart (reached : Array ℕ) (rows inside outside : List Row) : Prop where
  perm : (inside ++ outside).Perm rows
  unreached : ∀ r ∈ outside, ∀ c ∈ r.choices, reached.getD c 0 = 0
  disjoint : ∀ r ∈ outside, ∀ c ∈ r.choices, ∀ s ∈ inside, c ∉ s.choices

theorem apart_linked (steps : ℕ) (reached : Array ℕ) (rows : List Row) :
    Apart reached rows (linked steps reached rows).1 (linked steps reached rows).2 := by
  induction steps generalizing reached rows with
  | zero => exact ⟨by rw [linked, List.append_nil], nofun, nofun⟩
  | succ steps ih =>
      rw [linked, List.partition_eq_filter_filter]
      set reaches : Row → Bool := fun r => r.choices.any fun c => reached.getD c 0 ≠ 0
      have hperm : (rows.filter reaches ++ rows.filter (not ∘ reaches)).Perm rows :=
        List.filter_append_perm reaches rows
      have hfar : ∀ r ∈ rows.filter (not ∘ reaches), ∀ c ∈ r.choices, reached.getD c 0 = 0 := by
        intro r hr
        simpa [reaches] using (List.mem_filter.mp hr).2
      dsimp only
      split_ifs with hnear
      · rw [List.isEmpty_iff.mp hnear] at hperm
        exact ⟨hperm, hfar, fun _ _ _ _ _ hs => absurd hs List.not_mem_nil⟩
      · have hrest := ih (degrees (rows.filter reaches)) (rows.filter (not ∘ reaches))
        have hout : ∀ r ∈ (linked steps (degrees (rows.filter reaches))
            (rows.filter (not ∘ reaches))).2, r ∈ rows.filter (not ∘ reaches) :=
          fun r hr => hrest.perm.mem_iff.mp (List.mem_append_right _ hr)
        refine ⟨?_, fun r hr => hfar r (hout r hr), fun r hr c hc s hs => ?_⟩
        · rw [List.append_assoc]
          exact (hrest.perm.append_left _).trans hperm
        · rcases List.mem_append.mp hs with hs | hs
          · exact (getD_degrees_eq_zero_iff _ c).mp (hrest.unreached r hr c hc) s hs
          · exact hrest.disjoint r hr c hc s hs

/-- The rows that are linked to a first one, with it, and the other ones have no choice in common.
-/
theorem Apart.cons {first : Row} {inside outside : List Row}
    (h : Apart (degrees [first]) rows inside outside) :
    (first :: inside ++ outside).Perm (first :: rows) ∧
      ∀ r ∈ outside, ∀ c ∈ r.choices, ∀ s ∈ first :: inside, c ∉ s.choices := by
  refine ⟨h.perm.cons first, fun r hr c hc => List.forall_mem_cons.mpr ⟨?_, h.disjoint r hr c hc⟩⟩
  have hfirst := (getD_degrees_eq_zero_iff [first] c).mp (h.unreached r hr c hc)
  exact hfirst first List.mem_cons_self

/-- The budget is divided between rows that have no choice in common. -/
theorem HitWithin.split {inside outside : List Row} (h : HitWithin budget (inside ++ outside))
    (hdisjoint : ∀ r ∈ outside, ∀ c ∈ r.choices, ∀ s ∈ inside, c ∉ s.choices) :
    ∃ n ≤ budget, HitWithin n inside ∧ HitWithin (budget - n) outside := by
  classical
  obtain ⟨chosen, hhits, hcard⟩ := h
  let near := chosen.filter fun c => ∃ r ∈ inside, c ∈ r.choices
  have hnear : near.card ≤ chosen.card := Finset.card_filter_le _ _
  refine ⟨near.card, hnear.trans hcard, ⟨near, fun r hr => ?_, le_refl _⟩,
    ⟨chosen \ near, fun r hr => ?_, ?_⟩⟩
  · obtain ⟨c, hc, hmem⟩ := hhits r (List.mem_append_left _ hr)
    exact ⟨c, hc, Finset.mem_filter.mpr ⟨hmem, r, hr, hc⟩⟩
  · obtain ⟨c, hc, hmem⟩ := hhits r (List.mem_append_right _ hr)
    refine ⟨c, hc, Finset.mem_sdiff.mpr ⟨hmem, fun hin => ?_⟩⟩
    obtain ⟨-, s, hs, hcs⟩ := Finset.mem_filter.mp hin
    exact hdisjoint r hr c hc s hs hcs
  · rw [Finset.card_sdiff_of_subset (Finset.filter_subset _ _)]
    exact Nat.sub_le_sub_right hcard near.card

end TwoLevel.HittingSet
