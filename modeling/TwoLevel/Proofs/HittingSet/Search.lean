import TwoLevel.Proofs.HittingSet.Smaller

/-! # The search for a hitting set

A search within a budget finds choices that hit all rows, or nothing when there is no hitting set of
that size (`Answers`).  This is proved of each way in which a search goes on, for searches of
smaller rows that do so: to take a choice or refuse it (`answers_branch`), and to hit rows that have
no choice in common one after the other (`answers_join`).  A search that has fuel for all choices of
its rows has the answer by induction (`answers_search`).

Raising the budget from a lower bound on then finds a smallest hitting set (`smallest_of_minimum?`),
unless a row has no choices. -/

namespace TwoLevel.HittingSet

variable {rows others smaller : List Row} {budget : ℕ}

/-! ### Answers -/

/-- Choices that hit all rows within the budget, or nothing where no choices do. -/
def Answers (budget : ℕ) (rows : List Row) : Option (List ℕ) → Prop
  | some found => Hits found.toFinset rows ∧ found.length ≤ budget
  | none => ¬ HitWithin budget rows

theorem Answers.of_simpler (h : Simpler budget rows smaller) {answer : Option (List ℕ)}
    (ha : Answers budget smaller answer) : Answers budget rows answer := by
  cases answer with
  | none => exact fun hhit => ha (h.within hhit)
  | some found => exact ⟨h.hits _ ha.1, ha.2⟩

theorem HitWithin.bound_le (h : HitWithin budget rows) : bound rows ≤ budget := by
  obtain ⟨chosen, hhits, hcard⟩ := h
  exact hhits.bound_le.trans hcard

theorem not_hitWithin_zero (r : Row) (rows : List Row) : ¬ HitWithin 0 (r :: rows) := by
  rintro ⟨chosen, hhits, hcard⟩
  obtain ⟨c, -, hmem⟩ := hhits r List.mem_cons_self
  exact absurd (Finset.card_pos.mpr ⟨c, hmem⟩) (by omega)

/-! ### Taking and refusing -/

theorem foldl_mem {α : Type} {f : α → α → α} (hf : ∀ a b, f a b = a ∨ f a b = b) (as : List α)
    (a : α) : as.foldl f a ∈ a :: as := by
  induction as generalizing a with
  | nil => exact List.mem_singleton.mpr rfl
  | cons b as ih =>
      rw [List.foldl_cons]
      rcases hf a b with h | h
      · rw [h]
        exact List.mem_cons.mpr ((List.mem_cons.mp (ih a)).imp_right (List.mem_cons_of_mem b))
      · rw [h]
        exact List.mem_cons_of_mem a (ih b)

theorem shorter_eq (r s : Row) : shorter r s = r ∨ shorter r s = s := by
  unfold shorter
  split_ifs
  · exact .inr rfl
  · exact .inl rfl

theorem exists_of_branch?_eq_some {c : ℕ} (h : branch? rows = some c) :
    ∃ r ∈ rows, c ∈ r.choices := by
  unfold branch? at h
  split at h
  · exact absurd h (by simp)
  · next r rs =>
    split at h
    · exact absurd h (by simp)
    · next d ds hchoices =>
      refine ⟨_, foldl_mem shorter_eq rs r, ?_⟩
      rw [hchoices, ← Option.some.inj h]
      refine foldl_mem (fun a b => ?_) ds d
      split_ifs
      · exact .inr rfl
      · exact .inl rfl

theorem exists_of_branch?_eq_none {r : Row} (h : branch? (r :: rows) = none) :
    ∃ s ∈ r :: rows, s.choices = [] := by
  unfold branch? at h
  dsimp only at h
  split at h
  · next hchoices => exact ⟨_, foldl_mem shorter_eq rows r, hchoices⟩
  · exact absurd h (by simp)

theorem answers_branch {attempt : ℕ → List Row → Option (List ℕ)} (hbudget : 0 < budget)
    (hne : rows ≠ [])
    (hattempt : ∀ k smaller, size smaller < size rows → Answers k smaller (attempt k smaller)) :
    Answers budget rows (branch attempt budget rows) := by
  obtain ⟨r, rs, rfl⟩ := List.exists_cons_of_ne_nil hne
  unfold branch
  cases hc : branch? (r :: rs) with
  | none =>
      obtain ⟨s, hs, hchoices⟩ := exists_of_branch?_eq_none hc
      rintro ⟨chosen, hhits, -⟩
      obtain ⟨c, hmem, -⟩ := hhits s hs
      rw [hchoices] at hmem
      exact List.not_mem_nil hmem
  | some c =>
      have hlisted := exists_of_branch?_eq_some hc
      have htake := hattempt (budget - 1) (take c (r :: rs)) (size_take_lt hlisted)
      have hrefuse := hattempt budget (refuse c (r :: rs)) (size_refuse_lt hlisted)
      dsimp only
      cases htaken : attempt (budget - 1) (take c (r :: rs)) with
      | some found =>
          rw [htaken] at htake
          obtain ⟨hhits, hlength⟩ := htake
          refine ⟨?_, by rw [List.length_cons]; omega⟩
          rw [List.toFinset_cons]
          exact hhits.insert
      | none =>
          -- a hitting set that holds the choice would have been found
          rw [htaken] at htake
          refine Answers.of_simpler ⟨fun _ => hits_of_restrict, ?_, size_restrict_le _ _⟩ hrefuse
          rintro ⟨chosen, hhits, hcard⟩
          refine ⟨chosen, hits_refuse fun s hs => ?_, hcard⟩
          obtain ⟨d, hd, hmem⟩ := hhits s hs
          refine ⟨d, hd, hmem, fun hdc => htake ⟨chosen.erase c, hhits.erase, ?_⟩⟩
          rw [Finset.card_erase_of_mem (hdc ▸ hmem)]
          exact Nat.sub_le_sub_right hcard 1

/-! ### Raising the budget -/

/-- A hitting set that is not larger than any other. -/
structure Smallest (rows : List Row) (found : List ℕ) : Prop where
  hits : Hits found.toFinset rows
  fewest : ∀ n, HitWithin n rows → found.length ≤ n

section deepen

variable {low high : ℕ} {attempt : ℕ → Option (List ℕ)}

theorem deepen_eq_some {found : List ℕ} (h : deepen low high attempt = some found) :
    ∃ k, k ≤ high ∧ attempt k = some found ∧ ∀ n, low ≤ n → n < k → attempt n = none := by
  unfold deepen at h
  obtain ⟨front, i, back, hrange, hi, hfront⟩ := List.findSome?_eq_some_iff.mp h
  have hmem : i ∈ List.range (high + 1 - low) := by
    rw [hrange]
    exact List.mem_append_right _ List.mem_cons_self
  have hlt := List.mem_range.mp hmem
  refine ⟨low + i, by omega, hi, fun n hlow hn => ?_⟩
  -- the earlier budgets stand before this one
  have hbefore : n - low ∈ front ++ i :: back := by
    rw [← hrange, List.mem_range]
    omega
  have hsorted := List.pairwise_lt_range (n := high + 1 - low)
  rw [hrange, List.pairwise_append] at hsorted
  rcases List.mem_append.mp hbefore with hn' | hn'
  · have hnone := hfront _ hn'
    rwa [Nat.add_sub_cancel' hlow] at hnone
  · rcases List.mem_cons.mp hn' with hn' | hn'
    · omega
    · have := (List.pairwise_cons.mp hsorted.2.1).1 _ hn'
      omega

theorem deepen_eq_none (h : deepen low high attempt = none) {k : ℕ} (hlow : low ≤ k)
    (hhigh : k ≤ high) : attempt k = none := by
  unfold deepen at h
  have hmem : k - low ∈ List.range (high + 1 - low) := List.mem_range.mpr (by omega)
  have hnone := List.findSome?_eq_none_iff.mp h _ hmem
  rwa [Nat.add_sub_cancel' hlow] at hnone

variable (hlow : ∀ n, HitWithin n rows → low ≤ n) (hattempt : ∀ k, Answers k rows (attempt k))
include hlow hattempt

/-- The first answer from a lower bound on is a smallest hitting set. -/
theorem smallest_of_deepen {found : List ℕ} (h : deepen low high attempt = some found) :
    Smallest rows found ∧ found.length ≤ high := by
  obtain ⟨k, hk, hfound, hbefore⟩ := deepen_eq_some h
  have hanswer := hattempt k
  rw [hfound] at hanswer
  refine ⟨⟨hanswer.1, fun n hn => ?_⟩, hanswer.2.trans hk⟩
  by_contra hlt
  have hnone := hattempt n
  rw [hbefore n (hlow n hn) (by have := hanswer.2; omega)] at hnone
  exact hnone hn

theorem not_hitWithin_of_deepen (h : deepen low high attempt = none) : ¬ HitWithin high rows := by
  intro hhit
  have hnone := hattempt high
  rw [deepen_eq_none h (hlow high hhit) (le_refl _)] at hnone
  exact hnone hhit

end deepen

/-! ### Rows without a common choice -/

theorem bound_fill_le {n : ℕ} (h : HitWithin n rows) : bound (fill rows) ≤ n :=
  HitWithin.bound_le ((simpler_fill n rows).within h)

theorem answers_join {attempt : ℕ → List Row → Option (List ℕ)} {inside outside : List Row}
    (hinside : ∀ k, Answers k inside (attempt k inside))
    (houtside : ∀ k, Answers k outside (attempt k outside))
    (hdisjoint : ∀ r ∈ outside, ∀ c ∈ r.choices, ∀ s ∈ inside, c ∉ s.choices) :
    Answers budget (inside ++ outside) (join attempt budget inside outside) := by
  have hlow : ∀ n, HitWithin n inside → bound (fill inside) ≤ n := fun _ h => bound_fill_le h
  unfold join
  cases hdeepen : deepen (bound (fill inside)) (budget - bound (fill outside))
      fun k => attempt k inside with
  | none =>
      intro hhit
      obtain ⟨n, hn, hnear, hfar⟩ := hhit.split hdisjoint
      have hrest := bound_fill_le hfar
      exact not_hitWithin_of_deepen hlow hinside hdeepen (hnear.mono (by omega))
  | some found =>
      obtain ⟨hsmallest, hlength⟩ := smallest_of_deepen hlow hinside hdeepen
      have hanswer := houtside (budget - found.length)
      dsimp only [Option.bind_some]
      cases hrest : attempt (budget - found.length) outside with
      | none =>
          rw [hrest] at hanswer
          intro hhit
          obtain ⟨n, hn, hnear, hfar⟩ := hhit.split hdisjoint
          have hfewest := hsmallest.fewest n hnear
          exact hanswer (hfar.mono (by omega))
      | some more =>
          rw [hrest] at hanswer
          obtain ⟨hhits, hmore⟩ := hanswer
          refine ⟨fun r hr => ?_, by rw [List.length_append]; omega⟩
          rw [List.toFinset_append]
          rcases List.mem_append.mp hr with hr | hr
          · obtain ⟨c, hc, hmem⟩ := hsmallest.hits r hr
            exact ⟨c, hc, Finset.mem_union_left _ hmem⟩
          · obtain ⟨c, hc, hmem⟩ := hhits r hr
            exact ⟨c, hc, Finset.mem_union_right _ hmem⟩

/-! ### All searches -/

theorem answers_divide {attempt : ℕ → List Row → Option (List ℕ)} {first : Row}
    (hbudget : 0 < budget)
    (hattempt : ∀ k smaller, size smaller < size (first :: others) →
      Answers k smaller (attempt k smaller)) :
    Answers budget (first :: others) (divide attempt budget first others) := by
  obtain ⟨hperm, hdisjoint⟩ := (apart_linked others.length (degrees [first]) others).cons
  unfold divide
  generalize linked others.length (degrees [first]) others = parts at hperm hdisjoint ⊢
  obtain ⟨near, outside⟩ := parts
  dsimp only at hperm hdisjoint ⊢
  have hsize := size_perm hperm
  rw [size_append] at hsize
  refine Answers.of_simpler (simpler_of_perm hperm.symm) ?_
  split_ifs with hempty
  · obtain rfl : outside = [] := List.isEmpty_iff.mp hempty
    rw [List.append_nil]
    refine answers_branch hbudget (List.cons_ne_nil _ _) fun k smaller hlt => hattempt k smaller ?_
    exact hlt.trans_le (hsize ▸ Nat.le_add_right _ _)
  · obtain ⟨r, rs, rfl⟩ := List.exists_cons_of_ne_nil (mt List.isEmpty_iff.mpr hempty)
    rw [size_cons, size_cons] at hsize
    exact answers_join (fun k => hattempt k _ (by rw [size_cons]; omega))
      (fun k => hattempt k _ (by rw [size_cons]; omega)) hdisjoint

theorem answers_descend {attempt : ℕ → List Row → Option (List ℕ)}
    (hattempt : ∀ k smaller, size smaller < size rows → Answers k smaller (attempt k smaller)) :
    Answers budget rows (descend attempt budget rows) := by
  have hreduced := (simpler_strip budget rows).trans (simpler_reduce budget _)
  unfold descend
  split
  · next hbound => exact fun hhit => Nat.not_le.mpr hbound hhit.bound_le
  refine Answers.of_simpler hreduced ?_
  have hsize := hreduced.size_le
  cases hrows : reduce (strip budget rows) with
  | nil => exact ⟨fun r hr => absurd hr List.not_mem_nil, Nat.zero_le _⟩
  | cons first others =>
      dsimp only
      split
      · next hzero => exact hzero ▸ not_hitWithin_zero first others
      · next hne =>
        rw [hrows] at hsize
        exact answers_divide (Nat.pos_of_ne_zero hne) fun k smaller hlt =>
          hattempt k smaller (hlt.trans_le hsize)

/-- **A search has the answer** when its fuel exceeds the size of the rows. -/
theorem answers_search {fuel : ℕ} (h : size rows < fuel) :
    Answers budget rows (search fuel budget rows) := by
  induction fuel generalizing budget rows with
  | zero => exact absurd h (Nat.not_lt_zero _)
  | succ fuel ih =>
      have hrefined := simpler_refine budget 30 budget ((budget + 1) * unit) rows
      have hsize := hrefined.size_le
      rw [search]
      refine Answers.of_simpler hrefined (answers_descend fun k smaller hlt => ih ?_)
      omega

/-! ### Smallest hitting sets -/

theorem hitWithin_length (h : ∀ r ∈ rows, r.choices ≠ []) : HitWithin rows.length rows := by
  induction rows with
  | nil => exact ⟨∅, fun r hr => absurd hr List.not_mem_nil, le_refl 0⟩
  | cons r rows ih =>
      obtain ⟨hr, hrows⟩ := List.forall_mem_cons.mp h
      obtain ⟨c, hc⟩ := List.exists_mem_of_ne_nil _ hr
      obtain ⟨chosen, hhits, hcard⟩ := ih hrows
      refine ⟨insert c chosen, hits_cons_iff.mpr ⟨⟨c, hc, Finset.mem_insert_self c _⟩, ?_⟩, ?_⟩
      · intro s hs
        obtain ⟨d, hd, hmem⟩ := hhits s hs
        exact ⟨d, hd, Finset.mem_insert_of_mem hmem⟩
      · exact (Finset.card_insert_le c chosen).trans (Nat.succ_le_succ hcard)

theorem place_perm (r : Row) (rows : List Row) : (place r rows).Perm (r :: rows) := by
  induction rows with
  | nil => exact List.Perm.refl _
  | cons s rows ih =>
      rw [place]
      split_ifs
      · exact List.Perm.refl _
      · exact (ih.cons s).trans (List.Perm.swap r s rows)

theorem foldr_place_perm (rows : List Row) : (rows.foldr place []).Perm rows := by
  induction rows with
  | nil => exact List.Perm.refl _
  | cons r rows ih => exact (place_perm r _).trans (ih.cons r)

theorem simpler_prepared (budget : ℕ) (lists : List (List ℕ)) :
    Simpler budget (lists.map fun cs => ⟨cs, 0⟩) (prepared lists) :=
  (((simpler_of_perm (foldr_place_perm _).symm).trans (simpler_reduce budget _)).trans
    (simpler_fill budget _)).trans (simpler_refine budget _ _ _ _)

section minimum

variable {lists : List (List ℕ)}

theorem answers_prepared (lists : List (List ℕ)) (k : ℕ) : Answers k (prepared lists)
    (search (size (prepared lists) + 1) k (prepared lists)) :=
  answers_search (Nat.lt_succ_self _)

/-- **The search finds a smallest hitting set.** -/
theorem smallest_of_minimum? {found : List ℕ} (h : minimum? lists = some found) :
    Smallest (lists.map fun cs => ⟨cs, 0⟩) found := by
  have hanswers := answers_prepared lists
  obtain ⟨hsmallest, -⟩ := smallest_of_deepen (fun _ h => HitWithin.bound_le h) hanswers h
  exact ⟨(simpler_prepared 0 lists).hits _ hsmallest.hits,
    fun n hn => hsmallest.fewest n ((simpler_prepared n lists).within hn)⟩

/-- Only where a row has no choices, nothing is found. -/
theorem exists_eq_nil_of_minimum? (h : minimum? lists = none) : [] ∈ lists := by
  by_contra hne
  have hanswers := answers_prepared lists
  have hnone := not_hitWithin_of_deepen (fun _ h => HitWithin.bound_le h) hanswers h
  have hgiven : HitWithin lists.length (lists.map fun cs => ⟨cs, 0⟩) := by
    rw [← List.length_map (fun cs : List ℕ => (⟨cs, 0⟩ : Row))]
    refine hitWithin_length (List.forall_mem_map.mpr fun cs hcs => ?_)
    rintro rfl
    exact hne hcs
  -- every row that the search starts with is hit, and so it has a choice
  obtain ⟨chosen, hhits, -⟩ := (simpler_prepared _ lists).within hgiven
  refine hnone (hitWithin_length fun r hr hempty => ?_)
  obtain ⟨c, hc, -⟩ := hhits r hr
  rw [hempty] at hc
  exact List.not_mem_nil hc

end minimum

end TwoLevel.HittingSet
