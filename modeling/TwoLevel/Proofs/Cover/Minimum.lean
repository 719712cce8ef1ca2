import TwoLevel.Proofs.Cover.Coverage

/-! # Minimum covers

A covering set exists unless some required source lies in no implicant, and then the search by
products gives the first one in the order of sets: of fewest indices, and of these the
lexicographically smallest (`byProducts_eq_ok_iff`).  Otherwise it fails with the least such source
(`byProducts_eq_error_iff`).

That failure is one of the chart, so that any way to choose from a chart without an empty row has
it (`bind_ofTerms_eq_error_iff`), and a smallest covering set is no larger than any list of items
that reaches the required sources, each item inside one implicant
(`SmallestCovering.size_le_length`). -/

namespace TwoLevel.Cover

/-! ### Smallest covering sets -/

/-- A covering set of fewest indices. -/
structure SmallestCovering (implicants minterms : List Term) (chosen : OrdSet ℕ) : Prop where
  covering : Covering implicants minterms chosen
  fewest : ∀ other, Covering implicants minterms other → chosen.size ≤ other.size

variable {implicants minterms : List Term}

theorem SmallestCovering.size_eq {s t : OrdSet ℕ} (hs : SmallestCovering implicants minterms s)
    (ht : SmallestCovering implicants minterms t) : s.size = t.size :=
  le_antisymm (hs.fewest t ht.covering) (ht.fewest s hs.covering)

theorem covering_empty (h : ∀ m ∈ minterms, ∀ v, v ∉ m.sources) :
    Covering implicants minterms ∅ where
  lt_length i hi := absurd hi (OrdSet.not_mem_empty i)
  covers m hm v hv := absurd hv (h m hm v)

/-- An index for each item that reaches anything: items inside implicants one by one are together
inside no more implicants. -/
theorem exists_indices {β : Type} {items : List β} (reach : β → ℤ → Prop)
    (h : ∀ b ∈ items,
      (∃ t ∈ implicants, ∀ v, reach b v → v ∈ t.sources) ∨ ∀ v, ¬ reach b v) :
    ∃ is : List ℕ, is.length ≤ items.length ∧ (∀ i ∈ is, i < implicants.length) ∧
      ∀ b ∈ items, ∀ v, reach b v → ∃ i ∈ is, ∃ t, implicants[i]? = some t ∧ v ∈ t.sources := by
  induction items with
  | nil =>
      exact ⟨[], le_refl 0, fun i hi => absurd hi List.not_mem_nil,
        fun b hb => absurd hb List.not_mem_nil⟩
  | cons b items ih =>
      rw [List.forall_mem_cons] at h
      obtain ⟨is, hlen, hlt, his⟩ := ih h.2
      rcases h.1 with ⟨t, ht, htv⟩ | hnone
      · obtain ⟨i, hi, hit⟩ := List.mem_iff_getElem.mp ht
        have hget : implicants[i]? = some t := by rw [List.getElem?_eq_getElem hi, hit]
        refine ⟨i :: is, Nat.succ_le_succ hlen, List.forall_mem_cons.mpr ⟨hi, hlt⟩, ?_⟩
        rw [List.forall_mem_cons]
        constructor
        · intro v hv
          exact ⟨i, List.mem_cons_self, t, hget, htv v hv⟩
        · intro c hc v hv
          obtain ⟨j, hj, hjt⟩ := his c hc v hv
          exact ⟨j, List.mem_cons_of_mem _ hj, hjt⟩
      · refine ⟨is, Nat.le_succ_of_le hlen, hlt, ?_⟩
        rw [List.forall_mem_cons]
        exact ⟨fun v hv => absurd hv (hnone v), his⟩

/-- Items that reach all required sources, each of them inside one implicant or none at all, are no
fewer than the indices of a smallest covering set. -/
theorem SmallestCovering.size_le_length {β : Type} {chosen : OrdSet ℕ}
    (h : SmallestCovering implicants minterms chosen) {items : List β} (reach : β → ℤ → Prop)
    (hitems : ∀ b ∈ items,
      (∃ t ∈ implicants, ∀ v, reach b v → v ∈ t.sources) ∨ ∀ v, ¬ reach b v)
    (hreach : ∀ m ∈ minterms, ∀ v ∈ m.sources, ∃ b ∈ items, reach b v) :
    chosen.size ≤ items.length := by
  obtain ⟨is, hlen, hlt, his⟩ := exists_indices reach hitems
  have hcovering : Covering implicants minterms (.ofList is) := by
    refine ⟨fun i hi => hlt i (OrdSet.mem_ofList.mp hi), fun m hm v hv => ?_⟩
    obtain ⟨b, hb, hbv⟩ := hreach m hm v hv
    obtain ⟨i, hi, hit⟩ := his b hb v hbv
    exact ⟨i, OrdSet.mem_ofList.mpr hi, hit⟩
  calc chosen.size ≤ (OrdSet.ofList is).size := h.fewest _ hcovering
    _ ≤ is.length := OrdSet.size_ofList_le is
    _ ≤ items.length := hlen

/-- Terms of a list that together stand for every required source, as few as possible. -/
structure MinimumCover (implicants minterms cover : List Term) : Prop where
  sublist : cover.Sublist implicants
  covers : ∀ m ∈ minterms, ∀ v ∈ m.sources, ∃ t ∈ cover, v ∈ t.sources
  fewest : ∀ others : List Term, (∀ t ∈ others, t ∈ implicants) →
    (∀ m ∈ minterms, ∀ v ∈ m.sources, ∃ t ∈ others, v ∈ t.sources) →
    cover.length ≤ others.length

theorem MinimumCover.length_eq {cover others : List Term}
    (hcover : MinimumCover implicants minterms cover)
    (hothers : MinimumCover implicants minterms others) : cover.length = others.length :=
  le_antisymm (hcover.fewest others (fun _ ht => hothers.sublist.subset ht) hothers.covers)
    (hothers.fewest cover (fun _ ht => hcover.sublist.subset ht) hcover.covers)

theorem SmallestCovering.minimumCover {chosen : OrdSet ℕ}
    (h : SmallestCovering implicants minterms chosen) :
    MinimumCover implicants minterms (pick chosen implicants) where
  sublist := pick_sublist chosen implicants
  covers m hm v hv := by
    obtain ⟨i, hi, t, ht, hvt⟩ := h.covering.covers m hm v hv
    exact ⟨t, mem_pick.mpr ⟨i, hi, ht⟩, hvt⟩
  fewest others hothers hcovers := by
    rw [length_pick h.covering.lt_length]
    refine h.size_le_length (fun t v => v ∈ t.sources) (fun t ht => Or.inl ?_) hcovers
    exact ⟨t, hothers t ht, fun v hv => hv⟩

/-! ### The first covering set -/

/-- The first of all covering sets: of fewest indices, then lexicographically smallest. -/
structure FirstCovering (implicants minterms : List Term) (chosen : OrdSet ℕ) : Prop where
  covering : Covering implicants minterms chosen
  fewest : ∀ other, Covering implicants minterms other → chosen.size ≤ other.size
  smallest : ∀ other, Covering implicants minterms other → other.size = chosen.size →
    other = chosen ∨ List.Lex (· < ·) chosen.toList other.toList

theorem FirstCovering.isSmallest {chosen : OrdSet ℕ}
    (h : FirstCovering implicants minterms chosen) : SmallestCovering implicants minterms chosen :=
  ⟨h.covering, h.fewest⟩

theorem firstCovering_empty (h : ∀ m ∈ minterms, ∀ v, v ∉ m.sources) :
    FirstCovering implicants minterms ∅ := by
  have hsize : (∅ : OrdSet ℕ).size = 0 := rfl
  refine ⟨covering_empty h, fun other _ => by omega, fun other _ hother => Or.inl ?_⟩
  refine (OrdSet.eq_of_subset_of_size_le (fun i hi => ?_) (by omega)).symm
  exact absurd hi (OrdSet.not_mem_empty i)

theorem FirstCovering.unique {s t : OrdSet ℕ} (hs : FirstCovering implicants minterms s)
    (ht : FirstCovering implicants minterms t) : s = t := by
  have hsize : s.size = t.size := hs.isSmallest.size_eq ht.isSmallest
  rcases hs.smallest t ht.covering hsize.symm with h | hst
  · exact h.symm
  rcases ht.smallest s hs.covering hsize with h | hts
  · exact h
  rw [← OrdSet.compare_list_eq_lt_iff] at hst hts
  exact absurd hst (Std.OrientedCmp.not_lt_of_lt hts)

theorem FirstCovering.eq_empty {chosen : OrdSet ℕ}
    (h : FirstCovering implicants minterms chosen) (hempty : ∀ m ∈ minterms, ∀ v, v ∉ m.sources) :
    chosen = ∅ := h.unique (firstCovering_empty hempty)

/-! ### Charts -/

theorem ofTerms_of_some {v : ℤ} (h : (Chart.coverage implicants minterms).uncovered? = some v) :
    Chart.ofTerms implicants minterms = .error (.uncovered v) := by
  simp only [Chart.ofTerms, h]

theorem ofTerms_of_none (h : (Chart.coverage implicants minterms).uncovered? = none) :
    Chart.ofTerms implicants minterms = .ok (Chart.coverage implicants minterms) := by
  simp only [Chart.ofTerms, h]

theorem ofTerms_eq_error_iff (f : Fault) :
    Chart.ofTerms implicants minterms = .error f ↔
      ∃ v, IsLeast {x | Uncovered implicants minterms x} v ∧ f = .uncovered v := by
  simp only [uncovered_iff, ← Chart.uncovered?_coverage_eq_some_iff]
  cases h : (Chart.coverage implicants minterms).uncovered? with
  | none =>
      rw [ofTerms_of_none h]
      simp
  | some v =>
      rw [ofTerms_of_some h]
      simp [eq_comm]

theorem ofTerms_eq_ok {chart : Chart ℕ} (h : Chart.ofTerms implicants minterms = .ok chart) :
    chart = Chart.coverage implicants minterms ∧ ∀ row ∈ chart.rows, ¬ row.2.isEmpty = true := by
  cases hu : (Chart.coverage implicants minterms).uncovered? with
  | some v =>
      rw [ofTerms_of_some hu] at h
      exact nomatch h
  | none =>
      rw [ofTerms_of_none hu] at h
      obtain rfl := Except.ok.inj h
      refine ⟨rfl, fun row hrow => ?_⟩
      unfold Chart.uncovered? at hu
      rw [Option.map_eq_none_iff, List.find?_eq_none] at hu
      exact hu row hrow

/-- A choice that succeeds on charts without an empty row fails as the chart does: exactly for an
uncovered source, the least of which is reported. -/
theorem bind_ofTerms_eq_error_iff {choose : Chart ℕ → Except Fault (OrdSet ℕ)}
    (hchoose : (∀ row ∈ (Chart.coverage implicants minterms).rows, ¬ row.2.isEmpty = true) →
      ∃ chosen, choose (Chart.coverage implicants minterms) = .ok chosen) (f : Fault) :
    (Chart.ofTerms implicants minterms).bind choose = .error f ↔
      ∃ v, IsLeast {x | Uncovered implicants minterms x} v ∧ f = .uncovered v := by
  rw [← ofTerms_eq_error_iff]
  cases h : Chart.ofTerms implicants minterms with
  | error g => simp [Except.bind]
  | ok chart =>
      obtain ⟨rfl, hrows⟩ := ofTerms_eq_ok h
      obtain ⟨chosen, hchosen⟩ := hchoose hrows
      simp [Except.bind, hchosen]

theorem bind_ofTerms_eq_ok {choose : Chart ℕ → Except Fault (OrdSet ℕ)} {chosen : OrdSet ℕ}
    (h : (Chart.ofTerms implicants minterms).bind choose = .ok chosen) :
    (∀ row ∈ (Chart.coverage implicants minterms).rows, ¬ row.2.isEmpty = true) ∧
      choose (Chart.coverage implicants minterms) = .ok chosen := by
  cases hchart : Chart.ofTerms implicants minterms with
  | error g =>
      rw [hchart] at h
      exact nomatch h
  | ok chart =>
      obtain ⟨rfl, hrows⟩ := ofTerms_eq_ok hchart
      rw [hchart] at h
      exact ⟨hrows, h⟩

theorem exists_isLeast_uncovered {v : ℤ} (h : Uncovered implicants minterms v) :
    ∃ u, IsLeast {x | Uncovered implicants minterms x} u := by
  simp only [uncovered_iff, ← Chart.uncovered?_coverage_eq_some_iff] at h ⊢
  rw [← Option.isSome_iff_exists]
  unfold Chart.uncovered?
  rw [Option.isSome_map, List.find?_isSome]
  refine ⟨(v, Chart.indicesOf v implicants), Chart.mem_rows_coverage.mpr ⟨h.1, rfl⟩, ?_⟩
  rw [OrdSet.isEmpty_iff]
  intro i hi
  obtain ⟨t, ht, hv⟩ := Chart.mem_indicesOf.mp hi
  exact h.2 t (List.mem_of_getElem? ht) hv

/-! ### The search by products -/

theorem firstCovering_of_ofChart {chosen : OrdSet ℕ}
    (hrows : ∀ row ∈ (Chart.coverage implicants minterms).rows, ¬ row.2.isEmpty = true)
    (h : ofChart (Chart.coverage implicants minterms) = .ok chosen) :
    FirstCovering implicants minterms chosen := by
  unfold ofChart at h
  split at h
  · next hempty =>
    obtain rfl := Except.ok.inj h
    exact firstCovering_empty (Chart.not_mem_sources_of_isEmpty hempty)
  · next hne =>
    obtain ⟨hmem, hfirst⟩ := Products.minimum_spec hrows hne h
    have hlt : ∀ i ∈ chosen, i < implicants.length := by
      intro i hi
      obtain ⟨row, hrow, hirow⟩ := Products.exists_row_of_mem_ofChart hrows hne hmem i hi
      exact Chart.lt_length_of_mem_rows hrow hirow
    refine ⟨covering_of_hits hlt (Products.hits_of_mem_ofChart hrows hne hmem),
      fun other hother => ?_, fun other hother hsize => ?_⟩
    · rcases hfirst other hother.hits with rfl | hlt
      · exact le_refl _
      · rw [OrdSet.compare_eq_lt_iff] at hlt
        omega
    · rcases hfirst other hother.hits with rfl | hlt
      · exact Or.inl rfl
      · rw [OrdSet.compare_eq_lt_iff] at hlt
        exact Or.inr (hlt.resolve_left (by omega)).2

theorem exists_ofChart_eq_ok
    (hrows : ∀ row ∈ (Chart.coverage implicants minterms).rows, ¬ row.2.isEmpty = true) :
    ∃ chosen, ofChart (Chart.coverage implicants minterms) = .ok chosen := by
  unfold ofChart
  split
  · exact ⟨_, rfl⟩
  · next hne => exact Products.exists_minimum hrows hne

theorem byProducts_eq_error_iff (f : Fault) :
    byProducts implicants minterms = .error f ↔
      ∃ v, IsLeast {x | Uncovered implicants minterms x} v ∧ f = .uncovered v :=
  bind_ofTerms_eq_error_iff exists_ofChart_eq_ok f

theorem exists_byProducts_eq_ok (h : ¬ ∃ v, Uncovered implicants minterms v) :
    ∃ chosen, byProducts implicants minterms = .ok chosen := by
  cases hsearch : byProducts implicants minterms with
  | error f =>
      obtain ⟨v, hv, -⟩ := (byProducts_eq_error_iff f).mp hsearch
      exact absurd ⟨v, hv.1⟩ h
  | ok chosen => exact ⟨chosen, rfl⟩

/-- The search answers exactly with the first covering set. -/
theorem byProducts_eq_ok_iff (chosen : OrdSet ℕ) :
    byProducts implicants minterms = .ok chosen ↔
      (¬ ∃ v, Uncovered implicants minterms v) ∧ FirstCovering implicants minterms chosen := by
  have hfirst : ∀ c, byProducts implicants minterms = .ok c →
      FirstCovering implicants minterms c := by
    intro c hc
    obtain ⟨hrows, hchoice⟩ := bind_ofTerms_eq_ok hc
    exact firstCovering_of_ofChart hrows hchoice
  constructor
  · intro h
    refine ⟨?_, hfirst chosen h⟩
    rintro ⟨v, hv⟩
    obtain ⟨u, hu⟩ := exists_isLeast_uncovered hv
    rw [(byProducts_eq_error_iff (.uncovered u)).mpr ⟨u, hu, rfl⟩] at h
    exact nomatch h
  · rintro ⟨hnone, hchosen⟩
    obtain ⟨c, hc⟩ := exists_byProducts_eq_ok hnone
    rw [hc, (hfirst c hc).unique hchosen]

/-- **Minimum covers.**  The search by products fails exactly when some required source lies in no
implicant, and names the least one.  Otherwise it gives the first of all covering sets, whose
implicants are taken in their order. -/
theorem minimum_cover (implicants minterms : List Term) :
    ((∃ f, byProducts implicants minterms = .error f) ↔ ∃ v, Uncovered implicants minterms v) ∧
    (∀ f, byProducts implicants minterms = .error f →
      ∃ v, IsLeast {x | Uncovered implicants minterms x} v ∧ f = .uncovered v ∧
        f.message = "minterm " ++ toString v ++ " is not covered by any prime implicant") ∧
    ((¬ ∃ v, Uncovered implicants minterms v) →
      ∃ chosen, byProducts implicants minterms = .ok chosen ∧
        FirstCovering implicants minterms chosen ∧
        pick chosen implicants = chosen.toList.filterMap (implicants[·]?) ∧
        ((∀ m ∈ minterms, ∀ v, v ∉ m.sources) → chosen = ∅)) := by
  refine ⟨⟨?_, ?_⟩, ?_, ?_⟩
  · rintro ⟨f, hf⟩
    obtain ⟨v, hv, -⟩ := (byProducts_eq_error_iff f).mp hf
    exact ⟨v, hv.1⟩
  · rintro ⟨v, hv⟩
    obtain ⟨u, hu⟩ := exists_isLeast_uncovered hv
    exact ⟨_, (byProducts_eq_error_iff _).mpr ⟨u, hu, rfl⟩⟩
  · intro f hf
    obtain ⟨v, hv, rfl⟩ := (byProducts_eq_error_iff f).mp hf
    exact ⟨v, hv, rfl, rfl⟩
  · intro hnone
    obtain ⟨chosen, hchosen⟩ := exists_byProducts_eq_ok hnone
    have hfirst := ((byProducts_eq_ok_iff chosen).mp hchosen).2
    refine ⟨chosen, hchosen, hfirst, pick_eq_filterMap hfirst.covering.lt_length, fun hempty => ?_⟩
    exact hfirst.eq_empty hempty

/-- Both `{0, 1}` and `{0, 2}` cover with two indices; the smaller list is taken. -/
example : (byProducts [.ofPattern [.star, .one], .ofPattern [.star], .ofPattern [.star, .zero]]
    [.ofPattern [.star, .star]]).map OrdSet.toList = .ok [0, 1] := by decide

end TwoLevel.Cover
