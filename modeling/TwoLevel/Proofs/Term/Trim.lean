import TwoLevel.Proofs.Term.Classes
import TwoLevel.Proofs.Term.Exact

/-! # Trimmed terms

A term without the zeros stored in front stands for its class: two terms are equivalent exactly when
they are the same term trimmed (`Term.trim_eq_trim_iff`).  So lists of terms up to equivalence are
compared by trimming all of their terms.

Merging does not see stored zeros (`Term.merge?_congr`), and neither does the canonical order, which
tells any two classes apart (`Term.trim_eq_of_order_eq`).  So a sorted list is determined, up to
equivalence, by the classes in it (`Term.map_trim_sort_congr`). -/

namespace TwoLevel

/-! ### Patterns -/

namespace Pattern

@[simp] theorem trim_trim (p : Pattern) : p.trim.trim = p.trim :=
  (trim_eq_trim_iff _ _).mpr (tritAt_trim p)

theorem trim_blend_congr {p q r s : Pattern} (hp : p.trim = r.trim) (hq : q.trim = s.trim) :
    (blend p q).trim = (blend r s).trim := by
  rw [trim_eq_trim_iff] at hp hq ⊢
  intro i
  rw [tritAt_blend, tritAt_blend, hp i, hq i]

theorem distance_eq_one_congr {p q r s : Pattern} (hp : p.trim = r.trim) (hq : q.trim = s.trim) :
    distance p q = 1 ↔ distance r s = 1 := by
  rw [distance_eq_one_iff, distance_eq_one_iff]
  exact exists_congr fun i => ⟨fun h => h.congr hp.symm hq.symm, fun h => h.congr hp hq⟩

/-- Stored zeros in front change neither whether two patterns merge nor into what. -/
theorem merge?_congr {p q r s : Pattern} (hp : p.trim = r.trim) (hq : q.trim = s.trim) :
    (p.merge? q).map trim = (r.merge? s).map trim := by
  unfold merge?
  rw [if_congr (distance_eq_one_congr hp hq) rfl rfl]
  split
  · exact congrArg some (trim_blend_congr hp hq)
  · rfl

/-- The digits of a trimmed pattern determine it: a single zero is never trimmed. -/
theorem trim_eq_of_digits_eq {p q : Pattern} (h : p.trim.digits = q.trim.digits) :
    p.trim = q.trim := by
  have hzero : ∀ r : Pattern, r.trim.reverse ≠ [.zero] := by
    intro r hr
    have hsingle : r.trim = [.zero] := by simpa using hr
    have htwice := trim_trim r
    rw [hsingle] at htwice
    exact absurd htwice (by decide)
  unfold digits at h
  split_ifs at h with hp hq hq
  · rw [List.isEmpty_iff.mp hp, List.isEmpty_iff.mp hq]
  · exact absurd h.symm (hzero q)
  · exact absurd h (hzero p)
  · exact List.reverse_injective h

end Pattern

instance : Std.TransOrd Trit := inferInstanceAs (Std.TransCmp (compareOn Trit.rank))

instance : Std.LawfulEqOrd Trit where
  compare_self := by intro a; cases a <;> rfl
  eq_of_compare := by intro a b; cases a <;> cases b <;> decide

instance : Std.TransCmp Pattern.order :=
  inferInstanceAs (Std.TransCmp (compareLex (compareOn fun p : Pattern => p.trim.digits.length)
    (compareOn fun p : Pattern => p.trim.digits)))

theorem Pattern.order_trim (p q : Pattern) : p.trim.order q.trim = p.order q := by
  simp only [order, compareLex, compareOn, trim_trim]

theorem Pattern.trim_eq_of_order_eq {p q : Pattern} (h : p.order q = .eq) : p.trim = q.trim := by
  have hdigits := (compareLex_eq_eq.mp h).2
  exact trim_eq_of_digits_eq (Std.LawfulEqOrd.eq_of_compare hdigits)

/-! ### Terms -/

namespace Term

/-- The term without the zeros stored in front. -/
def trim (t : Term) : Term := ⟨t.pattern.trim, t.sources⟩

theorem trim_eq_trim_iff {s t : Term} : s.trim = t.trim ↔ s ≈ t := by
  unfold trim
  rw [equiv_iff, mk.injEq, and_comm]

@[simp] theorem trim_trim (t : Term) : t.trim.trim = t.trim := by
  unfold trim
  rw [Pattern.trim_trim]

theorem map_trim_merge? (s t : Term) : (s.merge? t).map trim =
    ((s.pattern.merge? t.pattern).map Pattern.trim).map fun p => ⟨p, s.sources ∪ t.sources⟩ := by
  unfold merge?
  rw [Option.map_map, Option.map_map]
  rfl

theorem merge?_congr {s t s' t' : Term} (hs : s ≈ s') (ht : t ≈ t') :
    (s.merge? t).map trim = (s'.merge? t').map trim := by
  rw [equiv_iff] at hs ht
  rw [map_trim_merge?, map_trim_merge?, Pattern.merge?_congr hs.2 ht.2, hs.1, ht.1]

theorem isSome_merge?_congr {s t s' t' : Term} (hs : s ≈ s') (ht : t ≈ t') :
    (s.merge? t).isSome = (s'.merge? t').isSome := by
  have hmap := congrArg Option.isSome (merge?_congr hs ht)
  rwa [Option.isSome_map, Option.isSome_map] at hmap

theorem exists_merge?_of_equiv {s t s' t' u : Term} (hs : s ≈ s') (ht : t ≈ t')
    (h : s.merge? t = some u) : ∃ u', s'.merge? t' = some u' ∧ u' ≈ u := by
  have hmap := merge?_congr hs ht
  rw [h, Option.map_some] at hmap
  obtain ⟨u', hu', htrim⟩ := Option.map_eq_some_iff.mp hmap.symm
  exact ⟨u', hu', trim_eq_trim_iff.mp htrim⟩

/-! ### The classes of a list -/

/-- Two lists with the same classes: each term of either is equivalent to one of the other. -/
structure SameClasses (ts us : List Term) : Prop where
  left : ∀ t ∈ ts, ∃ u ∈ us, u ≈ t
  right : ∀ u ∈ us, ∃ t ∈ ts, t ≈ u

theorem sameClasses_iff {ts us : List Term} : SameClasses ts us ↔
    (∀ t ∈ ts, ∃ u ∈ us, u ≈ t) ∧ ∀ u ∈ us, ∃ t ∈ ts, t ≈ u :=
  ⟨fun h => ⟨h.left, h.right⟩, fun h => ⟨h.1, h.2⟩⟩

instance (ts us : List Term) : Decidable (SameClasses ts us) := decidable_of_iff' _ sameClasses_iff

section SameClasses

variable {ts us vs : List Term}

theorem sameClasses_of_mem_iff (h : ∀ t, t ∈ ts ↔ t ∈ us) : SameClasses ts us :=
  ⟨fun t ht => ⟨t, (h t).mp ht, Setoid.refl t⟩, fun t ht => ⟨t, (h t).mpr ht, Setoid.refl t⟩⟩

theorem SameClasses.symm (h : SameClasses ts us) : SameClasses us ts := ⟨h.right, h.left⟩

theorem SameClasses.trans (h : SameClasses ts us) (k : SameClasses us vs) : SameClasses ts vs := by
  constructor
  · intro t ht
    obtain ⟨u, hu, hut⟩ := h.left t ht
    obtain ⟨v, hv, hvu⟩ := k.left u hu
    exact ⟨v, hv, Setoid.trans hvu hut⟩
  · intro v hv
    obtain ⟨u, hu, huv⟩ := k.right v hv
    obtain ⟨t, ht, htu⟩ := h.right u hu
    exact ⟨t, ht, Setoid.trans htu huv⟩

theorem sameClasses_firsts (ts : List Term) : SameClasses (firsts ts) ts :=
  ⟨fun t ht => ⟨t, mem_of_mem_firsts ht, Setoid.refl t⟩, fun _ ht => exists_mem_firsts ht⟩

theorem SameClasses.mem_map_trim_iff (h : SameClasses ts us) (c : Term) :
    c ∈ ts.map trim ↔ c ∈ us.map trim := by
  simp only [List.mem_map]
  constructor
  · rintro ⟨t, ht, rfl⟩
    obtain ⟨u, hu, hut⟩ := h.left t ht
    exact ⟨u, hu, trim_eq_trim_iff.mpr hut⟩
  · rintro ⟨u, hu, rfl⟩
    obtain ⟨t, ht, htu⟩ := h.right u hu
    exact ⟨t, ht, trim_eq_trim_iff.mpr htu⟩

/-- Lists with one term of each class are the same up to equivalence and order. -/
theorem SameClasses.perm (h : SameClasses ts us) (hts : ts.Pairwise fun s t => ¬ s ≈ t)
    (hus : us.Pairwise fun s t => ¬ s ≈ t) : (ts.map trim).Perm (us.map trim) := by
  have nodup : ∀ vs : List Term, (vs.Pairwise fun s t => ¬ s ≈ t) → (vs.map trim).Nodup := by
    intro vs hvs
    rw [List.Nodup, List.pairwise_map]
    exact hvs.imp fun hst heq => hst (trim_eq_trim_iff.mp heq)
  exact (List.perm_ext_iff_of_nodup (nodup ts hts) (nodup us hus)).mpr h.mem_map_trim_iff

theorem sameClasses_of_perm (h : (ts.map trim).Perm (us.map trim)) : SameClasses ts us := by
  constructor
  · intro t ht
    obtain ⟨u, hu, htrim⟩ := List.mem_map.mp (h.mem_iff.mp (List.mem_map_of_mem ht))
    exact ⟨u, hu, trim_eq_trim_iff.mp htrim⟩
  · intro u hu
    obtain ⟨t, ht, htrim⟩ := List.mem_map.mp (h.mem_iff.mpr (List.mem_map_of_mem hu))
    exact ⟨t, ht, trim_eq_trim_iff.mp htrim⟩

end SameClasses

/-! ### The canonical order -/

instance : Std.TransCmp fun s t : Term => s.pattern.order t.pattern where
  eq_swap {s t} := @Std.OrientedCmp.eq_swap _ Pattern.order _ s.pattern t.pattern
  isLE_trans {s t u} := @Std.TransCmp.isLE_trans _ Pattern.order _ s.pattern t.pattern u.pattern

instance : Std.TransCmp order :=
  inferInstanceAs (Std.TransCmp (compareLex (fun s t : Term => s.pattern.order t.pattern)
    (compareOn fun t : Term => t.sources.toList)))

theorem order_trim (s t : Term) : order s.trim t.trim = order s t := by
  unfold order compareLex
  exact congrArg (Ordering.then · _) (Pattern.order_trim s.pattern t.pattern)

/-- Terms are told apart by their order, up to equivalence. -/
theorem trim_eq_of_order_eq {s t : Term} (h : order s t = .eq) : s.trim = t.trim := by
  obtain ⟨hpattern, hsources⟩ := compareLex_eq_eq.mp h
  have htoList : s.sources.toList = t.sources.toList := Std.LawfulEqOrd.eq_of_compare hsources
  rw [trim_eq_trim_iff, equiv_iff]
  exact ⟨OrdSet.ext fun v => by rw [OrdSet.mem_def, OrdSet.mem_def, htoList],
    Pattern.trim_eq_of_order_eq hpattern⟩

theorem pairwise_place (t : Term) {ts : List Term}
    (h : ts.Pairwise fun s u => (order s u).isLE = true) :
    (place t ts).Pairwise fun s u => (order s u).isLE = true := by
  induction ts with
  | nil => exact List.pairwise_singleton _ _
  | cons u us ih =>
      rw [List.pairwise_cons] at h
      rw [place]
      split
      · next hgt =>
        refine List.pairwise_cons.mpr ⟨fun v hv => ?_, ih h.2⟩
        rcases List.mem_cons.mp ((place_perm t us).mem_iff.mp hv) with rfl | hv
        · exact Ordering.isLE_of_eq_lt (Std.OrientedCmp.lt_of_gt hgt)
        · exact h.1 v hv
      · next hle =>
        have htu : (order t u).isLE = true := Ordering.isLE_iff_ne_gt.mpr hle
        refine List.pairwise_cons.mpr ⟨fun v hv => ?_, List.pairwise_cons.mpr h⟩
        rcases List.mem_cons.mp hv with rfl | hv
        · exact htu
        · exact Std.TransCmp.isLE_trans htu (h.1 v hv)

theorem pairwise_sort (ts : List Term) :
    (sort ts).Pairwise fun s t => (order s t).isLE = true := by
  induction ts with
  | nil => exact List.Pairwise.nil
  | cons t ts ih => exact pairwise_place t ih

/-- **A sorted list is determined by its classes**, up to equivalence. -/
theorem map_trim_sort_congr {ts us : List Term} (h : (ts.map trim).Perm (us.map trim)) :
    (sort ts).map trim = (sort us).map trim := by
  have sorted : ∀ vs : List Term,
      ((sort vs).map trim).Pairwise fun s t => (order s t).isLE = true := by
    intro vs
    rw [List.pairwise_map]
    exact (pairwise_sort vs).imp fun {s t} hst => by rwa [order_trim]
  have hperm : ((sort ts).map trim).Perm ((sort us).map trim) :=
    (((sort_perm ts).map trim).trans h).trans ((sort_perm us).map trim).symm
  refine List.Perm.eq_of_pairwise ?_ (sorted ts) (sorted us) hperm
  intro s t hs ht hst hts
  obtain ⟨s, -, rfl⟩ := List.mem_map.mp hs
  obtain ⟨t, -, rfl⟩ := List.mem_map.mp ht
  simpa using trim_eq_of_order_eq (Std.OrientedCmp.isLE_antisymm hst hts)

end Term

end TwoLevel
