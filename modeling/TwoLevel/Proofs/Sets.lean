import Mathlib.Algebra.Order.Ring.Int
import Mathlib.Data.List.Forall2
import Mathlib.Data.List.Perm.Subperm
import Mathlib.Order.Bounds.Defs
import TwoLevel.OrdSet

/-! # Paired lists and sets

In two lists whose entries are related one by one, every entry of either list has a partner.

A subset is no larger, and a subset that is no smaller is the whole set.  The first element of a
set is its least one.  Sets of numbers compare by size first and then by the lexicographic order of
their ascending lists (`OrdSet.compare_eq_lt_iff`). -/

namespace TwoLevel

open Std

/-! ### Paired lists -/

section paired

variable {α β : Type} {R : α → β → Prop}

theorem exists_partner_of_mem_left {as : List α} {bs : List β} (h : List.Forall₂ R as bs) {a : α}
    (ha : a ∈ as) : ∃ b ∈ bs, R a b := by
  induction h with
  | nil => exact absurd ha List.not_mem_nil
  | cons hab _ ih =>
      rcases List.mem_cons.mp ha with rfl | ha
      · exact ⟨_, List.mem_cons_self, hab⟩
      · obtain ⟨b, hb, hr⟩ := ih ha
        exact ⟨b, List.mem_cons_of_mem _ hb, hr⟩

theorem exists_partner_of_mem_right {as : List α} {bs : List β} (h : List.Forall₂ R as bs) {b : β}
    (hb : b ∈ bs) : ∃ a ∈ as, R a b :=
  exists_partner_of_mem_left (R := flip R) (List.Forall₂.flip (R := flip R) h) hb

theorem forall₂_concat_iff {as : List α} {a : α} {bs : List β} :
    List.Forall₂ R (as ++ [a]) bs ↔ ∃ cs b, bs = cs ++ [b] ∧ List.Forall₂ R as cs ∧ R a b := by
  rw [← List.forall₂_reverse_iff, List.reverse_append, List.reverse_singleton,
    List.singleton_append, List.forall₂_cons_left_iff]
  constructor
  · rintro ⟨b, cs, hab, hcs, hbs⟩
    refine ⟨cs.reverse, b, ?_, ?_, hab⟩
    · rw [← List.reverse_reverse bs, hbs, List.reverse_cons]
    · rwa [← List.forall₂_reverse_iff, List.reverse_reverse]
  · rintro ⟨cs, b, rfl, hcs, hab⟩
    exact ⟨b, cs.reverse, hab, List.forall₂_reverse_iff.mpr hcs, by simp⟩

end paired

variable {α : Type} [Ord α]

namespace OrdSet

/-! ### Elements -/

theorem isEmpty_iff (s : OrdSet α) : s.isEmpty = true ↔ ∀ a, a ∉ s := by
  unfold isEmpty
  rw [List.isEmpty_iff, List.eq_nil_iff_forall_not_mem]
  rfl

theorem exists_mem_of_not_isEmpty {s : OrdSet α} (h : ¬ s.isEmpty = true) : ∃ a, a ∈ s := by
  rw [isEmpty_iff] at h
  push Not at h
  exact h

theorem nodup_toList [LawfulEqOrd α] (s : OrdSet α) : s.toList.Nodup :=
  s.ascending.imp fun h e => by simp [e] at h

theorem least?_eq_some {s : OrdSet α} {a : α} (h : s.least? = some a) :
    a ∈ s ∧ ∀ b ∈ s, b = a ∨ compare a b = .lt := by
  unfold least? at h
  obtain ⟨rest, hs⟩ := List.head?_eq_some_iff.mp h
  have hasc := s.ascending
  rw [hs, Ascending, List.pairwise_cons] at hasc
  constructor
  · rw [mem_def, hs]
    exact List.mem_cons_self
  · intro b hb
    rw [mem_def, hs] at hb
    rcases List.mem_cons.mp hb with rfl | hb
    · exact Or.inl rfl
    · exact Or.inr (hasc.1 b hb)

section Lawful

variable [TransOrd α] [LawfulEqOrd α]

theorem eq_of_subset_of_size_le {s t : OrdSet α} (h : ∀ a ∈ s, a ∈ t) (hsize : t.size ≤ s.size) :
    s = t := by
  have hperm := (List.subperm_of_subset s.nodup_toList fun a ha => h a ha).perm_of_length_le hsize
  exact ext fun a => hperm.mem_iff

theorem toList_ofList {xs : List α} (h : Ascending xs) : (ofList xs).toList = xs :=
  Ascending.eq_of_mem_iff (ofList xs).ascending h fun _ => mem_ofList

theorem size_ofList_le (xs : List α) : (ofList xs).size ≤ xs.length :=
  (List.subperm_of_subset (nodup_toList _) fun _ ha => mem_ofList.mp ha).length_le

end Lawful

theorem find?_toList_eq_some_iff (s : OrdSet ℤ) (p : ℤ → Bool) (v : ℤ) :
    s.toList.find? p = some v ↔ IsLeast {x | x ∈ s ∧ p x = true} v := by
  obtain ⟨xs, hasc⟩ := s
  change xs.find? p = some v ↔ IsLeast {x | x ∈ xs ∧ p x = true} v
  constructor
  · intro h
    refine ⟨⟨List.mem_of_find?_eq_some h, List.find?_some h⟩, ?_⟩
    rintro x ⟨hx, hpx⟩
    obtain ⟨-, front, back, rfl, hfront⟩ := List.find?_eq_some_iff_append.mp h
    rcases List.mem_append.mp hx with hx | hx
    · have hfalse := hfront x hx
      simp [hpx] at hfalse
    · rcases List.mem_cons.mp hx with rfl | hx
      · exact Int.le_refl x
      · have hlt := (List.pairwise_cons.mp (List.pairwise_append.mp hasc).2.1).1 x hx
        exact Int.le_of_lt (Std.compare_eq_lt.mp hlt)
  · rintro ⟨⟨hv, hpv⟩, hleast⟩
    cases hf : xs.find? p with
    | none =>
        rw [List.find?_eq_none] at hf
        exact absurd hpv (hf v hv)
    | some u =>
        obtain ⟨hpu, front, back, rfl, hfront⟩ := List.find?_eq_some_iff_append.mp hf
        have hvu : v ≤ u := hleast ⟨by simp, hpu⟩
        rcases List.mem_append.mp hv with hv | hv
        · have hfalse := hfront v hv
          simp [hpv] at hfalse
        · rcases List.mem_cons.mp hv with rfl | hv
          · rfl
          · have hlt := (List.pairwise_cons.mp (List.pairwise_append.mp hasc).2.1).1 v hv
            have huv : u < v := Std.compare_eq_lt.mp hlt
            omega

/-! ### The order of sets of numbers -/

theorem ascending_range (n : ℕ) : Ascending (List.range n) :=
  List.pairwise_lt_range.imp fun h => Std.compare_eq_lt.mpr h

theorem compare_list_eq_lt_iff (xs ys : List ℕ) :
    compare xs ys = .lt ↔ List.Lex (· < ·) xs ys := by
  induction xs generalizing ys with
  | nil =>
      cases ys with
      | nil => simp
      | cons y ys => simp
  | cons x xs ih =>
      cases ys with
      | nil => simp
      | cons y ys =>
          rw [List.compare_cons_cons, Ordering.then_eq_lt, Std.compare_eq_lt, Std.compare_eq_iff_eq, ih,
            List.cons_lex_cons_iff]

/-- Shorter sets come first, then the lexicographically smaller ones. -/
theorem compare_eq_lt_iff (s t : OrdSet ℕ) :
    compare s t = .lt ↔
      s.size < t.size ∨ s.size = t.size ∧ List.Lex (· < ·) s.toList t.toList := by
  rw [compare_def, Ordering.then_eq_lt, Std.compare_eq_lt, Std.compare_eq_iff_eq, compare_list_eq_lt_iff]

end OrdSet

end TwoLevel
