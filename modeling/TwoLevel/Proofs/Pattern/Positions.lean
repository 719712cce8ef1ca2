import Mathlib.Data.List.GetD
import Mathlib.Tactic.Common
import TwoLevel.Pattern

/-! # Patterns position by position

A pattern is determined, up to leading zeros, by the function `tritAt` that gives every position
its trit (`trim_eq_trim_iff`).  Blending, merging and replacing one position are described through
that view, so that leading zeros need no case of their own:

* `merge?_isSome_iff`: two patterns merge exactly when they differ in one position;
* `merge?_eq_some`: the merged pattern is free there and agrees with both in every other
  position. -/

namespace TwoLevel
namespace Trit

@[simp] theorem blend_self (a : Trit) : a.blend a = a := by simp [blend]

theorem blend_of_ne {a b : Trit} (h : a ≠ b) : a.blend b = .star := by simp [blend, h]

theorem blend_comm (a b : Trit) : a.blend b = b.blend a := by
  cases a <;> cases b <;> rfl

theorem exists_allows (a : Trit) : ∃ b, a.allows b = true := by
  cases a
  · exact ⟨false, rfl⟩
  · exact ⟨false, rfl⟩
  · exact ⟨true, rfl⟩

theorem forall_allows_iff (a b : Trit) :
    (∀ x, a.allows x = true → b.allows x = true) ↔ b = .star ∨ b = a := by
  cases a <;> cases b <;> simp [allows]

theorem allows_or_allows {a b : Trit} (h : a ≠ b) (x : Bool) :
    a.allows x = true ∨ b.allows x = true := by
  revert h
  cases a <;> cases b <;> cases x <;> simp [allows]

theorem mem_bits_iff (a : Trit) (b : Bool) : b.toNat ∈ a.bits ↔ a.allows b = true := by
  cases a <;> cases b <;> simp [bits, allows]

end Trit

namespace Pattern

/-! ### The zero-extended view -/

@[simp] theorem tritAt_nil (i : ℕ) : tritAt [] i = .zero := by simp [tritAt]

@[simp] theorem tritAt_cons_zero (a : Trit) (p : Pattern) : tritAt (a :: p) 0 = a := rfl

@[simp] theorem tritAt_cons_succ (a : Trit) (p : Pattern) (i : ℕ) :
    tritAt (a :: p) (i + 1) = tritAt p i := rfl

theorem tritAt_of_length_le {p : Pattern} {i : ℕ} (h : p.length ≤ i) : tritAt p i = .zero := by
  unfold tritAt
  rw [List.getD_eq_getElem?_getD, List.getElem?_eq_none h]
  rfl

@[simp] theorem tritAt_take (p : Pattern) (w i : ℕ) :
    tritAt (p.take w) i = if i < w then tritAt p i else .zero := by
  unfold tritAt
  rw [List.getD_eq_getElem?_getD, List.getD_eq_getElem?_getD, List.getElem?_take]
  split <;> rfl

theorem trim_cons (a : Trit) (p : Pattern) :
    trim (a :: p) = if a = .zero ∧ trim p = [] then [] else a :: trim p := by
  rw [trim.eq_def]
  cases a <;> cases h : trim p <;> simp [h]

@[simp] theorem tritAt_trim (p : Pattern) (i : ℕ) : tritAt p.trim i = tritAt p i := by
  induction p generalizing i with
  | nil => rfl
  | cons a p ih =>
      rw [trim_cons]
      split_ifs with h
      · obtain ⟨rfl, hp⟩ := h
        rw [hp] at ih
        cases i with
        | zero => simp
        | succ i => simpa using ih i
      · cases i with
        | zero => simp
        | succ i => simpa using ih i

theorem trim_eq_nil_iff (p : Pattern) : p.trim = [] ↔ ∀ i, tritAt p i = .zero := by
  constructor
  · intro h i
    rw [← tritAt_trim, h, tritAt_nil]
  · intro h
    induction p with
    | nil => rfl
    | cons a p ih =>
        have ha : a = .zero := h 0
        have hp : trim p = [] := ih fun i => h (i + 1)
        rw [trim_cons, if_pos ⟨ha, hp⟩]

theorem trim_eq_trim_iff (p q : Pattern) : p.trim = q.trim ↔ ∀ i, tritAt p i = tritAt q i := by
  constructor
  · intro h i
    rw [← tritAt_trim p, h, tritAt_trim]
  · intro h
    induction p generalizing q with
    | nil =>
        symm
        rw [show trim [] = [] from rfl, trim_eq_nil_iff]
        intro i
        rw [← h i, tritAt_nil]
    | cons a p ih =>
        cases q with
        | nil =>
            rw [show trim [] = [] from rfl, trim_eq_nil_iff]
            intro i
            rw [h i, tritAt_nil]
        | cons b q =>
            have hab : a = b := h 0
            have hpq : trim p = trim q := ih q fun i => h (i + 1)
            rw [trim_cons, trim_cons, hab, hpq]

/-! ### Windows -/

theorem getElem?_of_lt_length {p : Pattern} {i : ℕ} (h : i < p.length) :
    p[i]? = some (tritAt p i) := by
  unfold tritAt
  rw [List.getD_eq_getElem?_getD, List.getElem?_eq_getElem h]
  rfl

theorem window_eq_map (p : Pattern) (w : ℕ) : window w p = (List.range w).map (tritAt p) := by
  have hwindow : window w p = (p ++ List.replicate (w - p.length) Trit.zero).take w :=
    if_pos (Int.natCast_nonneg w)
  refine List.ext_getElem? fun i => ?_
  rw [hwindow, List.getElem?_take, List.getElem?_map]
  split
  · next hi =>
    rw [List.getElem?_range hi, Option.map_some]
    by_cases hp : i < p.length
    · rw [List.getElem?_append_left hp, getElem?_of_lt_length hp]
    · rw [List.getElem?_append_right (by omega), List.getElem?_replicate_of_lt (by omega),
        tritAt_of_length_le (by omega)]
  · next hi => rw [List.getElem?_eq_none (by simpa using hi), Option.map_none]

theorem length_window (p : Pattern) (w : ℕ) : (window w p).length = w := by
  rw [window_eq_map, List.length_map, List.length_range]

theorem window_congr {p q : Pattern} (h : p.trim = q.trim) (w : ℕ) : window w p = window w q := by
  rw [window_eq_map, window_eq_map]
  exact List.map_congr_left fun i _ => (trim_eq_trim_iff p q).mp h i

theorem length_extend {p : Pattern} {w : ℕ} (h : p.length ≤ w) : (p.extend w).length = w := by
  unfold extend List.rightpad
  rw [List.length_append, List.length_replicate]
  omega

theorem extend_eq_map {p : Pattern} {w : ℕ} (h : p.length ≤ w) :
    p.extend w = (List.range w).map (tritAt p) := by
  have hwindow : window w p = (p.extend w).take w := if_pos (Int.natCast_nonneg w)
  rw [← window_eq_map, hwindow, List.take_of_length_le (Nat.le_of_eq (length_extend h))]

theorem window_eq_extend {p : Pattern} {w : ℕ} (h : p.length ≤ w) : window w p = p.extend w := by
  rw [window_eq_map, extend_eq_map h]

theorem trim_extend (w : ℕ) (p : Pattern) : (p.extend w).trim = p.trim := by
  rw [trim_eq_trim_iff]
  intro i
  unfold extend List.rightpad
  by_cases hi : i < p.length
  · unfold tritAt
    rw [List.getD_append _ _ _ _ hi]
  · have hzero : tritAt p i = .zero := tritAt_of_length_le (by omega)
    rw [hzero]
    unfold tritAt
    rw [List.getD_append_right _ _ _ _ (by omega)]
    simp

/-- Filled up to the length of the longer one, two patterns are equal exactly when they agree in
every position, stored or not. -/
theorem extend_eq_extend_iff (p q : Pattern) :
    p.extend (max p.length q.length) = q.extend (max p.length q.length) ↔
      ∀ i, tritAt p i = tritAt q i := by
  rw [extend_eq_map (Nat.le_max_left _ _), extend_eq_map (Nat.le_max_right _ _), List.map_inj_left]
  simp only [List.mem_range]
  constructor
  · intro h i
    by_cases hi : i < max p.length q.length
    · exact h i hi
    · rw [tritAt_of_length_le (by omega), tritAt_of_length_le (by omega)]
  · intro h i _
    exact h i

/-! ### Merging -/

theorem tritAt_map_blend_zero (p : Pattern) (i : ℕ) :
    tritAt (p.map (Trit.blend .zero)) i = Trit.blend .zero (tritAt p i) := by
  induction p generalizing i with
  | nil => simp
  | cons a p ih =>
      cases i with
      | zero => rfl
      | succ i => exact ih i

theorem tritAt_blend (p q : Pattern) (i : ℕ) :
    tritAt (blend p q) i = (tritAt p i).blend (tritAt q i) := by
  induction p generalizing q i with
  | nil =>
      rw [blend, tritAt_map_blend_zero, tritAt_nil]
  | cons a p ih =>
      cases q with
      | nil =>
          rw [tritAt_nil, Trit.blend_comm, ← tritAt_map_blend_zero, blend]
          · simp only [Trit.blend_comm _ Trit.zero]
          · simp
      | cons b q =>
          cases i with
          | zero => rfl
          | succ i => exact ih q i

theorem length_blend (p q : Pattern) : (blend p q).length = max p.length q.length := by
  fun_induction blend p q with
  | case1 q => simp
  | case2 p => simp
  | case3 a p b q ih =>
      rw [List.length_cons, ih, List.length_cons, List.length_cons, Nat.succ_max_succ]

theorem blend_comm (p q : Pattern) : blend p q = blend q p := by
  fun_induction blend p q with
  | case1 q => cases q <;> simp [blend, Trit.blend_comm]
  | case2 p => cases p <;> simp [blend, Trit.blend_comm]
  | case3 a p b q ih => rw [blend, ih, Trit.blend_comm]

theorem countP_ne_zero_eq_zero_iff (p : Pattern) :
    p.countP (· ≠ .zero) = 0 ↔ ∀ i, tritAt p i = .zero := by
  induction p with
  | nil => simp
  | cons a p ih =>
      rw [List.countP_cons, Nat.add_eq_zero_iff, ih]
      constructor
      · rintro ⟨h, ha⟩ i
        cases i with
        | zero => simpa using ha
        | succ i => exact h i
      · intro h
        exact ⟨fun i => h (i + 1), by simpa using h 0⟩

theorem distance_nil_right (p : Pattern) : distance p [] = p.countP (· ≠ .zero) := by
  cases p <;> simp [distance]

theorem distance_eq_zero_iff (p q : Pattern) :
    distance p q = 0 ↔ ∀ i, tritAt p i = tritAt q i := by
  induction p generalizing q with
  | nil =>
      rw [distance, countP_ne_zero_eq_zero_iff]
      simp [eq_comm]
  | cons a p ih =>
      cases q with
      | nil =>
          rw [distance_nil_right, countP_ne_zero_eq_zero_iff]
          simp
      | cons b q =>
          rw [distance, Nat.add_eq_zero_iff, ih]
          constructor
          · rintro ⟨hab, h⟩ i
            cases i with
            | zero => simpa using hab
            | succ i => exact h i
          · intro h
            have hab : a = b := h 0
            exact ⟨by simp [hab], fun i => h (i + 1)⟩

theorem distance_comm (p q : Pattern) : distance p q = distance q p := by
  fun_induction distance p q with
  | case1 q => rw [distance_nil_right]
  | case2 p => rw [distance]
  | case3 a p b q ih => rw [distance, ih, if_congr eq_comm rfl rfl]

/-- One position is the only one in which two patterns differ. -/
def DifferAt (p q : Pattern) (i : ℕ) : Prop :=
  tritAt p i ≠ tritAt q i ∧ ∀ j, j ≠ i → tritAt p j = tritAt q j

theorem DifferAt.symm {p q : Pattern} {i : ℕ} (h : DifferAt p q i) : DifferAt q p i :=
  ⟨h.1.symm, fun j hj => (h.2 j hj).symm⟩

theorem DifferAt.unique {p q : Pattern} {i j : ℕ} (hi : DifferAt p q i) (hj : DifferAt p q j) :
    i = j := by
  by_contra h
  exact hi.1 (hj.2 i h)

theorem DifferAt.congr {p q r s : Pattern} {i : ℕ} (h : DifferAt p q i) (hr : r.trim = p.trim)
    (hs : s.trim = q.trim) : DifferAt r s i := by
  have hrp := (trim_eq_trim_iff r p).mp hr
  have hsq := (trim_eq_trim_iff s q).mp hs
  constructor
  · rw [hrp i, hsq i]
    exact h.1
  · intro j hj
    rw [hrp j, hsq j]
    exact h.2 j hj

theorem differAt_zero_iff (a b : Trit) (p q : Pattern) :
    DifferAt (a :: p) (b :: q) 0 ↔ a ≠ b ∧ ∀ i, tritAt p i = tritAt q i := by
  constructor
  · rintro ⟨hab, h⟩
    exact ⟨hab, fun i => h (i + 1) (Nat.succ_ne_zero i)⟩
  · rintro ⟨hab, h⟩
    refine ⟨hab, fun j hj => ?_⟩
    obtain ⟨k, rfl⟩ := Nat.exists_eq_succ_of_ne_zero hj
    exact h k

theorem differAt_succ_iff (a b : Trit) (p q : Pattern) (i : ℕ) :
    DifferAt (a :: p) (b :: q) (i + 1) ↔ a = b ∧ DifferAt p q i := by
  constructor
  · rintro ⟨hi, h⟩
    exact ⟨h 0 (Nat.succ_ne_zero i).symm, hi, fun j hj => h (j + 1) (by omega)⟩
  · rintro ⟨hab, hi, h⟩
    refine ⟨hi, fun j hj => ?_⟩
    cases j with
    | zero => exact hab
    | succ j => exact h j (by omega)

/-- A stored zero in front changes neither side: the missing positions are zeros. -/
theorem differAt_nil_left_iff (q : Pattern) (i : ℕ) :
    DifferAt [] q i ↔ DifferAt [.zero] q i := by
  have h : ∀ j, tritAt [] j = tritAt [.zero] j := by
    intro j
    cases j <;> simp
  unfold DifferAt
  simp only [h]

theorem countP_ne_zero_eq_one_iff (q : Pattern) :
    q.countP (· ≠ .zero) = 1 ↔ ∃ i, DifferAt [] q i := by
  induction q with
  | nil => simp [DifferAt]
  | cons b q ih =>
      have hall := countP_ne_zero_eq_zero_iff q
      rw [List.countP_cons]
      constructor
      · intro h
        by_cases hb : b = .zero
        · obtain ⟨i, hi⟩ := ih.mp (by simpa [hb] using h)
          refine ⟨i + 1, ?_⟩
          rw [differAt_nil_left_iff, differAt_succ_iff]
          exact ⟨hb.symm, hi⟩
        · have hq : q.countP (· ≠ .zero) = 0 := by
            rw [if_pos (by simpa using hb)] at h
            omega
          refine ⟨0, ?_⟩
          rw [differAt_nil_left_iff, differAt_zero_iff]
          exact ⟨fun e => hb e.symm, fun i => by rw [hall.mp hq i, tritAt_nil]⟩
      · rintro ⟨i, hi⟩
        rw [differAt_nil_left_iff] at hi
        cases i with
        | zero =>
            rw [differAt_zero_iff] at hi
            have hq : q.countP (· ≠ .zero) = 0 := hall.mpr fun i => by rw [← hi.2 i, tritAt_nil]
            rw [hq, if_pos (by simpa using hi.1.symm)]
        | succ i =>
            rw [differAt_succ_iff] at hi
            rw [ih.mpr ⟨i, hi.2⟩, if_neg (by simp [hi.1.symm])]

theorem distance_eq_one_iff (p q : Pattern) : distance p q = 1 ↔ ∃ i, DifferAt p q i := by
  induction p generalizing q with
  | nil => rw [distance, countP_ne_zero_eq_one_iff]
  | cons a p ih =>
      cases q with
      | nil =>
          rw [distance_nil_right, countP_ne_zero_eq_one_iff]
          exact exists_congr fun i => ⟨DifferAt.symm, DifferAt.symm⟩
      | cons b q =>
          rw [distance]
          constructor
          · intro h
            by_cases hab : a = b
            · obtain ⟨i, hi⟩ := (ih q).mp (by simpa [hab] using h)
              exact ⟨i + 1, (differAt_succ_iff a b p q i).mpr ⟨hab, hi⟩⟩
            · rw [if_neg hab] at h
              exact ⟨0, (differAt_zero_iff a b p q).mpr
                ⟨hab, (distance_eq_zero_iff p q).mp (by omega)⟩⟩
          · rintro ⟨i, hi⟩
            cases i with
            | zero =>
                obtain ⟨hab, h⟩ := (differAt_zero_iff a b p q).mp hi
                rw [if_neg hab, (distance_eq_zero_iff p q).mpr h]
            | succ i =>
                obtain ⟨hab, h⟩ := (differAt_succ_iff a b p q i).mp hi
                rw [if_pos hab, (ih q).mpr ⟨i, h⟩]

/-- **The merge law.**  Two patterns merge exactly when they differ in one position. -/
theorem merge?_isSome_iff (p q : Pattern) : (p.merge? q).isSome ↔ ∃ i, DifferAt p q i := by
  rw [← distance_eq_one_iff]
  unfold merge?
  split <;> simp_all

/-- Patterns do not merge when they agree everywhere, or differ in two positions or more. -/
theorem merge?_eq_none_iff (p q : Pattern) : p.merge? q = none ↔
    (∀ i, tritAt p i = tritAt q i) ∨
      ∃ i j, i ≠ j ∧ tritAt p i ≠ tritAt q i ∧ tritAt p j ≠ tritAt q j := by
  rw [← Option.not_isSome_iff_eq_none, merge?_isSome_iff]
  constructor
  · intro h
    by_cases hall : ∀ i, tritAt p i = tritAt q i
    · exact Or.inl hall
    · right
      push Not at hall
      obtain ⟨i, hi⟩ := hall
      by_contra hone
      refine h ⟨i, hi, fun j hj => ?_⟩
      by_contra hne
      exact hone ⟨i, j, hj.symm, hi, hne⟩
  · rintro (hall | ⟨i, j, hij, hi, hj⟩) ⟨k, hk, hrest⟩
    · exact hk (hall k)
    · by_cases hik : i = k
      · exact hj (hrest j fun hjk => hij (hik.trans hjk.symm))
      · exact hi (hrest i hik)

theorem merge?_comm (p q : Pattern) : p.merge? q = q.merge? p := by
  unfold merge?
  rw [distance_comm, blend_comm]

theorem merge?_eq_some {p q r : Pattern} (h : p.merge? q = some r) :
    ∃ i, DifferAt p q i ∧ tritAt r i = .star ∧ ∀ j, j ≠ i → tritAt r j = tritAt p j := by
  unfold merge? at h
  split at h
  · next hd =>
    obtain ⟨i, hi⟩ := (distance_eq_one_iff p q).mp hd
    obtain rfl : blend p q = r := by simpa using h
    refine ⟨i, hi, ?_, fun j hj => ?_⟩
    · rw [tritAt_blend, Trit.blend_of_ne hi.1]
    · rw [tritAt_blend, hi.2 j hj, Trit.blend_self]
  · exact absurd h (by simp)

theorem length_merge {p q r : Pattern} (h : p.merge? q = some r) :
    r.length = max p.length q.length := by
  unfold merge? at h
  split at h
  · rw [← Option.some.inj h, length_blend]
  · exact nomatch h

end Pattern
end TwoLevel
