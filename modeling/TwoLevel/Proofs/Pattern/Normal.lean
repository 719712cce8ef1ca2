import Mathlib.Data.Nat.SuccPred
import TwoLevel.Proofs.Pattern.Cubes

/-! # Patterns without leading zeros

A pattern is normal when its most significant stored position is free or fixed to one, or when it
stores no position at all.  A normal pattern is the shortest one with its view
(`normal_iff_trim_eq`), so that normal patterns which agree in every position are equal.

The pattern of a number is normal, and merging keeps patterns normal whatever their lengths are
(`Normal.merge`): at the top of the longer pattern the two differ, or the shorter one is no shorter.
As the top position of a normal pattern can be one, its length is the number of bits of the greatest
number that agrees with it (`Normal.length_eq`). -/

namespace TwoLevel.Pattern

/-- No zero is stored in front. -/
def Normal (p : Pattern) : Prop := p.getLast? ≠ some .zero

variable {p q r : Pattern}

theorem normal_iff_trim_eq (p : Pattern) : p.Normal ↔ p.trim = p := by
  unfold Normal
  induction p with
  | nil => simp [trim]
  | cons a p ih =>
      cases p with
      | nil => cases a <;> simp [trim]
      | cons b p =>
          rw [List.getLast?_cons_cons, ih, trim_cons a]
          by_cases h : a = .zero ∧ trim (b :: p) = []
          · rw [if_pos h, h.2]
            exact iff_of_false (List.cons_ne_nil b p).symm (List.cons_ne_nil a (b :: p)).symm
          · rw [if_neg h, List.cons.injEq, and_iff_right rfl]

theorem Normal.eq_of_trim_eq (hp : p.Normal) (hq : q.Normal) (h : p.trim = q.trim) : p = q := by
  rwa [(normal_iff_trim_eq p).mp hp, (normal_iff_trim_eq q).mp hq] at h

/-- The position below the length is the most significant one that is stored. -/
theorem normal_iff_tritAt (p : Pattern) :
    p.Normal ↔ ∀ i, p.length = i + 1 → tritAt p i ≠ .zero := by
  unfold Normal
  rw [List.getLast?_eq_getElem?]
  constructor
  · intro h i hi
    rw [hi, Nat.add_sub_cancel, getElem?_of_lt_length (by omega)] at h
    exact fun hzero => h (congrArg some hzero)
  · intro h hlast
    obtain ⟨hlt, -⟩ := List.getElem?_eq_some_iff.mp hlast
    rw [getElem?_of_lt_length hlt] at hlast
    exact h (p.length - 1) (by omega) (Option.some.inj hlast)

theorem normal_ofNat (n : ℕ) : (ofNat n).Normal := by
  rw [normal_iff_tritAt]
  intro i hi
  have hlt : n < 2 ^ (i + 1) := (length_ofNat_le_iff n (i + 1)).mp hi.le
  have hle : 2 ^ i ≤ n := by
    by_contra h
    have := (length_ofNat_le_iff n i).mpr (by omega)
    omega
  rw [tritAt_ofNat, Nat.testBit_of_two_pow_le_and_two_pow_add_one_gt hle hlt]
  decide

/-- **Merging writes no zero in front.**  The top position of the merged pattern is free, or it is
the top position of the longer pattern. -/
theorem Normal.merge (hp : p.Normal) (hq : q.Normal) (h : p.merge? q = some r) : r.Normal := by
  rw [normal_iff_tritAt] at hp hq ⊢
  intro i hi
  rw [length_merge h] at hi
  obtain ⟨j, hj, hstar, hrest⟩ := merge?_eq_some h
  by_cases hij : i = j
  · rw [hij, hstar]
    decide
  · rw [hrest i hij]
    rcases max_choice p.length q.length with hmax | hmax
    · exact hp i (hmax.symm.trans hi)
    · rw [hj.2 i hij]
      exact hq i (hmax.symm.trans hi)

/-! ### The greatest number -/

theorem lt_two_pow_length_of_allows {n : ℕ} (h : p.allows n = true) : n < 2 ^ p.length :=
  lt_two_pow_of_allows_take (by rwa [List.take_length])

theorem exists_isGreatest_allows (p : Pattern) : ∃ n, IsGreatest {n | p.allows n = true} n := by
  have hbdd : BddAbove {n | p.allows n = true} :=
    ⟨2 ^ p.length, fun _ h => (lt_two_pow_length_of_allows h).le⟩
  exact hbdd.exists_isGreatest_of_nonempty (exists_allows p)

/-- A normal pattern is as long as the greatest number that agrees with it: some number has a one in
the top position. -/
theorem Normal.length_eq (h : p.Normal) {n : ℕ} (hn : IsGreatest {n | p.allows n = true} n) :
    p.length = bitLength n := by
  apply le_antisymm
  · by_contra hlt
    obtain ⟨i, hi⟩ : ∃ i, p.length = i + 1 := Nat.exists_eq_add_one.mpr (by omega)
    have htop : (tritAt p i).allows true = true := by
      have hzero := (normal_iff_tritAt p).mp h i hi
      revert hzero
      cases tritAt p i <;> simp [Trit.allows]
    obtain ⟨m, hm, hbit⟩ := exists_allows_testBit htop
    have hle : 2 ^ i ≤ n := (Nat.ge_two_pow_of_testBit hbit).trans (hn.2 hm)
    have hsmall := (bitLength_le_iff n i).mp (by omega)
    omega
  · rw [bitLength_le_iff]
    exact lt_two_pow_length_of_allows hn.1

end TwoLevel.Pattern
