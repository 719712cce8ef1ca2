import Mathlib.Data.Nat.Bitwise
import TwoLevel.Proofs.Pattern.Positions

/-! # Patterns as cubes

The numbers that agree with a pattern form a cube.  A number agrees with a pattern when each of its
bits agrees with the trit in that position (`allows_iff`), so inclusion of cubes is decided
position by position (`allows_subset_iff`), and a cube determines its pattern up to leading zeros.

`setTrit` sets one position of a pattern.  It is how neighbours are reached: freeing a fixed
position joins a cube with the one next to it (`allows_setTrit_star_iff`), and the numbers of ones
and of stars change by that position only (`count_setTrit`). -/

namespace TwoLevel.Pattern

/-! ### Agreement of numbers -/

theorem allows_cons (a : Trit) (p : Pattern) (n : ℕ) :
    allows (a :: p) n = true ↔ a.allows (n.testBit 0) = true ∧ allows p (n / 2) = true := by
  have hbit : (n % 2 == 1) = decide (n % 2 = 1) := rfl
  rw [allows, Bool.and_eq_true, Nat.testBit_zero, hbit]

theorem allows_iff (p : Pattern) (n : ℕ) :
    allows p n = true ↔ ∀ i, (tritAt p i).allows (n.testBit i) = true := by
  induction p generalizing n with
  | nil =>
      constructor
      · intro h i
        have hn : n = 0 := by simpa [allows] using h
        simp [hn, Trit.allows]
      · intro h
        have hn : n = 0 := Nat.eq_of_testBit_eq fun i => by simpa [Trit.allows] using h i
        simp [allows, hn]
  | cons a p ih =>
      rw [allows_cons, ih]
      constructor
      · rintro ⟨h0, h⟩ i
        cases i with
        | zero => exact h0
        | succ i => rw [Nat.testBit_succ]; exact h i
      · intro h
        refine ⟨h 0, fun i => ?_⟩
        rw [← Nat.testBit_succ]
        exact h (i + 1)

theorem allows_congr {p q : Pattern} (h : p.trim = q.trim) (n : ℕ) : allows p n = allows q n := by
  rw [Bool.eq_iff_iff, allows_iff, allows_iff]
  simp only [(trim_eq_trim_iff p q).mp h]

theorem exists_allows (p : Pattern) : ∃ n, allows p n = true := by
  induction p with
  | nil => exact ⟨0, rfl⟩
  | cons a p ih =>
      obtain ⟨n, hn⟩ := ih
      obtain ⟨b, hb⟩ := a.exists_allows
      refine ⟨Nat.bit b n, ?_⟩
      rw [allows_cons, Nat.testBit_bit_zero, Nat.bit_div_two]
      exact ⟨hb, hn⟩

/-- Each bit that a position admits occurs there among the numbers of the cube. -/
theorem exists_allows_testBit {p : Pattern} {i : ℕ} {b : Bool}
    (h : (tritAt p i).allows b = true) : ∃ n, allows p n = true ∧ n.testBit i = b := by
  induction p generalizing i with
  | nil =>
      refine ⟨0, rfl, ?_⟩
      simpa [Trit.allows] using h.symm
  | cons a p ih =>
      cases i with
      | zero =>
          obtain ⟨n, hn⟩ := exists_allows p
          refine ⟨Nat.bit b n, ?_, Nat.testBit_bit_zero b n⟩
          rw [allows_cons, Nat.testBit_bit_zero, Nat.bit_div_two]
          exact ⟨h, hn⟩
      | succ i =>
          obtain ⟨n, hn, hbit⟩ := ih h
          obtain ⟨c, hc⟩ := a.exists_allows
          refine ⟨Nat.bit c n, ?_, ?_⟩
          · rw [allows_cons, Nat.testBit_bit_zero, Nat.bit_div_two]
            exact ⟨hc, hn⟩
          · rw [Nat.testBit_bit_succ, hbit]

/-- **Inclusion of cubes.**  A cube lies in another one exactly when every position of the latter
is free or the same. -/
theorem allows_subset_iff (p q : Pattern) :
    (∀ n, allows p n = true → allows q n = true) ↔
      ∀ i, tritAt q i = .star ∨ tritAt q i = tritAt p i := by
  constructor
  · intro h i
    rw [← Trit.forall_allows_iff]
    intro b hb
    obtain ⟨n, hn, rfl⟩ := exists_allows_testBit hb
    exact (allows_iff q n).mp (h n hn) i
  · intro h n hn
    rw [allows_iff] at hn ⊢
    intro i
    exact (Trit.forall_allows_iff _ _).mpr (h i) _ (hn i)

/-- **A merge is a union.**  A number agrees with a merged pattern exactly when it agrees with one
of the two. -/
theorem allows_merge_iff {p q r : Pattern} (h : p.merge? q = some r) (n : ℕ) :
    allows r n = true ↔ allows p n = true ∨ allows q n = true := by
  obtain ⟨i, hi, hstar, hr⟩ := merge?_eq_some h
  simp only [allows_iff]
  constructor
  · intro hn
    rcases Trit.allows_or_allows hi.1 (n.testBit i) with hp | hq
    · refine Or.inl fun j => ?_
      by_cases hj : j = i
      · rw [hj]; exact hp
      · rw [← hr j hj]; exact hn j
    · refine Or.inr fun j => ?_
      by_cases hj : j = i
      · rw [hj]; exact hq
      · rw [← hi.2 j hj, ← hr j hj]; exact hn j
  · intro hn j
    by_cases hj : j = i
    · rw [hj, hstar]; rfl
    · rw [hr j hj]
      rcases hn with hp | hq
      · exact hp j
      · rw [hi.2 j hj]; exact hq j

/-- Patterns of one cube agree up to leading zeros. -/
theorem trim_eq_of_allows_iff {p q : Pattern}
    (h : ∀ n, allows p n = true ↔ allows q n = true) : p.trim = q.trim := by
  rw [trim_eq_trim_iff]
  intro i
  have hpq := (allows_subset_iff p q).mp (fun n => (h n).mp) i
  have hqp := (allows_subset_iff q p).mp (fun n => (h n).mpr) i
  rcases hpq with hq | hq
  · rcases hqp with hp | hp
    · rw [hp, hq]
    · exact hp
  · exact hq.symm

theorem mem_inputs_iff (p : Pattern) (n : ℕ) : n ∈ inputs p ↔ allows p n = true := by
  induction p generalizing n with
  | nil => simp [inputs, allows]
  | cons a p ih =>
      rw [allows_cons, ← Trit.mem_bits_iff, ← ih]
      simp only [inputs, List.mem_flatMap, List.mem_map, Nat.testBit_zero]
      constructor
      · rintro ⟨m, hm, b, hb, rfl⟩
        have hb2 : b < 2 := by
          cases a <;> simp [Trit.bits] at hb <;> omega
        have hdiv : (2 * m + b) / 2 = m := by omega
        have hmod : (decide ((2 * m + b) % 2 = 1)).toNat = b := by
          rcases (by omega : b = 0 ∨ b = 1) with rfl | rfl <;> simp
        rw [hdiv, hmod]
        exact ⟨hb, hm⟩
      · rintro ⟨hb, hm⟩
        refine ⟨n / 2, hm, _, hb, ?_⟩
        rcases Nat.mod_two_eq_zero_or_one n with h | h <;> simp [h] <;> omega

theorem pairwise_inputs (p : Pattern) : (inputs p).Pairwise (· < ·) := by
  induction p with
  | nil => exact List.pairwise_singleton _ _
  | cons a p ih =>
      have hbit : ∀ b ∈ a.bits, b < 2 := by cases a <;> simp [Trit.bits]
      rw [inputs, List.pairwise_flatMap]
      constructor
      · intro n _
        cases a <;> simp [Trit.bits]
      · refine ih.imp fun {m n} hmn x hx y hy => ?_
        obtain ⟨b, hb, rfl⟩ := List.mem_map.mp hx
        obtain ⟨c, -, rfl⟩ := List.mem_map.mp hy
        have := hbit b hb
        omega

/-! ### Patterns of single numbers -/

theorem bitLength_le_iff (n w : ℕ) : bitLength n ≤ w ↔ n < 2 ^ w := by
  unfold bitLength
  split_ifs with h
  · rw [h]
    exact ⟨fun _ => Nat.two_pow_pos w, fun _ => Nat.zero_le w⟩
  · rw [Nat.succ_le_iff, Nat.log2_lt h]

theorem length_ofNat (n : ℕ) : (ofNat n).length = bitLength n := by
  unfold ofNat
  rw [List.length_map, List.length_range]

theorem length_ofNat_le_iff (n w : ℕ) : (ofNat n).length ≤ w ↔ n < 2 ^ w := by
  rw [length_ofNat, bitLength_le_iff]

theorem tritAt_ofNat (n i : ℕ) : tritAt (ofNat n) i = Trit.ofBool (n.testBit i) := by
  by_cases h : i < bitLength n
  · simp [tritAt, ofNat, h]
  · have hlen : (ofNat n).length ≤ i := by
      rw [length_ofNat]
      omega
    rw [tritAt_of_length_le hlen, Nat.testBit_lt_two_pow ((length_ofNat_le_iff n i).mp hlen)]
    rfl

theorem allows_ofNat (n m : ℕ) : allows (ofNat n) m = true ↔ m = n := by
  rw [allows_iff]
  simp only [tritAt_ofNat]
  constructor
  · intro h
    apply Nat.eq_of_testBit_eq
    intro i
    have hi := h i
    cases hn : n.testBit i <;> simpa [hn, Trit.ofBool, Trit.allows] using hi
  · rintro rfl i
    cases m.testBit i <;> rfl

/-! ### Replacing a position -/

/-- The pattern with one position set, filled up with zeros as far as needed. -/
def setTrit : Pattern → ℕ → Trit → Pattern
  | [], 0, c => [c]
  | [], i + 1, c => .zero :: setTrit [] i c
  | _ :: p, 0, c => c :: p
  | a :: p, i + 1, c => a :: setTrit p i c

theorem tritAt_setTrit (p : Pattern) (i : ℕ) (c : Trit) (j : ℕ) :
    tritAt (setTrit p i c) j = if j = i then c else tritAt p j := by
  fun_induction setTrit p i c generalizing j with
  | case1 c => cases j <;> simp
  | case2 i c ih => cases j <;> simp [ih]
  | case3 a p c => cases j <;> simp
  | case4 a p i c ih => cases j <;> simp [ih]

@[simp] theorem tritAt_setTrit_same (p : Pattern) (i : ℕ) (c : Trit) :
    tritAt (setTrit p i c) i = c := by
  rw [tritAt_setTrit, if_pos rfl]

theorem tritAt_setTrit_ne (p : Pattern) {i j : ℕ} (c : Trit) (h : j ≠ i) :
    tritAt (setTrit p i c) j = tritAt p j := by
  rw [tritAt_setTrit, if_neg h]

theorem differAt_setTrit (p : Pattern) (i : ℕ) {c d : Trit} (h : c ≠ d) :
    DifferAt (setTrit p i c) (setTrit p i d) i := by
  refine ⟨by simpa using h, fun j hj => ?_⟩
  rw [tritAt_setTrit_ne p c hj, tritAt_setTrit_ne p d hj]

theorem trim_setTrit_self {p : Pattern} {i : ℕ} {c : Trit} (h : tritAt p i = c) :
    (setTrit p i c).trim = p.trim := by
  rw [trim_eq_trim_iff]
  intro j
  rw [tritAt_setTrit]
  split_ifs with hj
  · rw [hj, h]
  · rfl

theorem trim_setTrit_setTrit (p : Pattern) (i : ℕ) (c d : Trit) :
    (setTrit (setTrit p i c) i d).trim = (setTrit p i d).trim := by
  rw [trim_eq_trim_iff]
  intro j
  simp only [tritAt_setTrit]
  split_ifs <;> rfl

theorem trim_setTrit_congr {p q : Pattern} (h : p.trim = q.trim) (i : ℕ) (c : Trit) :
    (setTrit p i c).trim = (setTrit q i c).trim := by
  rw [trim_eq_trim_iff] at h ⊢
  intro j
  rw [tritAt_setTrit, tritAt_setTrit, h j]

theorem trim_setTrit_comm (p : Pattern) {i j : ℕ} (h : i ≠ j) (c d : Trit) :
    (setTrit (setTrit p i c) j d).trim = (setTrit (setTrit p j d) i c).trim := by
  rw [trim_eq_trim_iff]
  intro k
  simp only [tritAt_setTrit]
  split_ifs with hj hi
  · exact absurd (hi.symm.trans hj) h
  all_goals rfl

theorem DifferAt.trim_setTrit {p q : Pattern} {i : ℕ} (h : DifferAt p q i) (c : Trit) :
    (setTrit p i c).trim = (setTrit q i c).trim := by
  rw [trim_eq_trim_iff]
  intro j
  rw [tritAt_setTrit, tritAt_setTrit]
  split_ifs with hj
  · rfl
  · exact h.2 j hj

theorem DifferAt.replace {p q : Pattern} {i j : ℕ} (h : DifferAt p q j) (hij : i ≠ j) (c : Trit) :
    DifferAt (setTrit p i c) (setTrit q i c) j := by
  constructor
  · rw [tritAt_setTrit_ne p c hij.symm, tritAt_setTrit_ne q c hij.symm]
    exact h.1
  · intro k hk
    rw [tritAt_setTrit, tritAt_setTrit, h.2 k hk]

/-- A strictly larger cube has room for one of the fixed positions to be freed. -/
theorem exists_setTrit_star_subset {p q : Pattern}
    (hsub : ∀ n, allows p n = true → allows q n = true)
    (hne : ¬ ∀ n, allows q n = true → allows p n = true) :
    ∃ i, tritAt p i ≠ .star ∧
      ∀ n, allows (setTrit p i .star) n = true → allows q n = true := by
  rw [allows_subset_iff] at hsub hne
  push Not at hne
  obtain ⟨i, hstar, hi⟩ := hne
  have hqi : tritAt q i = .star := (hsub i).resolve_right hi.symm
  refine ⟨i, hstar, (allows_subset_iff _ q).mpr fun j => ?_⟩
  rw [tritAt_setTrit]
  split_ifs with hj
  · exact Or.inl (hj ▸ hqi)
  · exact hsub j

/-- A fixed position, freed: the cube is the union of the cubes of its two values. -/
theorem allows_setTrit_star_iff (p : Pattern) (i n : ℕ) :
    allows (setTrit p i .star) n = true ↔
      allows (setTrit p i .zero) n = true ∨ allows (setTrit p i .one) n = true := by
  simp only [allows_iff, tritAt_setTrit]
  constructor
  · intro h
    cases hn : n.testBit i
    · refine Or.inl fun j => ?_
      split_ifs with hj
      · rw [hj, hn]; rfl
      · simpa [hj] using h j
    · refine Or.inr fun j => ?_
      split_ifs with hj
      · rw [hj, hn]; rfl
      · simpa [hj] using h j
  · rintro (h | h) j <;>
    · split_ifs with hj
      · rfl
      · simpa [hj] using h j

/-! ### Counting positions -/

/-- The number of free positions. -/
def stars (p : Pattern) : ℕ := p.count .star

theorem length_inputs (p : Pattern) : (inputs p).length = 2 ^ stars p := by
  induction p with
  | nil => rfl
  | cons a p ih =>
      have hbits : (inputs (a :: p)).length = a.bits.length * (inputs p).length := by
        simp only [inputs, List.length_flatMap, List.length_map, List.map_const',
          List.sum_replicate_nat, Nat.mul_comm]
      unfold stars at ih ⊢
      rw [hbits, ih, List.count_cons]
      cases a <;> simp [Trit.bits, Nat.pow_succ, Nat.mul_comm]

theorem count_eq_zero_of_trim_eq_nil {p : Pattern} (h : p.trim = []) {d : Trit} (hd : d ≠ .zero) :
    p.count d = 0 := by
  rw [trim_eq_nil_iff] at h
  induction p with
  | nil => rfl
  | cons a p ih =>
      have ha : a = .zero := h 0
      rw [List.count_cons, ih fun i => h (i + 1), if_neg (by simp [ha, hd.symm])]

theorem count_trim (p : Pattern) {d : Trit} (hd : d ≠ .zero) : p.trim.count d = p.count d := by
  induction p with
  | nil => rfl
  | cons a p ih =>
      rw [trim_cons]
      split_ifs with h
      · have hp : trim (a :: p) = [] := by rw [trim_cons, if_pos h]
        rw [count_eq_zero_of_trim_eq_nil hp hd, List.count_nil]
      · rw [List.count_cons, List.count_cons, ih]

theorem count_congr {p q : Pattern} (h : p.trim = q.trim) {d : Trit} (hd : d ≠ .zero) :
    p.count d = q.count d := by
  rw [← count_trim p hd, h, count_trim q hd]

theorem count_setTrit (p : Pattern) (i : ℕ) (c : Trit) {d : Trit} (hd : d ≠ .zero) :
    (setTrit p i c).count d + (if tritAt p i = d then 1 else 0) =
      p.count d + if c = d then 1 else 0 := by
  have hzero : ¬ (Trit.zero = d) := fun e => hd e.symm
  fun_induction setTrit p i c with
  | case1 c => simp [List.count_cons, hzero]
  | case2 i c ih => simpa [List.count_cons, hzero] using ih
  | case3 a p c =>
      rw [List.count_cons, List.count_cons, tritAt_cons_zero]
      simp only [beq_iff_eq]
      split_ifs <;> omega
  | case4 a p i c ih =>
      rw [List.count_cons, List.count_cons, tritAt_cons_succ]
      omega

/-- Patterns that differ in one position have counts that differ by it. -/
theorem DifferAt.count_eq {p q : Pattern} {i : ℕ} (h : DifferAt p q i) {d : Trit}
    (hd : d ≠ .zero) :
    p.count d + (if tritAt q i = d then 1 else 0) =
      q.count d + if tritAt p i = d then 1 else 0 := by
  have hp : p.trim = (setTrit q i (tritAt p i)).trim := by
    rw [trim_eq_trim_iff]
    intro j
    rw [tritAt_setTrit]
    split_ifs with hj
    · rw [hj]
    · exact h.2 j hj
  rw [count_congr hp hd]
  exact count_setTrit q i (tritAt p i) hd

theorem stars_setTrit_star {p : Pattern} {i : ℕ} (h : tritAt p i ≠ .star) :
    (setTrit p i .star).stars = p.stars + 1 := by
  have hcount := count_setTrit p i .star (d := .star) (by decide)
  rw [if_neg h, if_pos rfl] at hcount
  exact hcount

theorem stars_setTrit_of_star {p : Pattern} {i : ℕ} (hi : tritAt p i = .star) {c : Trit}
    (hc : c ≠ .star) : (setTrit p i c).stars + 1 = p.stars := by
  have hcount := count_setTrit p i c (d := .star) (by decide)
  rw [if_pos hi, if_neg hc] at hcount
  exact hcount

theorem ones_setTrit_of_star {p : Pattern} {i : ℕ} (hi : tritAt p i = .star) (c : Trit) :
    (setTrit p i c).ones = p.ones + if c = .one then 1 else 0 := by
  have hcount := count_setTrit p i c (d := .one) (by decide)
  rw [hi, if_neg (by decide : ¬ Trit.star = .one)] at hcount
  exact hcount

theorem ones_setTrit_star_le (p : Pattern) (i : ℕ) : (setTrit p i .star).ones ≤ p.ones := by
  have hcount := count_setTrit p i .star (d := .one) (by decide)
  rw [if_neg (by decide : ¬ Trit.star = .one)] at hcount
  unfold ones
  omega

theorem trim_merge_eq {p q r : Pattern} (h : p.merge? q = some r) :
    ∃ i, DifferAt p q i ∧ r.trim = (setTrit p i .star).trim := by
  obtain ⟨i, hi, hstar, hr⟩ := merge?_eq_some h
  refine ⟨i, hi, (trim_eq_trim_iff r _).mpr fun j => ?_⟩
  rw [tritAt_setTrit]
  split_ifs with hj
  · rw [hj, hstar]
  · exact hr j hj

theorem differAt_of_halves {p s t : Pattern} {i : ℕ} (hs : s.trim = (setTrit p i .zero).trim)
    (ht : t.trim = (setTrit p i .one).trim) : DifferAt s t i :=
  (differAt_setTrit p i (by decide)).congr hs ht

theorem trim_setTrit_star_of_half {p s : Pattern} {i : ℕ} {c : Trit} (hi : tritAt p i = .star)
    (hs : s.trim = (setTrit p i c).trim) : (setTrit s i .star).trim = p.trim := by
  rw [trim_setTrit_congr hs, trim_setTrit_setTrit, trim_setTrit_self hi]

theorem exists_one_of_merge {p q r : Pattern} (h : p.merge? q = some r)
    (hpq : q.ones = p.ones + 1) :
    ∃ i, DifferAt p q i ∧ tritAt q i = .one ∧ r.trim = (setTrit q i .star).trim := by
  obtain ⟨i, hi, hr⟩ := trim_merge_eq h
  refine ⟨i, hi, ?_, hr.trans (hi.trim_setTrit .star)⟩
  have hcount := hi.count_eq (d := .one) (by decide)
  unfold ones at hpq
  by_contra hne
  rw [if_neg hne] at hcount
  omega

theorem ones_merge {p q r : Pattern} (h : p.merge? q = some r) (hpq : q.ones = p.ones + 1) :
    r.ones = p.ones := by
  obtain ⟨i, -, hone, hr⟩ := exists_one_of_merge h hpq
  have hset := count_setTrit q i .star (d := .one) (by decide)
  rw [if_pos hone, if_neg (by decide)] at hset
  unfold ones at hpq ⊢
  rw [count_congr hr (by decide)]
  omega

theorem stars_merge {p q r : Pattern} (h : p.merge? q = some r) (hpq : q.ones = p.ones + 1) :
    r.stars = q.stars + 1 := by
  obtain ⟨i, -, hone, hr⟩ := exists_one_of_merge h hpq
  unfold stars
  rw [count_congr hr (by decide)]
  exact stars_setTrit_star (by rw [hone]; decide)

/-- Of two patterns that merge upwards the lower one has no fewer free positions. -/
theorem stars_le_of_merge {p q r : Pattern} (h : p.merge? q = some r)
    (hpq : q.ones = p.ones + 1) : q.stars ≤ p.stars := by
  obtain ⟨i, hi, hone, -⟩ := exists_one_of_merge h hpq
  have hcount := hi.count_eq (d := .star) (by decide)
  rw [if_neg (by rw [hone]; decide)] at hcount
  unfold stars
  omega

theorem exists_tritAt_eq_star {p : Pattern} (h : p.stars ≠ 0) : ∃ i, tritAt p i = .star := by
  unfold stars at h
  rw [Ne, List.count_eq_zero, not_not] at h
  obtain ⟨i, hi, he⟩ := List.mem_iff_getElem.mp h
  refine ⟨i, ?_⟩
  unfold tritAt
  rw [List.getD_eq_getElem?_getD, List.getElem?_eq_getElem hi, he]
  rfl

theorem tritAt_ne_star {p : Pattern} (h : p.stars = 0) (i : ℕ) : tritAt p i ≠ .star := by
  intro hi
  have hset := count_setTrit p i .zero (d := .star) (by decide)
  rw [if_pos hi, if_neg (by decide)] at hset
  unfold stars at h
  omega

theorem trim_eq_ofNat {p : Pattern} (h : p.stars = 0) {n : ℕ} (hn : allows p n = true) :
    p.trim = (ofNat n).trim := by
  rw [trim_eq_trim_iff]
  intro i
  have hbit := (allows_iff p n).mp hn i
  rw [tritAt_ofNat]
  cases hp : tritAt p i
  · exact absurd hp (tritAt_ne_star h i)
  · rw [hp] at hbit
    cases hn : n.testBit i
    · rfl
    · simp [hn, Trit.allows] at hbit
  · rw [hp] at hbit
    cases hn : n.testBit i
    · simp [hn, Trit.allows] at hbit
    · rfl

theorem stars_ofNat (n : ℕ) : (ofNat n).stars = 0 := by
  unfold stars
  rw [List.count_eq_zero]
  intro h
  obtain ⟨i, -, hi⟩ := List.mem_map.mp h
  cases hn : n.testBit i <;> simp [hn, Trit.ofBool] at hi

/-! ### Cubes below a power of two -/

theorem lt_two_pow_of_allows_take {p : Pattern} {w n : ℕ} (h : allows (p.take w) n = true) :
    n < 2 ^ w := by
  apply Nat.lt_pow_two_of_testBit
  intro i hi
  have hb := (allows_iff _ n).mp h i
  rw [tritAt_take, if_neg (by omega)] at hb
  simpa [Trit.allows] using hb

theorem allows_take_of_allows {p : Pattern} {w n : ℕ} (hn : n < 2 ^ w) (h : allows p n = true) :
    allows (p.take w) n = true := by
  rw [allows_iff] at h ⊢
  intro i
  rw [tritAt_take]
  split_ifs with hi
  · exact h i
  · have hlt : n < 2 ^ i := lt_of_lt_of_le hn (Nat.pow_le_pow_right (by omega) (by omega))
    rw [Nat.testBit_lt_two_pow hlt]
    rfl

theorem allows_of_allows_take {p : Pattern} {w n : ℕ} (hone : ∀ i, w ≤ i → tritAt p i ≠ .one)
    (h : allows (p.take w) n = true) : allows p n = true := by
  have hn := lt_two_pow_of_allows_take h
  rw [allows_iff] at h ⊢
  intro i
  have hbit := h i
  rw [tritAt_take] at hbit
  split_ifs at hbit with hi
  · exact hbit
  · have hne := hone i (by omega)
    have hlt : n < 2 ^ i := lt_of_lt_of_le hn (Nat.pow_le_pow_right (by omega) (by omega))
    rw [Nat.testBit_lt_two_pow hlt]
    cases ht : tritAt p i
    · rfl
    · rfl
    · exact absurd ht hne

theorem allows_eq_false_of_one {p : Pattern} {w i n : ℕ} (hi : w ≤ i) (hone : tritAt p i = .one)
    (hn : n < 2 ^ w) : allows p n = false := by
  rw [Bool.eq_false_iff]
  intro h
  have hbit := (allows_iff p n).mp h i
  have hlt : n < 2 ^ i := lt_of_lt_of_le hn (Nat.pow_le_pow_right (by omega) hi)
  rw [hone, Nat.testBit_lt_two_pow hlt] at hbit
  exact absurd hbit (by decide)

/-- What a cube has below a power of two is nothing, or the cube of the lowest positions. -/
theorem allows_take_iff (p : Pattern) (w : ℕ) :
    (∀ n, n < 2 ^ w → allows p n = false) ∨
      ∀ n, allows (p.take w) n = true ↔ n < 2 ^ w ∧ allows p n = true := by
  by_cases h : ∃ i, w ≤ i ∧ tritAt p i = .one
  · left
    obtain ⟨i, hi, hone⟩ := h
    intro n hn
    exact allows_eq_false_of_one hi hone hn
  · right
    have hone : ∀ i, w ≤ i → tritAt p i ≠ .one := fun i hi e => h ⟨i, hi, e⟩
    intro n
    constructor
    · intro hp
      exact ⟨lt_two_pow_of_allows_take hp, allows_of_allows_take hone hp⟩
    · rintro ⟨hn, hp⟩
      exact allows_take_of_allows hn hp

end TwoLevel.Pattern
