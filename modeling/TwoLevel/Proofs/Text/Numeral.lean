import Mathlib.Data.List.Induction
import TwoLevel.Proofs.Text.Layout

/-! # Numerals in base two

An integer that is written in base two is read back, however many zeros fill it up
(`signedBinary?_binary`).  Written without filling it is the shortest of its numerals
(`isLeast_length_binary`), and otherwise it is as long as that one or as it was asked to be,
whichever is more (`length_binary`). -/

namespace TwoLevel

/-! ### Reading -/

namespace Text

/-- Whether a character is a digit of base two. -/
def isBinaryDigit (c : Char) : Bool := c == '0' || c == '1'

/-- The number that digits of base two spell, none if there is no digit or another character. -/
def unsignedBinary? (chars : List Char) : Option ℕ :=
  if !chars.isEmpty && chars.all isBinaryDigit then some (Nat.ofDigitChars 2 chars 0) else none

/-- The integer that digits of base two spell behind an optional minus sign. -/
def signedBinary? (text : String) : Option ℤ :=
  match text.toList with
  | '-' :: digits => (unsignedBinary? digits).map fun n : ℕ => -(n : ℤ)
  | digits => (unsignedBinary? digits).map Int.ofNat

end Text

open Text

theorem unsignedBinary?_eq_some_iff {chars : List Char} {n : ℕ} :
    unsignedBinary? chars = some n ↔
      chars ≠ [] ∧ (∀ c ∈ chars, isBinaryDigit c = true) ∧ Nat.ofDigitChars 2 chars 0 = n := by
  unfold unsignedBinary?
  simp [and_assoc]

theorem signedBinary?_eq_some_iff {text : String} {v : ℤ} :
    signedBinary? text = some v ↔
      (∃ digits n, text.toList = '-' :: digits ∧ unsignedBinary? digits = some n ∧ v = -(n : ℤ)) ∨
      ∃ n : ℕ, unsignedBinary? text.toList = some n ∧ v = n := by
  have hsign : ∀ {digits : List Char} {n : ℕ}, unsignedBinary? ('-' :: digits) ≠ some n :=
    fun h => absurd ((unsignedBinary?_eq_some_iff.mp h).2.1 '-' List.mem_cons_self) (by decide)
  unfold signedBinary?
  split
  · next digits htext =>
    rw [htext, Option.map_eq_some_iff]
    constructor
    · rintro ⟨n, hn, rfl⟩
      exact .inl ⟨digits, n, rfl, hn, rfl⟩
    · rintro (⟨_, n, hcons, hn, rfl⟩ | ⟨n, hn, -⟩)
      · obtain rfl := List.tail_eq_of_cons_eq hcons
        exact ⟨n, hn, rfl⟩
      · exact absurd hn hsign
  · next hother =>
    rw [Option.map_eq_some_iff]
    constructor
    · rintro ⟨n, hn, rfl⟩
      exact .inr ⟨n, hn, rfl⟩
    · rintro (⟨digits, n, hcons, -, -⟩ | ⟨n, hn, rfl⟩)
      · exact absurd hcons (hother digits)
      · exact ⟨n, hn, rfl⟩

/-! ### Digits -/

theorem isBinaryDigit_of_mem_binaryDigits {n : ℕ} {c : Char} (h : c ∈ binaryDigits n) :
    isBinaryDigit c = true := by
  induction n using Nat.strongRecOn with
  | ind n ih =>
      have hlast : ∀ d < 2, isBinaryDigit (Nat.digitChar d) = true := by decide
      unfold binaryDigits at h ih
      rcases Nat.lt_or_ge n 2 with hn | hn
      · rw [Nat.toDigits_of_lt_base hn, List.mem_singleton] at h
        rw [h]
        exact hlast n hn
      · rw [Nat.toDigits_of_base_le (by decide) hn, List.mem_append, List.mem_singleton] at h
        rcases h with h | rfl
        · exact ih (n / 2) (by omega) h
        · exact hlast _ (Nat.mod_lt n (by decide))

theorem ofDigitChars_lt_two_pow {chars : List Char} (h : ∀ c ∈ chars, isBinaryDigit c = true) :
    Nat.ofDigitChars 2 chars 0 < 2 ^ chars.length := by
  induction chars using List.reverseRecOn with
  | nil => simp
  | append_singleton chars c ih =>
      rw [List.forall_mem_append, List.forall_mem_singleton] at h
      have hdigit : c.toNat - '0'.toNat < 2 := by
        have hc : c = '0' ∨ c = '1' := by simpa [isBinaryDigit] using h.2
        rcases hc with rfl | rfl <;> decide
      have hrest := ih h.1
      rw [Nat.ofDigitChars_append, Nat.ofDigitChars_cons, Nat.ofDigitChars_nil, List.length_append,
        List.length_singleton, Nat.pow_succ]
      omega

/-- Zeros in front of the digits of a number do not count. -/
theorem unsignedBinary?_leftpad (width n : ℕ) :
    unsignedBinary? ((binaryDigits n).leftpad width '0') = some n := by
  refine unsignedBinary?_eq_some_iff.mpr ⟨?_, fun c hc => ?_, ?_⟩
  · exact List.append_ne_nil_of_right_ne_nil _ Nat.toDigits_ne_nil
  · rcases mem_leftpad hc with rfl | hc
    · decide
    · exact isBinaryDigit_of_mem_binaryDigits hc
  · unfold List.leftpad
    rw [Nat.ofDigitChars_append, Nat.ofDigitChars_replicate_zero, Nat.mul_zero]
    exact Nat.ofDigitChars_toDigits (by decide) (by decide)

theorem length_binaryDigits_le {chars : List Char} {n : ℕ} (h : unsignedBinary? chars = some n) :
    (binaryDigits n).length ≤ chars.length := by
  obtain ⟨hne, hdigits, rfl⟩ := unsignedBinary?_eq_some_iff.mp h
  exact (Nat.length_toDigits_le_iff (by decide) (List.length_pos_iff.mpr hne)).mpr
    (ofDigitChars_lt_two_pow hdigits)

/-! ### Numerals -/

/-- **What is written is read back.** -/
theorem signedBinary?_binary (width : ℕ) (v : ℤ) : signedBinary? (binary width v) = some v := by
  rw [signedBinary?_eq_some_iff]
  unfold binary
  split
  · next hneg =>
    rw [String.toList_ofList]
    exact .inl ⟨_, v.natAbs, rfl, unsignedBinary?_leftpad _ _, by omega⟩
  · next hpos =>
    rw [String.toList_ofList]
    exact .inr ⟨v.natAbs, unsignedBinary?_leftpad _ _, by omega⟩

theorem length_binary_zero (v : ℤ) :
    (binary 0 v).length = (binaryDigits v.natAbs).length + if v < 0 then 1 else 0 := by
  unfold binary
  split
  · rw [← String.length_toList, String.toList_ofList, List.length_cons, List.length_leftpad]
    omega
  · rw [← String.length_toList, String.toList_ofList, List.length_leftpad]
    omega

theorem length_binary (width : ℕ) (v : ℤ) :
    (binary width v).length = max width (binary 0 v).length := by
  rw [length_binary_zero]
  unfold binary
  split
  · rw [← String.length_toList, String.toList_ofList, List.length_cons, List.length_leftpad]
    omega
  · rw [← String.length_toList, String.toList_ofList, List.length_leftpad]
    omega

/-- **Without filling an integer has its shortest numeral.** -/
theorem isLeast_length_binary (v : ℤ) :
    IsLeast {k | ∃ numeral : String, signedBinary? numeral = some v ∧ numeral.length = k}
      (binary 0 v).length := by
  refine ⟨⟨_, signedBinary?_binary 0 v, rfl⟩, ?_⟩
  rintro _ ⟨numeral, hread, rfl⟩
  rw [length_binary_zero, ← String.length_toList]
  rcases signedBinary?_eq_some_iff.mp hread with ⟨digits, n, htext, hdigits, rfl⟩ | ⟨n, hdigits, rfl⟩
  · have hle := length_binaryDigits_le hdigits
    rw [htext, List.length_cons, Int.natAbs_neg, Int.natAbs_natCast]
    split <;> omega
  · have hle := length_binaryDigits_le hdigits
    rw [Int.natAbs_natCast, if_neg (by omega)]
    omega

end TwoLevel
