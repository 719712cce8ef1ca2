import TwoLevel.Proofs.Export.Patterns
import TwoLevel.Proofs.Text.Numeral

/-! # Inputs in base two

A number is taken apart into bits in two ways: for the pattern of its term, least significant bit
first and as many as there are, and for its text, most significant bit first and filled up with
zeros. The pattern is written as the text (`Pattern.map_char_digits_ofNat`), so that filling up the
text is the same as reading the term over more inputs (`Term.padded_ofNat`), and the characters of
the text are the bits of the number (`Text.toList_binary`). -/

namespace TwoLevel

/-! ### Bits of a number -/

namespace Pattern

theorem bitLength_of_ne_zero {n : ℕ} (h : n ≠ 0) : bitLength n = bitLength (n / 2) + 1 := by
  unfold bitLength
  rw [if_neg h, Nat.log2_def]
  split
  · next hn => rw [if_neg (by omega)]
  · next hn => rw [if_pos (by omega)]

theorem ofNat_of_ne_zero {n : ℕ} (h : n ≠ 0) :
    ofNat n = Trit.ofBool (n.testBit 0) :: ofNat (n / 2) := by
  unfold ofNat
  rw [bitLength_of_ne_zero h, List.range_succ_eq_map, List.map_cons, List.map_map]
  refine congrArg _ (List.map_congr_left fun i _ => ?_)
  rw [Function.comp_apply, Nat.testBit_succ]

theorem char_ofBool_testBit_zero (n : ℕ) :
    (Trit.ofBool (n.testBit 0)).char = Nat.digitChar (n % 2) := by
  rw [Nat.testBit_zero]
  rcases Nat.mod_two_eq_zero_or_one n with h | h <;> rw [h] <;> rfl

/-- **The pattern of a number is written as its numeral.** -/
theorem map_char_digits_ofNat (n : ℕ) : (ofNat n).digits.map Trit.char = Text.binaryDigits n := by
  have hdigits : ∀ {m : ℕ}, m ≠ 0 → (ofNat m).digits = (ofNat m).reverse := by
    intro m hm
    rw [ofNat_of_ne_zero hm]
    rfl
  induction n using Nat.strongRecOn with
  | ind n ih =>
      rcases Nat.lt_or_ge n 2 with hn | hn
      · rcases (by omega : n = 0 ∨ n = 1) with rfl | rfl <;> rfl
      · have hhalf : n / 2 ≠ 0 := by omega
        have hrest := ih (n / 2) (by omega)
        rw [hdigits hhalf] at hrest
        unfold Text.binaryDigits at hrest ⊢
        rw [hdigits (by omega), ofNat_of_ne_zero (by omega), List.reverse_cons, List.map_append,
          hrest, Nat.toDigits_of_base_le (by decide) hn, ← char_ofBool_testBit_zero]
        rfl

end Pattern

theorem Term.padded_ofNat (w n : ℕ) (sources : OrdSet ℤ) :
    Term.padded w ⟨.ofNat n, sources⟩ = Text.binary w n := by
  unfold Term.padded Term.text Pattern.text Text.padLeft Text.binary
  rw [Pattern.map_char_digits_ofNat, String.toList_ofList, if_neg (by omega)]
  rfl

/-- **The characters are the bits**, most significant first. -/
theorem Text.toList_binary {w n : ℕ} (hw : 1 ≤ w) (hn : n < 2 ^ w) :
    (Text.binary w n).toList =
      (List.range w).reverse.map fun k => if n.testBit k then '1' else '0' := by
  have hlength : (Pattern.ofNat n).length ≤ w := (Pattern.length_ofNat_le_iff n w).mpr hn
  rw [← Term.padded_ofNat w n ∅, Term.padded_eq (by omega), String.toList_ofList, Int.toNat_natCast,
    Pattern.extend_eq_map hlength, ← List.map_reverse, List.map_map]
  refine List.map_congr_left fun k _ => ?_
  rw [Function.comp_apply, Pattern.tritAt_ofNat]
  cases n.testBit k <;> rfl

namespace TruthTable

open Text

/-! ### The encoders agree -/

theorem bits_eq_ok {value width : ℤ} (h : 0 ≤ width) :
    bits value width = .ok (binary width.toNat value) := by
  unfold bits
  rw [if_neg (by omega)]

/-- The numeral of an input is read as the term of the input, up to leading zeros. -/
theorem exists_ofText_binary {w n : ℕ} (hw : 1 ≤ w) (hmax : w ≤ maxWidth) (hn : n < 2 ^ w) :
    ∃ t u, Term.ofText (binary w n) = .ok t ∧ Term.ofInt n = .ok u ∧ t ≈ u := by
  have hbound : n < 2 ^ maxWidth := hn.trans_le (Nat.pow_le_pow_right (by decide) hmax)
  obtain ⟨u, hu⟩ := (Term.exists_ofInt_iff n).mpr
    ⟨Int.natCast_nonneg n, by exact_mod_cast hbound⟩
  have hexact := Term.exact_ofInt hu
  have hfits : (n : ℤ) < 2 ^ w := by exact_mod_cast hn
  have hlength := ((Term.Spelling.fits_iff (x := .value n) hu w).mp hfits).length_le
  obtain ⟨k, hk, rfl⟩ := Term.ofInt_eq_ok hu
  obtain rfl : n = k := by exact_mod_cast hk
  rw [← Term.padded_ofNat w n (.singleton (n : ℤ))]
  exact ⟨_, _, Term.ofText_padded (by omega) (by exact_mod_cast hlength) (by omega), hu,
    hexact.ofPattern_extend _⟩

/-- **The encoders agree.**  An integer in base two, filled up to any number of characters, is read
back as the integer, and its length is that number or the least length of a numeral of the integer,
sign included, whichever is more.  Over 1 to `maxWidth` inputs, the numeral of an input has one
character for each of them, the bits of the input with the most significant one first; it is read as
the term of the input, and this term covers the input and no other integer. -/
theorem encoders_agree :
    (∀ value width : ℤ, 0 ≤ width →
      ∃ text shortest, bits value width = .ok text ∧ signedBinary? text = some value ∧
        IsLeast {k | ∃ numeral : String, signedBinary? numeral = some value ∧ numeral.length = k}
          shortest ∧
        (text.length : ℤ) = max width shortest) ∧
    ∀ (w : ℕ) (value : ℤ), 1 ≤ w → w ≤ maxWidth → 0 ≤ value → value < 2 ^ w →
      ∃ text t u, bits value w = .ok text ∧ text.length = w ∧
        text.toList = (List.range w).reverse.map (fun k => if value.toNat.testBit k then '1' else '0') ∧
        Term.ofText text = .ok t ∧ Term.ofInt value = .ok u ∧ t ≈ u ∧
        (∀ v, t.covers v = true ↔ v = value) ∧ ∀ v, u.covers v = true ↔ v = value := by
  constructor
  · intro value width hwidth
    refine ⟨_, _, bits_eq_ok hwidth, signedBinary?_binary _ value, isLeast_length_binary value, ?_⟩
    rw [length_binary]
    omega
  · intro w value hw hmax hvalue hlt
    obtain ⟨n, rfl⟩ := Int.eq_ofNat_of_zero_le hvalue
    have hn : n < 2 ^ w := by exact_mod_cast hlt
    obtain ⟨t, u, ht, hu, hequiv⟩ := exists_ofText_binary hw hmax hn
    have hchars := toList_binary hw hn
    have hcovers : ∀ v, u.covers v = true ↔ v = n := by
      intro v
      rw [← Term.exact_ofInt hu v]
      obtain ⟨k, hk, rfl⟩ := Term.ofInt_eq_ok hu
      rw [hk, OrdSet.mem_singleton]
    refine ⟨binary w n, t, u, bits_eq_ok (Int.natCast_nonneg w), ?_, hchars, ht, hu, hequiv,
      fun v => ?_, hcovers⟩
    · rw [← String.length_toList, hchars, List.length_map, List.length_reverse, List.length_range]
    · rw [Term.covers_congr (Term.equiv_iff.mp hequiv).2, hcovers]

/-- No numeral of -5 is shorter than four characters, also where only two are asked for.  Zero has
no bit of its own and three characters over three inputs. -/
theorem encoders_agree_minus_five_and_zero :
    (bits (-5) 2 = .ok "-101" ∧ signedBinary? "-101" = some (-5) ∧
      IsLeast {k | ∃ numeral : String, signedBinary? numeral = some (-5) ∧ numeral.length = k} 4) ∧
    bits 0 3 = .ok "000" ∧
      ∃ t u, Term.ofText "000" = .ok t ∧ Term.ofInt 0 = .ok u ∧ u.pattern = [] ∧ t ≈ u ∧
        ∀ v, t.covers v = true ↔ v = 0 := by
  have hfive : bits (-5) 2 = .ok "-101" := by decide
  have hzero : bits 0 3 = .ok "000" := by decide
  constructor
  · obtain ⟨text, shortest, htext, hread, hleast, hlength⟩ := encoders_agree.1 (-5) 2 (by decide)
    obtain rfl := Except.ok.inj (hfive.symm.trans htext)
    have hfour : (4 : ℤ) = max 2 (shortest : ℤ) := hlength
    obtain rfl : shortest = 4 := by omega
    exact ⟨hfive, hread, hleast⟩
  · obtain ⟨text, t, u, htext, -, -, ht, hu, hequiv, hcovers, -⟩ :=
      encoders_agree.2 3 0 (by decide) (by decide) (by decide) (by decide)
    obtain rfl := Except.ok.inj (hzero.symm.trans htext)
    have hpattern : u.pattern = [] := by
      obtain rfl := Except.ok.inj hu
      rfl
    exact ⟨hzero, t, u, ht, hu, hpattern, hequiv, hcovers⟩

end TruthTable

end TwoLevel
