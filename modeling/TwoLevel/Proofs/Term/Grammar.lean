import Mathlib.Data.List.Induction
import TwoLevel.Proofs.Sets
import TwoLevel.Proofs.Term.Reading

/-! # The grammar of patterns

A pattern is a numeral in base two with stars for some of its digits, and it stands for all numerals
that come out when every star is replaced by a digit (`Pattern.Fixes`).  Reading a pattern gives
these numbers as its sources (`Pattern.mem_inputs_ofChars_iff`), two to the power of the number of
stars, and showing it gives the text back.

So a text is read exactly when it is a pattern of one up to `maxWidth` characters, and what is
refused is blamed on one place of it (`Term.ofText_grammar`). -/

namespace TwoLevel

namespace Pattern

/-! ### Numerals of a pattern -/

/-- A text with a digit in place of every star, and all else as it was. -/
def Fixes (text digits : List Char) : Prop :=
  List.Forall₂ (fun c d => d ∈ ['0', '1'] ∧ (c = '*' ∨ c = d)) text digits

/-- The bits that a position allows are the digits that its character can be replaced by. -/
theorem mem_bits_iff_digit {c : Char} {a : Trit} (h : Trit.ofChar? c = some a) (b : ℕ) :
    b ∈ a.bits ↔ ∃ d, (d ∈ ['0', '1'] ∧ (c = '*' ∨ c = d)) ∧ b = d.toNat - '0'.toNat := by
  have hc : c ∈ symbols := by
    by_contra hc
    rw [← Trit.isNone_ofChar?_iff, h] at hc
    exact nomatch hc
  simp only [symbols, List.mem_cons, List.not_mem_nil, or_false] at hc
  rcases hc with rfl | rfl | rfl <;> obtain rfl := Option.some.inj h <;> simp [Trit.bits]

theorem ofChars_concat {c : Char} {a : Trit} (h : Trit.ofChar? c = some a) (chars : List Char) :
    ofChars (chars ++ [c]) = a :: ofChars chars := by
  unfold ofChars
  rw [List.filterMap_append, List.reverse_append, List.filterMap_cons_some h, List.filterMap_nil]
  rfl

/-- **The inputs of a pattern** are the numbers of its numerals. -/
theorem mem_inputs_ofChars_iff {chars : List Char} (h : ∀ c ∈ chars, c ∈ symbols) (n : ℕ) :
    n ∈ inputs (ofChars chars) ↔
      ∃ digits, Fixes chars digits ∧ n = Nat.ofDigitChars 2 digits 0 := by
  -- Both sides grow at the least significant end, which is the last character.
  induction chars using List.reverseRecOn generalizing n with
  | nil => simp [ofChars, inputs, Fixes]
  | append_singleton chars c ih =>
      rw [List.forall_mem_append, List.forall_mem_singleton] at h
      obtain ⟨a, ha⟩ : ∃ a, Trit.ofChar? c = some a := by
        rw [← Option.isSome_iff_exists, ← Option.not_isNone, Bool.not_eq_true', Bool.eq_false_iff,
          Ne, Trit.isNone_ofChar?_iff, not_not]
        exact h.2
      have hvalue : ∀ (digits : List Char) (d : Char), Nat.ofDigitChars 2 (digits ++ [d]) 0 =
          2 * Nat.ofDigitChars 2 digits 0 + (d.toNat - '0'.toNat) := by
        intro digits d
        rw [Nat.ofDigitChars_append, Nat.ofDigitChars_cons, Nat.ofDigitChars_nil]
      rw [ofChars_concat ha, inputs, List.mem_flatMap]
      unfold Fixes at ih ⊢
      simp only [forall₂_concat_iff, List.mem_map, ih h.1, mem_bits_iff_digit ha]
      constructor
      · rintro ⟨_, ⟨digits, hdigits, rfl⟩, _, ⟨d, hd, rfl⟩, rfl⟩
        exact ⟨digits ++ [d], ⟨digits, d, rfl, hdigits, hd⟩, (hvalue digits d).symm⟩
      · rintro ⟨_, ⟨digits, d, rfl, hdigits, hd⟩, rfl⟩
        exact ⟨_, ⟨digits, hdigits, rfl⟩, _, ⟨d, hd, rfl⟩, (hvalue digits d).symm⟩

end Pattern

namespace Term

/-! ### Sources of a pattern -/

theorem size_sources_ofPattern (p : Pattern) : (ofPattern p).sources.size = 2 ^ p.stars := by
  have hascending : Ascending ((Pattern.inputs p).map Int.ofNat) :=
    List.pairwise_map.mpr ((Pattern.pairwise_inputs p).imp fun hlt =>
      Std.compare_eq_lt.mpr (Int.ofNat_lt.mpr hlt))
  unfold ofPattern OrdSet.size
  rw [OrdSet.toList_ofList hascending, List.length_map, Pattern.length_inputs]

theorem mem_sources_of_ofText {text : String} {t : Term} (h : ofText text = .ok t) (v : ℤ) :
    v ∈ t.sources ↔ ∃ digits, Pattern.Fixes text.toList digits ∧ v = Nat.ofDigitChars 2 digits 0 := by
  obtain ⟨p, hp, rfl⟩ := ofText_eq_ok h
  obtain ⟨hwell, rfl⟩ := Pattern.ofText_eq_ok_iff.mp hp
  unfold ofPattern
  rw [OrdSet.mem_ofList, List.mem_map]
  simp only [Pattern.mem_inputs_ofChars_iff hwell.symbols]
  constructor
  · rintro ⟨n, ⟨digits, hdigits, rfl⟩, rfl⟩
    exact ⟨digits, hdigits, rfl⟩
  · rintro ⟨digits, hdigits, rfl⟩
    exact ⟨_, ⟨digits, hdigits, rfl⟩, rfl⟩

/-- **Reading accepts exactly the patterns.**  A text is read when it is not empty, has at most
`maxWidth` characters and consists of zeros, ones and stars.  The term then is written as the text,
and its sources are the numbers of the numerals that have a digit in place of every star; there are
two to the power of the number of stars of them, all below two to the power of the length.  Any
other text is refused, and the place that is blamed is the first character that is no zero, one or
star, wherever it is; where there is none, it is the beginning of an empty text and otherwise the
first position that is too many. -/
theorem ofText_grammar (text : String) :
    ((∃ t, ofText text = .ok t) ↔
      text ≠ "" ∧ text.length ≤ maxWidth ∧ ∀ c ∈ text.toList, c ∈ Pattern.symbols) ∧
    (∀ t, ofText text = .ok t →
      t.text = text ∧
      (∀ v : ℤ, v ∈ t.sources ↔
        ∃ digits, Pattern.Fixes text.toList digits ∧ v = Nat.ofDigitChars 2 digits 0) ∧
      t.sources.size = 2 ^ text.toList.count '*' ∧
      ∀ v ∈ t.sources, 0 ≤ v ∧ v < 2 ^ text.length) ∧
    ((¬ ∃ t, ofText text = .ok t) →
      ∃ f i, ofText text = .error f ∧ f.position? = some i ∧ Pattern.FaultAt text i) := by
  have haccept : (∃ t, ofText text = .ok t) ↔ Pattern.WellFormed text :=
    Spelling.exists_read_iff (.text text)
  refine ⟨haccept.trans ⟨fun h => ⟨h.ne_empty, h.length_le, h.symbols⟩,
    fun ⟨hne, hlength, hsymbols⟩ => ⟨hsymbols, hne, hlength⟩⟩, fun t ht => ?_, fun hnone => ?_⟩
  · obtain ⟨p, hp, rfl⟩ := ofText_eq_ok ht
    refine ⟨Pattern.text_of_ofText hp, mem_sources_of_ofText ht, ?_, fun v hv => ?_⟩
    · rw [size_sources_ofPattern, ← Pattern.stars_of_ofText hp]
      rfl
    · obtain ⟨n, rfl⟩ := exists_natCast_of_covers ((exact_ofPattern p v).mp hv)
      have hfits := (Spelling.fits_iff (x := .text text) ht text.length).mp (Nat.le_refl _)
      exact ⟨Int.natCast_nonneg n, by exact_mod_cast hfits.natAbs_lt _ hv⟩
  · obtain ⟨f, i, hf, hi, hfault⟩ := Pattern.exists_position_of_ofText (haccept.not.mp hnone)
    refine ⟨f, i, ?_, hi, hfault⟩
    unfold ofText
    rw [hf]
    rfl

/-- Two stars stand for four numbers.  A bad character is blamed also behind the last position that
could be read. -/
theorem grammar_of_stars_and_faults :
    (∃ t, ofText "0*1*" = .ok t ∧ t.text = "0*1*" ∧ t.sources.size = 4 ∧
      (6 ∈ t.sources ↔ ∃ digits, Pattern.Fixes "0*1*".toList digits ∧
        (6 : ℤ) = Nat.ofDigitChars 2 digits 0) ∧ ∀ v ∈ t.sources, 0 ≤ v ∧ v < 2 ^ 4) ∧
    Pattern.FaultAt "000000000000000000000000000000000x" 33 ∧ Pattern.FaultAt "" 0 ∧
    Pattern.FaultAt "*********************************" 32 := by
  have hplace : ∀ {text : String} {f : Fault} {i : ℕ}, ofText text = .error f →
      f.position? = some i → Pattern.FaultAt text i := by
    intro text f i hf hi
    have hnone : ¬ ∃ t, ofText text = .ok t := by
      rintro ⟨t, ht⟩
      exact nomatch hf.symm.trans ht
    obtain ⟨g, j, hg, hj, hfault⟩ := (ofText_grammar text).2.2 hnone
    obtain rfl := Except.error.inj (hf.symm.trans hg)
    obtain rfl := Option.some.inj (hi.symm.trans hj)
    exact hfault
  have hread : ofText "0*1*" = .ok (ofPattern [.star, .one, .star, .zero]) := rfl
  obtain ⟨htext, hmem, hsize, hbound⟩ := (ofText_grammar "0*1*").2.1 _ hread
  exact ⟨⟨_, hread, htext, hsize, hmem 6, hbound⟩,
    hplace (f := .invalidCharacter _ 33) rfl rfl, hplace (f := .emptyPattern) rfl rfl,
    hplace (f := .patternTooWide _) rfl rfl⟩

end Term

end TwoLevel
