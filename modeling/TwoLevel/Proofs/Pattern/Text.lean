import Mathlib.Data.List.Basic
import TwoLevel.Pattern
import TwoLevel.Proofs.Text.Layout

/-! # Reading patterns

The texts that are patterns are those of one up to `maxWidth` positions, each of them a zero, a one
or a star (`exists_ofText_iff`), and a pattern that is read has one position for each character
(`length_of_ofText`).  Any other text has one place that is to blame (`exists_position_of_ofText`).
Positions are read back from their characters (`ofChars_map_char`), and characters from their
positions (`text_of_ofText`). -/

namespace TwoLevel

/-- The characters of patterns. -/
def Pattern.symbols : List Char := ['0', '1', '*']

theorem Trit.isNone_ofChar?_iff (c : Char) : (ofChar? c).isNone = true ↔ c ∉ Pattern.symbols := by
  unfold ofChar?
  split <;> simp_all [Pattern.symbols]

namespace Pattern

/-- A text that is a pattern. -/
structure WellFormed (text : String) : Prop where
  symbols : ∀ c ∈ text.toList, c ∈ symbols
  ne_empty : text ≠ ""
  length_le : text.length ≤ maxWidth

theorem WellFormed.oneLine {text : String} (h : WellFormed text) : OneLine text :=
  fun hmem => absurd (h.symbols _ hmem) (by decide)

theorem ofText_eq_ok_iff {text : String} {p : Pattern} :
    ofText text = .ok p ↔ WellFormed text ∧ p = ofChars text.toList := by
  have hfound : text.toList.findIdx? (fun c => (Trit.ofChar? c).isNone) = none ↔
      ∀ c ∈ text.toList, c ∈ symbols := findIdx?_isNone_eq_none_iff Trit.isNone_ofChar?_iff
  unfold ofText
  split
  · next position hposition =>
    refine iff_of_false (fun h => nomatch h) fun h => ?_
    rw [hfound.mpr h.1.symbols] at hposition
    exact nomatch hposition
  · next hnone =>
    split_ifs with hempty hlength
    · refine iff_of_false (fun h => nomatch h) fun h => h.1.ne_empty ?_
      exact String.toList_eq_nil_iff.mp (List.isEmpty_iff.mp hempty)
    · refine iff_of_false (fun h => nomatch h) fun h => ?_
      rw [String.length_toList] at hlength
      exact absurd h.1.length_le (Nat.not_le.mpr hlength)
    · rw [String.length_toList, Nat.not_lt] at hlength
      rw [List.isEmpty_iff, String.toList_eq_nil_iff] at hempty
      constructor
      · intro h
        exact ⟨⟨hfound.mp hnone, hempty, hlength⟩, (Except.ok.inj h).symm⟩
      · rintro ⟨-, rfl⟩
        rfl

theorem exists_ofText_iff (text : String) : (∃ p, ofText text = .ok p) ↔ WellFormed text := by
  simp only [ofText_eq_ok_iff, exists_and_left, exists_eq, and_true]

/-! ### Faults -/

/-- The place of the fault in a text that is no pattern: that of the first character without a
meaning, or else the beginning of an empty text, or else the first position that is too many. -/
def FaultAt (text : String) (i : ℕ) : Prop :=
  IsLeast {j | ∃ c, text.toList[j]? = some c ∧ c ∉ symbols} i ∨
    (∀ c ∈ text.toList, c ∈ symbols) ∧ (text = "" ∧ i = 0 ∨ maxWidth < text.length ∧ i = maxWidth)

theorem exists_position_of_ofText {text : String} (h : ¬ WellFormed text) :
    ∃ f i, ofText text = .error f ∧ f.position? = some i ∧ FaultAt text i := by
  have hsymbols : text.toList.findIdx? (fun c => (Trit.ofChar? c).isNone) = none ↔
      ∀ c ∈ text.toList, c ∈ symbols := findIdx?_isNone_eq_none_iff Trit.isNone_ofChar?_iff
  unfold ofText
  split
  · next position hposition =>
    rw [findIdx?_isNone_eq_some_iff Trit.isNone_ofChar?_iff] at hposition
    exact ⟨_, position, rfl, rfl, .inl hposition⟩
  · next hnone =>
    rw [hsymbols] at hnone
    split_ifs with hempty hlength
    · rw [List.isEmpty_iff, String.toList_eq_nil_iff] at hempty
      exact ⟨_, 0, rfl, rfl, .inr ⟨hnone, .inl ⟨hempty, rfl⟩⟩⟩
    · rw [String.length_toList] at hlength
      exact ⟨_, maxWidth, rfl, rfl, .inr ⟨hnone, .inr ⟨hlength, rfl⟩⟩⟩
    · rw [String.length_toList, Nat.not_lt] at hlength
      rw [List.isEmpty_iff, String.toList_eq_nil_iff] at hempty
      exact absurd ⟨hnone, hempty, hlength⟩ h

/-! ### Characters and positions -/

theorem length_ofChars {chars : List Char} (h : ∀ c ∈ chars, c ∈ symbols) :
    (ofChars chars).length = chars.length := by
  have hsome : ∀ c ∈ chars, (Trit.ofChar? c).isSome = true := by
    intro c hc
    rw [← Option.not_isNone, Bool.not_eq_true', Bool.eq_false_iff, Ne, Trit.isNone_ofChar?_iff,
      not_not]
    exact h c hc
  unfold ofChars
  rw [List.length_reverse, List.length_filterMap_eq_countP, List.countP_eq_length]
  exact hsome

theorem ofChars_map_char (p : Pattern) : ofChars (p.map Trit.char) = p.reverse := by
  have hread : Trit.ofChar? ∘ Trit.char = some := by
    funext a
    cases a <;> rfl
  unfold ofChars
  rw [List.filterMap_map, hread, List.filterMap_some]

theorem mem_symbols_of_mem_map_char {p : Pattern} {c : Char} (h : c ∈ p.map Trit.char) :
    c ∈ symbols := by
  obtain ⟨a, -, rfl⟩ := List.mem_map.mp h
  cases a <;> decide

theorem map_char_ofChars {chars : List Char} (h : ∀ c ∈ chars, c ∈ symbols) :
    (ofChars chars).reverse.map Trit.char = chars := by
  have hread : ∀ c ∈ symbols, (Trit.ofChar? c).map Trit.char = some c := by
    rw [symbols, List.forall_mem_cons, List.forall_mem_cons, List.forall_mem_singleton]
    decide
  unfold ofChars
  rw [List.reverse_reverse, List.map_filterMap, List.filterMap_congr fun c hc => hread c (h c hc),
    List.filterMap_some]

theorem length_of_ofText {text : String} {p : Pattern} (h : ofText text = .ok p) :
    p.length = text.length := by
  obtain ⟨hwell, rfl⟩ := ofText_eq_ok_iff.mp h
  rw [length_ofChars hwell.symbols, String.length_toList]

/-- A pattern that is read is written as it was. -/
theorem text_of_ofText {text : String} {p : Pattern} (h : ofText text = .ok p) :
    p.text = text := by
  have hlength := length_of_ofText h
  obtain ⟨hwell, rfl⟩ := ofText_eq_ok_iff.mp h
  have hne : ofChars text.toList ≠ [] := by
    intro hnil
    rw [hnil, List.length_nil] at hlength
    exact hwell.ne_empty (String.length_eq_zero_iff.mp hlength.symm)
  unfold Pattern.text digits
  rw [if_neg (by rwa [List.isEmpty_iff]), map_char_ofChars hwell.symbols, String.ofList_toList]

theorem stars_of_ofText {text : String} {p : Pattern} (h : ofText text = .ok p) :
    p.count .star = text.toList.count '*' := by
  obtain ⟨-, rfl⟩ := ofText_eq_ok_iff.mp h
  unfold ofChars
  rw [List.count_reverse, List.count_filterMap]
  refine List.countP_congr fun c _ => ?_
  unfold Trit.ofChar?
  split <;> simp_all

end Pattern

end TwoLevel
