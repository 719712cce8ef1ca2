import TwoLevel.Export.Document
import TwoLevel.Proofs.Problem

/-! # Patterns read back

A padded term is written as its pattern with zeros added, so reading the text gives back this
pattern (`Term.ofText_padded`) and, for an exact term, an equivalent term.  The patterns of a
solution stand one on a line, and reading the lines gives back its implicants one by one
(`Solution.readAll_patterns`). -/

namespace TwoLevel

namespace Term

/-! ### One pattern -/

variable {t : Term} {width : ℤ}

theorem padded_eq (hpos : 1 ≤ width) :
    t.padded width = String.ofList ((t.pattern.extend width.toNat).reverse.map Trit.char) := by
  unfold padded text Pattern.text Pattern.digits Text.padLeft Pattern.extend List.leftpad
    List.rightpad
  rw [String.toList_ofList]
  congr 1
  split
  · next hempty =>
    obtain ⟨w, hw⟩ : ∃ w, width.toNat = w + 1 := ⟨width.toNat - 1, by omega⟩
    rw [List.isEmpty_iff.mp hempty, hw]
    simp only [List.map_cons, List.map_nil, List.length_singleton, Nat.add_sub_cancel,
      List.nil_append, List.length_nil, Nat.sub_zero, List.reverse_replicate, List.map_replicate,
      Trit.char]
    exact List.replicate_succ'.symm
  · simp [Trit.char]

section

variable (hpos : 1 ≤ width) (hlength : (t.pattern.length : ℤ) ≤ width)
include hpos hlength

theorem length_padded : (t.padded width).length = width.toNat := by
  rw [padded_eq hpos, ← String.length_toList, String.toList_ofList, List.length_map,
    List.length_reverse, Pattern.length_extend (by omega)]

theorem wellFormed_padded (hmax : width ≤ maxWidth) : Pattern.WellFormed (t.padded width) := by
  have hchars := length_padded hpos hlength
  refine ⟨fun c hc => ?_, fun hempty => ?_, by omega⟩
  · rw [padded_eq hpos, String.toList_ofList] at hc
    exact Pattern.mem_symbols_of_mem_map_char hc
  · rw [hempty] at hchars
    have : width.toNat = 0 := hchars.symm
    omega

/-- **Reading a padded term** gives the pattern with the zeros that were added. -/
theorem ofText_padded (hmax : width ≤ maxWidth) :
    ofText (t.padded width) = .ok (ofPattern (t.pattern.extend width.toNat)) := by
  have hread : Pattern.ofText (t.padded width) = .ok (t.pattern.extend width.toNat) := by
    refine Pattern.ofText_eq_ok_iff.mpr ⟨wellFormed_padded hpos hlength hmax, ?_⟩
    rw [padded_eq hpos, String.toList_ofList, Pattern.ofChars_map_char, List.reverse_reverse]
  unfold ofText
  rw [hread]
  rfl

end

/-- The pattern of an exact term stands for its sources, with any zeros added. -/
theorem Exact.ofPattern_extend (h : t.Exact) (w : ℕ) : ofPattern (t.pattern.extend w) ≈ t :=
  ((exact_ofPattern _).equiv_iff_trim_eq h).mpr (Pattern.trim_extend w t.pattern)

end Term

/-! ### All patterns -/

namespace Solution

variable {s : Solution} (hpos : 1 ≤ s.width) (hmax : s.width ≤ maxWidth)
  (hlength : ∀ t ∈ s.implicants, (t.pattern.length : ℤ) ≤ s.width)
include hpos hmax hlength

theorem wellFormed_of_mem_map_padded :
    ∀ line ∈ s.implicants.map (Term.padded s.width), Pattern.WellFormed line :=
  List.forall_mem_map.mpr fun t ht => Term.wellFormed_padded hpos (hlength t ht) hmax

theorem lines_patterns : Text.lines s.patterns = s.implicants.map (Term.padded s.width) := by
  have hwell := wellFormed_of_mem_map_padded hpos hmax hlength
  refine lines_stacked (fun line hline => (hwell line hline).oneLine) ?_
  intro hlast
  exact (hwell "" (List.mem_of_getLast? hlast)).ne_empty rfl

theorem split_patterns (hne : s.implicants ≠ []) :
    (s.patterns.toList.splitOn '\n').map String.ofList =
      s.implicants.map (Term.padded s.width) := by
  have hwell := wellFormed_of_mem_map_padded hpos hmax hlength
  unfold patterns
  rw [splitOn_stacked (fun line hline => (hwell line hline).oneLine) (by simpa using hne),
    List.map_map]
  exact List.map_id'' (fun line => String.ofList_toList) _

/-- **Reading the patterns of a solution** gives its implicants back, in their order. -/
theorem readAll_patterns (hexact : ∀ t ∈ s.implicants, t.Exact) :
    ∃ ts, Term.readAll ((Text.lines s.patterns).map .text) = .ok ts ∧
      List.Forall₂ (· ≈ ·) ts s.implicants := by
  refine ⟨s.implicants.map fun t => .ofPattern (t.pattern.extend s.width.toNat), ?_, ?_⟩
  · rw [lines_patterns hpos hmax hlength, Term.readAll_eq_ok_iff, List.forall₂_map_left_iff,
      List.forall₂_map_left_iff, List.forall₂_map_right_iff, List.forall₂_same]
    exact fun t ht => Term.ofText_padded hpos (hlength t ht) hmax
  · rw [List.forall₂_map_left_iff, List.forall₂_same]
    exact fun t ht => (hexact t ht).ofPattern_extend _

/-- The patterns are accepted as a problem over the same inputs, whether or not their number is
given, and are read as terms equivalent to the implicants. -/
theorem exists_read_patterns (hexact : ∀ t ∈ s.implicants, t.Exact) {width : Option ℤ}
    (hwidth : ∀ w, width = some w → w = s.width) :
    ∃ p, Problem.read ((Text.lines s.patterns).map .text) [] width = .ok p ∧
      List.Forall₂ (· ≈ ·) p.minterms s.implicants ∧ p.dontCares = [] := by
  have hlines := lines_patterns hpos hmax hlength
  have haccepted : ∃ p, Problem.read ((Text.lines s.patterns).map .text) [] width = .ok p := by
    rw [Problem.exists_read_iff, hlines, List.append_nil, List.forall_mem_map]
    refine ⟨wellFormed_of_mem_map_padded hpos hmax hlength, fun w hw => ?_⟩
    rw [hwidth w hw, List.forall_mem_map, List.forall_mem_map]
    refine ⟨hpos, hmax, fun t ht => ?_⟩
    exact Nat.le_of_eq (Term.length_padded hpos (hlength t ht))
  obtain ⟨p, hp⟩ := haccepted
  obtain ⟨hm, hd, -⟩ := Problem.read_eq_ok hp
  obtain ⟨ts, hts, hequiv⟩ := readAll_patterns hpos hmax hlength hexact
  rw [← Except.ok.inj (hm.symm.trans hts)] at hequiv
  exact ⟨p, hp, hequiv, (Except.ok.inj hd).symm⟩

end Solution

end TwoLevel
