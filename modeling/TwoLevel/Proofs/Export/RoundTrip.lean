import TwoLevel.Proofs.Export.Function
import TwoLevel.Proofs.Export.Patterns
import TwoLevel.Proofs.Term.Built

/-! # Terms written and read back

Whatever a term is built from, it has at most `maxWidth` positions (`Term.Built.length_le`), so its
text is a pattern again, also with zeros in front as far as there is room.  The pattern read has the
sources that the term was built with, as these are the numbers that its pattern covers
(`Term.Built.exact`).

The implicants of a solution, whichever backend chose them, fit into its width and are exact.  So
the lines of its patterns are read as its implicants (`renderings_read_back`). -/

namespace TwoLevel

/-! ### Built terms -/

namespace Term

variable {t : Term}

theorem length_pattern_le_of_read {x : Spelling} (hx : x.Plain) (h : x.read = .ok t) :
    t.pattern.length ≤ maxWidth := by
  have hvalid : x.Valid := x.exists_read_iff.mp ⟨t, h⟩
  exact ((Spelling.fits_iff h maxWidth).mp (hvalid.fits hx)).1

theorem Built.length_le (h : t.Built) : t.pattern.length ≤ maxWidth := by
  induction h with
  | @ofInt n t h => exact length_pattern_le_of_read (x := .value n) trivial h
  | @ofText s t h => exact length_pattern_le_of_read (x := .text s) trivial h
  | merge _ _ h ihs iht =>
      rw [Pattern.length_merge (merge?_eq_some h).1]
      exact max_le ihs iht

theorem length_text (t : Term) : t.text.length = max 1 t.pattern.length := by
  unfold text Pattern.text Pattern.digits
  rw [← String.length_toList, String.toList_ofList, List.length_map]
  cases t.pattern with
  | nil => rfl
  | cons a p => simp

theorem padded_length_text (t : Term) : t.padded t.text.length = t.text := by
  unfold padded Text.padLeft List.leftpad
  rw [Int.toNat_natCast, String.length_toList, Nat.sub_self, List.replicate_zero, List.nil_append,
    String.ofList_toList]

/-- **A built term is read back** from its text filled up to any width that holds it. -/
theorem Built.exists_ofText_padded (h : t.Built) {w : ℤ} (hpos : 1 ≤ w)
    (hlength : (t.pattern.length : ℤ) ≤ w) (hmax : w ≤ maxWidth) :
    ∃ u, Term.ofText (t.padded w) = .ok u ∧ u.pattern = t.pattern.extend w.toNat ∧ u ≈ t :=
  ⟨_, ofText_padded hpos hlength hmax, rfl, h.exact.ofPattern_extend _⟩

theorem Built.exists_ofText_text (h : t.Built) :
    ∃ u, Term.ofText t.text = .ok u ∧ u ≈ t := by
  have hlength := h.length_le
  have hmax : maxWidth = 32 := rfl
  have hchars := t.length_text
  obtain ⟨u, hu, -, hequiv⟩ := h.exists_ofText_padded (w := t.text.length) (by omega) (by omega)
    (by omega)
  rw [padded_length_text] at hu
  exact ⟨u, hu, hequiv⟩

end Term

/-! ### Solutions -/

namespace Problem

variable {p : Problem} {solver : MaxSat.Solver} {method : Method} {s : Solution}

theorem solution_of_solveWith {primes : List Term}
    (hs : p.solveWith solver primes method = .ok s) :
    s.width = p.width ∧ s.implicants.Sublist primes := by
  obtain ⟨chosen, -, rfl⟩ := p.solveWith_eq_ok_iff.mp hs
  exact ⟨rfl, Cover.pick_sublist chosen primes⟩

end Problem

/-- **Writing and reading are inverse.**  A term built from integers and patterns by merging,
written over any number of inputs from its own to the largest, has as many characters and is read as
an equivalent term; and so it is when it is written in its own length.  The patterns of a solution,
whichever backend chose its implicants, are read line by line as its implicants in their order. -/
theorem renderings_read_back :
    (∀ t : Term, t.Built →
      (∀ w : ℤ, 1 ≤ w → (t.pattern.length : ℤ) ≤ w → w ≤ maxWidth →
        (t.padded w).length = w.toNat ∧
          ∃ u, Term.ofText (t.padded w) = .ok u ∧ u.pattern = t.pattern.extend w.toNat ∧ u ≈ t) ∧
      ∃ u, Term.ofText t.text = .ok u ∧ u ≈ t) ∧
    ∀ (minterms dontCares : List Term.Spelling) (width : Option ℤ) (p : Problem)
      (solver : MaxSat.Solver) (method : Method) (s : Solution),
      (∀ x ∈ minterms ++ dontCares, x.Plain) → Problem.read minterms dontCares width = .ok p →
      p.solveWith solver p.primes method = .ok s →
      (s.implicants ≠ [] →
        (s.patterns.toList.splitOn '\n').map String.ofList = Text.lines s.patterns) ∧
      ∃ ts, Term.readAll ((Text.lines s.patterns).map .text) = .ok ts ∧
        List.Forall₂ (· ≈ ·) ts s.implicants := by
  constructor
  · intro t ht
    exact ⟨fun w hpos hlength hmax =>
      ⟨Term.length_padded hpos hlength, ht.exists_ofText_padded hpos hlength hmax⟩,
      ht.exists_ofText_text⟩
  · intro minterms dontCares width p solver method s hplain hp hs
    obtain ⟨hwidth, hsub⟩ := Problem.solution_of_solveWith hs
    obtain ⟨-, -, hneeded⟩ := Problem.read_eq_ok hp
    have hpos : 1 ≤ s.width := hwidth ▸ Problem.one_le_width hp
    have hmax : s.width ≤ maxWidth := hwidth ▸ Problem.width_le_maxWidth hplain hp
    have hlength : ∀ t ∈ s.implicants, (t.pattern.length : ℤ) ≤ s.width := fun t ht =>
      hwidth ▸ Problem.length_pattern_le_width hneeded t (hsub.subset ht)
    have hexact : ∀ t ∈ s.implicants, t.Exact := fun t ht =>
      p.hasPrimes_primes.exact_of_mem (Problem.exact_of_read hp hplain) (hsub.subset ht)
    refine ⟨fun hne => ?_, Solution.readAll_patterns hpos hmax hlength hexact⟩
    rw [Solution.split_patterns hpos hmax hlength hne, Solution.lines_patterns hpos hmax hlength]

/-- Zero, which has no stored position, merges with 1; over three inputs the merged term is written
as `00*`.  The pattern `0*1` and 6 take a line each. -/
theorem read_back_star_and_lines :
    let zero : Term := ⟨[], .singleton 0⟩
    let both : Term := ⟨[.star], .ofList [0, 1]⟩
    zero.Built ∧ both.Built ∧ zero.text = "0" ∧ both.padded 3 = "00*" ∧
      (∃ u, Term.ofText "0" = .ok u ∧ u ≈ zero) ∧
      (∃ u, Term.ofText "00*" = .ok u ∧ u.pattern = [.star, .zero, .zero] ∧ u ≈ both) ∧
      ∃ p s ts, Problem.read [.text "0*1", .value 6] [] none = .ok p ∧
        p.minimize .products = .ok s ∧ s.patterns = "0*1\n110" ∧
        Term.readAll [.text "0*1", .text "110"] = .ok ts ∧ ts.length = 2 ∧
        List.Forall₂ (· ≈ ·) ts s.implicants := by
  intro zero both
  obtain ⟨hterm, hsolution⟩ := renderings_read_back
  have hzero : zero.Built := .ofInt (n := 0) rfl
  have hone : Term.Built ⟨[.one], .singleton 1⟩ := .ofInt (n := 1) rfl
  have hboth : both.Built := .merge hzero hone (by decide)
  have hpadded : both.padded 3 = "00*" := by decide
  refine ⟨hzero, hboth, by decide, hpadded, (hterm zero hzero).2, ?_, ?_⟩
  · obtain ⟨-, hread⟩ := (hterm both hboth).1 3 (by decide) (by decide) (by decide)
    rw [hpadded] at hread
    exact hread
  · let p : Problem := ⟨[.ofPattern [.one, .star, .zero], ⟨[.zero, .one, .one], .singleton 6⟩], [], 3⟩
    have hp : Problem.read [.text "0*1", .value 6] [] none = .ok p := rfl
    obtain ⟨chosen, -, hs⟩ := p.exists_minimize
    generalize p.solution p.primes (Cover.pick chosen p.primes) .products = s at hs
    have hpatterns : (p.minimize .products).map Solution.patterns = .ok "0*1\n110" := by
      decide +kernel
    rw [hs] at hpatterns
    have hpatterns : s.patterns = "0*1\n110" := Except.ok.inj hpatterns
    have hlines : Text.lines "0*1\n110" = ["0*1", "110"] := by decide +kernel
    obtain ⟨-, ts, hts, hequiv⟩ := hsolution _ _ none p HittingSet.solve .products s
      (by simp [Term.Spelling.Plain]) hp hs
    rw [hpatterns, hlines] at hts
    exact ⟨p, s, ts, hp, hs, hpatterns, hts,
      (Term.readAll_eq_ok_iff.mp hts).length_eq.symm, hequiv⟩

end TwoLevel
