import TwoLevel.Proofs.Term.Trim

/-! # Laws of merging

Terms are compared with the shorter pattern filled up with zeros (`Term.Matches`), which is the same
as being equivalent (`Term.equiv_iff_matches`), so that it is an equivalence relation whatever the
lengths are.

Two terms merge exactly when their patterns, with zeros in front without end, differ in one
position. The merged term stands for the sources and for the inputs of both, the order of the two
does not matter, and neither do zeros stored in front (`Term.rel_merge?`).  These laws ask nothing
of the sources (`Term.merge_lawful`). -/

namespace TwoLevel.Term

/-! ### Comparing -/

/-- The same sources, and the same positions once the shorter pattern is filled up with zeros to the
length of the longer one. -/
def Matches (s t : Term) : Prop :=
  s.sources = t.sources ∧
    s.pattern.extend (max s.pattern.length t.pattern.length) =
      t.pattern.extend (max s.pattern.length t.pattern.length)

theorem equiv_iff_matches (s t : Term) : s ≈ t ↔ s.Matches t := by
  unfold Matches
  rw [equiv_iff, Pattern.trim_eq_trim_iff, Pattern.extend_eq_extend_iff]

/-- How far patterns are filled up depends on the two that are compared; the relation is transitive
all the same, as no zero that is added changes a position. -/
theorem equivalence_matches : Equivalence Matches := by
  have hmatches : Matches = fun s t => s ≈ t :=
    funext₂ fun s t => propext (equiv_iff_matches s t).symm
  rw [hmatches]
  exact Setoid.iseqv

/-! ### Merging -/

theorem merge?_eq_none_iff (s t : Term) : s.merge? t = none ↔
    (∀ i, s.pattern.tritAt i = t.pattern.tritAt i) ∨
      ∃ i j, i ≠ j ∧ s.pattern.tritAt i ≠ t.pattern.tritAt i ∧
        s.pattern.tritAt j ≠ t.pattern.tritAt j := by
  unfold merge?
  rw [Option.map_eq_none_iff, Pattern.merge?_eq_none_iff]

theorem merge?_comm (s t : Term) : s.merge? t = t.merge? s := by
  have hunion : s.sources ∪ t.sources = t.sources ∪ s.sources :=
    OrdSet.ext fun v => by simp [or_comm]
  unfold merge?
  rw [Pattern.merge?_comm, hunion]

theorem rel_of_map_trim_eq {a b : Option Term} (h : a.map trim = b.map trim) :
    Option.Rel (· ≈ ·) a b := by
  cases a with
  | none =>
      cases b with
      | none => exact .none
      | some t => exact absurd h (by simp)
  | some s =>
      cases b with
      | none => exact absurd h (by simp)
      | some t => exact .some (trim_eq_trim_iff.mp (Option.some.inj h))

/-- Equivalent terms merge into equivalent terms, or neither pair merges. -/
theorem rel_merge? {s t s' t' : Term} (hs : s ≈ s') (ht : t ≈ t') :
    Option.Rel (· ≈ ·) (s.merge? t) (s'.merge? t') := rel_of_map_trim_eq (merge?_congr hs ht)

/-- **The laws of merging**, for terms with any patterns and any sources.  Comparing terms by
filling up the shorter pattern is an equivalence relation, the one by which terms are called
equivalent. Terms do not merge exactly when their zero-extended patterns differ in no position or in
two and more; a merged term has the sources of both and covers an integer, negative or of any size,
exactly when one of them does.  The order of the two does not matter, and equivalent terms merge
into equivalent ones. -/
theorem merge_lawful :
    Equivalence Matches ∧ (∀ s t : Term, s ≈ t ↔ s.Matches t) ∧
    (∀ s t : Term, s.merge? t = none ↔
      (∀ i, s.pattern.tritAt i = t.pattern.tritAt i) ∨
        ∃ i j, i ≠ j ∧ s.pattern.tritAt i ≠ t.pattern.tritAt i ∧
          s.pattern.tritAt j ≠ t.pattern.tritAt j) ∧
    (∀ s t u : Term, s.merge? t = some u → u.sources = s.sources ∪ t.sources ∧
      ∀ v : ℤ, u.covers v = true ↔ s.covers v = true ∨ t.covers v = true) ∧
    (∀ s t : Term, Option.Rel (· ≈ ·) (s.merge? t) (t.merge? s)) ∧
    ∀ s t s' t' : Term, s ≈ s' → t ≈ t' →
      Option.Rel (· ≈ ·) (s.merge? t) (s'.merge? t') := by
  refine ⟨equivalence_matches, equiv_iff_matches, merge?_eq_none_iff, fun s t u hu => ?_,
    fun s t => ?_, fun s t s' t' hs ht => rel_merge? hs ht⟩
  · exact ⟨(merge?_eq_some hu).2, covers_merge_iff hu⟩
  · rw [merge?_comm]
    exact rel_of_map_trim_eq rfl

/-- The terms `1` and `*0` differ in two positions once they are filled up to `001` and `0*0`; the
latter merges with `010`, which it covers, into a term equivalent to it, whatever their sources. -/
theorem lawful_star_against_one :
    let star : Term := ⟨[.zero, .star], .singleton 7⟩
    let one : Term := ⟨[.zero, .one, .zero], ∅⟩
    (⟨[.one], ∅⟩ : Term).merge? star = none ∧
      star.merge? one = some ⟨[.zero, .star, .zero], .singleton 7⟩ ∧
      (∀ v : ℤ, (⟨[.zero, .star, .zero], .singleton 7⟩ : Term).covers v = true ↔
        star.covers v = true ∨ one.covers v = true) ∧
      Option.Rel (· ≈ ·) (star.merge? one) (star.merge? ⟨[.zero, .one], ∅⟩) := by
  intro star one
  obtain ⟨-, -, hnone, hsome, -, hcongr⟩ := merge_lawful
  have hmerge : star.merge? one = some ⟨[.zero, .star, .zero], .singleton 7⟩ := by decide
  refine ⟨(hnone _ _).mpr (Or.inr ⟨0, 1, by decide, by decide, by decide⟩), hmerge,
    (hsome _ _ _ hmerge).2, hcongr _ _ _ _ (Setoid.refl star) (by decide)⟩

end TwoLevel.Term
