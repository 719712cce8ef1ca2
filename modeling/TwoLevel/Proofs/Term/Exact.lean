import TwoLevel.Proofs.Pattern.Cubes
import TwoLevel.Term

/-! # Exact terms

A term keeps its sources beside its pattern.  It is *exact* when the sources are the numbers that
the pattern covers.  Terms of integers and of patterns are exact, and merging keeps terms exact
whatever the two positions are that differ (`Exact.merge`).  The sources of an exact term determine
it up to leading zeros (`Exact.equiv_iff`), so that they can serve as its identity. -/

namespace TwoLevel.Term

/-! ### Covering -/

@[simp] theorem covers_natCast (t : Term) (n : ℕ) : t.covers (n : ℤ) = t.pattern.allows n := rfl

theorem exists_natCast_of_covers {t : Term} {v : ℤ} (h : t.covers v = true) : ∃ n : ℕ, v = n := by
  cases v with
  | ofNat n => exact ⟨n, rfl⟩
  | negSucc n => exact absurd h (by simp [covers])

theorem covers_congr {s t : Term} (h : s.pattern.trim = t.pattern.trim) (v : ℤ) :
    s.covers v = t.covers v := by
  cases v with
  | ofNat n => exact Pattern.allows_congr h n
  | negSucc n => rfl

theorem anyCovers_iff {terms : List Term} {v : ℤ} :
    anyCovers terms v = true ↔ ∃ t ∈ terms, t.covers v = true := by
  unfold anyCovers
  rw [List.any_eq_true]

theorem merge?_eq_some {s t u : Term} (h : s.merge? t = some u) :
    s.pattern.merge? t.pattern = some u.pattern ∧ u.sources = s.sources ∪ t.sources := by
  unfold merge? at h
  obtain ⟨p, hp, rfl⟩ := Option.map_eq_some_iff.mp h
  exact ⟨hp, rfl⟩

theorem isSome_merge?_iff (s t : Term) :
    (s.merge? t).isSome ↔ ∃ i, Pattern.DifferAt s.pattern t.pattern i := by
  unfold merge?
  rw [Option.isSome_map, Pattern.merge?_isSome_iff]

theorem exists_merge_of_differAt {s t : Term} {i : ℕ}
    (h : Pattern.DifferAt s.pattern t.pattern i) :
    ∃ u, s.merge? t = some u ∧ u.pattern.trim = (Pattern.setTrit s.pattern i .star).trim := by
  obtain ⟨u, hu⟩ := Option.isSome_iff_exists.mp ((isSome_merge?_iff s t).mpr ⟨i, h⟩)
  obtain ⟨j, hj, htrim⟩ := Pattern.trim_merge_eq (merge?_eq_some hu).1
  obtain rfl : j = i := hj.unique h
  exact ⟨u, hu, htrim⟩

theorem mem_sources_merge {s t u : Term} (h : s.merge? t = some u) (v : ℤ) :
    v ∈ u.sources ↔ v ∈ s.sources ∨ v ∈ t.sources := by
  rw [(merge?_eq_some h).2, OrdSet.mem_union]

theorem covers_merge_iff {s t u : Term} (h : s.merge? t = some u) (v : ℤ) :
    u.covers v = true ↔ s.covers v = true ∨ t.covers v = true := by
  cases v with
  | ofNat n => exact Pattern.allows_merge_iff (merge?_eq_some h).1 n
  | negSucc n => simp [covers]

/-! ### Exactness -/

/-- The sources of a term are the numbers that its pattern covers. -/
def Exact (t : Term) : Prop := ∀ v, v ∈ t.sources ↔ t.covers v = true

theorem exact_ofPattern (p : Pattern) : (ofPattern p).Exact := by
  intro v
  unfold ofPattern
  rw [OrdSet.mem_ofList, List.mem_map]
  constructor
  · rintro ⟨n, hn, rfl⟩
    exact (Pattern.mem_inputs_iff p n).mp hn
  · intro h
    obtain ⟨n, rfl⟩ := exists_natCast_of_covers h
    exact ⟨n, (Pattern.mem_inputs_iff p n).mpr h, rfl⟩

theorem ofInt_eq_ok {n : ℤ} {t : Term} (h : ofInt n = .ok t) :
    ∃ k : ℕ, n = k ∧ t = ⟨.ofNat k, .singleton (k : ℤ)⟩ := by
  unfold ofInt at h
  split at h
  · next hn =>
    obtain ⟨k, rfl⟩ := Int.eq_ofNat_of_zero_le hn.1
    exact ⟨k, rfl, (Except.ok.inj h).symm⟩
  · exact nomatch h

theorem exists_ofInt_iff (n : ℤ) : (∃ t, ofInt n = .ok t) ↔ 0 ≤ n ∧ n < 2 ^ maxWidth := by
  have hpow : ((1 <<< maxWidth : ℕ) : ℤ) = 2 ^ maxWidth := by decide
  unfold ofInt
  rw [hpow]
  split
  · next h => exact iff_of_true ⟨_, rfl⟩ h
  · next h => exact iff_of_false (fun ⟨_, ht⟩ => nomatch ht) h

theorem exact_ofInt {n : ℤ} {t : Term} (h : ofInt n = .ok t) : t.Exact := by
  obtain ⟨k, rfl, rfl⟩ := ofInt_eq_ok h
  intro v
  rw [OrdSet.mem_singleton]
  constructor
  · rintro rfl
    exact (Pattern.allows_ofNat k k).mpr rfl
  · intro hv
    obtain ⟨m, rfl⟩ := exists_natCast_of_covers hv
    exact congrArg Int.ofNat ((Pattern.allows_ofNat k m).mp hv)

theorem ofText_eq_ok {text : String} {t : Term} (h : ofText text = .ok t) :
    ∃ p, Pattern.ofText text = .ok p ∧ t = ofPattern p := by
  unfold ofText at h
  cases hp : Pattern.ofText text with
  | error f =>
      rw [hp] at h
      exact nomatch h
  | ok p =>
      rw [hp] at h
      exact ⟨p, rfl, (Except.ok.inj h).symm⟩

theorem exact_ofText {text : String} {t : Term} (h : ofText text = .ok t) : t.Exact := by
  obtain ⟨p, -, rfl⟩ := ofText_eq_ok h
  exact exact_ofPattern p

namespace Exact

variable {s t u : Term}

/-- Merging keeps terms exact, also where a free position meets a fixed one. -/
theorem merge (hs : s.Exact) (ht : t.Exact) (h : s.merge? t = some u) : u.Exact := by
  intro v
  rw [mem_sources_merge h, covers_merge_iff h, hs v, ht v]

theorem allows_iff (ht : t.Exact) (n : ℕ) : (n : ℤ) ∈ t.sources ↔ t.pattern.allows n = true := ht n

/-- The sources of an exact term determine its pattern. -/
theorem trim_eq_of_sources_eq (hs : s.Exact) (ht : t.Exact) (h : s.sources = t.sources) :
    s.pattern.trim = t.pattern.trim := by
  apply Pattern.trim_eq_of_allows_iff
  intro n
  rw [← hs.allows_iff, ← ht.allows_iff, h]

theorem sources_eq_of_trim_eq (hs : s.Exact) (ht : t.Exact)
    (h : s.pattern.trim = t.pattern.trim) : s.sources = t.sources := by
  apply OrdSet.ext
  intro v
  rw [hs v, ht v, covers_congr h v]

theorem equiv_iff (hs : s.Exact) (ht : t.Exact) : s ≈ t ↔ s.sources = t.sources := by
  rw [Term.equiv_iff]
  exact ⟨fun h => h.1, fun h => ⟨h, hs.trim_eq_of_sources_eq ht h⟩⟩

theorem equiv_iff_trim_eq (hs : s.Exact) (ht : t.Exact) :
    s ≈ t ↔ s.pattern.trim = t.pattern.trim := by
  rw [Term.equiv_iff]
  exact ⟨fun h => h.2, fun h => ⟨hs.sources_eq_of_trim_eq ht h, h⟩⟩

end Exact

theorem exact_congr {s t : Term} (h : s ≈ t) : s.Exact ↔ t.Exact := by
  unfold Exact
  obtain ⟨hsources, htrim⟩ := equiv_iff.mp h
  simp only [hsources, covers_congr htrim]

end TwoLevel.Term
