import Mathlib.Order.MinMax
import TwoLevel.Proofs.Term.Reading

/-! # Reading problems

A problem is accepted when all of its terms can be read and its width holds them and is at most
`maxWidth` (`read_eq_ok_iff`, `make_eq_ok_iff`); any other width is refused for one of these reasons
(`make_eq_error_iff`).  A width holds the terms when it is positive, all sources lie below two to
its power and no pattern is longer (`widthNeeded_le_iff`), so what is accepted can be said of the
spellings alone (`exists_read_iff`); integers are the case where all that counts is their size
(`exists_read_integers_iff`).  Spellings of integers and patterns need no more than `maxWidth`
inputs, so that a width that is not asked for is not larger either (`width_le_maxWidth`). -/

namespace TwoLevel.Problem

/-! ### The width needed -/

theorem foldr_max_le_iff (ns : List ℕ) (k : ℕ) : ns.foldr max 0 ≤ k ↔ ∀ n ∈ ns, n ≤ k := by
  induction ns with
  | nil => simp
  | cons n ns ih => rw [List.foldr_cons, max_le_iff, ih, List.forall_mem_cons]

theorem widthNeeded_le_iff (terms : List Term) (w : ℕ) :
    widthNeeded terms ≤ w ↔ 1 ≤ w ∧ (∀ v ∈ sourcesOf terms, v.natAbs < 2 ^ w) ∧
      ∀ t ∈ terms, t.pattern.length ≤ w := by
  unfold widthNeeded TruthTable.bitsFor
  rw [max_le_iff, max_le_iff, foldr_max_le_iff, foldr_max_le_iff, List.forall_mem_map,
    List.forall_mem_map, and_assoc]
  simp only [Pattern.bitLength_le_iff]
  rfl

theorem widthNeeded_le_iff_ofWidth (terms : List Term) (w : ℕ) :
    widthNeeded terms ≤ w ↔ 1 ≤ w ∧ ∀ t ∈ terms, t.OfWidth w := by
  rw [widthNeeded_le_iff]
  refine and_congr_right fun _ => ?_
  simp only [mem_sourcesOf, Term.ofWidth_iff]
  constructor
  · rintro ⟨hsources, hlength⟩ t ht
    exact ⟨hlength t ht, fun v hv => hsources v ⟨t, ht, hv⟩⟩
  · intro hall
    exact ⟨fun v ⟨t, ht, hv⟩ => (hall t ht).2 v hv, fun t ht => (hall t ht).1⟩

theorem one_le_widthNeeded (terms : List Term) : 1 ≤ widthNeeded terms :=
  ((widthNeeded_le_iff terms _).mp (le_refl _)).1

/-! ### Acceptance -/

/-- Terms are accepted with every width from the one they need to the largest, or without one. -/
theorem make_eq_ok_iff {ms ds : List Term} {width : Option ℤ} {p : Problem} :
    make ms ds width = .ok p ↔ p = ⟨ms, ds, width.getD (widthNeeded (ms ++ ds))⟩ ∧
      ∀ w, width = some w → (widthNeeded (ms ++ ds) : ℤ) ≤ w ∧ w ≤ maxWidth := by
  unfold make
  cases width with
  | none => simp [eq_comm]
  | some w =>
      dsimp only
      split
      · next h =>
        refine iff_of_false (fun h => nomatch h) fun ⟨_, hw⟩ => ?_
        have hle := (hw w rfl).1
        omega
      · split
        · next h =>
          refine iff_of_false (fun h => nomatch h) fun ⟨_, hw⟩ => ?_
          have hle := (hw w rfl).2
          omega
        · constructor
          · intro h
            refine ⟨(Except.ok.inj h).symm, fun v hv => ?_⟩
            obtain rfl := Option.some.inj hv
            omega
          · rintro ⟨rfl, -⟩
            rfl

/-- A width is refused when it is smaller than the terms need, or else above the largest. -/
theorem make_eq_error_iff {ms ds : List Term} {w : ℤ} {f : Fault} :
    make ms ds (some w) = .error f ↔
      (w < widthNeeded (ms ++ ds) ∧ f = .widthTooSmall w (widthNeeded (ms ++ ds))) ∨
        (widthNeeded (ms ++ ds) ≤ w ∧ maxWidth < w ∧ f = .widthTooLarge w) := by
  unfold make
  dsimp only
  split
  · next hsmall =>
    constructor
    · intro hf
      exact .inl ⟨hsmall, (Except.error.inj hf).symm⟩
    · rintro (⟨-, rfl⟩ | ⟨hle, -⟩)
      · rfl
      · exact absurd hsmall (Int.not_lt.mpr hle)
  · next hsmall =>
    split
    · next hlarge =>
      constructor
      · intro hf
        exact .inr ⟨Int.not_lt.mp hsmall, hlarge, (Except.error.inj hf).symm⟩
      · rintro (⟨hlt, -⟩ | ⟨-, -, rfl⟩)
        · exact absurd hlt hsmall
        · rfl
    · next hlarge =>
      constructor
      · intro hf
        cases hf
      · rintro (⟨hlt, -⟩ | ⟨-, hlt, -⟩)
        · exact absurd hlt hsmall
        · exact absurd hlt hlarge

section read

variable {minterms dontCares : List Term.Spelling} {width : Option ℤ} {p : Problem}

theorem read_eq_ok_iff : read minterms dontCares width = .ok p ↔
    ∃ ms ds, Term.readAll minterms = .ok ms ∧ Term.readAll dontCares = .ok ds ∧
      make ms ds width = .ok p := by
  unfold read
  cases hm : Term.readAll minterms with
  | error f => simp [bind, Except.bind]
  | ok ms =>
      cases hd : Term.readAll dontCares with
      | error f => simp [bind, Except.bind]
      | ok ds => simp [bind, Except.bind]

theorem read_eq_make {ms ds : List Term} (hm : Term.readAll minterms = .ok ms)
    (hd : Term.readAll dontCares = .ok ds) : read minterms dontCares width = make ms ds width := by
  unfold read
  rw [hm, hd]
  rfl

theorem read_eq_ok (h : read minterms dontCares width = .ok p) :
    Term.readAll minterms = .ok p.minterms ∧ Term.readAll dontCares = .ok p.dontCares ∧
      (widthNeeded (p.minterms ++ p.dontCares) : ℤ) ≤ p.width := by
  obtain ⟨ms, ds, hm, hd, hmake⟩ := read_eq_ok_iff.mp h
  obtain ⟨rfl, hwidth⟩ := make_eq_ok_iff.mp hmake
  refine ⟨hm, hd, ?_⟩
  cases width with
  | none => exact Int.le_refl _
  | some w => exact (hwidth w rfl).1

theorem one_le_width (h : read minterms dontCares width = .ok p) : 1 ≤ p.width := by
  obtain ⟨-, -, hneeded⟩ := read_eq_ok h
  have hone := one_le_widthNeeded (p.minterms ++ p.dontCares)
  omega

theorem exact_of_read (h : read minterms dontCares width = .ok p)
    (hplain : ∀ x ∈ minterms ++ dontCares, x.Plain) : ∀ t ∈ p.minterms ++ p.dontCares, t.Exact := by
  obtain ⟨hm, hd, -⟩ := read_eq_ok h
  exact Term.exact_of_mem_readAll (Term.readAll_append hm hd) hplain

end read

theorem ofWidth_of_mem_given {p : Problem}
    (h : (widthNeeded (p.minterms ++ p.dontCares) : ℤ) ≤ p.width) :
    ∀ t ∈ p.minterms ++ p.dontCares, t.OfWidth p.width.toNat := by
  have hneeded : widthNeeded (p.minterms ++ p.dontCares) ≤ p.width.toNat := by omega
  exact ((widthNeeded_le_iff_ofWidth _ _).mp hneeded).2

/-! ### Spellings -/

theorem widthNeeded_le_iff_fits {spellings : List Term.Spelling} {ts : List Term}
    (h : Term.readAll spellings = .ok ts) (w : ℕ) :
    widthNeeded ts ≤ w ↔ 1 ≤ w ∧ ∀ x ∈ spellings, x.Fits w := by
  rw [widthNeeded_le_iff_ofWidth]
  refine and_congr_right fun _ => ⟨fun hall x hx => ?_, fun hall t ht => ?_⟩
  · obtain ⟨t, ht, hread⟩ := Term.exists_mem_readAll h hx
    exact (Term.Spelling.fits_iff hread w).mpr (hall t ht)
  · obtain ⟨x, hx, hread⟩ := Term.exists_spelling_of_mem_readAll h ht
    exact (Term.Spelling.fits_iff hread w).mp (hall x hx)

theorem exists_read_iff (minterms dontCares : List Term.Spelling) (width : Option ℤ) :
    (∃ p, read minterms dontCares width = .ok p) ↔
      (∀ x ∈ minterms ++ dontCares, x.Valid) ∧
        ∀ w, width = some w →
          1 ≤ w ∧ w ≤ maxWidth ∧ ∀ x ∈ minterms ++ dontCares, x.Fits w.toNat := by
  have hvalid : (∀ x ∈ minterms ++ dontCares, x.Valid) ↔
      (∃ ms, Term.readAll minterms = .ok ms) ∧ ∃ ds, Term.readAll dontCares = .ok ds := by
    simp only [List.forall_mem_append, Term.exists_readAll_iff, Term.Spelling.exists_read_iff]
  -- A width that is asked for is compared with the one that is needed, as an integer.
  have hwidth : ∀ ms ds, Term.readAll minterms = .ok ms → Term.readAll dontCares = .ok ds →
      ∀ w : ℤ, ((widthNeeded (ms ++ ds) : ℤ) ≤ w ∧ w ≤ maxWidth ↔
        1 ≤ w ∧ w ≤ maxWidth ∧ ∀ x ∈ minterms ++ dontCares, x.Fits w.toNat) := by
    intro ms ds hm hd w
    have hiff := widthNeeded_le_iff_fits (Term.readAll_append hm hd) w.toNat
    have hone := one_le_widthNeeded (ms ++ ds)
    constructor
    · rintro ⟨hle, hmax⟩
      exact ⟨by omega, hmax, (hiff.mp (by omega)).2⟩
    · rintro ⟨hpos, hmax, hfits⟩
      have hle := hiff.mpr ⟨by omega, hfits⟩
      exact ⟨by omega, hmax⟩
  rw [hvalid]
  simp only [read_eq_ok_iff, make_eq_ok_iff]
  constructor
  · rintro ⟨p, ms, ds, hm, hd, -, hasked⟩
    exact ⟨⟨⟨ms, hm⟩, ds, hd⟩, fun w hw => (hwidth ms ds hm hd w).mp (hasked w hw)⟩
  · rintro ⟨⟨⟨ms, hm⟩, ds, hd⟩, hasked⟩
    exact ⟨_, ms, ds, hm, hd, rfl, fun w hw => (hwidth ms ds hm hd w).mpr (hasked w hw)⟩

theorem width_eq_of_read {minterms dontCares : List Term.Spelling} {w : ℤ} {p : Problem}
    (hp : read minterms dontCares (some w) = .ok p) : p.width = w := by
  obtain ⟨_, _, -, -, hmake⟩ := read_eq_ok_iff.mp hp
  obtain ⟨rfl, -⟩ := make_eq_ok_iff.mp hmake
  rfl

theorem width_le_maxWidth {minterms dontCares : List Term.Spelling} {width : Option ℤ}
    {p : Problem} (hplain : ∀ x ∈ minterms ++ dontCares, x.Plain)
    (hp : read minterms dontCares width = .ok p) : p.width ≤ maxWidth := by
  obtain ⟨ms, ds, hm, hd, hmake⟩ := read_eq_ok_iff.mp hp
  obtain ⟨rfl, hwidth⟩ := make_eq_ok_iff.mp hmake
  have hread := Term.readAll_append hm hd
  cases width with
  | none =>
      have hneeded : widthNeeded (ms ++ ds) ≤ maxWidth := by
        refine (widthNeeded_le_iff_fits hread maxWidth).mpr ⟨by decide, fun x hx => ?_⟩
        obtain ⟨t, -, ht⟩ := Term.exists_mem_readAll hread hx
        exact (x.exists_read_iff.mp ⟨t, ht⟩).fits (hplain x hx)
      exact Int.ofNat_le.mpr hneeded
  | some w => exact (hwidth w rfl).2

/-! ### Integers -/

theorem exists_read_integers_iff (minterms dontCares : List ℤ) (width : Option ℤ) :
    (∃ p, read (minterms.map .value) (dontCares.map .value) width = .ok p) ↔
      (∀ n ∈ minterms ++ dontCares, 0 ≤ n ∧ n < 2 ^ maxWidth) ∧
        ∀ w, width = some w →
          1 ≤ w ∧ w ≤ maxWidth ∧ ∀ n ∈ minterms ++ dontCares, n < 2 ^ w.toNat := by
  rw [exists_read_iff, ← List.map_append]
  simp only [List.forall_mem_map]
  exact Iff.rfl

section integers

variable {minterms dontCares : List ℤ} {width : Option ℤ} {p : Problem}
  (hp : read (minterms.map .value) (dontCares.map .value) width = .ok p)
include hp

theorem exists_source_integers_iff (v : ℤ) :
    (∃ t ∈ p.minterms ++ p.dontCares, v ∈ t.sources) ↔ v ∈ minterms ∨ v ∈ dontCares := by
  obtain ⟨hm, hd, -⟩ := read_eq_ok hp
  have hread : Term.readAll ((minterms ++ dontCares).map .value) =
      .ok (p.minterms ++ p.dontCares) := by
    rw [List.map_append]
    exact Term.readAll_append hm hd
  rw [Term.exists_source_iff hread, List.mem_append]

theorem mem_required_iff (v : ℤ) : v ∈ p.required ↔ v ∈ minterms :=
  mem_sourcesOf.trans (Term.exists_source_iff (read_eq_ok hp).1 v)

theorem exists_ofInt_of_mem {t : Term} (ht : t ∈ p.minterms ++ p.dontCares) :
    ∃ n, Term.ofInt n = .ok t := by
  obtain ⟨hm, hd, -⟩ := read_eq_ok hp
  rcases List.mem_append.mp ht with ht | ht
  · exact Term.exists_ofInt_of_mem_readAll hm ht
  · exact Term.exists_ofInt_of_mem_readAll hd ht

theorem exact_of_mem {t : Term} (ht : t ∈ p.minterms ++ p.dontCares) : t.Exact := by
  obtain ⟨n, hn⟩ := exists_ofInt_of_mem hp ht
  exact Term.exact_ofInt hn

theorem exists_natCast_of_required {v : ℤ} (hv : v ∈ p.required) :
    ∃ n : ℕ, v = n ∧ n < 2 ^ p.width.toNat := by
  obtain ⟨-, -, hneeded⟩ := read_eq_ok hp
  obtain ⟨t, ht, hvt⟩ := mem_sourcesOf.mp hv
  have hgiven := List.mem_append_left p.dontCares ht
  obtain ⟨n, hn⟩ := exists_ofInt_of_mem hp hgiven
  obtain ⟨k, rfl, rfl⟩ := Term.ofInt_eq_ok hn
  have hlt := (ofWidth_of_mem_given hneeded _ hgiven).natAbs_lt v hvt
  obtain rfl := OrdSet.mem_singleton.mp hvt
  exact ⟨k, rfl, hlt⟩

end integers

end TwoLevel.Problem
