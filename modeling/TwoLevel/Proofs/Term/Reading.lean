import TwoLevel.Problem
import TwoLevel.Proofs.Pattern.Text
import TwoLevel.Proofs.Sets
import TwoLevel.Proofs.Term.Exact

/-! # Reading terms

A list of spellings is read one by one, so the terms read are those meant by some spelling, and
every spelling has its term.  Which spellings can be read (`Spelling.exists_read_iff`) and over how
many inputs the terms are that they mean (`OfWidth`, `Spelling.fits_iff`) is said of the spellings
alone.  Terms spelled as integers or as patterns are exact (`exact_of_mem_readAll`), and the sources
of terms spelled as integers are these integers (`exists_source_iff`). -/

namespace TwoLevel

theorem Problem.mem_sourcesOf {terms : List Term} {v : ℤ} :
    v ∈ sourcesOf terms ↔ ∃ t ∈ terms, v ∈ t.sources := by
  unfold sourcesOf
  rw [OrdSet.mem_unions]
  simp

namespace Term

/-! ### Width -/

/-- A term over some inputs: its pattern has no further position, and its sources are below two to
the power of their number. -/
structure OfWidth (w : ℕ) (t : Term) : Prop where
  length_le : t.pattern.length ≤ w
  natAbs_lt : ∀ v ∈ t.sources, v.natAbs < 2 ^ w

theorem ofWidth_iff {w : ℕ} {t : Term} :
    t.OfWidth w ↔ t.pattern.length ≤ w ∧ ∀ v ∈ t.sources, v.natAbs < 2 ^ w :=
  ⟨fun h => ⟨h.length_le, h.natAbs_lt⟩, fun ⟨hlength, hsources⟩ => ⟨hlength, hsources⟩⟩

theorem OfWidth.merge {w : ℕ} {s t u : Term} (hs : s.OfWidth w) (ht : t.OfWidth w)
    (h : s.merge? t = some u) : u.OfWidth w where
  length_le := by
    rw [Pattern.length_merge (merge?_eq_some h).1]
    exact max_le hs.length_le ht.length_le
  natAbs_lt v hv := by
    rcases (mem_sources_merge h v).mp hv with hv | hv
    · exact hs.natAbs_lt v hv
    · exact ht.natAbs_lt v hv

/-! ### One spelling -/

namespace Spelling

/-- A term named by an integer or by a pattern, and not given as it is. -/
def Plain : Spelling → Prop
  | value _ => True
  | text _ => True
  | term _ => False

/-- A spelling that can be read. -/
def Valid : Spelling → Prop
  | value n => 0 ≤ n ∧ n < 2 ^ maxWidth
  | text s => Pattern.WellFormed s
  | term _ => True

theorem exists_read_iff (x : Spelling) : (∃ t, x.read = .ok t) ↔ x.Valid := by
  cases x with
  | value n => exact exists_ofInt_iff n
  | text s =>
      simp only [read, Valid, ofText, ← Pattern.exists_ofText_iff]
      cases Pattern.ofText s with
      | error f => simp [Except.map]
      | ok p => simp [Except.map]
  | term t => exact iff_of_true ⟨t, rfl⟩ trivial

/-- A spelling whose term fits into some inputs. -/
def Fits (w : ℕ) : Spelling → Prop
  | value n => n < 2 ^ w
  | text s => s.length ≤ w
  | term t => t.pattern.length ≤ w ∧ ∀ v ∈ t.sources, v.natAbs < 2 ^ w

theorem fits_iff {x : Spelling} {t : Term} (h : x.read = .ok t) (w : ℕ) :
    x.Fits w ↔ t.OfWidth w := by
  rw [ofWidth_iff]
  cases x with
  | value n =>
      obtain ⟨k, rfl, rfl⟩ := ofInt_eq_ok h
      have hvalue : Fits w (.value k) ↔ k < 2 ^ w := by
        simp only [Fits]
        exact_mod_cast Iff.rfl
      rw [hvalue, Pattern.length_ofNat_le_iff]
      simp only [OrdSet.mem_singleton, forall_eq, Int.natAbs_natCast, and_self]
  | text s =>
      obtain ⟨p, hp, rfl⟩ := ofText_eq_ok h
      have hlength : Fits w (.text s) ↔ p.length ≤ w := by
        simp only [Fits, Pattern.length_of_ofText hp]
      change _ ↔ p.length ≤ w ∧ _
      rw [hlength, iff_self_and]
      intro hle v hv
      obtain ⟨n, rfl⟩ := exists_natCast_of_covers ((exact_ofPattern p v).mp hv)
      have hallows : p.allows n = true := (exact_ofPattern p n).mp hv
      rw [← List.take_of_length_le hle] at hallows
      exact Pattern.lt_two_pow_of_allows_take hallows
  | term u =>
      obtain rfl : u = t := Except.ok.inj h
      exact Iff.rfl

/-- The largest width has room for all that is named. -/
theorem Valid.fits {x : Spelling} (h : x.Valid) (hx : x.Plain) : x.Fits maxWidth := by
  cases x with
  | value n => exact h.2
  | text s => exact h.length_le
  | term t => exact absurd hx id

end Spelling

/-! ### Lists of spellings -/

theorem readAll_eq_ok_iff {spellings : List Spelling} {ts : List Term} :
    readAll spellings = .ok ts ↔ List.Forall₂ (fun x t => x.read = .ok t) spellings ts := by
  unfold readAll
  induction spellings generalizing ts with
  | nil => simp [pure, Except.pure, eq_comm]
  | cons x xs ih =>
      rw [List.mapM_cons, List.forall₂_cons_left_iff]
      cases hx : x.read with
      | error f => simp [bind, Except.bind]
      | ok u =>
          cases hxs : xs.mapM Spelling.read with
          | error f =>
              simp only [bind, Except.bind, ← ih, hxs, reduceCtorEq, false_and, and_false,
                exists_false]
          | ok us =>
              simp only [bind, Except.bind, pure, Except.pure, ← ih, hxs, Except.ok.injEq]
              constructor
              · rintro rfl
                exact ⟨u, us, rfl, rfl, rfl⟩
              · rintro ⟨_, _, rfl, rfl, rfl⟩
                rfl

theorem exists_readAll_iff (spellings : List Spelling) :
    (∃ ts, readAll spellings = .ok ts) ↔ ∀ x ∈ spellings, ∃ t, x.read = .ok t := by
  simp only [readAll_eq_ok_iff]
  induction spellings with
  | nil => exact iff_of_true ⟨[], .nil⟩ (fun x hx => absurd hx List.not_mem_nil)
  | cons x xs ih =>
      rw [List.forall_mem_cons, ← ih]
      constructor
      · rintro ⟨_, hx | ⟨hx, hxs⟩⟩
        exact ⟨⟨_, hx⟩, _, hxs⟩
      · rintro ⟨⟨t, hx⟩, ts, hxs⟩
        exact ⟨t :: ts, .cons hx hxs⟩

theorem readAll_append {xs ys : List Spelling} {ts us : List Term} (hx : readAll xs = .ok ts)
    (hy : readAll ys = .ok us) : readAll (xs ++ ys) = .ok (ts ++ us) := by
  rw [readAll_eq_ok_iff] at hx hy ⊢
  exact List.rel_append hx hy

section readAll

variable {spellings : List Spelling} {ts : List Term}

theorem exists_spelling_of_mem_readAll (h : readAll spellings = .ok ts) {t : Term} (ht : t ∈ ts) :
    ∃ x ∈ spellings, x.read = .ok t :=
  exists_partner_of_mem_right (readAll_eq_ok_iff.mp h) ht

theorem exists_mem_readAll (h : readAll spellings = .ok ts) {x : Spelling} (hx : x ∈ spellings) :
    ∃ t ∈ ts, x.read = .ok t :=
  exists_partner_of_mem_left (readAll_eq_ok_iff.mp h) hx

theorem exact_of_read {x : Spelling} (hx : x.Plain) {t : Term} (h : x.read = .ok t) : t.Exact := by
  cases x with
  | value n => exact exact_ofInt h
  | text s => exact exact_ofText h
  | term u => exact absurd hx id

theorem exact_of_mem_readAll (h : readAll spellings = .ok ts) (hplain : ∀ x ∈ spellings, x.Plain) :
    ∀ t ∈ ts, t.Exact := by
  intro t ht
  obtain ⟨x, hx, hread⟩ := exists_spelling_of_mem_readAll h ht
  exact exact_of_read (hplain x hx) hread

end readAll

section integers

variable {ns : List ℤ} {ts : List Term}

theorem exists_ofInt_of_mem_readAll (h : readAll (ns.map .value) = .ok ts) {t : Term}
    (ht : t ∈ ts) : ∃ n, ofInt n = .ok t := by
  obtain ⟨x, hx, hread⟩ := exists_spelling_of_mem_readAll h ht
  obtain ⟨n, -, rfl⟩ := List.mem_map.mp hx
  exact ⟨n, hread⟩

theorem exists_source_iff (h : readAll (ns.map .value) = .ok ts) (v : ℤ) :
    (∃ t ∈ ts, v ∈ t.sources) ↔ v ∈ ns := by
  constructor
  · rintro ⟨t, ht, hv⟩
    obtain ⟨x, hx, hread⟩ := exists_spelling_of_mem_readAll h ht
    obtain ⟨n, hn, rfl⟩ := List.mem_map.mp hx
    obtain ⟨k, rfl, rfl⟩ := ofInt_eq_ok hread
    rw [OrdSet.mem_singleton.mp hv]
    exact hn
  · intro hv
    obtain ⟨t, ht, hread⟩ := exists_mem_readAll h (List.mem_map_of_mem hv)
    obtain ⟨k, rfl, rfl⟩ := ofInt_eq_ok hread
    exact ⟨_, ht, OrdSet.mem_singleton.mpr rfl⟩

end integers

end Term

end TwoLevel
