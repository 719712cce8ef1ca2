import Mathlib.Data.List.Basic
import Mathlib.Order.MinMax
import TwoLevel.Proofs.Pattern.Cubes
import TwoLevel.Proofs.Text.Layout
import TwoLevel.TruthTable

/-! # Reading truth tables

A table can be read when each of its characters has a meaning, and otherwise the first one that has
none is reported (`read_eq_error`).  What is read are the positions of the characters
(`read_eq_ok`), and the number of inputs that is derived from the length of a table is the least
that has room for them (`isLeast_widthOf`). -/

namespace TwoLevel

namespace TruthTable

/-! ### Characters -/

/-- The characters that stand for an entry. -/
def Entry.symbols : Entry → List Char
  | on => ['1']
  | off => ['0']
  | free => ['-', 'x', 'X']

/-- The characters of truth tables. -/
def symbols : List Char := ['0', '1', '-', 'x', 'X']

theorem Entry.ofChar?_eq_some_iff (c : Char) (e : Entry) : ofChar? c = some e ↔ c ∈ e.symbols := by
  unfold ofChar?
  split <;> cases e <;> simp_all [symbols]

theorem exists_entry_iff (c : Char) : (∃ e : Entry, c ∈ e.symbols) ↔ c ∈ symbols := by
  constructor
  · rintro ⟨e, he⟩
    cases e <;> simp_all [symbols, Entry.symbols]
  · intro hc
    simp only [symbols, List.mem_cons, List.not_mem_nil, or_false] at hc
    rcases hc with rfl | rfl | rfl | rfl | rfl
    · exact ⟨.off, by decide⟩
    · exact ⟨.on, by decide⟩
    · exact ⟨.free, by decide⟩
    · exact ⟨.free, by decide⟩
    · exact ⟨.free, by decide⟩

theorem isNone_ofChar?_iff (c : Char) : (Entry.ofChar? c).isNone = true ↔ c ∉ symbols := by
  rw [← exists_entry_iff, Option.isNone_iff_eq_none, Option.eq_none_iff_forall_ne_some, not_exists]
  exact forall_congr' fun e => not_congr (Entry.ofChar?_eq_some_iff c e)

/-! ### Entries -/

theorem mem_indicesOf_iff (e : Entry) (entries : List Entry) (v : ℤ) :
    v ∈ indicesOf e entries ↔ ∃ i : ℕ, v = i ∧ entries[i]? = some e := by
  unfold indicesOf
  simp only [List.mem_map, List.mem_filter, List.mem_zipIdx_iff_getElem?, decide_eq_true_eq]
  constructor
  · rintro ⟨⟨_, i⟩, ⟨hi, rfl⟩, rfl⟩
    exact ⟨i, rfl, hi⟩
  · rintro ⟨i, rfl, hi⟩
    exact ⟨(e, i), ⟨hi, rfl⟩, rfl⟩

theorem getElem?_filterMap_ofChar? {cs : List Char} (h : ∀ c ∈ cs, c ∈ symbols) (i : ℕ) :
    (cs.filterMap Entry.ofChar?)[i]? = cs[i]?.bind Entry.ofChar? := by
  have hmeant : ∀ c ∈ cs, Entry.ofChar? c = some ((Entry.ofChar? c).getD .off) := by
    intro c hc
    obtain ⟨e, he⟩ := (exists_entry_iff c).mpr (h c hc)
    rw [(Entry.ofChar?_eq_some_iff c e).mpr he]
    rfl
  have hmap : cs.filterMap Entry.ofChar? = cs.map fun c => (Entry.ofChar? c).getD .off := by
    rw [List.filterMap_congr hmeant]
    exact congrFun List.filterMap_eq_map cs
  rw [hmap, List.getElem?_map]
  cases hi : cs[i]? with
  | none => rfl
  | some c => exact (hmeant c (List.mem_of_getElem? hi)).symm

/-! ### Tables -/

/-- A table has an entry at an index. -/
def At (text : String) (e : Entry) (i : ℕ) : Prop := ∃ c ∈ e.symbols, text.toList[i]? = some c

theorem at_iff (text : String) (e : Entry) (i : ℕ) :
    At text e i ↔ text.toList[i]?.bind Entry.ofChar? = some e := by
  simp only [At, Option.bind_eq_some_iff, Entry.ofChar?_eq_some_iff, and_comm]

theorem At.unique {text : String} {e f : Entry} {i : ℕ} (he : At text e i) (hf : At text f i) :
    e = f := by
  rw [at_iff] at he hf
  exact Option.some.inj (he.symm.trans hf)

variable {text : String}

theorem exists_at (h : ∀ c ∈ text.toList, c ∈ symbols) {i : ℕ} {c : Char}
    (hi : text.toList[i]? = some c) : ∃ e : Entry, c ∈ e.symbols ∧ At text e i := by
  obtain ⟨e, he⟩ := (exists_entry_iff c).mpr (h c (List.mem_of_getElem? hi))
  exact ⟨e, he, c, he, hi⟩

theorem at_on_or_at_free_iff (h : ∀ c ∈ text.toList, c ∈ symbols) (i : ℕ) :
    At text .on i ∨ At text .free i ↔ ∃ c, text.toList[i]? = some c ∧ c ≠ '0' := by
  constructor
  · rintro (⟨c, hc, hi⟩ | ⟨c, hc, hi⟩)
    · exact ⟨c, hi, fun hzero => absurd (hzero ▸ hc) (by decide)⟩
    · exact ⟨c, hi, fun hzero => absurd (hzero ▸ hc) (by decide)⟩
  · rintro ⟨c, hi, hc⟩
    obtain ⟨e, he, hat⟩ := exists_at h hi
    cases e with
    | on => exact .inl hat
    | off => exact absurd (List.mem_singleton.mp he) hc
    | free => exact .inr hat

/-- The first character without a meaning is reported. -/
theorem read_eq_error {i : ℕ} (h : IsLeast {j | ∃ c, text.toList[j]? = some c ∧ c ∉ symbols} i) :
    read text = .error (.invalidCharacter text i) := by
  unfold read
  rw [(findIdx?_isNone_eq_some_iff isNone_ofChar?_iff).mpr h]

/-- A table is read as the indices of its characters. -/
theorem read_eq_ok (h : ∀ c ∈ text.toList, c ∈ symbols) : ∃ on free, read text = .ok (on, free) ∧
    (∀ v, v ∈ on ↔ ∃ i : ℕ, v = i ∧ At text .on i) ∧
    ∀ v, v ∈ free ↔ ∃ i : ℕ, v = i ∧ At text .free i := by
  have hmem : ∀ (e : Entry) (v : ℤ), v ∈ indicesOf e (text.toList.filterMap Entry.ofChar?) ↔
      ∃ i : ℕ, v = i ∧ At text e i := by
    intro e v
    simp only [mem_indicesOf_iff, getElem?_filterMap_ofChar? h, at_iff]
  refine ⟨_, _, ?_, hmem .on, hmem .free⟩
  unfold read
  rw [(findIdx?_isNone_eq_none_iff isNone_ofChar?_iff).mpr h]

theorem exists_isLeast_invalid (h : ¬ ∀ c ∈ text.toList, c ∈ symbols) :
    ∃ i : ℕ, IsLeast {j | ∃ c, text.toList[j]? = some c ∧ c ∉ symbols} i := by
  cases hfound : text.toList.findIdx? fun c => (Entry.ofChar? c).isNone with
  | none => exact absurd ((findIdx?_isNone_eq_none_iff isNone_ofChar?_iff).mp hfound) h
  | some i => exact ⟨i, (findIdx?_isNone_eq_some_iff isNone_ofChar?_iff).mp hfound⟩

theorem exists_read_iff : (∃ r, read text = .ok r) ↔ ∀ c ∈ text.toList, c ∈ symbols := by
  constructor
  · rintro ⟨r, hr⟩
    by_contra hbad
    obtain ⟨i, hi⟩ := exists_isLeast_invalid hbad
    rw [read_eq_error hi] at hr
    exact nomatch hr
  · intro h
    obtain ⟨on, free, hread, -⟩ := read_eq_ok h
    exact ⟨_, hread⟩

/-! ### Width -/

theorem widthOf_le_iff (text : String) (w : ℕ) :
    widthOf text ≤ w ↔ 1 ≤ w ∧ text.length ≤ 2 ^ w := by
  have hpos := Nat.two_pow_pos w
  unfold widthOf
  rw [max_le_iff, Pattern.bitLength_le_iff]
  omega

theorem isLeast_widthOf (text : String) :
    IsLeast {w : ℕ | 1 ≤ w ∧ text.length ≤ 2 ^ w} (widthOf text) :=
  ⟨(widthOf_le_iff text _).mp (le_refl _), fun w hw => (widthOf_le_iff text w).mpr hw⟩

end TruthTable

end TwoLevel
