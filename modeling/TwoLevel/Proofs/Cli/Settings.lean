import TwoLevel.Cli.Run
import TwoLevel.Proofs.Problem
import TwoLevel.Proofs.Text.Layout
import TwoLevel.Proofs.TruthTable.Reading

/-! # The problem of a command line

Settings give their terms in a table or in four lists, and they may ask for a width.  They have a
problem exactly when all of that fits together (`Settings.exists_problem_iff`), whatever way the
terms are given; the number of its inputs is the width asked for, or the least that holds the terms
(`Settings.inputCount_of_problem`).  The names of the inputs are as many as there are commas, and
one more (`Settings.length_splitNames`). -/

namespace TwoLevel.Cli.Settings

open TruthTable

variable (s : Settings)

/-! ### What is asked for -/

/-- The terms that the settings give, required or unconstrained: with a table all inputs where it
has no zero, otherwise the members of the lists. -/
def Gives (x : Term.Spelling) : Prop :=
  match s.table with
  | some text => ∃ i : ℕ, x = .value i ∧ ∃ c, text.toList[i]? = some c ∧ c ≠ '0'
  | none => (∃ n ∈ s.minterms ++ s.dontCares, x = .value n) ∨
      ∃ text ∈ s.patterns ++ s.dontCarePatterns, x = .text text

/-- The width that the settings ask for; a table asks for its own width where no other is given. -/
def asked : Option ℤ :=
  match s.table with
  | some text => some (s.width.getD (widthOf text))
  | none => s.width

/-- So many inputs hold all terms that the settings give. -/
def Holds (w : ℕ) : Prop := 1 ≤ w ∧ ∀ x, s.Gives x → x.Fits w

/-- Nothing is wrong with the function: the table and the patterns are well-formed, the integers are
in range, and the width asked for holds the terms and is not too large. -/
structure Minimizable : Prop where
  table : ∀ text, s.table = some text → ∀ c ∈ text.toList, c ∈ symbols
  terms : ∀ x, s.Gives x → x.Valid
  width : ∀ w, s.asked = some w → w ≤ maxWidth ∧ s.Holds w.toNat

/-- The number of inputs: what is asked for, or the least that holds the terms. -/
def InputCount (w : ℤ) : Prop :=
  match s.asked with
  | some v => w = v
  | none => ∃ k : ℕ, w = k ∧ IsLeast {k | s.Holds k} k

theorem InputCount.unique {s : Settings} {v w : ℤ} (hv : s.InputCount v) (hw : s.InputCount w) :
    v = w := by
  cases hasked : s.asked with
  | some u =>
      simp only [InputCount, hasked] at hv hw
      exact hv.trans hw.symm
  | none =>
      simp only [InputCount, hasked] at hv hw
      obtain ⟨j, rfl, hj⟩ := hv
      obtain ⟨k, rfl, hk⟩ := hw
      exact congrArg _ (hj.unique hk)

/-! ### The terms -/

/-- The lists of terms that are read from the settings. -/
structure Spelled (ms ds : List Term.Spelling) (width : Option ℤ) : Prop where
  mem : ∀ x, x ∈ ms ++ ds ↔ s.Gives x
  plain : ∀ x ∈ ms ++ ds, x.Plain
  width : width = s.asked

theorem spelled_of_none (h : s.table = none) :
    ∃ ms ds width, s.spelled = .ok (ms, ds, width) ∧ s.Spelled ms ds width := by
  refine ⟨_, _, _, by unfold spelled; rw [h], ⟨fun x => ?_, fun x hx => ?_, ?_⟩⟩
  · simp only [Gives, h, List.mem_append, List.mem_map, or_and_right, exists_or, eq_comm]
    exact or_or_or_comm
  · simp only [List.mem_append, List.mem_map] at hx
    rcases hx with (⟨n, -, rfl⟩ | ⟨t, -, rfl⟩) | ⟨n, -, rfl⟩ | ⟨t, -, rfl⟩ <;> trivial
  · unfold asked
    rw [h]

theorem spelled_of_some {text : String} (h : s.table = some text)
    (hsymbols : ∀ c ∈ text.toList, c ∈ symbols) :
    ∃ ms ds width, s.spelled = .ok (ms, ds, width) ∧ s.Spelled ms ds width := by
  obtain ⟨on, free, hread, hon, hfree⟩ := read_eq_ok hsymbols
  have hspelled : s.spelled =
      .ok (on.map .value, free.map .value, some (s.width.getD (widthOf text))) := by
    unfold spelled
    rw [h]
    dsimp only
    rw [hread]
    rfl
  refine ⟨_, _, _, hspelled, ⟨fun x => ?_, fun x hx => ?_, ?_⟩⟩
  · simp only [Gives, h, List.mem_append, List.mem_map, hon, hfree]
    constructor
    · rintro (⟨_, ⟨i, rfl, hi⟩, rfl⟩ | ⟨_, ⟨i, rfl, hi⟩, rfl⟩)
      · exact ⟨i, rfl, (at_on_or_at_free_iff hsymbols i).mp (.inl hi)⟩
      · exact ⟨i, rfl, (at_on_or_at_free_iff hsymbols i).mp (.inr hi)⟩
    · rintro ⟨i, rfl, hi⟩
      rcases (at_on_or_at_free_iff hsymbols i).mpr hi with hi | hi
      · exact .inl ⟨i, ⟨i, rfl, hi⟩, rfl⟩
      · exact .inr ⟨i, ⟨i, rfl, hi⟩, rfl⟩
  · simp only [List.mem_append, List.mem_map] at hx
    rcases hx with ⟨n, -, rfl⟩ | ⟨n, -, rfl⟩ <;> trivial
  · unfold asked
    rw [h]

theorem spelled_of_symbols
    (h : ∀ text, s.table = some text → ∀ c ∈ text.toList, c ∈ symbols) :
    ∃ ms ds width, s.spelled = .ok (ms, ds, width) ∧ s.Spelled ms ds width := by
  cases htable : s.table with
  | none => exact s.spelled_of_none htable
  | some text => exact s.spelled_of_some htable (h text htable)

theorem symbols_of_spelled {r : List Term.Spelling × List Term.Spelling × Option ℤ}
    (h : s.spelled = .ok r) {text : String} (htable : s.table = some text) :
    ∀ c ∈ text.toList, c ∈ symbols := by
  rw [← exists_read_iff]
  unfold spelled at h
  rw [htable] at h
  cases hread : TruthTable.read text with
  | ok lists => exact ⟨lists, rfl⟩
  | error f =>
      simp only [hread] at h
      exact nomatch h

/-! ### The problem -/

theorem problem_eq_ok_iff {p : Problem} : s.problem = .ok p ↔
    ∃ ms ds width, s.spelled = .ok (ms, ds, width) ∧ Problem.read ms ds width = .ok p := by
  unfold problem
  cases hspelled : s.spelled with
  | error f => simp [bind, Except.bind]
  | ok r =>
      obtain ⟨ms, ds, width⟩ := r
      simp [bind, Except.bind]

theorem exists_spelled_of_problem {p : Problem} (h : s.problem = .ok p) :
    (∀ text, s.table = some text → ∀ c ∈ text.toList, c ∈ symbols) ∧
      ∃ ms ds, s.Spelled ms ds s.asked ∧ Problem.read ms ds s.asked = .ok p := by
  obtain ⟨ms, ds, width, hspelled, hread⟩ := s.problem_eq_ok_iff.mp h
  have hsymbols := fun text (htable : s.table = some text) => s.symbols_of_spelled hspelled htable
  obtain ⟨ms', ds', width', hspelled', hgiven⟩ := s.spelled_of_symbols hsymbols
  obtain ⟨rfl, rfl, rfl⟩ : ms = ms' ∧ ds = ds' ∧ width = width' := by
    simpa using hspelled.symm.trans hspelled'
  obtain rfl := hgiven.width
  exact ⟨hsymbols, ms, ds, hgiven, hread⟩

/-- **The settings that have a problem.** -/
theorem exists_problem_iff : (∃ p, s.problem = .ok p) ↔ s.Minimizable := by
  have hwidth : ∀ {ms ds : List Term.Spelling}, s.Spelled ms ds s.asked → ∀ w : ℤ,
      (1 ≤ w ∧ w ≤ maxWidth ∧ ∀ x ∈ ms ++ ds, x.Fits w.toNat) ↔
        w ≤ maxWidth ∧ s.Holds w.toNat := by
    intro ms ds hgiven w
    simp only [Holds, hgiven.mem]
    constructor
    · rintro ⟨hone, hmax, hfits⟩
      exact ⟨hmax, by omega, hfits⟩
    · rintro ⟨hmax, hone, hfits⟩
      exact ⟨by omega, hmax, hfits⟩
  constructor
  · rintro ⟨p, hp⟩
    obtain ⟨hsymbols, ms, ds, hgiven, hread⟩ := s.exists_spelled_of_problem hp
    obtain ⟨hvalid, hasked⟩ := (Problem.exists_read_iff ms ds s.asked).mp ⟨p, hread⟩
    exact ⟨hsymbols, fun x hx => hvalid x ((hgiven.mem x).mpr hx),
      fun w hw => (hwidth hgiven w).mp (hasked w hw)⟩
  · intro h
    obtain ⟨ms, ds, width, hspelled, hgiven⟩ := s.spelled_of_symbols h.table
    obtain rfl := hgiven.width
    obtain ⟨p, hread⟩ := (Problem.exists_read_iff ms ds s.asked).mpr
      ⟨fun x hx => h.terms x ((hgiven.mem x).mp hx),
        fun w hw => (hwidth hgiven w).mpr (h.width w hw)⟩
    exact ⟨p, s.problem_eq_ok_iff.mpr ⟨ms, ds, _, hspelled, hread⟩⟩

section problem

variable {s} {p : Problem} (h : s.problem = .ok p)
include h

/-- A problem has as many inputs as the settings say. -/
theorem inputCount_of_problem : s.InputCount p.width := by
  obtain ⟨-, ms, ds, hgiven, hread⟩ := s.exists_spelled_of_problem h
  obtain ⟨us, vs, hus, hvs, hmake⟩ := Problem.read_eq_ok_iff.mp hread
  obtain ⟨rfl, -⟩ := Problem.make_eq_ok_iff.mp hmake
  unfold InputCount
  cases hasked : s.asked with
  | some w => rfl
  | none =>
      have hiff : ∀ k, Problem.widthNeeded (us ++ vs) ≤ k ↔ s.Holds k := by
        intro k
        rw [Problem.widthNeeded_le_iff_fits (Term.readAll_append hus hvs)]
        simp only [Holds, hgiven.mem]
      exact ⟨_, rfl, (hiff _).mp (le_refl _), fun k hk => (hiff k).mpr hk⟩

theorem exact_of_problem : ∀ t ∈ p.minterms ++ p.dontCares, t.Exact := by
  obtain ⟨-, ms, ds, hgiven, hread⟩ := s.exists_spelled_of_problem h
  exact Problem.exact_of_read hread hgiven.plain

theorem width_nonneg_of_problem : 0 ≤ p.width := by
  obtain ⟨-, ms, ds, hgiven, hread⟩ := s.exists_spelled_of_problem h
  obtain ⟨-, -, hwidth⟩ := Problem.read_eq_ok hread
  omega

end problem

/-! ### The names -/

/-- The number of names that the settings list. -/
def nameCount : ℕ := s.names.toList.count ',' + 1

theorem length_splitNames : (splitNames s.names).length = s.nameCount := by
  unfold splitNames nameCount
  rw [List.length_map, length_splitOn]

/-- Names are listed, but not one for each input. -/
def Misnamed : Prop := s.names ≠ "" ∧ ∃ w, s.InputCount w ∧ (s.nameCount : ℤ) ≠ w

theorem inputNames_of_count {w : ℤ} (h : s.names = "" ∨ (s.nameCount : ℤ) = w) :
    ∃ names, s.inputNames w = .ok names := by
  unfold inputNames
  dsimp only
  rw [length_splitNames]
  split_ifs with hempty hcount
  · exact ⟨_, rfl⟩
  · exact ⟨_, rfl⟩
  · rw [String.isEmpty_iff] at hempty
    exact absurd (h.resolve_left hempty) hcount

theorem inputNames_of_ne {w : ℤ} (hnames : s.names ≠ "") (h : (s.nameCount : ℤ) ≠ w) :
    s.inputNames w = .error (.wrongNameCount w s.nameCount) := by
  unfold inputNames
  dsimp only
  rw [length_splitNames, if_neg (by rwa [String.isEmpty_iff]), if_neg h]

end TwoLevel.Cli.Settings
