import TwoLevel.Problem
import TwoLevel.Proofs.TruthTable.Columns

/-! # Marked rows

The verifier passes over unconstrained inputs before it looks at required ones, and the table does
it the other way round.  Where no input is both, they find the same: the rows that disagree are the
mismatches, one by one and in the same order (`Solution.mismatches_eq_rows`).  So the error list of
a solution can be read off its printed table (`Solution.table_reports_mismatches`), and both say in
the same way whether there is an error at all. -/

namespace TwoLevel

open Text

namespace TruthTable

/-! ### Reading marks -/

/-- The cell of a row under a title. -/
def cellUnder (title : String) (row : List String) : String := row.getD (titles.idxOf title) ""

/-- The rows of a printed table that are marked as wrong. -/
def markedRows (table : String) : List (List String) :=
  (grid table).filter fun row => cellUnder "Match" row = "X"

/-- A marked row in the words of the verifier. -/
def report (row : List String) : String :=
  "input " ++ cellUnder "Value" row ++ ": expected " ++ cellUnder "Expected" row ++ ", got " ++
    cellUnder "Actual" row

/-- The mismatch of a row that disagrees. -/
def Row.mismatch (r : Row) : Solution.Mismatch := ⟨r.input, decide (r.expected = .on), r.actual⟩

end TruthTable

namespace Solution

open TruthTable

/-- The row of a printed table that shows a mismatch. -/
def Mismatch.cells (width : ℕ) (m : Mismatch) : List String :=
  [toString m.input, binary width m.input, toString m.expected.toNat, toString m.actual.toNat, "X"]

theorem Mismatch.report_cells (width : ℕ) (m : Mismatch) : report (m.cells width) = m.text := rfl

end Solution

namespace TruthTable

/-- The titles are not marked, and of the rows those are that disagree. -/
theorem markedRows_join (width : ℕ) (rows : List Row) :
    markedRows (String.join ((Solution.tableLines width rows).map (· ++ "\n"))) =
      (rows.filter fun r => !r.agrees).map (Row.cells width) := by
  have htitles : ¬ cellUnder "Match" titles = "X" := by decide
  have hmark : ∀ r : Row, cellUnder "Match" (r.cells width) = if r.agrees then "." else "X" :=
    fun _ => rfl
  unfold markedRows
  rw [Solution.grid_table, List.filter_cons_of_neg (by simpa using htitles), List.filter_map]
  refine congrArg _ (List.filter_congr fun r _ => ?_)
  rw [Function.comp_apply, hmark]
  cases r.agrees <;> decide

theorem Row.cells_of_not_agrees (width : ℕ) {r : Row} (h : r.agrees = false) :
    r.cells width = r.mismatch.cells width := by
  have hone : Entry.on.char.toString = toString true.toNat := by decide
  have hzero : Entry.off.char.toString = toString false.toNat := by decide
  have hshown : ∀ b : Bool, (if b then "1" else "0") = toString b.toNat := by decide
  obtain ⟨input, expected, actual⟩ := r
  unfold cells Solution.Mismatch.cells mismatch
  rw [hshown, h]
  cases expected with
  | on =>
      rw [hone]
      rfl
  | off =>
      rw [hzero]
      rfl
  | free => exact nomatch h

end TruthTable

theorem Problem.disjoint_solution (p : Problem) (primes implicants : List Term)
    (method : Method) : (p.solution primes implicants method).minterms.Disjoint
      (p.solution primes implicants method).dontCares :=
  fun _ hone hfree => (OrdSet.mem_sdiff.mp hfree).2 hone

namespace Solution

open TruthTable

/-! ### Mismatches and rows -/

section disjoint

variable {s : Solution} (hdisjoint : s.minterms.Disjoint s.dontCares)
include hdisjoint

/-- The verifier finds a mismatch exactly where the row disagrees. -/
theorem mismatch?_demand (v : ℤ) :
    s.mismatch? (s.demand v) = if (s.row v).agrees then none else some (s.row v).mismatch := by
  unfold mismatch? Row.mismatch Row.agrees row Demand.entry demand
  by_cases hone : v ∈ s.minterms
  · have hfree : v ∉ s.dontCares := hdisjoint hone
    cases s.value v <;> simp [hone, hfree]
  · by_cases hfree : v ∈ s.dontCares
    · simp [hone, hfree]
    · cases s.value v <;> simp [hone, hfree]

/-- **The mismatches are the rows that disagree.** -/
theorem mismatches_eq_rows :
    s.mismatches = s.rows.map fun rows => (rows.filter fun r => !r.agrees).map Row.mismatch := by
  unfold mismatches
  rw [demands_eq_map, rows_eq_map]
  cases s.inputs with
  | error f => rfl
  | ok inputs =>
      refine congrArg Except.ok ?_
      dsimp only
      rw [List.filterMap_map]
      induction inputs with
      | nil => rfl
      | cons v inputs ih =>
          rw [List.filterMap_cons, List.map_cons, List.filter_cons, Function.comp_apply,
            mismatch?_demand hdisjoint, ih]
          cases (s.row v).agrees <;> rfl

theorem ascending_mismatches {ms : List Mismatch} (h : s.mismatches = .ok ms) :
    (ms.map Mismatch.input).Pairwise (· < ·) := by
  rw [mismatches_eq_rows hdisjoint, rows_eq_map] at h
  cases hinputs : s.inputs with
  | error f =>
      rw [hinputs] at h
      exact nomatch h
  | ok inputs =>
      rw [hinputs] at h
      have hinput : (inputs.map s.row).map TruthTable.Row.input = inputs := by
        rw [List.map_map]
        exact List.map_id'' (fun _ => rfl) inputs
      have hsub : (((inputs.map s.row).filter fun r => !r.agrees).map TruthTable.Row.input).Sublist
          ((inputs.map s.row).map TruthTable.Row.input) := List.filter_sublist.map _
      rw [hinput] at hsub
      obtain rfl := Except.ok.inj h
      rw [List.map_map]
      exact ((inputs_ascending hinputs).imp Std.compare_eq_lt.mp).sublist hsub

end disjoint

/-- **The verifier and the printed table agree.**  In the solution of a problem, whatever its
implicants, no input is both required and unconstrained.  For every solution of this kind, over any
number of inputs, the verifier and the table accept the same, and the last line of the table says
so.  The marked rows are the mismatches in ascending order, each with its input, with what is
expected and with the value, so that the table reports the error list of the verifier. -/
theorem table_reports_mismatches :
    (∀ (p : Problem) (primes implicants : List Term) (method : Method),
      (p.solution primes implicants method).minterms.Disjoint
        (p.solution primes implicants method).dontCares) ∧
    ∀ s : Solution, 0 ≤ s.width → s.minterms.Disjoint s.dontCares →
      ∃ ms table, s.mismatches = .ok ms ∧ s.table = .ok table ∧
        s.verified = .ok ms.isEmpty ∧ s.allAgree = .ok ms.isEmpty ∧
        (Text.lines table).getLast? =
          some ("All correct: " ++ if ms.isEmpty then "True" else "False") ∧
        (ms.map Mismatch.input).Pairwise (· < ·) ∧
        (grid table).head? = some titles ∧
        markedRows table = ms.map (Mismatch.cells s.width.toNat) ∧
        (markedRows table).map report = ms.map Mismatch.text := by
  refine ⟨Problem.disjoint_solution, fun s hw hdisjoint => ?_⟩
  obtain ⟨rows, hrows⟩ : ∃ rows, s.rows = .ok rows := by
    rw [rows_eq_map, inputs_of_nonneg s hw]
    exact ⟨_, rfl⟩
  let wrong := rows.filter fun r => !r.agrees
  have hmismatches : s.mismatches = .ok (wrong.map TruthTable.Row.mismatch) := by
    rw [mismatches_eq_rows hdisjoint, hrows]
    rfl
  have hall : rows.all TruthTable.Row.agrees = (wrong.map TruthTable.Row.mismatch).isEmpty := by
    rw [Bool.eq_iff_iff, List.isEmpty_iff, List.map_eq_nil_iff, List.filter_eq_nil_iff]
    simp
  have hmarked : markedRows (String.join ((tableLines s.width.toNat rows).map (· ++ "\n"))) =
      (wrong.map TruthTable.Row.mismatch).map (Mismatch.cells s.width.toNat) := by
    rw [markedRows_join, List.map_map]
    refine List.map_congr_left fun r hr => TruthTable.Row.cells_of_not_agrees _ ?_
    simpa using (List.mem_filter.mp hr).2
  refine ⟨_, _, hmismatches, by rw [table, hrows]; rfl, ?_, ?_, ?_,
    ascending_mismatches hdisjoint hmismatches, ?_, hmarked, ?_⟩
  · rw [verified, hmismatches]
    rfl
  · rw [allAgree, hrows, ← hall]
    rfl
  · rw [lines_join (oneLine_tableLines _ _), ← hall]
    unfold tableLines
    rw [List.getLast?_append]
    rfl
  · rw [grid_table]
    rfl
  · rw [hmarked, List.map_map]
    exact List.map_congr_left fun m _ => m.report_cells _

/-- The term `1*` misses the required input 1 and covers 2, which is neither required nor
unconstrained. -/
theorem table_reports_missed_and_extra :
    let s : Solution := ⟨[.ofPattern [.star, .one]], [], "petrick", 2, 1, [1], [3]⟩
    0 ≤ s.width ∧ s.minterms.Disjoint s.dontCares ∧ s.verified = .ok false ∧
      s.allAgree = .ok false ∧
      ∃ table, s.table = .ok table ∧ (Text.lines table).getLast? = some "All correct: False" ∧
        markedRows table = [["1", "01", "1", "0", "X"], ["2", "10", "0", "1", "X"]] ∧
        (markedRows table).map report = ["input 1: expected 1, got 0", "input 2: expected 0, got 1"] := by
  intro s
  have hdisjoint : s.minterms.Disjoint s.dontCares := by
    intro v hone hfree
    obtain rfl := List.mem_singleton.mp hone
    exact absurd hfree (by decide)
  obtain ⟨ms, table, hms, htable, hverified, hagree, hlast, -, -, hmarked, hreport⟩ :=
    table_reports_mismatches.2 s (by decide) hdisjoint
  have hfound : s.mismatches = .ok [⟨1, true, false⟩, ⟨2, false, true⟩] := by decide
  obtain rfl := Except.ok.inj (hfound.symm.trans hms)
  exact ⟨by decide, hdisjoint, hverified, hagree, table, htable, hlast, hmarked.trans (by decide),
    hreport.trans (by decide)⟩

end Solution

end TwoLevel
