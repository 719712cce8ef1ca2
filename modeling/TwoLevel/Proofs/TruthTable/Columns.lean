import TwoLevel.Proofs.Text.Layout
import TwoLevel.Proofs.Verification

/-! # Columns of printed tables

A printed table is a grid again once its lines are cut at the bars: a header and one row for each
input, each of them with its five cells (`Solution.grid_table`).  So the columns can be read off
under their titles (`columnOf`). -/

namespace TwoLevel

open Text

namespace TruthTable

/-! ### Cells -/

/-- The cells of a line: what stands between its bars, without the blanks around it. -/
def cells (line : List Char) : List String :=
  (line.splitOn '|').map fun cell => stripped (String.ofList cell)

/-- A text that is found again when it stands in a cell. -/
def IsCell (text : String) : Prop := ∀ c ∈ text.toList, isBlank c = false ∧ c ≠ '|'

instance (text : String) : Decidable (IsCell text) := List.decidableBAll _ _

theorem cells_of_not_mem {line : List Char} (h : '|' ∉ line) :
    cells line = [stripped (String.ofList line)] := by
  have hsplit := List.splitOn_intercalate '|' (List.forall_mem_singleton.mpr h)
    (List.cons_ne_nil line [])
  rw [List.intercalate_singleton] at hsplit
  unfold cells
  rw [hsplit, List.map_singleton]

theorem cells_append_bar {start : List Char} (h : '|' ∉ start) (rest : List Char) :
    cells (start ++ '|' :: rest) = stripped (String.ofList start) :: cells rest := by
  have hstart : ∀ c ∈ start, (c == '|') = false := by
    intro c hc
    rw [beq_eq_false_iff_ne]
    rintro rfl
    exact h hc
  unfold cells List.splitOn
  rw [List.splitOnP_append_cons_of_forall_mem hstart '|' (beq_self_eq_true _), List.map_cons]

theorem stripped_blank_append_blank {front behind : List Char} (text : String)
    (hfront : ∀ c ∈ front, isBlank c = true) (hbehind : ∀ c ∈ behind, isBlank c = true) :
    stripped (String.ofList (front ++ (text.toList ++ behind))) = stripped text := by
  unfold stripped
  rw [String.toList_ofList, trimmed_append_left hfront, trimmed_append_right hbehind]

/-- Texts that are put between bars are the cells of the line, also behind blanks. -/
theorem cells_intercalate {texts : List String} (hne : texts ≠ [])
    (hbar : ∀ text ∈ texts, '|' ∉ text.toList) {front : List Char} (hfront : ∀ c ∈ front, c = ' ') :
    cells (front ++ (" | ".intercalate texts).toList) = texts.map stripped := by
  induction texts generalizing front with
  | nil => exact absurd rfl hne
  | cons text texts ih =>
      rw [List.forall_mem_cons] at hbar
      have hblanks : ∀ c ∈ front, isBlank c = true := by
        intro c hc
        rw [hfront c hc]
        decide
      have hclear : '|' ∉ front := fun hmem => absurd (hfront _ hmem) (by decide)
      cases texts with
      | nil =>
          have hline : '|' ∉ front ++ text.toList := by
            rw [List.mem_append, not_or]
            exact ⟨hclear, hbar.1⟩
          have hcell : stripped (String.ofList (front ++ (text.toList ++ []))) = stripped text :=
            stripped_blank_append_blank text hblanks (by simp)
          rw [List.append_nil] at hcell
          rw [String.intercalate_singleton, cells_of_not_mem hline, hcell, List.map_singleton]
      | cons other texts =>
          have hstart : '|' ∉ front ++ (text.toList ++ [' ']) := by
            simp only [List.mem_append, not_or]
            exact ⟨hclear, hbar.1, by decide⟩
          have hline : front ++ (" | ".intercalate (text :: other :: texts)).toList =
              (front ++ (text.toList ++ [' '])) ++
                '|' :: ([' '] ++ (" | ".intercalate (other :: texts)).toList) := by
            simp [String.toList_intercalate]
          rw [hline, cells_append_bar hstart,
            stripped_blank_append_blank text hblanks (List.forall_mem_singleton.mpr (by decide)),
            ih (by simp) hbar.2 (by simp)]
          rfl

/-- A line of texts that are filled up to the widths of their columns. -/
def padded (columns : List (ℕ × String)) : String :=
  " | ".intercalate (columns.map fun column => padLeft column.1 ' ' column.2)

theorem cells_padded {columns : List (ℕ × String)} (hne : columns ≠ [])
    (h : ∀ column ∈ columns, IsCell column.2) :
    cells (padded columns).toList = columns.map Prod.snd := by
  have hbar : ∀ text ∈ columns.map fun column => padLeft column.1 ' ' column.2,
      '|' ∉ text.toList := by
    rw [List.forall_mem_map]
    intro column hcolumn hmem
    rw [padLeft, String.toList_ofList] at hmem
    rcases mem_leftpad hmem with hmem | hmem
    · exact absurd hmem (by decide)
    · exact (h column hcolumn _ hmem).2 rfl
  have hcells := cells_intercalate (by simpa using hne) hbar (List.forall_mem_nil _)
  rw [List.nil_append, List.map_map] at hcells
  refine hcells.trans (List.map_congr_left fun column hcolumn => ?_)
  exact stripped_padLeft (fun c hc => (h column hcolumn c hc).1) column.1

theorem oneLine_padded {columns : List (ℕ × String)} (h : ∀ column ∈ columns, IsCell column.2) :
    OneLine (padded columns) := by
  refine oneLine_intercalate (by decide) (List.forall_mem_map.mpr fun column hcolumn hmem => ?_)
  rw [padLeft, String.toList_ofList] at hmem
  rcases mem_leftpad hmem with hmem | hmem
  · exact absurd hmem (by decide)
  · exact absurd (h column hcolumn _ hmem).1 (by decide)

/-! ### Rows -/

theorem isBlank_of_isDigit {c : Char} (h : c.isDigit = true) : isBlank c = false ∧ c ≠ '|' := by
  have hrange : 48 ≤ c.toNat ∧ c.toNat ≤ 57 := by
    simpa [Char.isDigit, UInt32.le_iff_toNat_le] using h
  have hdigits : ∀ k < 10, isBlank (Char.ofNat (48 + k)) = false ∧ Char.ofNat (48 + k) ≠ '|' := by
    decide
  have hc : c = Char.ofNat (48 + (c.toNat - 48)) := by
    rw [Nat.add_sub_cancel' hrange.1, Char.ofNat_toNat]
  rw [hc]
  exact hdigits _ (by omega)

theorem isCell_of_isDigit_or {text : String}
    (h : ∀ c ∈ text.toList, c.isDigit = true ∨ c = '-') : IsCell text := by
  intro c hc
  rcases h c hc with hdigit | rfl
  · exact isBlank_of_isDigit hdigit
  · decide

namespace Row

/-- The cells of a row. -/
def cells (width : ℕ) (r : Row) : List String :=
  [toString r.input, binary width r.input, r.expected.char.toString, if r.actual then "1" else "0",
    if r.agrees then "." else "X"]

/-- The widths of the columns. -/
def widths (width : ℕ) : List ℕ := [6, bitColumn width, 8, 6, 0]

theorem isCell_of_mem_cells {width : ℕ} {r : Row} : ∀ text ∈ r.cells width, IsCell text := by
  have hexpected : IsCell r.expected.char.toString := by
    cases r.expected <;> decide
  simp only [cells, List.forall_mem_cons]
  refine ⟨isCell_of_isDigit_or fun c => isDigit_or_eq_of_mem_toString,
    isCell_of_isDigit_or fun c => isDigit_or_eq_of_mem_binary, hexpected, ?_, ?_, by simp⟩
  · split <;> decide
  · split <;> decide

theorem text_eq_padded (width : ℕ) (r : Row) :
    r.text width = padded ((widths width).zip (r.cells width)) := by
  have hmark : ∀ text, padLeft 0 ' ' text = text := by simp [padLeft]
  unfold text padded widths cells
  simp [hmark]

theorem cells_text (width : ℕ) (r : Row) :
    TruthTable.cells (r.text width).toList = r.cells width := by
  rw [text_eq_padded, cells_padded (by simp [widths, cells]) fun column hcolumn =>
    isCell_of_mem_cells _ (List.of_mem_zip hcolumn).2]
  rfl

theorem oneLine_text (width : ℕ) (r : Row) : OneLine (r.text width) := by
  rw [text_eq_padded]
  exact oneLine_padded fun column hcolumn => isCell_of_mem_cells _ (List.of_mem_zip hcolumn).2

end Row

/-! ### Grids -/

/-- The titles of the columns. -/
def titles : List String := ["Value", "Input", "Expected", "Actual", "Match"]

/-- The lines of a printed table that hold bars, each with its cells. -/
def grid (table : String) : List (List String) :=
  ((table.toList.splitOn '\n').map cells).filter fun row => 1 < row.length

/-- The column of a printed table under a title. -/
def columnOf (title table : String) : List String :=
  match grid table with
  | [] => []
  | titles :: rows => rows.filterMap fun row => row[titles.idxOf title]?

theorem header_eq_padded (width : ℕ) :
    " | ".intercalate [padLeft 6 ' ' "Value", padLeft (Row.bitColumn width) ' ' "Input", "Expected",
      "Actual", "Match"] = padded ([6, Row.bitColumn width, 0, 0, 0].zip titles) := by
  have hwhole : ∀ text, padLeft 0 ' ' text = text := by simp [padLeft]
  simp [padded, titles, hwhole]

theorem isCell_of_mem_titles : ∀ title ∈ titles, IsCell title := by decide

theorem not_one_lt_length_cells {line : String} (h : '|' ∉ line.toList) :
    ¬ 1 < (cells line.toList).length := by
  rw [cells_of_not_mem h]
  simp

/-- The lines of a text are the lines that it was put together from. -/
theorem grid_join {lines : List String} (h : ∀ line ∈ lines, OneLine line) :
    grid (String.join (lines.map (· ++ "\n"))) =
      (lines.map fun line => cells line.toList).filter fun row => 1 < row.length := by
  have hempty : ¬ 1 < (cells "".toList).length := not_one_lt_length_cells (by decide)
  unfold grid
  rw [splitOn_join h, List.map_map, List.map_append, List.filter_append]
  simp only [List.map_cons, List.map_nil, Function.comp_apply, List.filter_cons, hempty,
    decide_false, Bool.false_eq_true, if_false, List.filter_nil, List.append_nil]
  rfl

end TruthTable

namespace Solution

open TruthTable

theorem isCell_of_mem_header (width : ℕ) :
    ∀ column ∈ [6, Row.bitColumn width, 0, 0, 0].zip titles, IsCell column.2 :=
  fun _ hcolumn => isCell_of_mem_titles _ (List.of_mem_zip hcolumn).2

theorem oneLine_tableLines (width : ℕ) (rows : List Row) :
    ∀ line ∈ tableLines width rows, OneLine line := by
  have hlast : OneLine ("All correct: " ++ if rows.all Row.agrees then "True" else "False") := by
    split <;> decide
  unfold tableLines
  rw [header_eq_padded]
  simp only [List.forall_mem_append, List.forall_mem_cons, List.forall_mem_map]
  exact ⟨⟨⟨by decide, by decide, oneLine_padded (isCell_of_mem_header width), by decide, by simp⟩,
    fun r _ => r.oneLine_text width⟩, by decide, hlast, by simp⟩

/-- **A printed table is a grid**: under the titles, the cells of one row after the other. -/
theorem grid_table (width : ℕ) (rows : List Row) :
    grid (String.join ((tableLines width rows).map (· ++ "\n"))) =
      titles :: rows.map (Row.cells width) := by
  have htitles := cells_padded (by simp [titles]) (isCell_of_mem_header width)
  have hcells : (rows.map (Row.text width)).map (fun line => cells line.toList) =
      rows.map (Row.cells width) := by
    rw [List.map_map]
    refine List.map_congr_left fun r _ => ?_
    rw [Function.comp_apply, Row.cells_text]
  have hfull : (rows.map (Row.cells width)).filter (fun row => 1 < row.length) =
      rows.map (Row.cells width) := by
    rw [List.filter_eq_self, List.forall_mem_map]
    intro r _
    simp [Row.cells]
  -- The lines around the rows have no bars, but for the one with the titles.
  have htop : '|' ∉ "Truth Table Verification".toList := by decide
  have hdouble : '|' ∉ (rule 40 '=').toList := by decide
  have hsingle : '|' ∉ (rule 40 '-').toList := by decide
  have hlast :
      '|' ∉ ("All correct: " ++ if rows.all Row.agrees then "True" else "False").toList := by
    split <;> decide
  rw [grid_join (oneLine_tableLines width rows)]
  unfold tableLines
  rw [header_eq_padded]
  simp only [List.map_append, List.map_cons, List.map_nil, List.filter_append, hcells, hfull,
    htitles, List.filter_cons, List.filter_nil, decide_eq_true_eq,
    if_neg (not_one_lt_length_cells htop), if_neg (not_one_lt_length_cells hdouble),
    if_neg (not_one_lt_length_cells hsingle), if_neg (not_one_lt_length_cells hlast),
    List.append_nil]
  rfl

theorem columnOf_expected (s : Solution) (hw : 0 ≤ s.width) :
    ∃ table, s.table = .ok table ∧ columnOf "Expected" table =
      (List.range (2 ^ s.width.toNat)).map fun n : ℕ => (s.demand n).entry.char.toString := by
  refine ⟨_, by rw [table, rows_eq_map, inputs_of_nonneg s hw]; rfl, ?_⟩
  have hindex : titles.idxOf "Expected" = 2 := by decide
  unfold columnOf
  rw [grid_table, List.map_map, List.map_map]
  dsimp only
  rw [hindex, List.filterMap_map]
  exact congrFun List.filterMap_eq_map _

end Solution

end TwoLevel
