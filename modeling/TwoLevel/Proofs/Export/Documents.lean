import TwoLevel.Proofs.Export.Emitted

/-! # Emitted documents

A document is read back from its lines (`Language.Document.Readable.read_stacked`): the lines that
bind the names of the inputs give these names with their bits, one line gives the expression of the
output, and all other lines are passed over.  So the Verilog module and the C function of a solution
are read as the same netlist (`Solution.read_verilog`, `Solution.read_cFunction`). -/

namespace TwoLevel

open Text

/-! ### Expressions in one line -/

theorem oneLine_of_isIdentifier {name : String} (h : isIdentifier name = true) : OneLine name :=
  fun hmem => absurd (isNameChar_of_isIdentifier h _ hmem) (by decide)

/-- The texts of a dialect are in one line. -/
def Dialect.OneLine (d : Dialect) : Prop :=
  ∀ text ∈ [d.complement.1, d.complement.2, d.conjunction, d.group.1, d.group.2, d.disjunction,
    d.always, d.never], TwoLevel.OneLine text

instance (d : Dialect) : Decidable d.OneLine := List.decidableBAll _ _

theorem Dialect.OneLine.sum {d : Dialect} (h : d.OneLine) {names : List String}
    (hnames : ∀ name ∈ names, isIdentifier name = true) (terms : List Term) :
    TwoLevel.OneLine (d.sum names terms) := by
  simp only [Dialect.OneLine, List.forall_mem_cons] at h
  obtain ⟨hbefore, hbehind, hconjunction, hopening, hclosing, hdisjunction, halways, hnever, -⟩ := h
  have hliteral : ∀ t : Term, ∀ m ∈ t.namedLiterals names, TwoLevel.OneLine (d.literal m) := by
    intro t m hm
    have hname := oneLine_of_isIdentifier (hnames _ (Term.name_mem_of_mem_namedLiterals hm))
    unfold literal
    split
    · exact hname
    · exact oneLine_append.mpr ⟨oneLine_append.mpr ⟨hbefore, hname⟩, hbehind⟩
  have hproduct : ∀ ls : List NamedLiteral, (∀ m ∈ ls, TwoLevel.OneLine (d.literal m)) →
      TwoLevel.OneLine (d.product ls) := by
    intro ls hls
    match ls with
    | [] => exact halways
    | [m] => exact hls m List.mem_cons_self
    | m :: n :: ls =>
        have hinside := oneLine_intercalate hconjunction (List.forall_mem_map.mpr hls)
        exact oneLine_append.mpr ⟨oneLine_append.mpr ⟨hopening, hinside⟩, hclosing⟩
  cases terms with
  | nil => exact hnever
  | cons t terms =>
      exact oneLine_intercalate hdisjunction
        (List.forall_mem_map.mpr fun u _ => hproduct _ (hliteral u))

/-! ### Reading lines -/

theorem dropPrefix?_append (before rest : List Char) :
    (before ++ rest).dropPrefix? before = some rest :=
  List.dropPrefix?_append_of_beq rest (beq_self_eq_true before)

theorem dropPrefix?_eq_none {before line : List Char} (h : ¬ before <+: line) :
    line.dropPrefix? before = none := by
  rw [Option.eq_none_iff_forall_not_mem]
  intro rest hrest
  obtain ⟨found, rfl, hfound⟩ := List.dropPrefix?_eq_some_iff.mp hrest
  rw [beq_iff_eq] at hfound
  exact h ⟨rest, by rw [hfound]⟩

theorem not_isPrefix_append {before start : List Char} (h : ¬ before <+: start ∧ ¬ start <+: before)
    (rest : List Char) : ¬ before <+: start ++ rest := by
  intro hprefix
  rcases List.prefix_or_prefix_of_prefix hprefix (List.prefix_append start rest) with hle | hle
  · exact h.1 hle
  · exact h.2 hle

namespace Language

/-- The line that binds a name to a bit. -/
def bindingLine (l : Language) (entry : String × ℕ) : String :=
  l.binding.1 ++ entry.1 ++ l.binding.2.1 ++ toString entry.2 ++ l.binding.2.2

/-- The line that gives the output. -/
def outputLine (l : Language) (text : String) : String := l.output.1 ++ text ++ l.output.2

/-- A line that neither binds a name nor gives the output. -/
def Skips (l : Language) (line : String) : Prop :=
  l.binding? line.toList = none ∧ l.output? line.toList = none

instance (l : Language) (line : String) : Decidable (l.Skips line) :=
  inferInstanceAs (Decidable (_ ∧ _))

/-- A text that begins no line of interest, and with which none begins. -/
def Foreign (l : Language) (start : List Char) : Prop :=
  (¬ l.binding.1.toList <+: start ∧ ¬ start <+: l.binding.1.toList) ∧
    ¬ l.output.1.toList <+: start ∧ ¬ start <+: l.output.1.toList

instance (l : Language) (start : List Char) : Decidable (l.Foreign start) :=
  inferInstanceAs (Decidable (_ ∧ _))

/-- The lines of a language can be told apart, and their parts as well. -/
structure Separated (l : Language) : Prop where
  between : Apart l.binding.2.1.toList
  behind : ∀ c ∈ l.binding.2.2.toList.head?, c.isDigit = false
  lines : ¬ l.output.1.toList <+: l.binding.1.toList ∧ ¬ l.binding.1.toList <+: l.output.1.toList
  oneLine : ∀ text ∈ [l.binding.1, l.binding.2.1, l.binding.2.2, l.output.1, l.output.2],
    OneLine text

theorem separated_verilog : verilog.Separated where
  between := by decide
  behind := fun | _, rfl => rfl
  lines := by decide
  oneLine := by decide

theorem separated_c : c.Separated where
  between := by decide
  behind := fun | _, rfl => rfl
  lines := by decide
  oneLine := by decide

section lines

variable {l : Language}

theorem Foreign.skips {start : String} (h : l.Foreign start.toList) (rest : String) :
    l.Skips (start ++ rest) := by
  unfold Skips binding? output?
  rw [String.toList_append, dropPrefix?_eq_none (not_isPrefix_append h.1 rest.toList),
    dropPrefix?_eq_none (not_isPrefix_append h.2 rest.toList)]
  exact ⟨rfl, rfl⟩

theorem Separated.binding?_bindingLine (h : l.Separated) {name : String}
    (hname : isIdentifier name = true) (k : ℕ) :
    l.binding? (l.bindingLine (name, k)).toList = some (name, k) := by
  have hline : (l.bindingLine (name, k)).toList = l.binding.1.toList ++
      (name.toList ++ (l.binding.2.1.toList ++
        ((toString k).toList ++ l.binding.2.2.toList))) := by
    simp only [bindingLine, String.toList_append, List.append_assoc]
  obtain ⟨hnamed, hindexed⟩ := span_append (isNameChar_of_isIdentifier hname)
    (h.between.append_clear ((toString k).toList ++ l.binding.2.2.toList))
  obtain ⟨hdigits, hbehind⟩ :=
    span_append (fun c (hc : c ∈ (toString k).toList) => isDigit_of_mem_toString hc) h.behind
  unfold binding?
  simp only [hline, dropPrefix?_append, hnamed, hindexed, hdigits, hbehind, if_true,
    String.ofList_toList, ofDigitChars_toString, Option.bind_eq_bind, Option.bind_some]

theorem Separated.output?_bindingLine (h : l.Separated) (entry : String × ℕ) :
    l.output? (l.bindingLine entry).toList = none := by
  unfold output? bindingLine
  simp only [String.toList_append, List.append_assoc]
  rw [dropPrefix?_eq_none (not_isPrefix_append h.lines _)]
  rfl

theorem output?_outputLine (text : String) :
    l.output? (l.outputLine text).toList = some text.toList := by
  unfold output? outputLine
  rw [String.toList_append, String.toList_append, List.append_assoc, dropPrefix?_append]
  exact List.dropSuffix?_eq_some_iff.mpr ⟨_, rfl, beq_self_eq_true _⟩

theorem Separated.binding?_outputLine (h : l.Separated) (text : String) :
    l.binding? (l.outputLine text).toList = none := by
  unfold binding? outputLine
  rw [String.toList_append, String.toList_append, List.append_assoc,
    dropPrefix?_eq_none (not_isPrefix_append h.lines.symm _)]
  rfl

theorem Separated.oneLine_bindingLine (h : l.Separated) {name : String}
    (hname : isIdentifier name = true) (k : ℕ) : OneLine (l.bindingLine (name, k)) := by
  have hparts := h.oneLine
  simp only [List.forall_mem_cons] at hparts
  unfold bindingLine
  simp only [oneLine_append]
  exact ⟨⟨⟨⟨hparts.1, oneLine_of_isIdentifier hname⟩, hparts.2.1⟩, oneLine_toString k⟩,
    hparts.2.2.1⟩

theorem Separated.oneLine_outputLine (h : l.Separated) {text : String} (htext : OneLine text) :
    OneLine (l.outputLine text) := by
  have hparts := h.oneLine
  simp only [List.forall_mem_cons] at hparts
  exact oneLine_append.mpr ⟨oneLine_append.mpr ⟨hparts.2.2.2.1, htext⟩, hparts.2.2.2.2.1⟩

end lines

/-! ### Reading documents -/

/-- A document with its parts: the names with their bits, the text of the output, and the lines
around them. -/
structure Document where
  header : List String
  inputs : List (String × ℕ)
  between : List String
  output : String
  footer : List String

namespace Document

/-- The lines of a document. -/
def lines (l : Language) (d : Document) : List String :=
  d.header ++ d.inputs.map l.bindingLine ++ d.between ++ l.outputLine d.output :: d.footer

/-- Names are identifiers, every part is in one line, and no other line is taken for one of
interest. -/
structure Readable (l : Language) (d : Document) : Prop where
  names : ∀ entry ∈ d.inputs, isIdentifier entry.1 = true
  output : OneLine d.output
  header : ∀ line ∈ d.header, l.Skips line ∧ OneLine line
  between : ∀ line ∈ d.between, l.Skips line ∧ OneLine line
  footer : ∀ line ∈ d.footer, l.Skips line ∧ OneLine line

variable {l : Language} {d : Document}

theorem Readable.oneLine (h : d.Readable l) (hl : l.Separated) :
    ∀ line ∈ d.lines l, OneLine line := by
  unfold lines
  simp only [List.forall_mem_append, List.forall_mem_cons, List.forall_mem_map]
  exact ⟨⟨⟨fun line hline => (h.header line hline).2,
      fun entry hentry => hl.oneLine_bindingLine (h.names entry hentry) entry.2⟩,
    fun line hline => (h.between line hline).2⟩, hl.oneLine_outputLine h.output,
    fun line hline => (h.footer line hline).2⟩

theorem filterMap_output?_skips {lines : List String}
    (h : ∀ line ∈ lines, l.Skips line ∧ OneLine line) :
    lines.filterMap (fun line => l.output? line.toList) = [] :=
  List.filterMap_eq_nil_iff.mpr fun line hline => (h line hline).1.2

theorem filterMap_binding?_skips {lines : List String}
    (h : ∀ line ∈ lines, l.Skips line ∧ OneLine line) :
    lines.filterMap (fun line => l.binding? line.toList) = [] :=
  List.filterMap_eq_nil_iff.mpr fun line hline => (h line hline).1.1

theorem Readable.filterMap_output? (h : d.Readable l) (hl : l.Separated) :
    (d.lines l).filterMap (fun line => l.output? line.toList) = [d.output.toList] := by
  have hinputs : (d.inputs.map l.bindingLine).filterMap (fun line => l.output? line.toList) = [] := by
    rw [List.filterMap_eq_nil_iff, List.forall_mem_map]
    exact fun entry _ => hl.output?_bindingLine entry
  unfold lines
  simp only [List.filterMap_append, List.filterMap_cons, hinputs, output?_outputLine,
    filterMap_output?_skips h.header, filterMap_output?_skips h.between,
    filterMap_output?_skips h.footer, List.nil_append]

theorem Readable.filterMap_binding? (h : d.Readable l) (hl : l.Separated) :
    (d.lines l).filterMap (fun line => l.binding? line.toList) = d.inputs := by
  have hinputs : (d.inputs.map l.bindingLine).filterMap (fun line => l.binding? line.toList) =
      d.inputs := by
    rw [List.filterMap_map]
    refine (List.filterMap_congr fun entry hentry => ?_).trans List.filterMap_some
    exact hl.binding?_bindingLine (h.names entry hentry) entry.2
  unfold lines
  simp only [List.filterMap_append, List.filterMap_cons, hinputs, hl.binding?_outputLine,
    filterMap_binding?_skips h.header, filterMap_binding?_skips h.between,
    filterMap_binding?_skips h.footer, List.nil_append, List.append_nil]

/-- **A document is read from its lines.** -/
theorem Readable.read_stacked (h : d.Readable l) (hl : l.Separated) {e : Expr}
    (hexpr : (l.lex d.output.toList).bind Expr.parse = some e) :
    l.read (stacked (d.lines l)) = some ⟨d.inputs, e⟩ := by
  have hne : d.lines l ≠ [] := by simp [lines]
  unfold read
  rw [splitOn_stacked (h.oneLine hl) hne]
  simp only [List.filterMap_map, Function.comp_def, h.filterMap_output? hl, h.filterMap_binding? hl,
    hexpr, Option.map_some]

end Document

end Language

/-! ### The documents of a solution -/

namespace Solution

variable {s : Solution} {names : List String}

/-- The names with the bits that they stand for. -/
def bits (names : List String) : List (String × ℕ) :=
  names.zip (List.range names.length).reverse

theorem numbered_eq (h : (names.length : ℤ) = s.width) :
    s.numbered names = (bits names).map fun entry => (entry.1, (entry.2 : ℤ)) := by
  unfold numbered bits
  refine List.ext_getElem (by simp) fun i hi _ => ?_
  rw [List.length_map, List.length_zipIdx] at hi
  simp only [List.getElem_map, List.getElem_zipIdx, List.getElem_zip, List.getElem_reverse,
    List.getElem_range, List.length_range, ← h, Nat.zero_add, Prod.mk.injEq, true_and]
  omega

/-- The Verilog module of a solution with its parts. -/
def verilogDocument (s : Solution) (names : List String) (label : String) : Language.Document where
  header := ["// Minimized with " ++ s.method ++ ": " ++ toString s.implicants.length ++
      " terms, " ++ toString s.cost ++ " gate inputs",
    "",
    "module " ++ label ++ " (",
    "    input  wire [" ++ toString (s.width - 1) ++ ":0] in,",
    "    output wire f",
    ");",
    "",
    "    // Input aliases"]
  inputs := bits names
  between := [""]
  output := Dialect.verilog.sum names s.implicants
  footer := ["", "endmodule"]

/-- The C function of a solution with its parts. -/
def cDocument (s : Solution) (names : List String) (label : String) : Language.Document where
  header := ["/*",
    " * Minimized with " ++ s.method ++ ": " ++ toString s.implicants.length ++ " terms",
    " * F = " ++ s.expression names,
    " */",
    "",
    "#include <stdint.h>",
    "",
    "int " ++ label ++ "(uint32_t in) \x7b"]
  inputs := bits names
  between := [""]
  output := Dialect.c.sum names s.implicants
  footer := ["\x7d"]

theorem verilog_eq_stacked (h : (names.length : ℤ) = s.width) (label : String) :
    s.verilog names label = stacked ((s.verilogDocument names label).lines .verilog) := by
  unfold verilog
  rw [numbered_eq h, List.map_map]
  simp only [Language.Document.lines, List.append_assoc]
  rfl

theorem cFunction_eq_stacked (h : (names.length : ℤ) = s.width) (label : String) :
    s.cFunction names label = stacked ((s.cDocument names label).lines .c) := by
  unfold cFunction
  rw [numbered_eq h, List.map_map]
  simp only [Language.Document.lines, List.append_assoc]
  rfl

section read

variable (hnames : ∀ name ∈ names, isIdentifier name = true) (hmethod : OneLine s.method)
  {label : String} (hlabel : OneLine label)
include hnames hmethod hlabel

theorem readable_verilogDocument : (s.verilogDocument names label).Readable .verilog where
  names entry hentry := hnames _ (List.of_mem_zip hentry).1
  output := Dialect.OneLine.sum (by decide) hnames s.implicants
  header := by
    have hcomment : Language.verilog.Foreign "// Minimized with ".toList := by decide
    have hmodule : Language.verilog.Foreign "module ".toList := by decide
    have hinput : Language.verilog.Foreign "    input  wire [".toList := by decide
    simp only [verilogDocument, List.forall_mem_cons, String.append_assoc, hcomment.skips,
      hmodule.skips, hinput.skips, oneLine_append, hmethod, hlabel, oneLine_toString,
      oneLine_toString_int, true_and]
    decide
  between := by
    change ∀ line ∈ [""], _
    decide
  footer := by
    change ∀ line ∈ ["", "endmodule"], _
    decide

theorem readable_cDocument : (s.cDocument names label).Readable .c where
  names entry hentry := hnames _ (List.of_mem_zip hentry).1
  output := Dialect.OneLine.sum (by decide) hnames s.implicants
  header := by
    have hcomment : Language.c.Foreign " * Minimized with ".toList := by decide
    have hequation : Language.c.Foreign " * F = ".toList := by decide
    have hfunction : Language.c.Foreign "int ".toList := by decide
    have hexpression : OneLine (s.expression names) :=
      Dialect.OneLine.sum (by decide) hnames s.implicants
    simp only [cDocument, List.forall_mem_cons, String.append_assoc, hcomment.skips,
      hequation.skips, hfunction.skips, oneLine_append, hmethod, hlabel, hexpression,
      oneLine_toString, true_and]
    decide
  between := by
    change ∀ line ∈ [""], _
    decide
  footer := by
    change ∀ line ∈ ["\x7d"], _
    decide

/-- The Verilog module is read as the netlist of the products. -/
theorem read_verilog (hlength : (names.length : ℤ) = s.width) :
    Language.verilog.read (s.verilog names label) =
      some ⟨bits names, Expr.ofSum (s.implicants.map (Term.namedLiterals names))⟩ := by
  rw [verilog_eq_stacked hlength]
  exact (readable_verilogDocument hnames hmethod hlabel).read_stacked Language.separated_verilog
    (Dialect.spelledIn_verilog.read_sum hnames s.implicants)

/-- The C function is read as the same netlist. -/
theorem read_cFunction (hlength : (names.length : ℤ) = s.width) :
    Language.c.read (s.cFunction names label) =
      some ⟨bits names, Expr.ofSum (s.implicants.map (Term.namedLiterals names))⟩ := by
  rw [cFunction_eq_stacked hlength]
  exact (readable_cDocument hnames hmethod hlabel).read_stacked Language.separated_c
    (Dialect.spelledIn_c.read_sum hnames s.implicants)

end read

end Solution

end TwoLevel
