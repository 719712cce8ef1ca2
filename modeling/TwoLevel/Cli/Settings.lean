import TwoLevel.Cli.Words
import TwoLevel.Problem

/-! # Settings of a run

The options of the program, what each of them sets, and which settings go together.  A later
option replaces what an earlier one of the same name has set; only the flag for more messages
counts how often it is given.

A value of two dashes stands for no value.  Most options then are as if they were not given, but a
width without a number is a fault, and so is a backend without a name once it is needed. -/

namespace TwoLevel.Cli

/-! ### Options -/

/-- The form in which a solution is printed. -/
inductive Format where
  | text
  | equations
  | patterns
  | verilog
  | c
deriving DecidableEq, Repr

/-- The name of a form. -/
def Format.name : Format → String
  | text => "text"
  | equations => "equations"
  | patterns => "patterns"
  | verilog => "verilog"
  | c => "c"

/-- All forms. -/
def Format.all : List Format := [.text, .equations, .patterns, .verilog, .c]

/-- All backends. -/
def methods : List Method := [.products, .search]

/-- What an option is about. -/
inductive Key where
  | help
  | minterms
  | dontCares
  | patterns
  | dontCarePatterns
  | table
  | width
  | method
  | format
  | names
  | check
  | verbose
  | quiet
deriving DecidableEq, Repr

/-- The options of the program. -/
def options : List (Choice Key) :=
  [⟨.help, ["-h", "--help"], .none⟩,
    ⟨.minterms, ["--minterms", "-m"], .many⟩,
    ⟨.dontCares, ["--dont-cares", "-d"], .many⟩,
    ⟨.patterns, ["--patterns", "-p"], .many⟩,
    ⟨.dontCarePatterns, ["--dont-care-patterns"], .many⟩,
    ⟨.table, ["--truth-table", "-t"], .one⟩,
    ⟨.width, ["--width", "-w"], .one⟩,
    ⟨.method, ["--method"], .one⟩,
    ⟨.format, ["--format", "-f"], .one⟩,
    ⟨.names, ["--vars"], .one⟩,
    ⟨.check, ["--check"], .none⟩,
    ⟨.verbose, ["--verbose", "-v"], .none⟩,
    ⟨.quiet, ["--quiet", "-q"], .none⟩]

/-! ### Settings -/

/-- What a command line asks for. -/
structure Settings where
  minterms : List Int := []
  dontCares : List Int := []
  patterns : List String := []
  dontCarePatterns : List String := []
  table : Option String := none
  width : Option Int := none
  /-- Whether the width is asked for without a number. -/
  blankWidth : Bool := false
  /-- The backend, nothing if it is asked for without a name. -/
  method : Option Method := some .products
  format : Format := .text
  names : String := ""
  check : Bool := false
  verbosity : Nat := 0
  quiet : Bool := false

/-- Why a command line is not carried out. -/
inductive Refusal where
  /-- The user asks for help instead. -/
  | help
  | fault (f : UsageFault)
  /-- There is a fault that the user gets no message for. -/
  | failure (f : Fault)

/-- The integer that a value of an option spells. -/
def integer (label value : String) : Except Refusal Int :=
  match Text.integer? value with
  | some n => .ok n
  | none => .error (.fault (.invalidInteger label value))

/-- The member of a list that has a name. -/
def member {α : Type} (label value : String) (all : List α) (name : α → String) :
    Except Refusal α :=
  match all.find? fun a => name a = value with
  | some a => .ok a
  | none => .error (.fault (.invalidChoice label value (all.map name)))

/-- The settings after one option. -/
def Settings.set (s : Settings) (option : Choice Key) (values : List String) :
    Except Refusal Settings :=
  let values := values.erase "--"
  let value := values.head?
  match option.key with
  | .help => .error .help
  | .minterms => (values.mapM (integer option.label)).map fun ns => { s with minterms := ns }
  | .dontCares => (values.mapM (integer option.label)).map fun ns => { s with dontCares := ns }
  | .patterns => .ok { s with patterns := values }
  | .dontCarePatterns => .ok { s with dontCarePatterns := values }
  | .table => .ok { s with table := some (value.getD "") }
  | .width =>
    (value.mapM (integer option.label)).map fun w =>
      { s with width := w, blankWidth := w.isNone }
  | .method =>
    (value.mapM fun v => member option.label v methods Method.name).map fun m =>
      { s with method := m }
  | .format =>
    (value.mapM fun v => member option.label v Format.all Format.name).map fun f =>
      { s with format := f.getD .text }
  | .names => .ok { s with names := value.getD "" }
  | .check => .ok { s with check := true }
  | .verbose => .ok { s with verbosity := s.verbosity + 1 }
  | .quiet => .ok { s with quiet := true }

/-- The settings after a list of options. -/
def Settings.setAll (s : Settings) : List (Setting Key) → Except Refusal Settings
  | [] => .ok s
  | (option, values) :: rest => (s.set option values).bind fun s => s.setAll rest

/-! ### Validity -/

/-- Why settings do not go together. -/
def Settings.conflict? (s : Settings) : Option Refusal :=
  let explicit := !(s.minterms.isEmpty && s.dontCares.isEmpty && s.patterns.isEmpty &&
    s.dontCarePatterns.isEmpty)
  if s.table.isSome && explicit then some (.fault .tableWithTerms)
  else if s.table.isNone && s.minterms.isEmpty && s.patterns.isEmpty then some (.fault .noMinterms)
  else
    match (s.minterms ++ s.dontCares).find? fun n => n < 0 || ((1 <<< maxWidth : Nat) : Int) ≤ n with
    | some n => some (.fault (.inputTooWide n maxWidth))
    | none =>
      if s.blankWidth then some (.failure .blankWidth)
      else if s.width.any fun w => w < 1 || (maxWidth : Int) < w then
        some (.fault (.widthOutOfRange maxWidth))
      else none

/-- Read a command line into settings that go together.  What is wrong with an option is reported
before a fault behind it, and words that belong to no option after all options. -/
def Settings.read (words : List String) : Except Refusal Settings :=
  let reading := Cli.read options words
  match Settings.setAll {} reading.settings with
  | .error r => .error r
  | .ok s =>
    match reading.rest with
    | .error f => .error (.fault f)
    | .ok (w :: ws) => .error (.fault (.unknownWords (w :: ws)))
    | .ok [] =>
      match s.conflict? with
      | some r => .error r
      | none => .ok s

/-- The lowest level of events that the user gets to see. -/
def Settings.level (s : Settings) : Level :=
  if s.quiet then .error
  else if 2 ≤ s.verbosity then .debug
  else if s.verbosity = 1 then .info
  else .warning

end TwoLevel.Cli
