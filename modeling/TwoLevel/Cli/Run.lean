import TwoLevel.Cli.Settings
import TwoLevel.Export.Document
import TwoLevel.Text.Layout

/-! # Carrying out a command line

A run reads its settings, minimises the function, prints the solution and verifies it.  Its
outcome is data: the exit code, the text printed, and the lines of messages.  The code is zero
when all went well, one when the function or the solution has a fault, and two when the command
line has one; only runs that reach the solution print anything.  A run has no outcome when an
option lacks the value that it is about. -/

namespace TwoLevel.Cli

/-- The name of the program in its messages. -/
def programName : String := "qmc-minimize"

/-- Functions of more inputs are not verified. -/
def verifyLimit : Int := 16

/-- An option with the values it takes. -/
def usageLine (o : Choice Key) : String :=
  "  " ++ ", ".intercalate o.names ++
    match o.arity with
    | .none => ""
    | .one => " VALUE"
    | .many => " VALUE..."

/-- The options of the program, one on a line. -/
def usage : String :=
  Text.stacked (("usage: " ++ programName ++ " [options]") :: options.map usageLine)

/-- What a run leaves behind. -/
structure Outcome where
  code : Nat
  output : String
  messages : List String
  /-- The lowest level of events among the messages. -/
  level : Level := .warning
  /-- Whether the user asked for the place of a fault as well. -/
  traced : Bool := false

/-- The outcome of a faulty command line. -/
def Outcome.misused (f : UsageFault) : Outcome :=
  ⟨2, "", [programName ++ ": error: " ++ f.message], .warning, false⟩

/-- The outcome of a command line that is not carried out. -/
def Outcome.refused : Refusal → Except Fault Outcome
  | .help => .ok ⟨0, usage ++ "\n", [], .warning, false⟩
  | .fault f => .ok (.misused f)
  | .failure f => .error f

namespace Settings

variable (s : Settings)

/-! ### The problem -/

/-- The required and the unconstrained terms, and the width asked for. -/
def spelled : Except Fault (List Term.Spelling × List Term.Spelling × Option Int) :=
  match s.table with
  | some text => do
    let (on, free) ← TruthTable.read text
    let width := s.width.getD (TruthTable.widthOf text)
    return (on.map .value, free.map .value, some width)
  | none =>
    .ok (s.minterms.map .value ++ s.patterns.map .text,
      s.dontCares.map .value ++ s.dontCarePatterns.map .text, s.width)

/-- The problem to solve. -/
def problem : Except Fault Problem := do
  let (minterms, dontCares, width) ← s.spelled
  Problem.read minterms dontCares width

/-! ### The names -/

/-- The names of a list separated by commas, without the blanks around them. -/
def splitNames (names : String) : List String :=
  (names.toList.splitOn ',').map fun name => Text.stripped (String.ofList name)

/-- The names of `width` inputs. -/
def inputNames (width : Int) : Except UsageFault (List String) :=
  if s.names.isEmpty then .ok (defaultNames width)
  else
    let names := splitNames s.names
    if (names.length : Int) = width then .ok names
    else .error (.wrongNameCount width names.length)

/-! ### The output -/

/-- The text of a solution in the form asked for. -/
def document (solution : Solution) (names : List String) : String :=
  match s.format with
  | .verilog => solution.verilog names "minimized"
  | .c => solution.cFunction names "minimized"
  | .patterns => solution.patterns
  | .equations => solution.equations names
  | .text =>
    Text.stacked ["Quine-McCluskey Minimizer", Text.rule 40 '=', solution.equations names]

/-- The texts of the events that the user gets to see. -/
def shown (events : List Event) : List String :=
  (events.filter fun e => s.level.rank ≤ e.level.rank).map Event.text

/-- The outcome of a fault in the function. -/
def failed (f : Fault) : Outcome :=
  ⟨1, "", ["Error: " ++ f.message], s.level, 0 < s.verbosity⟩

/-- The outcome of a solution that a backend found in the course of some events: print and verify
it. -/
def report (events : List Event) (names : List String) (solution : Solution) : Outcome :=
  let printed := s.document solution names ++ "\n"
  let seen := if s.level.rank ≤ Level.info.rank then s.shown events else []
  if verifyLimit < solution.width then
    ⟨0, printed, seen ++ s.shown [.unverified solution.width], s.level, false⟩
  else
    match solution.mismatches with
    | .error f => s.failed f
    | .ok (m :: ms) =>
      let found := (m :: ms).map fun m => "Verification error: " ++ m.text
      ⟨1, printed, seen ++ found, s.level, false⟩
    | .ok [] =>
      if s.check then
        match solution.table with
        | .error f => s.failed f
        | .ok table => ⟨0, printed ++ "\n" ++ table, seen, s.level, false⟩
      else ⟨0, printed, seen, s.level, false⟩

/-- Carry out settings that go together, by search with the given solver. -/
def runWith (solver : MaxSat.Solver) : Except Fault Outcome :=
  match s.problem with
  | .error f => .ok (s.failed f)
  | .ok p =>
    match s.inputNames p.width with
    | .error f => .ok (.misused f)
    | .ok names =>
      match s.method with
      | none => .error (.unknownMethod none)
      | some method =>
        match p.solveWith solver p.primes method with
        | .error f => .ok (s.failed f)
        | .ok solution => .ok (s.report (p.eventsWith solver method) names solution)

/-- Carry out settings that go together. -/
def run : Except Fault Outcome := s.runWith HittingSet.solve

end Settings

/-- Carry out a command line. -/
def run (words : List String) : Except Fault Outcome :=
  match Settings.read words with
  | .error r => Outcome.refused r
  | .ok s => s.run

end TwoLevel.Cli
