import TwoLevel.Export.Expression

/-! # Documents about a solution

The forms in which a solution leaves the program: bare patterns, equations with the sources of
every term, a Verilog module and a C function.  The inputs are named by a list of names, most
significant first; where its length is not the width of the solution, the terms are read with as
many inputs as there are names. -/

namespace TwoLevel

namespace Solution

open Text

variable (s : Solution) (names : List String)

/-- One padded pattern on a line for each implicant. -/
def patterns : String := stacked (s.implicants.map (Term.padded s.width))

/-- The sum of products in Boolean algebra. -/
def expression : String := Dialect.algebra.sum names s.implicants

/-- The line of equations that shows an implicant: pattern, product and sources. -/
def implicantLine (t : Term) : String :=
  "  " ++ t.padded s.width ++ "  " ++ padRight 12 (Dialect.algebra.term names t) ++ " covers " ++
    ", ".intercalate (t.sources.toList.map toString)

/-- The solution in equations, readable by people. -/
def equations : String :=
  stacked
    (["Method: " ++ s.method,
      "Inputs: " ++ ", ".intercalate names,
      "Prime implicants: " ++ toString s.primes.length,
      "Selected terms: " ++ toString s.implicants.length,
      "Total gate inputs: " ++ toString s.cost,
      "",
      "Selected implicants:"] ++
    s.implicants.map (s.implicantLine names) ++
    ["", "F = " ++ s.expression names])

/-- The names, each with the position of its input in the packed word. -/
def numbered : List (String × Int) :=
  names.zipIdx.map fun (name, i) => (name, s.width - 1 - i)

/-- A Verilog module with the inputs packed into one vector. -/
def verilog (moduleName : String) : String :=
  stacked
    (["// Minimized with " ++ s.method ++ ": " ++ toString s.implicants.length ++ " terms, " ++
        toString s.cost ++ " gate inputs",
      "",
      "module " ++ moduleName ++ " (",
      "    input  wire [" ++ toString (s.width - 1) ++ ":0] in,",
      "    output wire f",
      ");",
      "",
      "    // Input aliases"] ++
    (s.numbered names).map (fun (name, i) =>
      "    wire " ++ name ++ " = in[" ++ toString i ++ "];") ++
    ["",
      "    assign f = " ++ Dialect.verilog.sum names s.implicants ++ ";",
      "",
      "endmodule"])

/-- A C function with the inputs packed into one unsigned word. -/
def cFunction (functionName : String) : String :=
  stacked
    (["/*",
      " * Minimized with " ++ s.method ++ ": " ++ toString s.implicants.length ++ " terms",
      " * F = " ++ s.expression names,
      " */",
      "",
      "#include <stdint.h>",
      "",
      "int " ++ functionName ++ "(uint32_t in) \x7b"] ++
    (s.numbered names).map (fun (name, i) =>
      "    int " ++ name ++ " = (in >> " ++ toString i ++ ") & 1;") ++
    ["",
      "    return " ++ Dialect.c.sum names s.implicants ++ ";",
      "\x7d"])

end Solution

end TwoLevel
