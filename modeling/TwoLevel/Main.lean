import TwoLevel.Cli.Run

/-! # The program

The command line of the minimiser: prints the output and the messages of a run and exits with its
code.  A fault without an outcome is told to the user and gives the code one. -/

/-- Run the command line given by the words behind the name of the program. -/
def main (words : List String) : IO UInt32 := do
  match TwoLevel.Cli.run words with
  | .error f =>
    IO.eprintln f.message
    return 1
  | .ok outcome =>
    IO.print outcome.output
    for line in outcome.messages do
      IO.eprintln line
    return outcome.code.toUInt32
