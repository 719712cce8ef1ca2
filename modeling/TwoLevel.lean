import TwoLevel.Main
import TwoLevel.Session
import TwoLevel.Term.Workspace
import TwoLevel.Proofs.Pattern.Cubes
import TwoLevel.Proofs.Pattern.Text
import TwoLevel.Proofs.Term.Classes
import TwoLevel.Proofs.Term.Exact
import TwoLevel.Proofs.Primes.Layer
import TwoLevel.Proofs.Primes.Sources
import TwoLevel.Proofs.Primes.Maximal
import TwoLevel.Proofs.Sets
import TwoLevel.Proofs.Cover.Expansion
import TwoLevel.Proofs.Cover.Choices
import TwoLevel.Proofs.Cover.Minimum
import TwoLevel.Proofs.Minimization
import TwoLevel.Proofs.Cover.Solver
import TwoLevel.Proofs.MaxSat
import TwoLevel.Proofs.Session
import TwoLevel.Proofs.Resolution
import TwoLevel.Proofs.Session.Failure
import TwoLevel.Proofs.Term.Built
import TwoLevel.Proofs.Term.Grammar
import TwoLevel.Proofs.Term.Merge
import TwoLevel.Proofs.Primes.Order
import TwoLevel.Proofs.Primes.Passes
import TwoLevel.Proofs.Rearrangement
import TwoLevel.Proofs.Text.Layout
import TwoLevel.Proofs.Export.Names
import TwoLevel.Proofs.Export.Patterns
import TwoLevel.Proofs.Export.Netlist
import TwoLevel.Proofs.Export.Documents
import TwoLevel.Proofs.Export.Function
import TwoLevel.Proofs.Enlargement
import TwoLevel.Proofs.TruthTable.Reading
import TwoLevel.Proofs.TruthTable.Columns
import TwoLevel.Proofs.TruthTable.RoundTrip
import TwoLevel.Proofs.TruthTable.Mismatches
import TwoLevel.Proofs.Text.Numeral
import TwoLevel.Proofs.TruthTable.Bits
import TwoLevel.Proofs.Cli.Settings
import TwoLevel.Proofs.Cli.Outcome
import TwoLevel.Proofs.Reminimization
import TwoLevel.Proofs.Export.RoundTrip
import TwoLevel.Proofs.Export.Equation
import TwoLevel.Proofs.Export.Gates
import TwoLevel.Proofs.Width
import TwoLevel.Proofs.Primes.Normal
import TwoLevel.Proofs.Primes.Grouping
