import TwoLevel.Term

/-! # Events of a minimisation

What the stages of a minimisation have to tell about their course, as data.  An event has a level,
which decides who gets to see it, and a text. -/

namespace TwoLevel

/-- How much an event matters. -/
inductive Level where
  | debug
  | info
  | warning
  | error
deriving DecidableEq, Repr

namespace Level

/-- Levels in ascending order. -/
def rank : Level → Nat
  | debug => 0
  | info => 1
  | warning => 2
  | error => 3

/-- The name of a level. -/
def name : Level → String
  | debug => "DEBUG"
  | info => "INFO"
  | warning => "WARNING"
  | error => "ERROR"

end Level

/-- Something that a stage reports. -/
inductive Event where
  /-- No term has one more position fixed to one than this bucket. -/
  | isolated (ones : Nat)
  /-- A bucket is compared with the one above it. -/
  | joining (ones : Nat)
  /-- Two terms were tried, with this outcome. -/
  | tried (low high : Term) (merged : Option Term)
  /-- A term is left over by a pass. -/
  | prime (t : Term)
  /-- So many terms were left over by all passes. -/
  | primesFound (count : Nat)
  /-- A required source lies in the implicants with these indices. -/
  | covered (source : Int) (indices : List Nat)
  /-- The expansion has so many products after this source. -/
  | expanded (source : Int) (products : Nat)
  /-- A cover was chosen from the products of an expansion. -/
  | coverSelected (chosen primes products : Nat)
  /-- A cover was chosen by search. -/
  | searchSelected (chosen : Nat)
  /-- A function of so many inputs is too large to verify. -/
  | unverified (width : Int)

namespace Event

/-- The level of an event. -/
def level : Event → Level
  | isolated _ | joining _ | tried .. | prime _ | covered .. | expanded .. => .debug
  | primesFound _ | coverSelected .. | searchSelected _ | unverified _ => .info

/-- The text of an event. -/
def text : Event → String
  | isolated ones => "for key == " ++ toString ones ++ ", no terms with one more 1, skip"
  | joining ones => "for key == " ++ toString ones ++ ", trying to combine terms..."
  | tried low high merged =>
      low.text ++ " + " ++ high.text ++ " => " ++ (merged.map Term.text).getD "None"
  | prime t => t.text ++ " become prime implicant"
  | primesFound count => "found " ++ toString count ++ " prime implicants"
  | covered source indices =>
      "minterm " ++ toString source ++ " covered by implicants " ++
        Text.bracketed (indices.map Int.ofNat)
  | expanded source products =>
      "after minterm " ++ toString source ++ ": " ++ toString products ++ " products"
  | coverSelected chosen primes products =>
      "selected " ++ toString chosen ++ " of " ++ toString primes ++ " prime implicants from " ++
        toString products ++ " products"
  | searchSelected chosen => "MaxSAT selected " ++ toString chosen ++ " implicants"
  | unverified width => "skipping verification for " ++ toString width ++ " inputs"

end Event

end TwoLevel
