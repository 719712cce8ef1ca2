import TwoLevel.OrdSet
import TwoLevel.Pattern
import TwoLevel.Text.Layout

/-! # Product terms

A term is a pattern together with its sources, the inputs it stands for.  Two terms are
equivalent (`≈`) when they have the same sources and their patterns agree after zero extension;
`Term.firsts` keeps one term of each class, the first.  Two terms merge when their patterns differ
in exactly one position, and the merged term stands for the sources of both.

A term covers an input when all bits of the input agree with its pattern, where the bits above the
pattern must be zero; a negative number has no such bits and is covered by nothing.  A list of
terms is read as their disjunction.

`Term.order` is the canonical order in which terms are shown and primes are numbered. -/

namespace TwoLevel

/-- A product term and the inputs it stands for. -/
structure Term where
  pattern : Pattern
  sources : OrdSet Int
deriving DecidableEq

namespace Term

/-! ### Building -/

/-- The term of one input, which must lie below two to the power `maxWidth`. -/
def ofInt (n : Int) : Except Fault Term :=
  if 0 ≤ n ∧ n < (1 <<< maxWidth : Nat) then .ok ⟨.ofNat n.toNat, .singleton n⟩
  else .error (.outOfRange n)

/-- The term that stands for all inputs a pattern allows. -/
def ofPattern (p : Pattern) : Term := ⟨p, .ofList (p.inputs.map Int.ofNat)⟩

/-- Read a term from the text of its pattern. -/
def ofText (text : String) : Except Fault Term := (Pattern.ofText text).map ofPattern

/-- The ways in which the user names a term. -/
inductive Spelling where
  /-- One input. -/
  | value (n : Int)
  /-- A pattern and all inputs it allows. -/
  | text (s : String)
  /-- A term taken as it is. -/
  | term (t : Term)

/-- The term that is meant. -/
def Spelling.read : Spelling → Except Fault Term
  | value n => ofInt n
  | text s => ofText s
  | term t => .ok t

/-- The terms that are meant, or the first fault among them. -/
def readAll (spellings : List Spelling) : Except Fault (List Term) := spellings.mapM Spelling.read

/-! ### Counting -/

/-- The number of positions fixed to one. -/
def ones (t : Term) : Nat := t.pattern.ones

/-- The number of literals of a term when it is read as a product of `width` inputs. -/
def literals (width : Int) (t : Term) : Nat := (t.pattern.window width).literals

/-! ### Equivalence -/

/-- Equivalent terms stand for the same sources and agree in every position. -/
instance : Setoid Term where
  r s t := s.sources = t.sources ∧ s.pattern.trim = t.pattern.trim
  iseqv :=
    ⟨fun _ => ⟨rfl, rfl⟩, fun h => ⟨h.1.symm, h.2.symm⟩,
      fun h k => ⟨h.1.trans k.1, h.2.trans k.2⟩⟩

theorem equiv_iff {s t : Term} :
    s ≈ t ↔ s.sources = t.sources ∧ s.pattern.trim = t.pattern.trim := Iff.rfl

instance (s t : Term) : Decidable (s ≈ t) := decidable_of_iff' _ equiv_iff

/-- The terms of a list without those that are equivalent to an earlier one. -/
def firsts : List Term → List Term
  | [] => []
  | t :: ts => t :: (firsts ts).filter fun u => ¬ t ≈ u

/-! ### Merging -/

/-- The term of two terms that differ in exactly one position. -/
def merge? (s t : Term) : Option Term :=
  (s.pattern.merge? t.pattern).map fun p => ⟨p, s.sources ∪ t.sources⟩

/-! ### Evaluating -/

/-- Whether a number agrees with the pattern of a term. -/
def covers (t : Term) : Int → Bool
  | .ofNat n => t.pattern.allows n
  | .negSucc _ => false

/-- Whether some term of a list covers a number. -/
def anyCovers (terms : List Term) (value : Int) : Bool := terms.any fun t => t.covers value

/-! ### Text -/

/-- The pattern as it is stored, most significant position first. -/
def text (t : Term) : String := t.pattern.text

/-- Pattern and sources on one line. -/
def describe (t : Term) : String :=
  "Term('" ++ t.text ++ "', sources=" ++ Text.bracketed t.sources.toList ++ ")"

/-- The pattern filled up with zeros to a number of characters. -/
def padded (width : Int) (t : Term) : String := Text.padLeft width.toNat '0' t.text

/-! ### Canonical order -/

/-- By the pattern first, then by the list of sources. -/
def order : Term → Term → Ordering :=
  compareLex (fun s t => s.pattern.order t.pattern) (compareOn fun t => t.sources.toList)

/-- Put a term in front of the first one that is not smaller. -/
def place (t : Term) : List Term → List Term
  | [] => [t]
  | u :: us => if order t u = .gt then u :: place t us else t :: u :: us

/-- The terms in canonical order; terms that compare equal keep their order. -/
def sort : List Term → List Term
  | [] => []
  | t :: ts => place t (sort ts)

end Term

end TwoLevel
