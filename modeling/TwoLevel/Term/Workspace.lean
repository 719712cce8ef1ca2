import TwoLevel.Term

/-! # Programs over terms

A workspace is a growing list of registers, each with a term or with nothing in it.  Its steps
build terms, merge the terms of two registers, and compare registers; a step that has no term to
give fills its register with nothing. -/

namespace TwoLevel

/-- The registers, in the order in which they were filled. -/
abbrev Workspace := List (Option Term)

namespace Workspace

/-- One step of a program. -/
inductive Step where
  /-- Build a term into a new register. -/
  | push (spelling : Term.Spelling)
  /-- Merge the terms of two registers into a new one. -/
  | merge (i j : Nat)
  /-- Compare two registers. -/
  | same (i j : Nat)
  /-- Count the classes of equivalent terms in all registers. -/
  | distinct

/-- What a step shows. -/
inductive Answer where
  | term (t : Option Term)
  | fault (f : Fault)
  | truth (b : Bool)
  | count (n : Nat)

/-- The content of a register. -/
def read (w : Workspace) (i : Nat) : Option Term := w[i]?.join

/-- Whether two registers hold equivalent terms, or both nothing. -/
def same : Option Term → Option Term → Bool
  | some s, some t => decide (s ≈ t)
  | none, none => true
  | _, _ => false

/-- The registers after a step, and what it shows. -/
def step (w : Workspace) : Step → Workspace × Answer
  | .push spelling =>
    match spelling.read with
    | .ok t => (w ++ [some t], .term (some t))
    | .error f => (w ++ [none], .fault f)
  | .merge i j =>
    let merged := (w.read i).bind fun s => (w.read j).bind s.merge?
    (w ++ [merged], .term merged)
  | .same i j => (w, .truth (same (w.read i) (w.read j)))
  | .distinct => (w, .count (Term.firsts w.reduceOption).length)

/-- What the steps of a program show, one after the other. -/
def run (w : Workspace) : List Step → List Answer
  | [] => []
  | s :: steps => (w.step s).2 :: run (w.step s).1 steps

end Workspace

end TwoLevel
