import TwoLevel.Event

/-! # Prime implicants

Terms are sorted into buckets by the number of positions they fix to one.  A pass tries every term
of a bucket with every term of the bucket above; the merged terms form the buckets of the next
pass, and the terms that took part in no merge are left over as prime implicants.

A merge of the buckets `k` and `k + 1` fixes exactly `k` positions to one, so the next layer is one
bucket lower and the passes come to an end (`Layer.passes`).  Which terms took part in a merge is
decided by their sources. -/

namespace TwoLevel

/-- The terms of one pass; the bucket at index `k` holds those with `k` positions fixed to one. -/
abbrev Layer := List (List Term)

namespace Layer

/-! ### Buckets -/

/-- One more than the greatest number of ones, zero for no terms. -/
def height (terms : List Term) : Nat := terms.foldr (fun t n => max (t.ones + 1) n) 0

/-- The terms in their buckets, only the first one of each class of equivalent terms. -/
def group (terms : List Term) : Layer :=
  (List.range (height terms)).map fun k => Term.firsts (terms.filter fun t => t.ones = k)

/-- Whether there is no term in any bucket. -/
def isVoid (layer : Layer) : Bool := layer.all List.isEmpty

/-! ### One pass -/

/-- All terms that a bucket and the bucket above it merge into. -/
def merges (low high : List Term) : List Term :=
  low.flatMap fun s => high.filterMap s.merge?

/-- The buckets of the next pass. -/
def next : Layer → Layer
  | low :: high :: layer => Term.firsts (merges low high) :: next (high :: layer)
  | _ => []

/-- The sources of the terms of two buckets that take part in a merge. -/
def mergedSources (low high : List Term) : List (OrdSet Int) :=
  (low.filter (fun s => high.any fun t => (s.merge? t).isSome) ++
    high.filter (fun t => low.any fun s => (s.merge? t).isSome)).map Term.sources

/-- The terms whose sources belong to no merged term. -/
def kept (merged : List (OrdSet Int)) (terms : List Term) : List Term :=
  terms.filter fun t => t.sources ∉ merged

/-- The terms that a pass leaves over, where the sources in `merged` took part in a merge of the
buckets before. -/
def unmergedFrom (merged : List (OrdSet Int)) : Layer → List Term
  | [] => []
  | low :: layer =>
    let merged := mergedSources low (layer.headD []) ++ merged
    kept merged low ++ unmergedFrom merged layer

/-- The terms that a pass leaves over. -/
def unmerged (layer : Layer) : List Term := unmergedFrom [] layer

/-! ### All passes -/

/-- A layer and the layers after it, at most `fuel` of them, up to the last one with a term. -/
def passesFrom : Nat → Layer → List Layer
  | 0, layer => [layer]
  | fuel + 1, layer =>
    let above := layer.next
    if above.isVoid then [layer] else layer :: passesFrom fuel above

/-- A layer and the layers after it.  Each layer is lower than the one before, so its height
bounds their number. -/
def passes (layer : Layer) : List Layer := passesFrom layer.length layer

end Layer

/-- The terms that the passes leave over, once for each pass that leaves them over. -/
def findPrimes (minterms dontCares : List Term) : List Term :=
  (Layer.group (minterms ++ dontCares)).passes.flatMap Layer.unmerged

/-- The prime implicants, one of each class of equivalent terms.  The passes find them in an order
that means nothing; here they are put into the canonical one, so that a result depends on the terms
alone. -/
def primeImplicants (minterms dontCares : List Term) : List Term :=
  Term.sort (Term.firsts (findPrimes minterms dontCares))

/-! ### Course of the passes -/

namespace Layer

/-- What happens to the bucket of `ones`, below the bucket `high`. -/
def bucketEvents (ones : Nat) (low high : List Term) : List Event :=
  if low.isEmpty then []
  else if high.isEmpty then [.isolated ones]
  else .joining ones :: low.flatMap fun s => high.map fun t => .tried s t (s.merge? t)

/-- The events of a pass from the bucket of `ones` on. -/
def eventsFrom (ones : Nat) (merged : List (OrdSet Int)) : Layer → List Event
  | [] => []
  | low :: layer =>
    let high := layer.headD []
    let merged := mergedSources low high ++ merged
    bucketEvents ones low high ++ (kept merged low).map .prime ++
      eventsFrom (ones + 1) merged layer

end Layer

/-- The events of the search for prime implicants. -/
def findPrimesEvents (minterms dontCares : List Term) : List Event :=
  (Layer.group (minterms ++ dontCares)).passes.flatMap (Layer.eventsFrom 0 []) ++
    [.primesFound (findPrimes minterms dontCares).length]

end TwoLevel
