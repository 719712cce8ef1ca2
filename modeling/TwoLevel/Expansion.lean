import TwoLevel.Chart

/-! # Expanding a chart into products

A chart asks for one choice out of every row.  Multiplying the rows out gives the set of all
products, each the set of the choices made; a product of fewest choices is a minimum cover.  No
absorption takes place, so the products are exactly the images of the choice functions.

Multiplying starts again whenever there is no product: the empty set of products stands for the
beginning of an expansion. -/

namespace TwoLevel

variable {ι : Type} [Ord ι] [Std.TransOrd ι] [Std.LawfulEqOrd ι]

/-- Choices taken together. -/
abbrev Product (ι : Type) [Ord ι] := OrdSet ι

/-- A set of products, the shortest first, those of one length in lexicographic order. -/
abbrev Products (ι : Type) [Ord ι] := OrdSet (OrdSet ι)

namespace Products

/-- Every product with every choice of a row; each choice alone when there is no product yet. -/
def multiply (products : Products ι) (choices : OrdSet ι) : Products ι :=
  if products.isEmpty then .ofList (choices.toList.map .singleton)
  else .ofList (products.toList.flatMap fun product => choices.toList.map fun c => product.insert c)

/-- The products of a chart. -/
def ofChart (chart : Chart ι) : Products ι :=
  chart.rows.foldl (fun products row => products.multiply row.2) ∅

/-- A product of fewest choices, the lexicographically smallest one among them. -/
def minimum (products : Products ι) : Except Fault (Product ι) :=
  match products.least? with
  | some product => .ok product
  | none => .error .noProduct

/-- The events of multiplying rows to products. -/
def events (products : Products ι) : List (Int × OrdSet ι) → List Event
  | [] => []
  | row :: rows =>
    let products := products.multiply row.2
    .expanded row.1 products.size :: events products rows

end Products

end TwoLevel
