import TwoLevel.Event

/-! # Coverage charts

A chart has one row for every required source, with the set of choices that cover it.  Rows stand
in ascending order of their sources, each source once.  Charts of a cover problem have the indices
of the prime implicants as choices; the expansion of a chart does not depend on what they are. -/

namespace TwoLevel

/-- Required sources, ascending, each with the choices that cover it. -/
structure Chart (ι : Type) [Ord ι] where
  rows : List (Int × OrdSet ι)
  ascending : Ascending (rows.map Prod.fst)

namespace Chart

variable {ι : Type} [Ord ι]

/-- The chart without rows. -/
def empty : Chart ι := ⟨[], List.Pairwise.nil⟩

/-- Whether nothing is required. -/
def isEmpty (chart : Chart ι) : Bool := chart.rows.isEmpty

/-! ### Charts given row by row -/

/-- Set the row of a source in a list of rows, which replaces the row it had. -/
def putRow (source : Int) (choices : OrdSet ι) : List (Int × OrdSet ι) → List (Int × OrdSet ι)
  | [] => [(source, choices)]
  | row :: rows =>
    match compare source row.1 with
    | .lt => (source, choices) :: row :: rows
    | .eq => (source, choices) :: rows
    | .gt => row :: putRow source choices rows

theorem mem_sources_putRow {source : Int} {choices : OrdSet ι} {x : Int}
    {rows : List (Int × OrdSet ι)} (h : x ∈ (putRow source choices rows).map Prod.fst) :
    x = source ∨ x ∈ rows.map Prod.fst := by
  induction rows with
  | nil => simpa [putRow] using h
  | cons row rows ih =>
    rw [putRow] at h
    split at h
    · simpa using h
    · rcases List.mem_cons.mp h with h | h
      · exact Or.inl h
      · exact Or.inr (List.mem_cons_of_mem _ h)
    · rcases List.mem_cons.mp h with h | h
      · exact Or.inr (by simp [h])
      · exact (ih h).imp_right (List.mem_cons_of_mem _)

theorem putRow_ascending (source : Int) (choices : OrdSet ι) {rows : List (Int × OrdSet ι)}
    (h : Ascending (rows.map Prod.fst)) :
    Ascending ((putRow source choices rows).map Prod.fst) := by
  induction rows with
  | nil => exact List.pairwise_singleton _ _
  | cons row rows ih =>
    have hrow := (List.pairwise_cons.mp h).1
    rw [putRow]
    split
    · next hlt =>
      refine List.pairwise_cons.mpr ⟨fun x hx => ?_, h⟩
      rcases List.mem_cons.mp hx with rfl | hx
      · exact hlt
      · exact Std.TransCmp.lt_trans hlt (hrow x hx)
    · next heq =>
      have : source = row.1 := Std.compare_eq_iff_eq.mp heq
      exact List.pairwise_cons.mpr ⟨fun x hx => this ▸ hrow x hx, h.of_cons⟩
    · next hgt =>
      refine List.pairwise_cons.mpr ⟨fun x hx => ?_, ih h.of_cons⟩
      rcases mem_sources_putRow hx with rfl | hx
      · exact Std.OrientedCmp.gt_iff_lt.mp hgt
      · exact hrow x hx

/-- A chart with the row of a source set. -/
def put (chart : Chart ι) (source : Int) (choices : OrdSet ι) : Chart ι :=
  ⟨putRow source choices chart.rows, putRow_ascending source choices chart.ascending⟩

/-- The chart of rows in any order; the last row of a source counts. -/
def ofRows (rows : List (Int × OrdSet ι)) : Chart ι :=
  rows.foldl (fun chart row => chart.put row.1 row.2) empty

/-! ### Charts of cover problems -/

/-- The indices of the implicants that stand for a source, counted from `first` on. -/
def indicesFrom (first : Nat) (source : Int) (implicants : List Term) : List Nat :=
  ((implicants.zipIdx first).filter fun entry => source ∈ entry.1.sources).map Prod.snd

/-- The indices of the implicants that stand for a source. -/
def indicesOf (source : Int) (implicants : List Term) : OrdSet Nat :=
  .ofList (indicesFrom 0 source implicants)

/-- For each of some ascending sources the indices of the implicants that stand for it, by one
walk along the sources for each implicant. -/
def indexRows (sources : List Int) : (first : Nat) → List Term → List (List Nat)
  | _, [] => sources.map fun _ => []
  | i, t :: ts =>
    (Ascending.marks sources t.sources.toList).zipWith
      (fun found row => if found then i :: row else row) (indexRows sources (i + 1) ts)

theorem indexRows_eq_map {sources : List Int} (h : Ascending sources) (first : Nat)
    (implicants : List Term) :
    indexRows sources first implicants =
      sources.map fun source => indicesFrom first source implicants := by
  induction implicants generalizing first with
  | nil => rfl
  | cons t ts ih =>
    rw [indexRows, ih, Ascending.marks_eq_map h t.sources.ascending, List.zipWith_map,
      List.zipWith_self]
    apply List.map_congr_left
    intro source _
    by_cases hs : source ∈ t.sources
    · simp [indicesFrom, List.zipIdx_cons, hs, OrdSet.mem_def.mp hs]
    · simp [indicesFrom, List.zipIdx_cons, hs, mt OrdSet.mem_def.mpr hs]

/-- Every source of every minterm with the implicants that stand for it. -/
def coverageRows (implicants minterms : List Term) : List (Int × OrdSet Nat) :=
  let sources := (OrdSet.unions (minterms.map Term.sources)).toList
  sources.zipWith (fun source row => (source, .ofList row)) (indexRows sources 0 implicants)

theorem coverageRows_eq_map (implicants minterms : List Term) :
    coverageRows implicants minterms =
      (OrdSet.unions (minterms.map Term.sources)).toList.map fun source =>
        (source, indicesOf source implicants) := by
  rw [coverageRows, indexRows_eq_map (OrdSet.ascending _), List.zipWith_map_right,
    List.zipWith_self]
  rfl

/-- The chart of a cover problem. -/
def coverage (implicants minterms : List Term) : Chart Nat where
  rows := coverageRows implicants minterms
  ascending := by
    rw [coverageRows_eq_map, List.map_map,
      show (Prod.fst ∘ fun source => (source, indicesOf source implicants)) = id from rfl,
      List.map_id]
    exact OrdSet.ascending _

/-- The smallest source that no choice covers. -/
def uncovered? (chart : Chart ι) : Option Int :=
  (chart.rows.find? fun row => row.2.isEmpty).map Prod.fst

/-- The chart of a cover problem that can be solved. -/
def ofTerms (implicants minterms : List Term) : Except Fault (Chart Nat) :=
  let chart := coverage implicants minterms
  match chart.uncovered? with
  | some source => .error (.uncovered source)
  | none => .ok chart

/-- The events of building a chart, up to the first row without a choice. -/
def events : List (Int × OrdSet Nat) → List Event
  | [] => []
  | row :: rows =>
    .covered row.1 row.2.toList :: if row.2.isEmpty then [] else events rows

end Chart

end TwoLevel
