/-! # Finite sets kept as strictly ascending lists

A set of sources, of chart columns or of whole products is stored as the strictly ascending list
of its elements, so two sets with the same elements are the same value
(`OrdSet.ext`), printing a set is printing its list, and the least element is the first one.

The order is the one `compare` gives; every construction goes through `merge`, which joins two
ascending lists and writes a common element once.  `ofList` sorts by merging the runs that ascend
already, twice as many at a time.  A set of sets is ordered by size first and then
lexicographically. -/

namespace TwoLevel

open Std

variable {α : Type}

/-! ### Ascending lists -/

/-- Each element comes strictly before every later one. -/
abbrev Ascending [Ord α] (xs : List α) : Prop :=
  xs.Pairwise fun a b => compare a b = .lt

namespace Ascending

variable [Ord α]

/-- Put `a` into the place it has in the second list, with the rest of its own list behind it. -/
def mergeFrom (a : α) (rest : List α → List α) : List α → List α
  | [] => a :: rest []
  | b :: bs =>
    match compare a b with
    | .lt => a :: rest (b :: bs)
    | .eq => a :: rest bs
    | .gt => b :: mergeFrom a rest bs

/-- Join two ascending lists, a common element once. -/
def merge : List α → List α → List α
  | [] => fun bs => bs
  | a :: as => mergeFrom a (merge as)

/-- The longest ascending runs of neighbours in a list. -/
def runs : List α → List (List α)
  | [] => []
  | a :: as =>
    match runs as with
    | (b :: run) :: rest =>
      if compare a b = .lt then (a :: b :: run) :: rest else [a] :: (b :: run) :: rest
    | rest => [a] :: rest

/-- Add a run to a stack whose `k`-th place is empty or holds about `2 ^ k` runs merged into one. -/
def carry (run : List α) : List (List α) → List (List α)
  | [] => [run]
  | [] :: stack => run :: stack
  | held :: stack => [] :: carry (merge held run) stack

/-- The ascending list of the elements of a list. -/
def sort (xs : List α) : List α :=
  ((runs xs).foldl (fun stack run => carry run stack) []).foldl
    (fun sorted run => merge run sorted) []

/-! ### Membership -/

section Membership

theorem mem_runs {x : α} {xs : List α} : (∃ r ∈ runs xs, x ∈ r) ↔ x ∈ xs := by
  induction xs with
  | nil => simp [runs]
  | cons a as ih =>
    rw [runs, List.mem_cons, ← ih]
    split
    · next h =>
      split <;> simp [h, or_assoc]
    · simp

variable [LawfulEqOrd α]

theorem mem_mergeFrom {a x : α} {rest : List α → List α} {as : List α}
    (hrest : ∀ ys, x ∈ rest ys ↔ x ∈ as ∨ x ∈ ys) (bs : List α) :
    x ∈ mergeFrom a rest bs ↔ x ∈ a :: as ∨ x ∈ bs := by
  induction bs with
  | nil => simp [mergeFrom, hrest]
  | cons b bs ih =>
    rw [mergeFrom]
    split
    · simp [hrest, or_assoc]
    · next h =>
      have hab : a = b := compare_eq_iff_eq.mp h
      subst hab
      simp only [List.mem_cons, hrest]
      exact ⟨fun h => by rcases h with h | h | h <;> simp [h],
        fun h => by rcases h with (h | h) | h | h <;> simp [h]⟩
    · simp only [List.mem_cons, ih]
      exact ⟨fun h => by rcases h with h | (h | h) | h <;> simp [h],
        fun h => by rcases h with (h | h) | h | h <;> simp [h]⟩

@[simp] theorem mem_merge {x : α} {as bs : List α} :
    x ∈ merge as bs ↔ x ∈ as ∨ x ∈ bs := by
  induction as generalizing bs with
  | nil => simp [merge]
  | cons a as ih => exact mem_mergeFrom (fun _ => ih) bs

theorem mem_carry {x : α} {run : List α} (stack : List (List α)) :
    (∃ r ∈ carry run stack, x ∈ r) ↔ x ∈ run ∨ ∃ r ∈ stack, x ∈ r := by
  induction stack generalizing run with
  | nil => simp [carry]
  | cons held stack ih =>
    cases held with
    | nil => simp [carry]
    | cons h held => simp [carry, ih, or_assoc, or_left_comm, or_comm]

theorem mem_foldl_carry {x : α} (runs stack : List (List α)) :
    (∃ r ∈ runs.foldl (fun stack run => carry run stack) stack, x ∈ r) ↔
      (∃ r ∈ runs, x ∈ r) ∨ ∃ r ∈ stack, x ∈ r := by
  induction runs generalizing stack with
  | nil => simp
  | cons run runs ih =>
    rw [List.foldl_cons, ih, mem_carry]
    simp only [List.mem_cons, exists_eq_or_imp]
    exact ⟨fun h => by rcases h with h | h | h <;> simp [h],
      fun h => by rcases h with (h | h) | h <;> simp [h]⟩

theorem mem_foldl_merge {x : α} (runs : List (List α)) (sorted : List α) :
    x ∈ runs.foldl (fun sorted run => merge run sorted) sorted ↔
      x ∈ sorted ∨ ∃ r ∈ runs, x ∈ r := by
  induction runs generalizing sorted with
  | nil => simp
  | cons run runs ih =>
    rw [List.foldl_cons, ih]
    simp only [mem_merge, List.mem_cons, exists_eq_or_imp]
    exact ⟨fun h => by rcases h with (h | h) | h <;> simp [h],
      fun h => by rcases h with h | h | h <;> simp [h]⟩

@[simp] theorem mem_sort {x : α} {xs : List α} : x ∈ sort xs ↔ x ∈ xs := by
  rw [sort, mem_foldl_merge, mem_foldl_carry, mem_runs]
  simp

end Membership

/-! ### Order -/

section Order

theorem runs_ascending [TransOrd α] (xs : List α) : ∀ r ∈ runs xs, Ascending r := by
  induction xs with
  | nil => simp [runs]
  | cons a as ih =>
    rw [runs]
    split
    · next b run rest h =>
      rw [h] at ih
      have hrun := ih _ List.mem_cons_self
      split
      · next hlt =>
        intro r hr
        rcases List.mem_cons.mp hr with rfl | hr
        · refine List.pairwise_cons.mpr ⟨fun x hx => ?_, hrun⟩
          rcases List.mem_cons.mp hx with rfl | hx
          · exact hlt
          · exact TransCmp.lt_trans hlt ((List.pairwise_cons.mp hrun).1 x hx)
        · exact ih r (List.mem_cons_of_mem _ hr)
      · intro r hr
        rcases List.mem_cons.mp hr with rfl | hr
        · exact List.pairwise_singleton _ _
        · exact ih r hr
    · intro r hr
      rcases List.mem_cons.mp hr with rfl | hr
      · exact List.pairwise_singleton _ _
      · exact ih r hr

variable [TransOrd α] [LawfulEqOrd α]

theorem mergeFrom_ascending {a : α} {as : List α} {rest : List α → List α}
    (hmem : ∀ x ys, x ∈ rest ys ↔ x ∈ as ∨ x ∈ ys)
    (hrest : ∀ ys, Ascending ys → Ascending (rest ys)) (ha : Ascending (a :: as))
    {bs : List α} (hb : Ascending bs) : Ascending (mergeFrom a rest bs) := by
  induction bs with
  | nil =>
    rw [mergeFrom]
    refine List.pairwise_cons.mpr ⟨fun x hx => ?_, hrest [] hb⟩
    exact (List.pairwise_cons.mp ha).1 x (by simpa [hmem] using hx)
  | cons b bs ih =>
    have hab := (List.pairwise_cons.mp ha).1
    have hbb := (List.pairwise_cons.mp hb).1
    rw [mergeFrom]
    split
    · next h =>
      refine List.pairwise_cons.mpr ⟨fun x hx => ?_, hrest _ hb⟩
      rcases (hmem x _).mp hx with hx | hx
      · exact hab x hx
      · rcases List.mem_cons.mp hx with rfl | hx
        · exact h
        · exact TransCmp.lt_trans h (hbb x hx)
    · next h =>
      have hEq : a = b := compare_eq_iff_eq.mp h
      subst hEq
      refine List.pairwise_cons.mpr ⟨fun x hx => ?_, hrest _ hb.of_cons⟩
      rcases (hmem x _).mp hx with hx | hx
      · exact hab x hx
      · exact hbb x hx
    · next h =>
      have hlt : compare b a = .lt := OrientedCmp.gt_iff_lt.mp h
      refine List.pairwise_cons.mpr ⟨fun x hx => ?_, ih hb.of_cons⟩
      rcases (mem_mergeFrom (fun ys => hmem x ys) bs).mp hx with hx | hx
      · rcases List.mem_cons.mp hx with rfl | hx
        · exact hlt
        · exact TransCmp.lt_trans hlt (hab x hx)
      · exact hbb x hx

theorem merge_ascending {as bs : List α} (ha : Ascending as) (hb : Ascending bs) :
    Ascending (merge as bs) := by
  induction as generalizing bs with
  | nil => exact hb
  | cons a as ih =>
    exact mergeFrom_ascending (fun _ _ => mem_merge) (fun _ h => ih ha.of_cons h) ha hb

theorem carry_ascending {run : List α} (hr : Ascending run) {stack : List (List α)}
    (hs : ∀ r ∈ stack, Ascending r) : ∀ r ∈ carry run stack, Ascending r := by
  induction stack generalizing run with
  | nil => simpa [carry] using hr
  | cons held stack ih =>
    have hstack : ∀ r ∈ stack, Ascending r := fun r h => hs r (List.mem_cons_of_mem _ h)
    cases held with
    | nil =>
      intro r h
      rcases List.mem_cons.mp h with rfl | h
      · exact hr
      · exact hstack r h
    | cons x held =>
      intro r h
      rcases List.mem_cons.mp h with rfl | h
      · exact List.Pairwise.nil
      · exact ih (merge_ascending (hs _ List.mem_cons_self) hr) hstack r h

theorem foldl_carry_ascending {runs : List (List α)} (hr : ∀ r ∈ runs, Ascending r)
    {stack : List (List α)} (hs : ∀ r ∈ stack, Ascending r) :
    ∀ r ∈ runs.foldl (fun stack run => carry run stack) stack, Ascending r := by
  induction runs generalizing stack with
  | nil => exact hs
  | cons run runs ih =>
    exact ih (fun r h => hr r (List.mem_cons_of_mem _ h))
      (carry_ascending (hr _ List.mem_cons_self) hs)

theorem foldl_merge_ascending {runs : List (List α)} (hr : ∀ r ∈ runs, Ascending r)
    {sorted : List α} (hs : Ascending sorted) :
    Ascending (runs.foldl (fun sorted run => merge run sorted) sorted) := by
  induction runs generalizing sorted with
  | nil => exact hs
  | cons run runs ih =>
    exact ih (fun r h => hr r (List.mem_cons_of_mem _ h))
      (merge_ascending (hr _ List.mem_cons_self) hs)

theorem sort_ascending (xs : List α) : Ascending (sort xs) :=
  foldl_merge_ascending (foldl_carry_ascending (runs_ascending xs) (by simp)) List.Pairwise.nil

/-- Ascending lists with the same elements are equal. -/
theorem eq_of_mem_iff {as bs : List α} (ha : Ascending as) (hb : Ascending bs)
    (h : ∀ x, x ∈ as ↔ x ∈ bs) : as = bs := by
  induction as generalizing bs with
  | nil =>
    cases bs with
    | nil => rfl
    | cons b bs => exact absurd ((h b).mpr List.mem_cons_self) List.not_mem_nil
  | cons a as ih =>
    cases bs with
    | nil => exact absurd ((h a).mp List.mem_cons_self) List.not_mem_nil
    | cons b bs =>
      have hal := (List.pairwise_cons.mp ha).1
      have hbl := (List.pairwise_cons.mp hb).1
      have irrefl : ∀ c : α, compare c c ≠ .lt := fun c => by simp
      have hab : a = b := by
        rcases List.mem_cons.mp ((h a).mp List.mem_cons_self) with hEq | hIn
        · exact hEq
        · rcases List.mem_cons.mp ((h b).mpr List.mem_cons_self) with hEq | hIn'
          · exact hEq.symm
          · exact absurd (TransCmp.lt_trans (hbl a hIn) (hal b hIn')) (irrefl b)
      subst hab
      congr 1
      refine ih ha.of_cons hb.of_cons fun x => ?_
      have hx := h x
      simp only [List.mem_cons] at hx
      constructor
      · intro hxa
        exact (hx.mp (Or.inr hxa)).resolve_left fun e => irrefl x (by simpa [e] using hal x hxa)
      · intro hxb
        exact (hx.mpr (Or.inr hxb)).resolve_left fun e => irrefl x (by simpa [e] using hbl x hxb)

end Order

/-! ### Walking along two lists -/

section Walk

/-- For each element of an ascending list whether it is an element of another one. -/
def marks [DecidableEq α] : List α → List α → List Bool
  | [], _ => []
  | a :: as, bs =>
    let bs := bs.dropWhile fun b => compare b a = .lt
    decide (bs.head? = some a) :: marks as bs

/-- The elements of an ascending list that are not elements of another one. -/
def without [DecidableEq α] (as bs : List α) : List α :=
  ((as.zip (marks as bs)).filter fun entry => !entry.2).map Prod.fst

theorem mem_dropWhile_lt {a x : α} {bs : List α} (hx : compare x a ≠ .lt) :
    x ∈ bs.dropWhile (fun b => compare b a = .lt) ↔ x ∈ bs := by
  induction bs with
  | nil => simp
  | cons b bs ih =>
    rw [List.dropWhile_cons]
    split
    · next h =>
      have : x ≠ b := fun e => hx (by simpa [e] using h)
      simp [ih, this]
    · rfl

theorem head?_dropWhile_lt [LawfulEqOrd α] {a : α} {bs : List α} (hb : Ascending bs) :
    (bs.dropWhile fun b => compare b a = .lt).head? = some a ↔ a ∈ bs := by
  induction bs with
  | nil => simp
  | cons b bs ih =>
    have hbb := (List.pairwise_cons.mp hb).1
    rw [List.dropWhile_cons]
    split
    · next h =>
      have : a ≠ b := fun e => by simp [e] at h
      simp [ih hb.of_cons, this]
    · next h =>
      simp only [List.head?_cons, Option.some.injEq, List.mem_cons]
      refine ⟨fun e => Or.inl e.symm, fun e => ?_⟩
      rcases e with e | e
      · exact e.symm
      · exact absurd (hbb a e) (by simpa using h)

variable [DecidableEq α] [TransOrd α] [LawfulEqOrd α]

/-- The marks of an ascending list are its memberships. -/
theorem marks_eq_map {as bs : List α} (ha : Ascending as) (hb : Ascending bs) :
    marks as bs = as.map fun a => decide (a ∈ bs) := by
  induction as generalizing bs with
  | nil => rfl
  | cons a as ih =>
    have hab := (List.pairwise_cons.mp ha).1
    rw [marks, ih ha.of_cons (hb.sublist (List.dropWhile_sublist _)), List.map_cons]
    congr 1
    · simp only [head?_dropWhile_lt hb]
    · apply List.map_congr_left
      intro x hx
      simp only [mem_dropWhile_lt (OrientedCmp.not_lt_of_lt (hab x hx))]

/-- What is left without a list is what passes a test for not being in it. -/
theorem without_eq_filter {as bs : List α} (ha : Ascending as) (hb : Ascending bs) :
    without as bs = as.filter fun a => decide (a ∉ bs) := by
  rw [without, marks_eq_map ha hb]
  clear ha
  induction as with
  | nil => rfl
  | cons a as ih => by_cases h : a ∈ bs <;> simpa [h] using ih

end Walk

end Ascending

/-! ### Sets -/

/-- A finite set, held as the strictly ascending list of its elements. -/
structure OrdSet (α : Type) [Ord α] where
  toList : List α
  ascending : Ascending toList

namespace OrdSet

variable [Ord α]

instance [DecidableEq α] : DecidableEq (OrdSet α) := fun s t =>
  decidable_of_iff ((s.toList == t.toList) = true) (by cases s; cases t; simp)

instance : Membership α (OrdSet α) := ⟨fun s a => a ∈ s.toList⟩

theorem mem_def {s : OrdSet α} {a : α} : a ∈ s ↔ a ∈ s.toList := Iff.rfl

instance [DecidableEq α] (a : α) (s : OrdSet α) : Decidable (a ∈ s) :=
  inferInstanceAs (Decidable (a ∈ s.toList))

/-- The set without elements. -/
def empty : OrdSet α := ⟨[], List.Pairwise.nil⟩

instance : EmptyCollection (OrdSet α) := ⟨empty⟩

instance : Inhabited (OrdSet α) := ⟨empty⟩

/-- The set of one element. -/
def singleton (a : α) : OrdSet α := ⟨[a], List.pairwise_singleton _ _⟩

/-- The number of elements. -/
def size (s : OrdSet α) : Nat := s.toList.length

/-- Whether there is no element. -/
def isEmpty (s : OrdSet α) : Bool := s.toList.isEmpty

/-- The least element. -/
def least? (s : OrdSet α) : Option α := s.toList.head?

@[simp] theorem not_mem_empty (a : α) : a ∉ (∅ : OrdSet α) := List.not_mem_nil

@[simp] theorem mem_singleton {a b : α} : b ∈ singleton a ↔ b = a := by simp [mem_def, singleton]

section Lawful

variable [TransOrd α] [LawfulEqOrd α]

/-- The elements of either set. -/
def union (s t : OrdSet α) : OrdSet α :=
  ⟨Ascending.merge s.toList t.toList, Ascending.merge_ascending s.ascending t.ascending⟩

instance : Union (OrdSet α) := ⟨union⟩

/-- A set with one more element. -/
def insert (a : α) (s : OrdSet α) : OrdSet α := singleton a ∪ s

/-- The elements of a list, in any order and repeated at will. -/
def ofList (xs : List α) : OrdSet α := ⟨Ascending.sort xs, Ascending.sort_ascending xs⟩

/-- The elements of the first set that are not in the second one. -/
def sdiff [DecidableEq α] (s t : OrdSet α) : OrdSet α :=
  ⟨Ascending.without s.toList t.toList, by
    rw [Ascending.without_eq_filter s.ascending t.ascending]
    exact s.ascending.sublist List.filter_sublist⟩

instance [DecidableEq α] : SDiff (OrdSet α) := ⟨sdiff⟩

/-- The union of a list of sets. -/
def unions (ss : List (OrdSet α)) : OrdSet α := ofList (ss.flatMap toList)

@[simp] theorem mem_union {s t : OrdSet α} {a : α} : a ∈ s ∪ t ↔ a ∈ s ∨ a ∈ t :=
  Ascending.mem_merge

@[simp] theorem mem_insert {s : OrdSet α} {a b : α} : b ∈ s.insert a ↔ b = a ∨ b ∈ s := by
  simp [insert]

@[simp] theorem mem_ofList {xs : List α} {a : α} : a ∈ ofList xs ↔ a ∈ xs :=
  Ascending.mem_sort

@[simp] theorem mem_sdiff [DecidableEq α] {s t : OrdSet α} {a : α} :
    a ∈ s \ t ↔ a ∈ s ∧ a ∉ t := by
  change a ∈ Ascending.without s.toList t.toList ↔ _
  rw [Ascending.without_eq_filter s.ascending t.ascending]
  simp [mem_def]

@[simp] theorem mem_unions {ss : List (OrdSet α)} {a : α} :
    a ∈ unions ss ↔ ∃ s ∈ ss, a ∈ s :=
  mem_ofList.trans List.mem_flatMap

/-- Sets with the same elements are equal. -/
theorem ext {s t : OrdSet α} (h : ∀ a, a ∈ s ↔ a ∈ t) : s = t := by
  have hl : s.toList = t.toList := Ascending.eq_of_mem_iff s.ascending t.ascending h
  cases s
  cases t
  simpa using hl

end Lawful

/-! ### The order of sets -/

/-- Smaller sets come first; of two of one size, the lexicographically smaller list. -/
instance : Ord (OrdSet α) := ⟨compareLex (compareOn size) (compareOn toList)⟩

theorem compare_def (s t : OrdSet α) :
    compare s t = (compare s.size t.size).then (compare s.toList t.toList) := rfl

instance [TransOrd α] : TransOrd (OrdSet α) :=
  inferInstanceAs (TransCmp (compareLex (compareOn (β := Nat) size) (compareOn toList)))

instance [LawfulEqOrd α] : LawfulEqOrd (OrdSet α) where
  compare_self := by simp [compare_def]
  eq_of_compare {s t} h := by
    rw [compare_def, Ordering.then_eq_eq] at h
    have hl : s.toList = t.toList := compare_eq_iff_eq.mp h.2
    cases s
    cases t
    simpa using hl

end OrdSet

end TwoLevel
