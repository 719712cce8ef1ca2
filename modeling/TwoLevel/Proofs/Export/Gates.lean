import TwoLevel.Proofs.Export.Function

/-! # Gates of an emitted circuit

The cost of a solution is counted on the patterns of its implicants, and the circuit is written by
other functions.  In the expression that is read from a document every pair of parentheses is an AND
gate, with the literals inside for its inputs, and what the outermost disjunction joins are the
inputs of the OR gate.  A product is put in parentheses exactly when it has two and more literals,
and it has one literal for each position that the cost counts (`Term.length_namedLiterals`), so that
the gates of the circuit are those that were counted (`Expr.costs_ofSum`). -/

namespace TwoLevel

namespace Expr

/-! ### Counting gates -/

/-- The number of literals, which are names with or without a complement. -/
def literals : Expr → ℕ
  | const _ => 0
  | var _ => 1
  | not e => e.literals
  | and e f => e.literals + f.literals
  | or e f => e.literals + f.literals
  | group e => e.literals

/-- The number of pairs of parentheses. -/
def groups : Expr → ℕ
  | const _ => 0
  | var _ => 0
  | not e => e.groups
  | and e f => e.groups + f.groups
  | or e f => e.groups + f.groups
  | group e => e.groups + 1

/-- The number of literals inside of parentheses. -/
def groupedLiterals : Expr → ℕ
  | const _ => 0
  | var _ => 0
  | not e => e.groupedLiterals
  | and e f => e.groupedLiterals + f.groupedLiterals
  | or e f => e.groupedLiterals + f.groupedLiterals
  | group e => e.literals

/-- What the outermost disjunction joins, the whole expression if there is none. -/
def summands : Expr → List Expr
  | or e f => e.summands ++ f.summands
  | e => [e]

/-- The number of operands of the outermost disjunction; the constant zero has none. -/
def operands (e : Expr) : ℕ := if e = const false then 0 else e.summands.length

/-- The gates of an expression are those of a cost. -/
structure Costs (e : Expr) (c : Cost) : Prop where
  andGates : c.andGates = e.groups
  andInputs : c.andInputs = e.groupedLiterals
  orInputs : c.orInputs = e.operands
  terms : c.terms = e.operands

/-! ### Products -/

theorem counts_ofLiteral (l : NamedLiteral) :
    (ofLiteral l).literals = 1 ∧ (ofLiteral l).groups = 0 ∧ (ofLiteral l).groupedLiterals = 0 ∧
      (ofLiteral l).summands = [ofLiteral l] := by
  unfold ofLiteral
  cases l.positive with
  | true => exact ⟨rfl, rfl, rfl, rfl⟩
  | false => exact ⟨rfl, rfl, rfl, rfl⟩

theorem counts_foldl_and (ls : List NamedLiteral) (e : Expr) :
    ((ls.map ofLiteral).foldl .and e).literals = e.literals + ls.length ∧
      ((ls.map ofLiteral).foldl .and e).groups = e.groups := by
  induction ls generalizing e with
  | nil => exact ⟨rfl, rfl⟩
  | cons l ls ih =>
      obtain ⟨hliterals, hgroups, -, -⟩ := counts_ofLiteral l
      obtain ⟨hl, hg⟩ := ih (.and e (ofLiteral l))
      rw [List.map_cons, List.foldl_cons, hl, hg, literals, groups, hliterals, hgroups,
        List.length_cons]
      omega

theorem counts_ofProduct (ls : List NamedLiteral) :
    (ofProduct ls).groups = (if 2 ≤ ls.length then 1 else 0) ∧
      (ofProduct ls).groupedLiterals = (if 2 ≤ ls.length then ls.length else 0) ∧
      (ofProduct ls).summands = [ofProduct ls] ∧ ofProduct ls ≠ .const false := by
  match ls with
  | [] => exact ⟨rfl, rfl, rfl, by decide⟩
  | [l] =>
      obtain ⟨-, hgroups, hinputs, hsummands⟩ := counts_ofLiteral l
      refine ⟨hgroups, hinputs, hsummands, fun hnever => ?_⟩
      have hliterals := (counts_ofLiteral l).1
      rw [show ofLiteral l = .const false from hnever] at hliterals
      exact absurd hliterals (by decide)
  | l :: m :: ls =>
      obtain ⟨hliterals, hgroups, -, -⟩ := counts_ofLiteral l
      obtain ⟨hl, hg⟩ := counts_foldl_and (m :: ls) (ofLiteral l)
      have hgroup : ofProduct (l :: m :: ls) =
          .group (((m :: ls).map ofLiteral).foldl .and (ofLiteral l)) := rfl
      have htwo : 2 ≤ (l :: m :: ls).length := by simp
      rw [if_pos htwo, if_pos htwo, hgroup]
      refine ⟨?_, ?_, rfl, nofun⟩
      · rw [groups, hg, hgroups]
      · rw [groupedLiterals, hl, hliterals, List.length_cons (a := l), Nat.add_comm]

/-! ### Sums -/

/-- What adds up over disjunctions, and is nothing for products of less than two literals, adds up
over the products of two and more. -/
theorem measure_foldl_or {f : Expr → ℕ} {g : ℕ → ℕ} (hor : ∀ e e', f (.or e e') = f e + f e')
    (hproduct : ∀ ls, f (ofProduct ls) = if 2 ≤ ls.length then g ls.length else 0)
    (sum : List (List NamedLiteral)) (e : Expr) :
    f ((sum.map ofProduct).foldl .or e) =
      f e + (((sum.map List.length).filter (2 ≤ ·)).map g).foldr (· + ·) 0 := by
  induction sum generalizing e with
  | nil => rfl
  | cons ls sum ih =>
      rw [List.map_cons, List.foldl_cons, ih, hor, hproduct, List.map_cons, Nat.add_assoc]
      by_cases htwo : 2 ≤ ls.length
      · rw [if_pos htwo, List.filter_cons_of_pos (by simpa using htwo), List.map_cons,
          List.foldr_cons]
      · rw [if_neg htwo, List.filter_cons_of_neg (by simpa using htwo), Nat.zero_add]

theorem measure_ofSum {f : Expr → ℕ} {g : ℕ → ℕ} (hor : ∀ e e', f (.or e e') = f e + f e')
    (hproduct : ∀ ls, f (ofProduct ls) = if 2 ≤ ls.length then g ls.length else 0)
    (hnever : f (.const false) = 0) (sum : List (List NamedLiteral)) :
    f (ofSum sum) = (((sum.map List.length).filter (2 ≤ ·)).map g).foldr (· + ·) 0 := by
  cases sum with
  | nil => exact hnever
  | cons ls sum =>
      -- the constant zero in front of a disjunction adds nothing
      calc f (ofSum (ls :: sum))
        _ = f (((ls :: sum).map ofProduct).foldl .or (.const false)) := by
            rw [ofSum, measure_foldl_or hor hproduct, List.map_cons, List.foldl_cons,
              measure_foldl_or hor hproduct, hor, hnever, Nat.zero_add]
        _ = (((List.map List.length (ls :: sum)).filter (2 ≤ ·)).map g).foldr (· + ·) 0 := by
            rw [measure_foldl_or hor hproduct, hnever, Nat.zero_add]

theorem summands_foldl_or (sum : List (List NamedLiteral)) (e : Expr) :
    ((sum.map ofProduct).foldl .or e).summands = e.summands ++ sum.map ofProduct := by
  induction sum generalizing e with
  | nil => simp
  | cons ls sum ih =>
      obtain ⟨-, -, hsummands, -⟩ := counts_ofProduct ls
      rw [List.map_cons, List.foldl_cons, ih, summands, hsummands, List.append_assoc,
        List.singleton_append]

theorem foldl_or_ne_const (sum : List (List NamedLiteral)) {e : Expr} {b : Bool}
    (he : e ≠ .const b) : (sum.map ofProduct).foldl .or e ≠ .const b := by
  induction sum generalizing e with
  | nil => exact he
  | cons ls sum ih => exact ih nofun

theorem operands_ofSum (sum : List (List NamedLiteral)) : (ofSum sum).operands = sum.length := by
  unfold operands
  cases sum with
  | nil => rfl
  | cons ls sum =>
      obtain ⟨-, -, hsummands, hnever⟩ := counts_ofProduct ls
      rw [ofSum, if_neg (foldl_or_ne_const sum hnever), summands_foldl_or, hsummands]
      simp

end Expr

/-! ### Solutions -/

theorem Term.length_namedLiterals (names : List String) (t : Term) :
    (t.namedLiterals names).length = t.literals names.length := by
  have hlength : (t.pattern.window names.length).reverse.length = names.length := by
    rw [List.length_reverse, Pattern.length_window]
  calc (t.namedLiterals names).length
    _ = (names.zip (t.pattern.window names.length).reverse).countP
          ((fun trit => decide (trit ≠ .star)) ∘ Prod.snd) := by
        rw [namedLiterals, List.length_filterMap_eq_countP]
        refine List.countP_congr fun ⟨name, trit⟩ _ => ?_
        cases trit <;> simp
    _ = (t.pattern.window names.length).reverse.countP fun trit => decide (trit ≠ .star) := by
        rw [← List.countP_map, List.map_snd_zip (Nat.le_of_eq hlength)]
    _ = t.literals names.length := List.countP_reverse

/-- The gates of a sum of products are those that its cost counts. -/
theorem Expr.costs_ofSum (names : List String) (terms : List Term) :
    (ofSum (terms.map (Term.namedLiterals names))).Costs (Cost.ofTerms names.length terms) := by
  have hlengths : (terms.map (Term.namedLiterals names)).map List.length =
      terms.map (Term.literals names.length) := by
    rw [List.map_map]
    exact List.map_congr_left fun t _ => t.length_namedLiterals names
  have hoperands : (ofSum (terms.map (Term.namedLiterals names))).operands = terms.length := by
    rw [operands_ofSum, List.length_map]
  have hgroups := measure_ofSum (f := groups) (g := fun _ => 1) (fun _ _ => rfl)
    (fun ls => (counts_ofProduct ls).1) rfl (terms.map (Term.namedLiterals names))
  have hinputs := measure_ofSum (f := groupedLiterals) (g := id) (fun _ _ => rfl)
    (fun ls => (counts_ofProduct ls).2.1) rfl (terms.map (Term.namedLiterals names))
  rw [hlengths] at hgroups hinputs
  constructor
  · rw [hgroups, List.map_const', ← List.sum_eq_foldr, List.sum_replicate_nat, Nat.mul_one]
    rfl
  · rw [hinputs, List.map_id]
    rfl
  · rw [hoperands]
    rfl
  · rw [hoperands]
    rfl

namespace Problem

variable {p : Problem} {solver : MaxSat.Solver} {primes : List Term} {method : Method} {s : Solution}

/-- **The cost of a solution is the cost of its circuit.**  Whatever implicants a problem is solved
from, and whichever backend chooses among them, the Verilog module and the C function over any
identifiers, one for each input, are read as expressions whose gates are those of the cost: an AND
gate for each pair of parentheses, with the literals inside for its inputs, and an OR gate that
takes every operand of the outermost disjunction, none where the output is the constant zero. -/
theorem emitted_cost (hsolve : p.solveWith solver primes method = .ok s) :
    s.cost = (Cost.ofTerms s.width s.implicants).andInputs +
        (Cost.ofTerms s.width s.implicants).orInputs ∧
      ∀ names : List String, (names.length : ℤ) = s.width →
        (∀ name ∈ names, isIdentifier name = true) → ∀ label, OneLine label →
          (∃ n, Language.verilog.read (s.verilog names label) = some n ∧
            n.output.Costs (Cost.ofTerms s.width s.implicants)) ∧
          ∃ n, Language.c.read (s.cFunction names label) = some n ∧
            n.output.Costs (Cost.ofTerms s.width s.implicants) := by
  obtain ⟨chosen, -, rfl⟩ := p.solveWith_eq_ok_iff.mp hsolve
  refine ⟨rfl, fun names hlength hnames label hlabel => ?_⟩
  have hmethod : OneLine method.name := by cases method <;> decide
  have hcosts := Expr.costs_ofSum names (Cover.pick chosen primes)
  rw [hlength] at hcosts
  exact ⟨⟨_, Solution.read_verilog hnames hmethod hlabel hlength, hcosts⟩,
    ⟨_, Solution.read_cFunction hnames hmethod hlabel hlength, hcosts⟩⟩

/-- The pattern `1**` and the input 3 over three named inputs, with one gate for two terms. -/
theorem emitted_cost_of_star_and_three :
    ∃ p s, read [.text "1**", .value 3] [] none = .ok p ∧ p.minimize .products = .ok s ∧
      Dialect.verilog.sum ["A", "B", "C"] s.implicants = "(~A & B & C) | A" ∧ s.cost = 5 ∧
      (∃ n, Language.verilog.read (s.verilog ["A", "B", "C"] "minimized") = some n ∧
        n.output.groups = 1 ∧ n.output.groupedLiterals = 3 ∧ n.output.operands = 2) ∧
      ∃ n, Language.c.read (s.cFunction ["A", "B", "C"] "minimized") = some n ∧
        n.output.groups = 1 ∧ n.output.groupedLiterals = 3 ∧ n.output.operands = 2 := by
  obtain ⟨p, hread⟩ : ∃ p, read [.text "1**", .value 3] [] none = .ok p := ⟨_, rfl⟩
  obtain ⟨chosen, -, hs⟩ := p.exists_minimize
  generalize p.solution p.primes (Cover.pick chosen p.primes) .products = s at hs
  have hvalues : (read [.text "1**", .value 3] [] none >>= fun p => p.minimize .products).map
      (fun s => (s.width, Dialect.verilog.sum ["A", "B", "C"] s.implicants,
        Cost.ofTerms s.width s.implicants)) =
        .ok (3, "(~A & B & C) | A", ⟨3, 2, 1, 2⟩) := by decide +kernel
  rw [hread] at hvalues
  change (p.minimize .products).map _ = _ at hvalues
  rw [hs] at hvalues
  simp only [Except.map, Except.ok.injEq, Prod.mk.injEq] at hvalues
  obtain ⟨hwidth, htext, hcost⟩ := hvalues
  have hsolve : p.solveWith HittingSet.solve p.primes .products = .ok s := hs
  obtain ⟨htotal, hemitted⟩ := emitted_cost hsolve
  rw [hcost] at htotal hemitted
  obtain ⟨⟨n, hn, hverilog⟩, m, hm, hc⟩ :=
    hemitted ["A", "B", "C"] hwidth.symm (by decide) "minimized" (by decide)
  exact ⟨p, s, hread, hs, htext, htotal,
    ⟨n, hn, Int.ofNat.inj hverilog.andGates.symm, Int.ofNat.inj hverilog.andInputs.symm,
      Int.ofNat.inj hverilog.orInputs.symm⟩,
    m, hm, Int.ofNat.inj hc.andGates.symm, Int.ofNat.inj hc.andInputs.symm,
    Int.ofNat.inj hc.orInputs.symm⟩

end Problem

end TwoLevel
