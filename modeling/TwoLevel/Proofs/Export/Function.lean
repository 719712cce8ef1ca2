import TwoLevel.Proofs.Export.Documents
import TwoLevel.Proofs.Minimization

/-! # Emitted circuits compute the solution

In the netlist that is read from an emitted document each name stands for one bit, and a literal
holds when this bit agrees with the position that the literal was made from.  So the product of a
term holds exactly for the packed inputs that the term covers, as long as no position of its pattern
is left out (`Term.all_namedLiterals_iff`), and the output is the value of the sum of products
(`Solution.value_netlist`).

No position of a prime implicant is left out, as no pattern is longer than the width of its problem
(`Problem.length_pattern_le_width`). -/

namespace TwoLevel

/-! ### Values of expressions -/

namespace Expr

variable {bits : String → Option Bool}

theorem eval_foldl_and {α : Type} {f : α → Expr} {g : α → Bool} {as : List α}
    (h : ∀ a ∈ as, (f a).eval bits = some (g a)) {e : Expr} {b : Bool}
    (he : e.eval bits = some b) : ((as.map f).foldl .and e).eval bits = some (b && as.all g) := by
  induction as generalizing e b with
  | nil => simpa using he
  | cons a as ih =>
      rw [List.forall_mem_cons] at h
      have hand : (Expr.and e (f a)).eval bits = some (b && g a) := by
        rw [eval, he, h.1]
        rfl
      rw [List.map_cons, List.foldl_cons, ih h.2 hand, List.all_cons, Bool.and_assoc]

theorem eval_foldl_or {α : Type} {f : α → Expr} {g : α → Bool} {as : List α}
    (h : ∀ a ∈ as, (f a).eval bits = some (g a)) {e : Expr} {b : Bool}
    (he : e.eval bits = some b) : ((as.map f).foldl .or e).eval bits = some (b || as.any g) := by
  induction as generalizing e b with
  | nil => simpa using he
  | cons a as ih =>
      rw [List.forall_mem_cons] at h
      have hor : (Expr.or e (f a)).eval bits = some (b || g a) := by
        rw [eval, he, h.1]
        rfl
      rw [List.map_cons, List.foldl_cons, ih h.2 hor, List.any_cons, Bool.or_assoc]

variable {value : String → Bool}

theorem eval_ofLiteral {l : NamedLiteral} (h : bits l.name = some (value l.name)) :
    (ofLiteral l).eval bits = some (value l.name == l.positive) := by
  unfold ofLiteral
  cases l.positive with
  | true =>
      rw [if_pos rfl, eval, h]
      simp
  | false =>
      rw [if_neg Bool.false_ne_true, eval, eval, h]
      simp

theorem eval_ofProduct {ls : List NamedLiteral} (h : ∀ l ∈ ls, bits l.name = some (value l.name)) :
    (ofProduct ls).eval bits = some (ls.all fun l => value l.name == l.positive) := by
  match ls with
  | [] => rfl
  | [l] =>
      rw [List.all_cons, List.all_nil, Bool.and_true]
      exact eval_ofLiteral (h l List.mem_cons_self)
  | l :: m :: ls =>
      rw [List.forall_mem_cons] at h
      exact eval_foldl_and (fun k hk => eval_ofLiteral (h.2 k hk)) (eval_ofLiteral h.1)

theorem eval_ofSum {sum : List (List NamedLiteral)}
    (h : ∀ ls ∈ sum, ∀ l ∈ ls, bits l.name = some (value l.name)) :
    (ofSum sum).eval bits = some (sum.any fun ls => ls.all fun l => value l.name == l.positive) := by
  cases sum with
  | nil => rfl
  | cons ls sum =>
      rw [List.forall_mem_cons] at h
      exact eval_foldl_or (fun ms hms => eval_ofProduct (h.2 ms hms)) (eval_ofProduct h.1)

end Expr

/-! ### Names and bits -/

namespace Solution

variable {names : List String}

theorem map_fst_bits (names : List String) : (bits names).map Prod.fst = names :=
  List.map_fst_zip (by simp)

theorem map_snd_bits (names : List String) :
    (bits names).map Prod.snd = (List.range names.length).reverse :=
  List.map_snd_zip (by simp)

theorem exists_mem_bits {k : ℕ} (h : k < names.length) : ∃ name, (name, k) ∈ bits names := by
  have hk : k ∈ (bits names).map Prod.snd := by
    rw [map_snd_bits]
    simpa using h
  obtain ⟨⟨name, k⟩, hmem, rfl⟩ := List.mem_map.mp hk
  exact ⟨name, hmem⟩

theorem lt_length_of_mem_bits {entry : String × ℕ} (h : entry ∈ bits names) :
    entry.2 < names.length := by
  have hk := List.mem_map_of_mem (f := Prod.snd) h
  rw [map_snd_bits] at hk
  simpa using hk

theorem lookup_bits (hnodup : names.Nodup) {entry : String × ℕ} (h : entry ∈ bits names) :
    (bits names).lookup entry.1 = some entry.2 := by
  rw [← map_fst_bits names] at hnodup
  generalize bits names = entries at h hnodup
  induction entries with
  | nil => exact absurd h List.not_mem_nil
  | cons other entries ih =>
      rw [List.map_cons, List.nodup_cons] at hnodup
      rcases List.mem_cons.mp h with rfl | h
      · exact List.lookup_cons_self
      · have hne : ¬ entry.1 = other.1 := fun heq =>
          hnodup.1 (heq ▸ List.mem_map_of_mem h)
        rw [List.lookup_cons, beq_false_of_ne hne]
        exact ih h hnodup.2

end Solution

/-! ### Products -/

namespace Term

/-- The literals of a term are its fixed positions, each under the name of its bit. -/
theorem namedLiterals_eq (names : List String) (t : Term) :
    t.namedLiterals names = (Solution.bits names).filterMap fun entry =>
      match t.pattern.tritAt entry.2 with
      | .one => some ⟨entry.1, true⟩
      | .zero => some ⟨entry.1, false⟩
      | .star => none := by
  unfold namedLiterals Solution.bits
  rw [Pattern.window_eq_map, ← List.map_reverse, List.zip_map_right, List.filterMap_map]
  rfl

theorem all_namedLiterals_iff (names : List String) (t : Term) (value : String → Bool) :
    ((t.namedLiterals names).all fun l => value l.name == l.positive) = true ↔
      ∀ entry ∈ Solution.bits names, (t.pattern.tritAt entry.2).allows (value entry.1) = true := by
  rw [namedLiterals_eq, List.all_filterMap, List.all_eq_true]
  refine forall₂_congr fun entry _ => ?_
  cases t.pattern.tritAt entry.2 <;> simp [Trit.allows]

/-- Below a power of two a number is covered when its lowest bits agree, unless the pattern is
longer. -/
theorem covers_iff_of_length_le {t : Term} {w v : ℕ} (hlength : t.pattern.length ≤ w)
    (hv : v < 2 ^ w) : t.covers v = true ↔
      ∀ k < w, (t.pattern.tritAt k).allows (v.testBit k) = true := by
  rw [covers_natCast, Pattern.allows_iff]
  refine ⟨fun h k _ => h k, fun h k => ?_⟩
  by_cases hk : k < w
  · exact h k hk
  · rw [Pattern.tritAt_of_length_le (by omega), Nat.testBit_lt_two_pow
      (lt_of_lt_of_le hv (Nat.pow_le_pow_right (by decide) (by omega)))]
    rfl

end Term

/-! ### The output -/

namespace Solution

variable {names : List String}

theorem exists_value (hnodup : names.Nodup) (e : Expr) (v : ℕ) : ∃ value : String → Bool,
    (∀ name ∈ names, Netlist.bit? ⟨bits names, e⟩ v name = some (value name)) ∧
      ∀ entry ∈ bits names, value entry.1 = v.testBit entry.2 := by
  have hbit : ∀ entry ∈ bits names,
      Netlist.bit? ⟨bits names, e⟩ v entry.1 = some (v.testBit entry.2) :=
    fun _ hentry => congrArg (Option.map v.testBit) (lookup_bits hnodup hentry)
  refine ⟨fun name => (Netlist.bit? ⟨bits names, e⟩ v name).getD false, fun name hname => ?_,
    fun entry hentry => ?_⟩
  · rw [← map_fst_bits names] at hname
    obtain ⟨entry, hentry, rfl⟩ := List.mem_map.mp hname
    simp only [hbit entry hentry, Option.getD_some]
  · simp only [hbit entry hentry, Option.getD_some]

/-- The product of a term holds for the packed inputs that it covers. -/
theorem all_namedLiterals_eq_covers {t : Term} (hlength : t.pattern.length ≤ names.length) {v : ℕ}
    (hv : v < 2 ^ names.length) {value : String → Bool}
    (hvalue : ∀ entry ∈ bits names, value entry.1 = v.testBit entry.2) :
    ((t.namedLiterals names).all fun l => value l.name == l.positive) = t.covers v := by
  rw [Bool.eq_iff_iff, Term.all_namedLiterals_iff, Term.covers_iff_of_length_le hlength hv]
  constructor
  · intro h k hk
    obtain ⟨name, hmem⟩ := exists_mem_bits hk
    rw [← hvalue _ hmem]
    exact h _ hmem
  · intro h entry hentry
    rw [hvalue entry hentry]
    exact h entry.2 (lt_length_of_mem_bits hentry)

/-- **The netlist of a solution** has the value of its sum of products, provided that the names are
different and that no pattern is longer than there are names. -/
theorem value_netlist (s : Solution) (hnodup : names.Nodup)
    (hlength : ∀ t ∈ s.implicants, t.pattern.length ≤ names.length) {v : ℕ}
    (hv : v < 2 ^ names.length) :
    Netlist.value ⟨bits names, Expr.ofSum (s.implicants.map (Term.namedLiterals names))⟩ v =
      some (s.value v) := by
  let e := Expr.ofSum (s.implicants.map (Term.namedLiterals names))
  obtain ⟨value, hbit, hvalue⟩ := exists_value hnodup e v
  have hliterals : ∀ ls ∈ s.implicants.map (Term.namedLiterals names), ∀ l ∈ ls,
      Netlist.bit? ⟨bits names, e⟩ v l.name = some (value l.name) := by
    simp only [List.forall_mem_map]
    exact fun t _ l hl => hbit l.name (Term.name_mem_of_mem_namedLiterals hl)
  unfold Netlist.value
  rw [Expr.eval_ofSum hliterals, List.any_map]
  refine congrArg some ?_
  unfold Solution.value Term.anyCovers
  rw [Bool.eq_iff_iff, List.any_eq_true, List.any_eq_true]
  refine exists_congr fun t => and_congr_right fun ht => ?_
  rw [← all_namedLiterals_eq_covers (hlength t ht) hv hvalue]
  rfl

end Solution

/-! ### Solutions of problems -/

/-- What is read from an emitted document: each name stands for a bit within the width, and the
output is the value of the solution at every packed input. -/
structure Netlist.Realizes (n : Netlist) (s : Solution) : Prop where
  inputs : ∀ entry ∈ n.inputs, (entry.2 : ℤ) < s.width
  value : ∀ v : ℕ, v < 2 ^ s.width.toNat → n.value v = some (s.value v)

namespace Problem

variable {p : Problem} {solver : MaxSat.Solver} {method : Method} {s : Solution}

theorem length_pattern_le_width (h : (widthNeeded (p.minterms ++ p.dontCares) : ℤ) ≤ p.width) :
    ∀ t ∈ p.primes, (t.pattern.length : ℤ) ≤ p.width := by
  intro t ht
  have hlength := (p.ofWidth_of_mem_primes (ofWidth_of_mem_given h) t ht).length_le
  have hone := one_le_widthNeeded (p.minterms ++ p.dontCares)
  omega

/-- **The emitted Verilog and C compute the solution.**  Whatever terms and width a problem is read
from, and whichever backend chooses its cover, the default names are different identifiers; and with
any list of different identifiers, one for each input, the Verilog module and the C function of the
solution, whatever they are called, are read as netlists whose output is the value of the chosen
implicants at every packed input. -/
theorem emitted_realize {minterms dontCares : List Term.Spelling} {width : Option ℤ}
    (hread : read minterms dontCares width = .ok p)
    (hsolve : p.solveWith solver p.primes method = .ok s) :
    InputNames s.width (defaultNames s.width) ∧
      ∀ names, InputNames s.width names → ∀ label, OneLine label →
        (∃ n, Language.verilog.read (s.verilog names label) = some n ∧ n.Realizes s) ∧
          ∃ n, Language.c.read (s.cFunction names label) = some n ∧ n.Realizes s := by
  obtain ⟨-, -, hneeded⟩ := read_eq_ok hread
  have hlength := length_pattern_le_width hneeded
  have hone := one_le_widthNeeded (p.minterms ++ p.dontCares)
  obtain ⟨chosen, -, hs⟩ := p.solveWith_eq_ok_iff.mp hsolve
  have hwidth : s.width = p.width := (congrArg Solution.width hs).symm
  have himplicants : s.implicants = Cover.pick chosen p.primes :=
    (congrArg Solution.implicants hs).symm
  have hmethod : OneLine s.method := by
    rw [← hs]
    change OneLine method.name
    cases method <;> decide
  constructor
  · obtain ⟨w, hw⟩ : ∃ w : ℕ, s.width = w := ⟨s.width.toNat, by omega⟩
    rw [hw]
    exact inputNames_defaultNames w
  · intro names hnames label hlabel
    have hnetlist : Netlist.Realizes ⟨Solution.bits names,
        Expr.ofSum (s.implicants.map (Term.namedLiterals names))⟩ s := by
      constructor
      · intro entry hentry
        have hlt := Solution.lt_length_of_mem_bits hentry
        have hnumber := hnames.length
        omega
      · intro v hv
        rw [← hnames.length, Int.toNat_natCast] at hv
        refine s.value_netlist hnames.nodup (fun t ht => ?_) hv
        rw [himplicants] at ht
        have hle := hlength t ((Cover.pick_sublist chosen p.primes).subset ht)
        have hnumber := hnames.length
        omega
    exact ⟨⟨_, Solution.read_verilog hnames.identifier hmethod hlabel hnames.length, hnetlist⟩,
      ⟨_, Solution.read_cFunction hnames.identifier hmethod hlabel hnames.length, hnetlist⟩⟩

/-- The pattern `1*0` and the input 3 over three named inputs. -/
theorem emitted_pattern_and_three :
    ∃ p s, read [.text "1*0", .value 3] [] none = .ok p ∧ p.minimize .products = .ok s ∧
      InputNames s.width ["A", "B", "C"] ∧
      Dialect.verilog.sum ["A", "B", "C"] s.implicants = "(~A & B & C) | (A & ~C)" ∧
      (∃ n, Language.verilog.read (s.verilog ["A", "B", "C"] "minimized") = some n ∧
        n.value 4 = some true ∧ n.value 5 = some false) ∧
      ∃ n, Language.c.read (s.cFunction ["A", "B", "C"] "minimized") = some n ∧
        n.value 3 = some true ∧ n.value 7 = some false := by
  let p : Problem := ⟨[.ofPattern [.zero, .star, .one], ⟨[.one, .one], .singleton 3⟩], [], 3⟩
  have hread : read [.text "1*0", .value 3] [] none = .ok p := rfl
  obtain ⟨chosen, -, hs⟩ := p.exists_minimize
  generalize p.solution p.primes (Cover.pick chosen p.primes) .products = s at hs
  have hvalues : (p.minimize .products).map (fun s => (s.width,
      Dialect.verilog.sum ["A", "B", "C"] s.implicants, [3, 4, 5, 7].map s.value)) =
        .ok (3, "(~A & B & C) | (A & ~C)", [true, true, false, false]) := by decide +kernel
  rw [hs] at hvalues
  simp only [Except.map, Except.ok.injEq, Prod.mk.injEq, List.map_cons, List.map_nil,
    List.cons.injEq] at hvalues
  obtain ⟨hwidth, htext, hthree, hfour, hfive, hseven, -⟩ := hvalues
  have hnames : InputNames s.width ["A", "B", "C"] := by
    rw [hwidth]
    exact ⟨rfl, by decide, by decide⟩
  have hsolve : p.solveWith HittingSet.solve p.primes .products = .ok s := hs
  obtain ⟨-, hemitted⟩ := emitted_realize hread hsolve
  obtain ⟨⟨n, hn, hverilog⟩, m, hm, hc⟩ := hemitted _ hnames "minimized" (by decide)
  have hbound : ∀ v : ℕ, v < 8 → v < 2 ^ s.width.toNat := by
    rw [hwidth]
    exact fun v hv => hv
  refine ⟨p, s, hread, hs, hnames, htext, ⟨n, hn, ?_, ?_⟩, m, hm, ?_, ?_⟩
  · rw [hverilog.value 4 (hbound 4 (by decide))]
    exact congrArg some hfour
  · rw [hverilog.value 5 (hbound 5 (by decide))]
    exact congrArg some hfive
  · rw [hc.value 3 (hbound 3 (by decide))]
    exact congrArg some hthree
  · rw [hc.value 7 (hbound 7 (by decide))]
    exact congrArg some hseven

end Problem

end TwoLevel
