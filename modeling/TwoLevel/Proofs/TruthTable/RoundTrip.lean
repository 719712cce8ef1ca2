import TwoLevel.Proofs.Minimization
import TwoLevel.Proofs.TruthTable.Columns
import TwoLevel.Proofs.TruthTable.Reading

/-! # From table to table

A truth table that can be read is a problem over as many inputs as its length asks for, and the
solution of that problem has the table for its function (`exists_solution`): one where it says so,
zero where it says so and behind its end.  So the table that is printed for the solution expects
what was read, character by character (`table_round_trip`). -/

namespace TwoLevel.TruthTable

open Problem

variable {text : String}

/-! ### The problem of a table -/

theorem At.lt_two_pow {e : Entry} {i : ℕ} (h : At text e i) : i < 2 ^ widthOf text := by
  obtain ⟨c, -, hc⟩ := h
  have hi := (List.getElem?_eq_some_iff.mp hc).1
  rw [String.length_toList] at hi
  exact lt_of_lt_of_le hi (isLeast_widthOf text).1.2

/-- A table that is not too long is a problem over the inputs of its width. -/
theorem exists_problem (h : ∀ c ∈ text.toList, c ∈ symbols) (hlength : text.length ≤ 2 ^ 32) :
    ∃ on free p, read text = .ok (on, free) ∧
      Problem.read (on.map .value) (free.map .value) (some (widthOf text : ℤ)) = .ok p ∧
      p.width = widthOf text ∧
      (∀ v, (∃ t ∈ p.minterms, v ∈ t.sources) ↔ ∃ i : ℕ, v = i ∧ At text .on i) ∧
      ∀ v, (∃ t ∈ p.dontCares, v ∈ t.sources) ↔ ∃ i : ℕ, v = i ∧ At text .free i := by
  obtain ⟨on, free, hread, hon, hfree⟩ := read_eq_ok h
  have hmax : widthOf text ≤ 32 := (widthOf_le_iff text 32).mpr ⟨by decide, hlength⟩
  have hinput : ∀ n ∈ on ++ free, 0 ≤ n ∧ n < 2 ^ widthOf text := by
    have hentry : ∀ (n : ℤ) (e : Entry), (∃ i : ℕ, n = i ∧ At text e i) →
        0 ≤ n ∧ n < 2 ^ widthOf text := by
      rintro _ e ⟨i, rfl, hi⟩
      exact ⟨Int.natCast_nonneg i, by exact_mod_cast hi.lt_two_pow⟩
    rw [List.forall_mem_append]
    exact ⟨fun n hn => hentry n .on ((hon n).mp hn), fun n hn => hentry n .free ((hfree n).mp hn)⟩
  have hbound : (2 : ℤ) ^ widthOf text ≤ 2 ^ maxWidth := pow_le_pow_right₀ (by decide) hmax
  obtain ⟨p, hp⟩ := (exists_read_integers_iff on free (some (widthOf text : ℤ))).mpr <| by
    refine ⟨fun n hn => ⟨(hinput n hn).1, (hinput n hn).2.trans_le hbound⟩, ?_⟩
    rintro _ ⟨⟩
    rw [Int.toNat_natCast]
    exact ⟨by exact_mod_cast (isLeast_widthOf text).1.1, by exact_mod_cast hmax,
      fun n hn => (hinput n hn).2⟩
  obtain ⟨ms, ds, hms, hds, hmake⟩ := read_eq_ok_iff.mp hp
  obtain ⟨rfl, -⟩ := make_eq_ok_iff.mp hmake
  refine ⟨on, free, _, hread, hp, rfl, fun v => ?_, fun v => ?_⟩
  · exact (Term.exists_source_iff hms v).trans (hon v)
  · exact (Term.exists_source_iff hds v).trans (hfree v)

/-! ### Its solution -/

/-- A solution for the function of a table. -/
structure MadeFor (s : Solution) (text : String) : Prop where
  width : s.width = widthOf text
  on : ∀ i : ℕ, (i : ℤ) ∈ s.minterms ↔ At text .on i
  free : ∀ i : ℕ, (i : ℤ) ∈ s.dontCares ↔ At text .free i

/-- Minimising the problem of a table gives a solution for its function, and one that computes
it. -/
theorem exists_solution (h : ∀ c ∈ text.toList, c ∈ symbols) (hlength : text.length ≤ 2 ^ 32) :
    ∃ on free p, read text = .ok (on, free) ∧
      Problem.read (on.map .value) (free.map .value) (some (widthOf text : ℤ)) = .ok p ∧
      p.width = widthOf text ∧ ∀ primes, p.HasPrimes primes →
        ∃ s, p.solve primes .products = .ok s ∧ MadeFor s text ∧ s.Computes := by
  obtain ⟨on, free, p, hread, hp, hwidth, hon, hfree⟩ := exists_problem h hlength
  have hexact : ∀ t ∈ p.minterms ++ p.dontCares, t.Exact := fun t => Problem.exact_of_mem hp
  have hat : ∀ (e : Entry) (i : ℕ), (∃ j : ℕ, (i : ℤ) = j ∧ At text e j) ↔ At text e i := by
    intro e i
    simp only [Int.natCast_inj, exists_eq_left']
  have hrequired : ∀ i : ℕ, (i : ℤ) ∈ p.required ↔ At text .on i := fun i =>
    (mem_sourcesOf.trans (hon i)).trans (hat .on i)
  have hunconstrained : ∀ i : ℕ, (i : ℤ) ∈ p.unconstrained ↔ At text .free i := fun i =>
    (mem_sourcesOf.trans (hfree i)).trans (hat .free i)
  refine ⟨on, free, p, hread, hp, hwidth, fun primes hprimes => ?_⟩
  obtain ⟨chosen, hchosen, hsolve⟩ := hprimes.exists_solve
  refine ⟨_, hsolve, ⟨hwidth, hrequired, fun i => ?_⟩,
    hprimes.computes_of_covering hexact hchosen.covering .products⟩
  refine OrdSet.mem_sdiff.trans ?_
  rw [hunconstrained, hrequired]
  constructor
  · intro hi
    exact hi.1
  · intro hi
    exact ⟨hi, fun hone => absurd (hi.unique hone) (by decide)⟩

/-! ### What the solution shows -/

/-- A character as a printed table shows it. -/
def shown (c : Char) : Char := if c = 'x' ∨ c = 'X' then '-' else c

theorem shown_of_mem_symbols {e : Entry} : ∀ c ∈ e.symbols, shown c = e.char := by
  cases e <;> simp [Entry.symbols, Entry.char, shown]

theorem not_at_of_length_le {i : ℕ} (hi : text.length ≤ i) (e : Entry) : ¬ At text e i := by
  rintro ⟨c, -, hc⟩
  have hlt := (List.getElem?_eq_some_iff.mp hc).1
  rw [String.length_toList] at hlt
  omega

namespace MadeFor

variable {s : Solution} (h : MadeFor s text)
include h

theorem entry_demand {e : Entry} {i : ℕ} (hi : At text e i) : (s.demand i).entry = e := by
  have hat : ∀ f, At text f i ↔ f = e := by
    intro f
    constructor
    · intro hf
      exact hf.unique hi
    · rintro rfl
      exact hi
  unfold Solution.Demand.entry Solution.demand
  simp only [decide_eq_true_eq, h.on, h.free, hat]
  cases e <;> decide

theorem entry_demand_of_length_le {i : ℕ} (hi : text.length ≤ i) : (s.demand i).entry = .off := by
  unfold Solution.Demand.entry Solution.demand
  simp [h.on, h.free, not_at_of_length_le hi]

theorem value_of_on (hs : s.Computes) {i : ℕ} (hi : At text .on i) : s.value i = true :=
  hs.one i ((h.on i).mpr hi)

theorem value_of_not_at (hs : s.Computes) {i : ℕ} (hon : ¬ At text .on i)
    (hfree : ¬ At text .free i) : s.value i = false :=
  hs.zero i (fun hi => hon ((h.on i).mp hi)) fun hi => hfree ((h.free i).mp hi)

/-- The entries asked for are those of the table, filled up with zeros. -/
theorem map_entry (hsymbols : ∀ c ∈ text.toList, c ∈ symbols) :
    (List.range (2 ^ widthOf text)).map (fun n : ℕ => (s.demand n).entry.char) =
      text.toList.map shown ++ List.replicate (2 ^ widthOf text - text.length) '0' := by
  have hlength : (text.toList.map shown ++
      List.replicate (2 ^ widthOf text - text.length) '0').length = 2 ^ widthOf text := by
    rw [List.length_append, List.length_map, String.length_toList, List.length_replicate,
      Nat.add_sub_cancel' (isLeast_widthOf text).1.2]
  refine List.ext_getElem (by rw [hlength, List.length_map, List.length_range]) fun i _ _ => ?_
  rw [List.getElem_map, List.getElem_range, List.getElem_append]
  split
  · next hi =>
    rw [List.length_map] at hi
    obtain ⟨e, he, hat⟩ := exists_at hsymbols (List.getElem?_eq_getElem hi)
    rw [List.getElem_map, h.entry_demand hat, shown_of_mem_symbols _ he]
  · next hi =>
    rw [List.length_map, String.length_toList] at hi
    rw [List.getElem_replicate, h.entry_demand_of_length_le (by omega)]
    rfl

end MadeFor

/-! ### The round trip -/

/-- **Truth table in, truth table out.**  Every text over the characters of tables, of up to `2 ^
32` of them, is read and is a problem over the least number of inputs, at least one, that has an
input for each character.  From its prime implicants, in the canonical order or in any other one, it
has a solution that is one where the table is, zero where the table is and at every input behind its
end, and printing the solution shows the table, filled up with zeros, as what is expected.  Every
other text is refused for the first of its characters that has no meaning. -/
theorem table_round_trip (text : String) :
    ((∀ c ∈ text.toList, c ∈ symbols) → text.length ≤ 2 ^ 32 →
      IsLeast {w : ℕ | 1 ≤ w ∧ text.length ≤ 2 ^ w} (widthOf text) ∧
      ∃ on free p, read text = .ok (on, free) ∧
        Problem.read (on.map .value) (free.map .value) (some (widthOf text : ℤ)) = .ok p ∧
        p.width = widthOf text ∧ p.HasPrimes p.primes ∧ ∀ primes, p.HasPrimes primes →
          ∃ s, p.solve primes .products = .ok s ∧
            (∀ i : ℕ, text.toList[i]? = some '1' → Term.anyCovers s.implicants i = true) ∧
            (∀ i : ℕ, text.toList[i]? = some '0' → Term.anyCovers s.implicants i = false) ∧
            (∀ i : ℕ, text.length ≤ i → Term.anyCovers s.implicants i = false) ∧
            ∃ table, s.table = .ok table ∧ columnOf "Expected" table =
              (text.toList.map shown ++ List.replicate (2 ^ widthOf text - text.length) '0').map
                Char.toString) ∧
    ((¬ ∀ c ∈ text.toList, c ∈ symbols) →
      ∃ i : ℕ, IsLeast {j | ∃ c, text.toList[j]? = some c ∧ c ∉ symbols} i ∧
        read text = .error (.invalidCharacter text i)) := by
  constructor
  · intro hsymbols hlength
    obtain ⟨on, free, p, hread, hp, hwidth, hany⟩ := exists_solution hsymbols hlength
    refine ⟨isLeast_widthOf text, on, free, p, hread, hp, hwidth, p.hasPrimes_primes,
      fun primes hprimes => ?_⟩
    obtain ⟨s, hs, hmade, hcomputes⟩ := hany primes hprimes
    have hpos : 0 ≤ s.width := by
      rw [hmade.width]
      exact Int.natCast_nonneg _
    obtain ⟨table, htable, hcolumn⟩ := s.columnOf_expected hpos
    refine ⟨s, hs, fun i hi => ?_, fun i hi => ?_, fun i hi => ?_, table, htable, ?_⟩
    · exact hmade.value_of_on hcomputes ⟨'1', by decide, hi⟩
    · have hoff : At text .off i := ⟨'0', by decide, hi⟩
      exact hmade.value_of_not_at hcomputes (fun hone => absurd (hone.unique hoff) (by decide))
        fun hfree => absurd (hfree.unique hoff) (by decide)
    · exact hmade.value_of_not_at hcomputes (not_at_of_length_le hi .on)
        (not_at_of_length_le hi .free)
    · rw [hcolumn, hmade.width, Int.toNat_natCast, ← hmade.map_entry hsymbols, List.map_map]
      rfl
  · intro hbad
    obtain ⟨i, hi⟩ := exists_isLeast_invalid hbad
    exact ⟨i, hi, read_eq_error hi⟩

/-- Five characters are a function of three inputs; a two is no character of tables. -/
theorem round_trip_five_entries :
    (∀ c ∈ "1x01-".toList, c ∈ symbols) ∧ "1x01-".length ≤ 2 ^ 32 ∧ widthOf "1x01-" = 3 ∧
      (∃ on free p s table, read "1x01-" = .ok (on, free) ∧
        Problem.read (on.map .value) (free.map .value) (some 3) = .ok p ∧
        p.minimize .products = .ok s ∧ Term.anyCovers s.implicants 3 = true ∧
        Term.anyCovers s.implicants 2 = false ∧ Term.anyCovers s.implicants 8 = false ∧
        s.table = .ok table ∧
        columnOf "Expected" table = ["1", "-", "0", "1", "-", "0", "0", "0"]) ∧
      (¬ ∀ c ∈ "1021".toList, c ∈ symbols) ∧
      ∃ i, read "1021" = .error (.invalidCharacter "1021" i) := by
  have hall : ("1x01-".toList.all fun c => decide (c ∈ symbols)) = true := by decide
  have hsymbols : ∀ c ∈ "1x01-".toList, c ∈ symbols := fun c hc =>
    of_decide_eq_true (List.all_eq_true.mp hall c hc)
  have hbad : ¬ ∀ c ∈ "1021".toList, c ∈ symbols := fun h =>
    absurd (h '2' (by decide)) (by decide)
  obtain ⟨-, on, free, p, hread, hp, -, hcanonical, hany⟩ :=
    (table_round_trip "1x01-").1 hsymbols (by decide)
  obtain ⟨s, hs, hone, hzero, hbehind, table, htable, hcolumn⟩ := hany _ hcanonical
  obtain ⟨i, -, hi⟩ := (table_round_trip "1021").2 hbad
  exact ⟨hsymbols, by decide, by decide, ⟨on, free, p, s, table, hread, hp, hs, hone 3 (by decide),
    hzero 2 (by decide), hbehind 8 (by decide), htable, hcolumn⟩, hbad, i, hi⟩

end TwoLevel.TruthTable
