import TwoLevel.Proofs.Cli.Settings
import TwoLevel.Proofs.Session

/-! # The outcome of a command line

Carrying out settings ends in one of three ways: the function has a fault (`run_of_faulty`), the
names do not fit its inputs (`run_of_misnamed`), or a solution is printed (`run_of_named`).  A
solution of fresh primes computes its function, so it is never taken back after it was printed
(`report_of_computes`): what has been printed belongs to a run that went well (`run_outcome`). -/

namespace TwoLevel

open MaxSat

/-! ### Messages -/

namespace Cli

/-- A message that a solution has the wrong value at some input. -/
def Accuses (message : String) : Prop := "Verification error: ".toList <+: message.toList

/-- A text with another beginning. -/
def Harmless (text : String) : Prop := ∃ c, text.toList.head? = some c ∧ c ≠ 'V'

theorem Harmless.append {text : String} (h : Harmless text) (rest : String) :
    Harmless (text ++ rest) := by
  obtain ⟨c, hhead, hc⟩ := h
  refine ⟨c, ?_, hc⟩
  rw [String.toList_append, List.head?_append, hhead]
  rfl

theorem Harmless.not_accuses {text : String} (h : Harmless text) : ¬ Accuses text := by
  obtain ⟨c, hhead, hc⟩ := h
  rintro ⟨rest, hrest⟩
  rw [← hrest] at hhead
  exact hc (Option.some.inj hhead).symm

end Cli

theorem Term.harmless_text (t : Term) : Cli.Harmless t.text := by
  have hne : t.pattern.digits ≠ [] := by
    unfold Pattern.digits
    split_ifs with hp
    · exact List.cons_ne_nil _ _
    · simpa using hp
  obtain ⟨trit, trits, hdigits⟩ := List.exists_cons_of_ne_nil hne
  refine ⟨trit.char, ?_, by cases trit <;> decide⟩
  unfold text Pattern.text
  rw [hdigits, String.toList_ofList]
  rfl

theorem Event.harmless_text (e : Event) : Cli.Harmless e.text := by
  cases e with
  | isolated | joining => exact (Cli.Harmless.append ⟨'f', rfl, by decide⟩ _).append _
  | tried low => exact (((low.harmless_text.append _).append _).append _).append _
  | prime t => exact t.harmless_text.append _
  | primesFound => exact (Cli.Harmless.append ⟨'f', rfl, by decide⟩ _).append _
  | covered =>
      exact ((Cli.Harmless.append ⟨'m', rfl, by decide⟩ _).append _).append _
  | expanded =>
      exact (((Cli.Harmless.append ⟨'a', rfl, by decide⟩ _).append _).append _).append _
  | coverSelected =>
      exact (((((Cli.Harmless.append ⟨'s', rfl, by decide⟩ _).append _).append _).append _).append
        _).append _
  | searchSelected => exact (Cli.Harmless.append ⟨'M', rfl, by decide⟩ _).append _
  | unverified => exact (Cli.Harmless.append ⟨'s', rfl, by decide⟩ _).append _

namespace Cli.Settings

variable (s : Settings) {solver : Solver}

theorem harmless_of_mem_shown {events : List Event} : ∀ message ∈ s.shown events, Harmless message := by
  intro message hmessage
  obtain ⟨e, -, rfl⟩ := List.mem_map.mp hmessage
  exact e.harmless_text

/-! ### Solutions -/

/-- What a run leaves behind that ends well: it prints the document, and behind an empty line the
table where one is asked for and the function has not too many inputs. -/
structure Reported (o : Outcome) (s : Settings) (names : List String) (solution : Solution) :
    Prop where
  code : o.code = 0
  messages : ∀ message ∈ o.messages, Harmless message
  plain : ¬ (s.check = true ∧ solution.width ≤ verifyLimit) →
    o.output = s.document solution names ++ "\n"
  tabulated : s.check = true ∧ solution.width ≤ verifyLimit →
    ∃ front, solution.table = .ok (front ++ "All correct: True\n") ∧
      o.output = s.document solution names ++ "\n\n" ++ (front ++ "All correct: True\n")

/-- Printing a solution that computes its function ends well, whatever else the user wants to
see. -/
theorem report_of_computes (events : List Event) (names : List String) {solution : Solution}
    (hw : 0 ≤ solution.width) (h : solution.Computes) :
    Reported (s.report events names solution) s names solution := by
  have hseen : ∀ message ∈ if s.level.rank ≤ Level.info.rank then s.shown events else [],
      Harmless message := by
    split
    · exact s.harmless_of_mem_shown
    · exact List.forall_mem_nil _
  unfold report
  dsimp only
  rcases lt_or_ge verifyLimit solution.width with hlimit | hlimit
  · rw [if_pos hlimit]
    refine ⟨rfl, ?_, fun _ => rfl, fun hneed => absurd hneed.2 (not_le.mpr hlimit)⟩
    rw [List.forall_mem_append]
    exact ⟨hseen, s.harmless_of_mem_shown⟩
  · rw [if_neg (not_lt.mpr hlimit), h.mismatches hw]
    dsimp only
    by_cases hcheck : s.check = true
    · obtain ⟨front, htable⟩ := h.exists_table hw
      rw [if_pos hcheck, htable]
      refine ⟨rfl, hseen, fun hfree => absurd ⟨hcheck, hlimit⟩ hfree,
        fun _ => ⟨front, htable, ?_⟩⟩
      exact congrArg (· ++ _) String.append_assoc
    · rw [if_neg hcheck]
      exact ⟨rfl, hseen, fun _ => rfl, fun hneed => absurd hneed.1 hcheck⟩

/-! ### Runs -/

section runs

variable {s}

theorem run_of_faulty (h : ¬ s.Minimizable) :
    ∃ f, s.problem = .error f ∧ s.runWith solver = .ok (s.failed f) := by
  cases hp : s.problem with
  | ok p => exact absurd ((s.exists_problem_iff).mp ⟨p, hp⟩) h
  | error f =>
      refine ⟨f, rfl, ?_⟩
      unfold runWith
      rw [hp]

theorem run_of_misnamed (h : s.Minimizable) (hnames : s.Misnamed) :
    ∃ w, s.InputCount w ∧ s.runWith solver = .ok (.misused (.wrongNameCount w s.nameCount)) := by
  obtain ⟨p, hp⟩ := s.exists_problem_iff.mpr h
  have hcount := inputCount_of_problem hp
  obtain ⟨hne, w, hw, hwrong⟩ := hnames
  obtain rfl := hcount.unique hw
  refine ⟨_, hcount, ?_⟩
  unfold runWith
  rw [hp]
  dsimp only
  rw [s.inputNames_of_ne hne hwrong]

theorem run_of_named (hsolver : solver.OptimalFor Cover.IsFormula) {m : Method}
    (hm : s.method = some m) (h : s.Minimizable) (hnames : ¬ s.Misnamed) :
    ∃ p names solution o, s.problem = .ok p ∧ s.inputNames p.width = .ok names ∧
      p.solveWith solver p.primes m = .ok solution ∧ solution.width = p.width ∧
      s.runWith solver = .ok o ∧ Reported o s names solution := by
  obtain ⟨p, hp⟩ := s.exists_problem_iff.mpr h
  have hcount := inputCount_of_problem hp
  have hnamed : s.names = "" ∨ (s.nameCount : ℤ) = p.width := by
    by_contra hwrong
    push Not at hwrong
    exact hnames ⟨hwrong.1, p.width, hcount, hwrong.2⟩
  obtain ⟨names, hlist⟩ := s.inputNames_of_count hnamed
  obtain ⟨solution, hsolution, hwidth, hcomputes⟩ :=
    p.exists_solveWith_primes hsolver (exact_of_problem hp) m
  have hpos : 0 ≤ solution.width := by
    rw [hwidth]
    exact width_nonneg_of_problem hp
  refine ⟨p, names, solution, s.report (p.eventsWith solver m) names solution, hp, hlist,
    hsolution, hwidth, ?_, s.report_of_computes _ names hpos hcomputes⟩
  unfold runWith
  rw [hp]
  dsimp only
  rw [hlist]
  dsimp only
  rw [hm]
  dsimp only
  rw [hsolution]

theorem run_of_read {words : List String} (h : Settings.read words = .ok s) :
    Cli.run words = s.run := by
  unfold Cli.run
  rw [h]

/-- By products no solver is asked. -/
theorem runWith_of_products (hm : s.method = some .products) : s.runWith solver = s.run := by
  have hsolve : ∀ (p : Problem) (primes : List Term), p.solveWith solver primes .products =
      p.solveWith HittingSet.solve primes .products := by
    intro p primes
    unfold Problem.solveWith Method.coverWith
    rfl
  have hevents : ∀ p : Problem,
      p.eventsWith solver .products = p.eventsWith HittingSet.solve .products := by
    intro p
    unfold Problem.eventsWith Method.eventsWith
    rfl
  unfold run runWith
  simp only [hm, hsolve, hevents]

end runs

/-! ### The outcome -/

/-- **The outcome of a run** of any settings that name a backend, with an optimal solver.  There
always is one, and it is that of the command line by products, or where the solver is the search of
the command line.  Its code is one exactly when something is wrong with the function, two exactly
when that is not so and the names do not fit, and zero otherwise.  A run with another code than zero
prints nothing, and the message of a run with code one is that of a fault.  A run with code zero
prints the document of the solution, and behind an empty line the table of that solution where a
table is asked for and the function has not too many inputs; then it ends by saying that all is
correct.  No run ends with a message that a solution has a wrong value. -/
theorem run_outcome (hsolver : solver.OptimalFor Cover.IsFormula) {m : Method}
    (hm : s.method = some m) :
    ∃ o, s.runWith solver = .ok o ∧
      (m = .products ∨ solver = HittingSet.solve →
        ∀ words, Settings.read words = .ok s → Cli.run words = .ok o) ∧
      (o.code = 1 ↔ ¬ s.Minimizable) ∧
      (o.code = 2 ↔ s.Minimizable ∧ s.Misnamed) ∧
      (o.code = 0 ↔ s.Minimizable ∧ ¬ s.Misnamed) ∧
      (o.code = 1 → ∃ f, s.problem = .error f ∧ o.messages = ["Error: " ++ f.message]) ∧
      (o.code ≠ 0 → o.output = "") ∧
      (∀ message ∈ o.messages, ¬ Accuses message) ∧
      (o.code = 0 → ∃ p names solution, s.problem = .ok p ∧ s.inputNames p.width = .ok names ∧
        p.solveWith solver p.primes m = .ok solution ∧
        (¬ (s.check = true ∧ p.width ≤ verifyLimit) →
          o.output = s.document solution names ++ "\n") ∧
        (s.check = true ∧ p.width ≤ verifyLimit → ∃ table, solution.table = .ok table ∧
          o.output = s.document solution names ++ "\n\n" ++ table)) ∧
      (o.code = 0 → s.check = true → (∃ w, s.InputCount w ∧ w ≤ verifyLimit) →
        ∃ front, o.output = front ++ "All correct: True\n") := by
  have hrun : ∀ o, s.runWith solver = .ok o → m = .products ∨ solver = HittingSet.solve →
      ∀ words, Settings.read words = .ok s → Cli.run words = .ok o := by
    rintro o ho (rfl | rfl) words hwords
    · rw [run_of_read hwords, ← runWith_of_products hm, ho]
    · exact (run_of_read hwords).trans ho
  by_cases hmin : s.Minimizable
  · by_cases hnames : s.Misnamed
    · obtain ⟨w, -, ho⟩ := run_of_misnamed hmin hnames
      let o := Outcome.misused (.wrongNameCount w s.nameCount)
      have hcode : o.code = 2 := rfl
      have hmessages : ∀ message ∈ o.messages, Harmless message :=
        List.forall_mem_singleton.mpr (Harmless.append ⟨'q', rfl, by decide⟩ _)
      exact ⟨o, ho, hrun o ho, by simp [hcode, hmin], by simp [hcode, hmin, hnames],
        by simp [hcode, hnames], by simp [hcode], fun _ => rfl,
        fun message h => (hmessages message h).not_accuses, by simp [hcode], by simp [hcode]⟩
    · obtain ⟨p, names, solution, o, hp, hlist, hsolution, hwidth, ho, hreported⟩ :=
        run_of_named hsolver hm hmin hnames
      have hcode := hreported.code
      refine ⟨o, ho, hrun o ho, by simp [hcode, hmin], by simp [hcode, hnames],
        by simp [hcode, hmin, hnames], by simp [hcode], fun h => absurd hcode h,
        fun message h => (hreported.messages message h).not_accuses,
        fun _ => ⟨p, names, solution, hp, hlist, hsolution, ?_, fun hneed => ?_⟩, ?_⟩
      · rw [← hwidth]
        exact hreported.plain
      · rw [← hwidth] at hneed
        obtain ⟨front, htable, houtput⟩ := hreported.tabulated hneed
        exact ⟨_, htable, houtput⟩
      · rintro - hcheck ⟨v, hv, hle⟩
        rw [hv.unique (inputCount_of_problem hp), ← hwidth] at hle
        obtain ⟨front, -, houtput⟩ := hreported.tabulated ⟨hcheck, hle⟩
        exact ⟨_, houtput.trans String.append_assoc.symm⟩
  · obtain ⟨f, hf, ho⟩ := run_of_faulty hmin
    let o := s.failed f
    have hcode : o.code = 1 := rfl
    have hmessages : ∀ message ∈ o.messages, Harmless message :=
      List.forall_mem_singleton.mpr (Harmless.append ⟨'E', rfl, by decide⟩ _)
    exact ⟨o, ho, hrun o ho, by simp [hcode, hmin], by simp [hcode, hmin], by simp [hcode, hmin],
      fun _ => ⟨f, hf, rfl⟩, fun _ => rfl,
      fun message h => (hmessages message h).not_accuses, by simp [hcode], by simp [hcode]⟩

/-- With 1 and 3 required over two inputs all goes well. -/
theorem outcome_of_one_three :
    let s : Settings :=
      { minterms := [1, 3], width := some 2, method := some .search, check := true }
    HittingSet.solve.OptimalFor Cover.IsFormula ∧ s.method = some .search ∧
      Settings.read ["-m", "1", "3", "-w", "2", "--method", "maxsat", "--check"] = .ok s ∧
      ∃ o, Cli.run ["-m", "1", "3", "-w", "2", "--method", "maxsat", "--check"] = .ok o ∧
        o.code = 0 ∧ ∃ front, o.output = front ++ "All correct: True\n" := by
  intro s
  have hgives : ∀ x, s.Gives x → x = .value 1 ∨ x = .value 3 := by
    rintro x (⟨n, hn, rfl⟩ | ⟨t, ht, rfl⟩)
    · simpa [s] using hn
    · simp [s] at ht
  have hmin : s.Minimizable := by
    refine ⟨(fun _ h => nomatch h), fun x hx => ?_, ?_⟩
    · rcases hgives x hx with rfl | rfl
      · exact ⟨by decide, by decide⟩
      · exact ⟨by decide, by decide⟩
    · rintro _ ⟨⟩
      refine ⟨by decide, by decide, fun x hx => ?_⟩
      rcases hgives x hx with rfl | rfl
      · exact (by decide : (1 : ℤ) < 2 ^ 2)
      · exact (by decide : (3 : ℤ) < 2 ^ 2)
  have hnamed : ¬ s.Misnamed := fun h => h.1 rfl
  have hread : Settings.read ["-m", "1", "3", "-w", "2", "--method", "maxsat", "--check"] =
      .ok s := rfl
  obtain ⟨o, -, hrun, -, -, hcode, -, -, -, -, hcheck⟩ :=
    run_outcome (s := s) Cover.optimalFor_hittingSet rfl
  have hzero := hcode.mpr ⟨hmin, hnamed⟩
  exact ⟨Cover.optimalFor_hittingSet, rfl, hread, o, hrun (Or.inr rfl) _ hread, hzero,
    hcheck hzero rfl ⟨2, rfl, by decide⟩⟩

end Cli.Settings

end TwoLevel
