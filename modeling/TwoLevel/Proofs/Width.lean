import TwoLevel.Proofs.Session.Failure

/-! # Widths

A problem over integers and patterns needs the least positive number of inputs that has room for
every source and for every pattern as it is written (`Problem.widthNeeded_le_iff_spelled`).  That is
its width when none is asked for, and the least one that can be asked for.

Merging needs no further input, and so no prime implicant does (`Problem.ofWidth_of_mem_primes`).
As long as its terms fit, a session stays over its inputs step by step (`Session.ofWidth_stepWith`):
the primes that it keeps are those of terms that fit, even when these terms have been removed since.
-/

namespace TwoLevel

open MaxSat

/-! ### Problems -/

namespace Problem

/-- The widths that hold integers and patterns: there is room for the sources and for what is
written. -/
theorem widthNeeded_le_iff_spelled {spellings : List Term.Spelling} {ts : List Term}
    (hplain : ∀ x ∈ spellings, x.Plain) (h : Term.readAll spellings = .ok ts) (w : ℕ) :
    widthNeeded ts ≤ w ↔ 1 ≤ w ∧ (∀ t ∈ ts, ∀ v ∈ t.sources, v < 2 ^ w) ∧
      ∀ text, .text text ∈ spellings → text.length ≤ w := by
  rw [widthNeeded_le_iff_fits h]
  refine and_congr_right fun _ => ⟨fun hfits => ⟨fun t ht v hv => ?_, fun text => hfits _⟩, ?_⟩
  · obtain ⟨x, hx, hread⟩ := Term.exists_spelling_of_mem_readAll h ht
    have hlt : (v.natAbs : ℤ) < 2 ^ w := by
      exact_mod_cast ((Term.Spelling.fits_iff hread w).mp (hfits x hx)).natAbs_lt v hv
    exact Int.le_natAbs.trans_lt hlt
  · rintro ⟨hsources, htexts⟩ x hx
    cases x with
    | value n =>
        obtain ⟨t, ht, hread⟩ := Term.exists_mem_readAll h hx
        obtain ⟨k, rfl, rfl⟩ := Term.ofInt_eq_ok hread
        exact hsources _ ht _ (OrdSet.mem_singleton.mpr rfl)
    | text s => exact htexts s hx
    | term t => exact absurd (hplain _ hx) id

end Problem

/-! ### Sessions -/

namespace Session

/-- A step that sets no other width and appends no term that does not fit. -/
def Step.Keeps (w : ℕ) : Step → Prop
  | addMinterm x => ∀ t, x.read = .ok t → t.OfWidth w
  | addDontCare x => ∀ t, x.read = .ok t → t.OfWidth w
  | setWidth width => width = w
  | _ => True

/-- A session over some inputs: its terms fit, and so do the primes that it keeps. -/
structure OfWidth (w : ℕ) (s : Session) : Prop where
  width : s.problem.width = w
  minterms : ∀ t ∈ s.problem.minterms, t.OfWidth w
  dontCares : ∀ t ∈ s.problem.dontCares, t.OfWidth w
  kept : ∀ primes, s.primes = some primes → ∀ t ∈ primes, t.OfWidth w

variable {solver : Solver} {w : ℕ} {s : Session}

theorem OfWidth.primes (h : s.OfWidth w) : ∀ t ∈ s.problem.primes, t.OfWidth w :=
  s.problem.ofWidth_of_mem_primes (List.forall_mem_append.mpr ⟨h.minterms, h.dontCares⟩)

theorem OfWidth.primesInUse (h : s.OfWidth w) : ∀ t ∈ s.primesInUse, t.OfWidth w := by
  unfold Session.primesInUse primesBy
  cases hprimes : s.primes with
  | none => exact h.primes
  | some primes => exact h.kept primes hprimes

theorem ofWidth_stepWith (h : s.OfWidth w) {a : Step} (ha : a.Keeps w) :
    (s.stepWith solver a).1.OfWidth w := by
  cases a with
  | findPrimes =>
      refine ⟨h.width, h.minterms, h.dontCares, fun primes hprimes => ?_⟩
      obtain rfl := Option.some.inj hprimes
      exact h.primes
  | showPrimes => exact h
  | showProblem => exact h
  | solve name =>
      cases hname : Method.ofName name with
      | error f => simpa only [stepWith, stepBy, hname] using h
      | ok m =>
          rw [stepWith_solve s hname]
          refine ⟨h.width, h.minterms, h.dontCares, fun primes hprimes => ?_⟩
          obtain rfl := Option.some.inj hprimes
          exact h.primesInUse
  | addMinterm x =>
      cases hread : x.read with
      | error f => simpa only [stepWith, stepBy, hread] using h
      | ok t =>
          simp only [stepWith, stepBy, hread]
          refine ⟨h.width, List.forall_mem_append.mpr ⟨h.minterms, ?_⟩, h.dontCares, h.kept⟩
          exact List.forall_mem_singleton.mpr (ha t hread)
  | addDontCare x =>
      cases hread : x.read with
      | error f => simpa only [stepWith, stepBy, hread] using h
      | ok t =>
          simp only [stepWith, stepBy, hread]
          refine ⟨h.width, h.minterms, List.forall_mem_append.mpr ⟨h.dontCares, ?_⟩, h.kept⟩
          exact List.forall_mem_singleton.mpr (ha t hread)
  | dropMinterm index =>
      cases hplace : place? s.problem.minterms.length index with
      | none => simpa only [stepWith, stepBy, hplace] using h
      | some i =>
          simp only [stepWith, stepBy, hplace]
          exact ⟨h.width, fun t ht => h.minterms t (List.mem_of_mem_eraseIdx ht), h.dontCares, h.kept⟩
  | setWidth width => exact ⟨ha, h.minterms, h.dontCares, h.kept⟩

/-- A run keeps a session over its inputs. -/
theorem ofWidth_after (h : s.OfWidth w) {steps : List Step} (hsteps : ∀ a ∈ steps, a.Keeps w) :
    (after solver s steps).OfWidth w := by
  induction steps generalizing s with
  | nil => exact h
  | cons a steps ih =>
      obtain ⟨ha, hsteps⟩ := List.forall_mem_cons.mp hsteps
      exact ih (ofWidth_stepWith h ha) hsteps

theorem ofWidth_start {minterms dontCares : List Term.Spelling} {width : Option ℤ} {p : Problem}
    (hp : Problem.read minterms dontCares width = .ok p) : (start p).OfWidth p.width.toNat := by
  obtain ⟨-, -, hneeded⟩ := Problem.read_eq_ok hp
  obtain ⟨hminterms, hdontCares⟩ :=
    List.forall_mem_append.mp (Problem.ofWidth_of_mem_given hneeded)
  have hpos := Problem.one_le_width hp
  have hwidth : p.width = p.width.toNat := by omega
  exact ⟨hwidth, hminterms, hdontCares, nofun⟩

end Session

/-- **Every width holds what it is the width of.**  For integers and patterns that can be read there
is a least positive width that has room for every source and for every pattern as it is written, and
it is at most `maxWidth`.  It is the width when none is asked for; a width that is asked for is
accepted from this one up to `maxWidth` and refused otherwise.  From then on, whatever steps are
taken that append only terms that fit and leave the width as it is, no prime implicant that is found
or kept has more positions than the width, or a source that is not below two to its power. -/
theorem Problem.width_discipline {minterms dontCares : List Term.Spelling} {ms ds : List Term}
    (hplain : ∀ x ∈ minterms ++ dontCares, x.Plain) (hm : Term.readAll minterms = .ok ms)
    (hd : Term.readAll dontCares = .ok ds) :
    ∃ needed : ℕ,
      IsLeast {w : ℕ | 1 ≤ w ∧ (∀ t ∈ ms ++ ds, ∀ v ∈ t.sources, v < 2 ^ w) ∧
        ∀ text, .text text ∈ minterms ++ dontCares → text.length ≤ w} needed ∧
      needed ≤ maxWidth ∧
      read minterms dontCares none = .ok ⟨ms, ds, needed⟩ ∧
      (∀ w : ℤ,
        (needed ≤ w ∧ w ≤ maxWidth → read minterms dontCares (some w) = .ok ⟨ms, ds, w⟩) ∧
        (w < needed → read minterms dontCares (some w) = .error (.widthTooSmall w needed)) ∧
        (maxWidth < w → read minterms dontCares (some w) = .error (.widthTooLarge w))) ∧
      ∀ width p, read minterms dontCares width = .ok p →
        ∀ solver steps, (∀ a ∈ steps, Session.Step.Keeps p.width.toNat a) →
          let s := Session.after solver (Session.start p) steps
          s.problem.width = p.width ∧
            ∀ t ∈ s.problem.primes ++ s.primesInUse, (t.pattern.length : ℤ) ≤ p.width ∧
              ∀ v ∈ t.sources, |v| < 2 ^ p.width.toNat := by
  have hneeded := widthNeeded_le_iff_spelled hplain (Term.readAll_append hm hd)
  have hdefault : read minterms dontCares none = .ok ⟨ms, ds, widthNeeded (ms ++ ds)⟩ :=
    read_eq_make hm hd
  have hmax : (widthNeeded (ms ++ ds) : ℤ) ≤ maxWidth := width_le_maxWidth hplain hdefault
  refine ⟨widthNeeded (ms ++ ds), ?_, by omega, hdefault, fun w => ⟨?_, ?_, ?_⟩, ?_⟩
  · simp only [← hneeded]
    exact isLeast_Ici
  · rintro ⟨hle, hw⟩
    rw [read_eq_make hm hd, make_eq_ok_iff]
    refine ⟨rfl, ?_⟩
    rintro _ ⟨⟩
    exact ⟨hle, hw⟩
  · intro hw
    rw [read_eq_make hm hd, make_eq_error_iff]
    exact .inl ⟨hw, rfl⟩
  · intro hw
    rw [read_eq_make hm hd, make_eq_error_iff]
    exact .inr ⟨by omega, hw, rfl⟩
  · intro width p hp solver steps hsteps
    have hstart := Session.ofWidth_start hp
    have hafter : (Session.after solver (Session.start p) steps).OfWidth p.width.toNat :=
      Session.ofWidth_after hstart hsteps
    refine ⟨hafter.width.trans hstart.width.symm, fun t ht => ?_⟩
    have hfits : t.OfWidth p.width.toNat := by
      rcases List.mem_append.mp ht with ht | ht
      · exact hafter.primes t ht
      · exact hafter.primesInUse t ht
    have hwidth : p.width = p.width.toNat := hstart.width
    have hlength := hfits.length_le
    refine ⟨by omega, fun v hv => ?_⟩
    rw [Int.abs_eq_natAbs]
    exact_mod_cast hfits.natAbs_lt v hv

/-- A zero that a pattern begins with counts, so that `0*1` and 2 need three inputs, which are
neither two nor thirty-three.  Over five inputs there is room for 31 afterwards. -/
theorem Problem.width_of_leading_zero :
    let minterms : List Term.Spelling := [.text "0*1", .value 2]
    let ms : List Term := [.ofPattern [.one, .star, .zero], ⟨[.zero, .one], .singleton 2⟩]
    let steps : List Session.Step :=
      [.solve "petrick", .addMinterm (.value 31), .dropMinterm 0, .findPrimes, .setWidth 5]
    (read minterms [.value 0] none = .ok ⟨ms, [⟨[], .singleton 0⟩], 3⟩ ∧
        read minterms [.value 0] (some 2) = .error (.widthTooSmall 2 3) ∧
        read minterms [.value 0] (some 33) = .error (.widthTooLarge 33)) ∧
      ∃ p, read minterms [.value 0] (some 5) = .ok p ∧
        ∀ t ∈ (Session.after exhaustive (Session.start p) steps).primesInUse,
          (t.pattern.length : ℤ) ≤ 5 ∧ ∀ v ∈ t.sources, |v| < 2 ^ 5 := by
  intro minterms ms steps
  have hplain : ∀ x ∈ minterms ++ [.value 0], x.Plain := by
    simp [minterms, Term.Spelling.Plain]
  have hm : Term.readAll minterms = .ok ms := rfl
  have hd : Term.readAll [.value 0] = .ok [⟨[], .singleton 0⟩] := rfl
  obtain ⟨needed, -, -, hdefault, hasked, hsession⟩ := width_discipline hplain hm hd
  have hthree : read minterms [.value 0] none = .ok ⟨ms, [⟨[], .singleton 0⟩], 3⟩ := rfl
  obtain rfl : needed = 3 := by
    rw [hthree, Except.ok.injEq, mk.injEq] at hdefault
    exact_mod_cast hdefault.2.2.symm
  refine ⟨⟨hthree, (hasked 2).2.1 (by decide), (hasked 33).2.2 (by decide)⟩, ?_⟩
  have hfive := (hasked 5).1 (by decide)
  refine ⟨_, hfive, fun t ht => ?_⟩
  have hsteps : ∀ a ∈ steps, a.Keeps 5 := by
    have hfits : Term.OfWidth 5 ⟨.ofNat 31, .singleton 31⟩ :=
      (Term.Spelling.fits_iff (x := .value 31) rfl 5).mp (by decide : (31 : ℤ) < 2 ^ 5)
    simp only [steps, List.forall_mem_cons, Session.Step.Keeps]
    refine ⟨trivial, ?_, trivial, trivial, rfl, fun a ha => absurd ha List.not_mem_nil⟩
    rintro _ ⟨⟩
    exact hfits
  exact (hsession (some 5) _ hfive exhaustive steps hsteps).2 t (List.mem_append_right _ ht)

end TwoLevel
