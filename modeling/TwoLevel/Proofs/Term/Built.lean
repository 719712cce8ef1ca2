import TwoLevel.Proofs.Primes.Sources
import TwoLevel.Proofs.Term.Reading
import TwoLevel.Term.Workspace

/-! # Terms built by programs

Integers and patterns are the terms that programs start from, and merging makes new terms of those
built so far (`Term.Built`).  These are the terms that the registers of a program can hold when no
term is given as it is (`built_iff_exists_program`).

The sources of a built term are the numbers that its pattern covers (`Built.exact`), so that two of
them are equivalent when they have the same sources.  A pass that knows terms by their sources then
takes none for another one: what it leaves over are the terms that merge with no neighbour
themselves (`Layer.Tidy.mem_unmerged_iff`). -/

namespace TwoLevel

/-! ### Built terms -/

namespace Term

/-- The terms made from integers and patterns by merging. -/
inductive Built : Term → Prop where
  | ofInt {n : ℤ} {t : Term} (h : Term.ofInt n = .ok t) : Built t
  | ofText {text : String} {t : Term} (h : Term.ofText text = .ok t) : Built t
  | merge {s t u : Term} (hs : Built s) (ht : Built t) (h : s.merge? t = some u) : Built u

theorem Built.exact {t : Term} (h : t.Built) : t.Exact := by
  induction h with
  | ofInt h => exact exact_ofInt h
  | ofText h => exact exact_ofText h
  | merge _ _ h ihs iht => exact ihs.merge iht h

theorem built_of_read {x : Spelling} (hx : x.Plain) {t : Term} (h : x.read = .ok t) : t.Built := by
  cases x with
  | value n => exact .ofInt h
  | text s => exact .ofText h
  | term u => exact absurd hx id

end Term

/-! ### Programs -/

namespace Workspace

/-- The registers after the steps of a program. -/
def after (w : Workspace) (steps : List Step) : Workspace :=
  steps.foldl (fun w a => (w.step a).1) w

/-- No term is given as it is. -/
def Step.Plain : Step → Prop
  | push spelling => spelling.Plain
  | _ => True

theorem after_append (w : Workspace) (steps others : List Step) :
    w.after (steps ++ others) = (w.after steps).after others := List.foldl_append

theorem mem_of_read {w : Workspace} {i : ℕ} {t : Term} (h : w.read i = some t) : some t ∈ w := by
  unfold read at h
  rw [Option.join_eq_some_iff] at h
  exact List.mem_of_getElem? h

theorem read_append (w v : Workspace) (t : Term) : read (w ++ some t :: v) w.length = some t := by
  unfold read
  rw [List.getElem?_append_right (le_refl _), Nat.sub_self]
  rfl

theorem built_of_mem_step {w : Workspace} (hw : ∀ t, some t ∈ w → t.Built) {a : Step}
    (ha : a.Plain) : ∀ t, some t ∈ (w.step a).1 → t.Built := by
  intro t ht
  cases a with
  | push spelling =>
      cases hread : spelling.read with
      | error f =>
          rw [show (w.step (.push spelling)).1 = w ++ [none] by simp only [step, hread]] at ht
          exact hw t (by simpa using ht)
      | ok u =>
          rw [show (w.step (.push spelling)).1 = w ++ [some u] by simp only [step, hread]] at ht
          rcases List.mem_append.mp ht with ht | ht
          · exact hw t ht
          · obtain rfl : t = u := by simpa using ht
            exact Term.built_of_read ha hread
  | merge i j =>
      rcases List.mem_append.mp ht with ht | ht
      · exact hw t ht
      · have hmerged := (List.mem_singleton.mp ht).symm
        obtain ⟨r, hr, hbind⟩ := Option.bind_eq_some_iff.mp hmerged
        obtain ⟨s, hs, hm⟩ := Option.bind_eq_some_iff.mp hbind
        exact .merge (hw r (mem_of_read hr)) (hw s (mem_of_read hs)) hm
  | same i j => exact hw t ht
  | distinct => exact hw t ht

theorem built_of_mem_after {w : Workspace} (hw : ∀ t, some t ∈ w → t.Built) {steps : List Step}
    (hsteps : ∀ a ∈ steps, a.Plain) : ∀ t, some t ∈ w.after steps → t.Built := by
  induction steps generalizing w with
  | nil => exact hw
  | cons a steps ih =>
      rw [List.forall_mem_cons] at hsteps
      exact ih (built_of_mem_step hw hsteps.1) hsteps.2

/-- From any registers on, a built term can be put into a new one. -/
theorem exists_program {t : Term} (h : t.Built) (w : Workspace) :
    ∃ steps, (∀ a ∈ steps, a.Plain) ∧ ∃ v, w.after steps = w ++ v ++ [some t] := by
  induction h generalizing w with
  | @ofInt n t h =>
      refine ⟨[.push (.value n)], by simp [Step.Plain, Term.Spelling.Plain], [], ?_⟩
      simp [after, step, Term.Spelling.read, h]
  | @ofText text t h =>
      refine ⟨[.push (.text text)], by simp [Step.Plain, Term.Spelling.Plain], [], ?_⟩
      simp [after, step, Term.Spelling.read, h]
  | @merge s t u _ _ h ihs iht =>
      obtain ⟨ps, hps, v, hv⟩ := ihs w
      obtain ⟨qs, hqs, v', hv'⟩ := iht (w.after ps)
      refine ⟨ps ++ qs ++ [.merge (w ++ v).length (w.after ps ++ v').length], ?_,
        v ++ [some s] ++ v' ++ [some t], ?_⟩
      · simp only [List.forall_mem_append, List.forall_mem_singleton]
        exact ⟨⟨hps, hqs⟩, trivial⟩
      · have hregisters : w.after (ps ++ qs) = w ++ v ++ some s :: (v' ++ [some t]) := by
          rw [after_append, hv', hv]
          simp
        have hlow : (w.after (ps ++ qs)).read (w ++ v).length = some s := by
          rw [hregisters, read_append]
        have hhigh : (w.after (ps ++ qs)).read (w.after ps ++ v').length = some t := by
          rw [after_append, hv', read_append]
        rw [after_append]
        simp only [after, List.foldl_cons, List.foldl_nil, step] at hlow hhigh ⊢
        rw [hlow, hhigh]
        change w.after (ps ++ qs) ++ [s.merge? t] = _
        rw [hregisters, h]
        simp

end Workspace

/-- The built terms are those that programs can put into their registers. -/
theorem Term.built_iff_exists_program (t : Term) : t.Built ↔
    ∃ steps : List Workspace.Step, (∀ a ∈ steps, a.Plain) ∧ some t ∈ Workspace.after [] steps := by
  constructor
  · intro h
    obtain ⟨steps, hsteps, v, hv⟩ := Workspace.exists_program h []
    refine ⟨steps, hsteps, ?_⟩
    rw [hv]
    exact List.mem_append_right _ List.mem_cons_self
  · rintro ⟨steps, hsteps, ht⟩
    exact Workspace.built_of_mem_after (fun u hu => absurd hu List.not_mem_nil) hsteps t ht

/-! ### Sources as identity -/

namespace Layer

variable {layer : Layer}

/-- A term of the bucket at an index merges with a term of the bucket above or of the one below. -/
def Joins (layer : Layer) (k : ℕ) (t : Term) : Prop :=
  (∃ u ∈ bucket layer (k + 1), (t.merge? u).isSome) ∨
    ∃ j, j + 1 = k ∧ ∃ s ∈ bucket layer j, (s.merge? t).isSome

/-- Of exact terms, those whose sources took part in a merge took part themselves. -/
theorem Tidy.mergedUpTo_iff (h : Tidy layer) (hexact : ∀ k, ∀ t ∈ bucket layer k, t.Exact)
    {k : ℕ} {t : Term} (ht : t ∈ bucket layer k) :
    MergedUpTo layer k t.sources ↔ layer.Joins k t := by
  constructor
  · rintro ⟨j, -, hj⟩
    obtain ⟨s, hs, u, hu, hm, hsources | hsources⟩ := mem_mergedSources.mp hj
    · have hts : t ≈ s := ((hexact k t ht).equiv_iff (hexact j s hs)).mpr hsources
      obtain ⟨rfl, rfl⟩ := h.eq_of_equiv ht hs hts
      exact Or.inl ⟨u, hu, hm⟩
    · have htu : t ≈ u := ((hexact k t ht).equiv_iff (hexact (j + 1) u hu)).mpr hsources
      obtain ⟨rfl, rfl⟩ := h.eq_of_equiv ht hu htu
      exact Or.inr ⟨j, rfl, s, hs, hm⟩
  · rintro (⟨u, hu, hm⟩ | ⟨j, rfl, s, hs, hm⟩)
    · exact ⟨k, le_refl k, mem_mergedSources.mpr ⟨t, ht, u, hu, hm, Or.inl rfl⟩⟩
    · exact ⟨j, Nat.le_succ j, mem_mergedSources.mpr ⟨s, hs, t, ht, hm, Or.inr rfl⟩⟩

theorem Tidy.mem_unmerged_iff (h : Tidy layer) (hexact : ∀ k, ∀ t ∈ bucket layer k, t.Exact)
    {k : ℕ} {t : Term} (ht : t ∈ bucket layer k) : t ∈ layer.unmerged ↔ ¬ layer.Joins k t := by
  rw [mem_unmerged, ← h.mergedUpTo_iff hexact ht]
  constructor
  · rintro ⟨j, hj, hm⟩
    obtain ⟨rfl, -⟩ := h.eq_of_equiv hj ht (Setoid.refl t)
    exact hm
  · exact fun hm => ⟨k, ht, hm⟩

end Layer

/-- **The sources of a built term are its identity.**  The terms that programs build from integers
and patterns by merging, of whatever lengths and numbers of free positions, have as sources exactly
the integers that their patterns cover, and two of them are equivalent when they have the same
sources.  So in every pass over such terms a term is left over exactly if it does not merge with a
neighbour itself, and never dropped because of another one. -/
theorem Term.built_terms_identified :
    (∀ t : Term, t.Built ↔ ∃ steps : List Workspace.Step,
      (∀ a ∈ steps, a.Plain) ∧ some t ∈ Workspace.after [] steps) ∧
    (∀ t : Term, t.Built → ∀ v : ℤ, v ∈ t.sources ↔ t.covers v = true) ∧
    (∀ s t : Term, s.Built → t.Built → (s ≈ t ↔ s.sources = t.sources)) ∧
    ∀ terms : List Term, (∀ t ∈ terms, t.Built) → ∀ n k, ∀ t ∈ (layerAfter terms n).bucket k,
      (t ∈ (layerAfter terms n).unmerged ↔ ¬ (layerAfter terms n).Joins k t) := by
  refine ⟨built_iff_exists_program, fun t ht => ht.exact,
    fun s t hs ht => hs.exact.equiv_iff ht.exact, ?_⟩
  intro terms hterms n k t ht
  have hexact : ∀ j, ∀ u ∈ (layerAfter terms n).bucket j, u.Exact :=
    forall_mem_layerAfter (fun u hu => (hterms u hu).exact) (fun _ _ _ hs ht hm => hs.merge ht hm) n
  exact (tidy_layerAfter terms n).mem_unmerged_iff hexact ht

/-- The pattern `0*1` merges with 3, which it covers, into itself; it is the term of `*1` with a
zero in front, and neither covers 5 or a negative number. -/
theorem Term.identified_star_against_one :
    let s := ofPattern [.one, .star, .zero]
    let t := ofPattern [.one, .star]
    s.merge? ⟨[.one, .one], .singleton 3⟩ = some s ∧ s.Built ∧ t.Built ∧ s ≈ t ∧
      5 ∉ s.sources ∧ -1 ∉ s.sources ∧
      ∃ steps : List Workspace.Step, (∀ a ∈ steps, a.Plain) ∧ some s ∈ Workspace.after [] steps := by
  intro s t
  have hthree : Built ⟨[.one, .one], .singleton 3⟩ := .ofInt (n := 3) rfl
  have hself : s.merge? ⟨[.one, .one], .singleton 3⟩ = some s := by decide
  have hs : s.Built := .merge (@Built.ofText "0*1" s rfl) hthree hself
  have ht : t.Built := @Built.ofText "*1" t rfl
  obtain ⟨hprogram, hexact, hidentity, -⟩ := built_terms_identified
  refine ⟨hself, hs, ht, (hidentity s t hs ht).mpr (by decide), ?_, ?_, (hprogram s).mp hs⟩
  · rw [hexact s hs]
    decide
  · rw [hexact s hs]
    decide

end TwoLevel
