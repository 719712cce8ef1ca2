import Mathlib.Data.List.Chain
import Mathlib.Data.Nat.SuccPred
import TwoLevel.Proofs.Primes.Layer

/-! # How many passes there are

The search goes over the buckets again as long as anything merges (`Layer.Run`).  Stars do not bound
the number of passes: among terms of different cubes, `*` merges with `1` into a term that was there
before.  What falls is the largest key.  A term of the next layer comes from two neighbouring
buckets, so the bucket above it held a term in the pass before (`Layer.succ_mem_keys_of_mem_next`).

The fuel of `Layer.passes` is never used up (`Layer.run_passes`), and a run has at most one pass
more than the largest key of its first layer (`Layer.Run.length_le`). -/

namespace TwoLevel
namespace Layer

/-! ### Keys -/

/-- The keys under which a layer holds terms. -/
def keys (layer : Layer) : Set ℕ := {k | bucket layer k ≠ []}

/-- Nothing merges with a term of the bucket above its own. -/
def Stuck (layer : Layer) : Prop :=
  ∀ k, ∀ s ∈ bucket layer k, ∀ t ∈ bucket layer (k + 1), s.merge? t = none

variable {layer : Layer} {layers : List Layer}

theorem mem_keys_iff {k : ℕ} : k ∈ keys layer ↔ ∃ t, t ∈ bucket layer k :=
  ⟨List.exists_mem_of_ne_nil _, fun ⟨_, ht⟩ => List.ne_nil_of_mem ht⟩

theorem lt_length_of_mem_keys {k : ℕ} (h : k ∈ keys layer) : k < layer.length := by
  by_contra hk
  exact h (bucket_eq_nil_of_length_le (by omega))

theorem keys_nonempty_iff : (keys layer).Nonempty ↔ ¬ layer.isVoid = true := by
  rw [isVoid_iff, not_forall]
  rfl

theorem exists_isGreatest_keys (h : ¬ layer.isVoid = true) : ∃ m, IsGreatest (keys layer) m := by
  have hbdd : BddAbove (keys layer) := ⟨layer.length, fun k hk => (lt_length_of_mem_keys hk).le⟩
  exact hbdd.exists_isGreatest_of_nonempty (keys_nonempty_iff.mpr h)

theorem isVoid_next_iff : layer.next.isVoid = true ↔ layer.Stuck := by
  rw [isVoid_iff]
  constructor
  · intro h k s hs t ht
    cases hm : s.merge? t with
    | none => rfl
    | some u =>
        obtain ⟨u', hu', -⟩ := exists_mem_bucket_next hs ht hm
        rw [h k] at hu'
        exact absurd hu' List.not_mem_nil
  · intro h k
    rw [List.eq_nil_iff_forall_not_mem]
    intro u hu
    obtain ⟨s, hs, t, ht, hm⟩ := mem_bucket_next hu
    rw [h k s hs t ht] at hm
    cases hm

/-- Above every term of the next layer there was one in this layer. -/
theorem succ_mem_keys_of_mem_next {k : ℕ} (h : k ∈ keys layer.next) : k + 1 ∈ keys layer := by
  obtain ⟨u, hu⟩ := mem_keys_iff.mp h
  obtain ⟨-, -, t, ht, -⟩ := mem_bucket_next hu
  exact mem_keys_iff.mpr ⟨t, ht⟩

/-- The largest key falls from a layer to a layer after it. -/
def Falls (layer above : Layer) : Prop :=
  ∃ m k, IsGreatest (keys layer) m ∧ IsGreatest (keys above) k ∧ k < m

theorem falls_next (h : ¬ layer.Stuck) : Falls layer layer.next := by
  rw [← isVoid_next_iff] at h
  obtain ⟨k, hk⟩ := exists_isGreatest_keys h
  have hsucc := succ_mem_keys_of_mem_next hk.1
  obtain ⟨m, hm⟩ := exists_isGreatest_keys (keys_nonempty_iff.mp ⟨_, hsucc⟩)
  have hle : k + 1 ≤ m := hm.2 hsucc
  exact ⟨m, k, hm, hk, by omega⟩

/-! ### Runs -/

/-- The layers that the search goes over from one layer on: it ends with the first layer in which
nothing merges. -/
inductive Run : Layer → List Layer → Prop
  | last {layer : Layer} (h : layer.Stuck) : Run layer [layer]
  | more {layer : Layer} {layers : List Layer} (h : ¬ layer.Stuck)
      (hrun : Run layer.next layers) : Run layer (layer :: layers)

namespace Run

theorem head?_eq (h : Run layer layers) : layers.head? = some layer := by
  cases h <;> rfl

theorem unique {others : List Layer} (h : Run layer layers) (hothers : Run layer others) :
    others = layers := by
  induction h generalizing others with
  | last hstuck =>
      cases hothers with
      | last _ => rfl
      | more hmerging _ => exact absurd hstuck hmerging
  | more hmerging _ ih =>
      cases hothers with
      | last hstuck => exact absurd hstuck hmerging
      | more _ hothers => rw [ih hothers]

theorem forall_mem {p : Layer → Prop} (hnext : ∀ layer, p layer → p layer.next)
    (h : Run layer layers) (hlayer : p layer) : ∀ l ∈ layers, p l := by
  induction h with
  | last _ => exact List.forall_mem_singleton.mpr hlayer
  | more _ _ ih => exact List.forall_mem_cons.mpr ⟨hlayer, ih (hnext _ hlayer)⟩

theorem isChain_falls (h : Run layer layers) : layers.IsChain Falls := by
  induction h with
  | last _ => exact List.isChain_singleton _
  | more hmerging hrun ih =>
      refine List.isChain_cons.mpr ⟨fun above habove => ?_, ih⟩
      rw [hrun.head?_eq] at habove
      obtain rfl := Option.some.inj habove
      exact falls_next hmerging

/-- A run from a layer without keys above a bound has at most one pass more than the bound: as
something merged, the bound is not zero, and the keys of the next layer stay below it. -/
theorem length_le (h : Run layer layers) {bound : ℕ} (hbound : ∀ k ∈ keys layer, k ≤ bound) :
    layers.length ≤ bound + 1 := by
  induction h generalizing bound with
  | last _ => rw [List.length_singleton]; omega
  | @more layer layers hmerging _ ih =>
      have hnext : ∀ k ∈ keys layer.next, k + 1 ≤ bound :=
        fun k hk => hbound _ (succ_mem_keys_of_mem_next hk)
      obtain ⟨k, hk⟩ := keys_nonempty_iff.mpr (mt isVoid_next_iff.mp hmerging)
      have hpos := hnext k hk
      have hlength : layers.length ≤ bound - 1 + 1 := ih fun j hj => by
        have := hnext j hj
        omega
      rw [List.length_cons]
      omega

end Run

theorem run_passesFrom {fuel : ℕ} {layer : Layer} (h : layer.length ≤ fuel) :
    Run layer (passesFrom fuel layer) := by
  induction fuel generalizing layer with
  | zero =>
      obtain rfl : layer = [] := List.length_eq_zero_iff.mp (by omega)
      exact .last (isVoid_next_iff.mp rfl)
  | succ fuel ih =>
      rw [passesFrom]
      by_cases hv : layer.next.isVoid = true
      · rw [if_pos hv]
        exact .last (isVoid_next_iff.mp hv)
      · rw [if_neg hv]
        exact .more (mt isVoid_next_iff.mpr hv) (ih (by rw [length_next]; omega))

/-- The passes are a run: they do not stop before nothing merges. -/
theorem run_passes (layer : Layer) : Run layer layer.passes := run_passesFrom (le_refl _)

theorem le_of_mem_keys_group {terms : List Term} {k : ℕ} (h : k ∈ keys (group terms)) :
    k ≤ (terms.map Term.ones).max?.getD 0 := by
  obtain ⟨t, ht⟩ := mem_keys_iff.mp h
  obtain ⟨hmem, rfl⟩ := mem_of_mem_bucket_group ht
  exact List.le_max?_getD_of_mem (List.mem_map_of_mem hmem)

end Layer

/-- **The search ends**, whatever terms it is given.  It goes over the layers of one run and leaves
over what each pass leaves over.  In every pass a bucket holds terms with as many ones as its key
says, and so does every merge of it with the bucket above; the largest key falls from pass to pass.
So there is at most one pass more than the largest number of ones among the terms, zero when there
is no term. -/
theorem findPrimes_terminates (minterms dontCares : List Term) :
    ∃ layers, Layer.Run (Layer.group (minterms ++ dontCares)) layers ∧
      (∀ others, Layer.Run (Layer.group (minterms ++ dontCares)) others → others = layers) ∧
      findPrimes minterms dontCares = layers.flatMap Layer.unmerged ∧
      (∀ layer ∈ layers, layer.Graded ∧
        ∀ k, ∀ s ∈ Layer.bucket layer k, ∀ t ∈ Layer.bucket layer (k + 1), ∀ u,
          s.merge? t = some u → u.ones = k) ∧
      layers.IsChain Layer.Falls ∧
      layers.length ≤ ((minterms ++ dontCares).map Term.ones).max?.getD 0 + 1 := by
  have hrun := Layer.run_passes (Layer.group (minterms ++ dontCares))
  have hgraded : ∀ layer ∈ (Layer.group (minterms ++ dontCares)).passes, layer.Graded :=
    hrun.forall_mem (fun _ => Layer.Graded.next) (Layer.graded_group _)
  refine ⟨_, hrun, fun _ => hrun.unique, rfl, fun layer hlayer => ⟨hgraded layer hlayer, ?_⟩,
    hrun.isChain_falls, hrun.length_le fun k => Layer.le_of_mem_keys_group⟩
  exact fun k s hs t ht u => (hgraded layer hlayer).ones_merge hs ht

/-- The cubes `**`, `1*` and `11` need as many passes as there can be: the first pass merges them
into `**` and `1*` again, the second into `**`, and only the third merges nothing. -/
theorem terminates_nested_cubes :
    let cubes : List Term :=
      [⟨[.star, .star], .ofList [0, 1, 2, 3]⟩, ⟨[.star, .one], .ofList [2, 3]⟩,
        ⟨[.one, .one], .ofList [3]⟩]
    ∃ layers, Layer.Run (Layer.group cubes) layers ∧ layers.map List.length = [3, 2, 1] ∧
      layers.length = (cubes.map Term.ones).max?.getD 0 + 1 ∧ layers.IsChain Layer.Falls := by
  intro cubes
  obtain ⟨layers, hrun, hunique, -, -, hfalls, -⟩ := findPrimes_terminates cubes []
  obtain rfl := hunique _ (Layer.run_passes _)
  exact ⟨_, hrun, by decide, by decide, hfalls⟩

end TwoLevel
