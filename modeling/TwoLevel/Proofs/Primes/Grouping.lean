import Mathlib.Data.List.Induction
import TwoLevel.Proofs.Primes.Layer

/-! # Buckets as a partition

The first layer partitions the classes of the given terms.  A bucket holds the terms of its number
of ones that come before all others of their class (`Layer.mem_bucket_group_iff`), and equivalent
terms have equally many ones, so that a class is found in one bucket and there once.

A `Table` puts the terms one after the other into buckets under their keys.  It opens a bucket for
the first term that needs it, and looks for an equivalent term only among those with the same hash
of their sources.  As equivalent terms have the same sources, no hash makes a difference: the table
has exactly the buckets of the first layer in which there is a term (`Table.mem_ofTerms_iff`). -/

namespace TwoLevel

/-! ### Tables of buckets -/

/-- Buckets under their keys. -/
abbrev Table := List (ℕ × List Term)

namespace Table

/-- Put a term into a set, unless there is an equivalent one with the same hash. -/
def add (hash : List ℤ → ℤ) (t : Term) (held : List Term) : List Term :=
  if held.any fun u => hash u.sources.toList = hash t.sources.toList ∧ u ≈ t then held
  else held ++ [t]

/-- Put a term into the bucket of its ones, an empty one if there is none yet. -/
def insert (hash : List ℤ → ℤ) (t : Term) : Table → Table
  | [] => [(t.ones, add hash t [])]
  | (k, held) :: table =>
    if k = t.ones then (k, add hash t held) :: table else (k, held) :: insert hash t table

/-- The table of some terms. -/
def ofTerms (hash : List ℤ → ℤ) (terms : List Term) : Table :=
  terms.foldl (fun table t => insert hash t table) []

/-- The terms under a key, none if it has no bucket. -/
def bucket (table : Table) (k : ℕ) : List Term := (table.lookup k).getD []

variable {hash : List ℤ → ℤ}

/-- The hash tells no two equivalent terms apart. -/
theorem add_firsts (hash : List ℤ → ℤ) (t : Term) (ts : List Term) :
    add hash t (Term.firsts ts) = Term.firsts (ts ++ [t]) := by
  have hfound : ((Term.firsts ts).any fun u =>
      hash u.sources.toList = hash t.sources.toList ∧ u ≈ t) = ts.any fun u => u ≈ t := by
    rw [Bool.eq_iff_iff, List.any_eq_true, List.any_eq_true]
    simp only [decide_eq_true_eq]
    constructor
    · rintro ⟨u, hu, -, hut⟩
      exact ⟨u, Term.mem_of_mem_firsts hu, hut⟩
    · rintro ⟨u, hu, hut⟩
      obtain ⟨first, hfirst, hequiv⟩ := Term.exists_mem_firsts hu
      have hft : first ≈ t := Setoid.trans hequiv hut
      exact ⟨first, hfirst, by rw [(Term.equiv_iff.mp hft).1], hft⟩
  unfold add
  rw [hfound, Term.firsts_concat]

theorem bucket_cons (j : ℕ) (held : List Term) (table : Table) (k : ℕ) :
    bucket ((j, held) :: table) k = if j = k then held else bucket table k := by
  unfold bucket
  rw [List.lookup_cons]
  by_cases hk : j = k
  · rw [if_pos hk, hk, beq_self_eq_true]
    rfl
  · rw [if_neg hk, beq_eq_false_iff_ne.mpr (Ne.symm hk)]

theorem bucket_insert (hash : List ℤ → ℤ) (t : Term) (table : Table) (k : ℕ) :
    bucket (insert hash t table) k =
      if t.ones = k then add hash t (bucket table k) else bucket table k := by
  induction table with
  | nil => rw [insert, bucket_cons]; rfl
  | cons entry table ih =>
      obtain ⟨j, held⟩ := entry
      rw [insert]
      by_cases hj : j = t.ones
      · rw [if_pos hj, bucket_cons, bucket_cons, hj]
        split_ifs <;> rfl
      · rw [if_neg hj, bucket_cons, bucket_cons, ih]
        by_cases hk : j = k
        · rw [if_pos hk, if_pos hk, if_neg (hk ▸ Ne.symm hj)]
        · rw [if_neg hk, if_neg hk]

theorem keys_insert (hash : List ℤ → ℤ) (t : Term) (table : Table) :
    (insert hash t table).map Prod.fst =
      if t.ones ∈ table.map Prod.fst then table.map Prod.fst else table.map Prod.fst ++ [t.ones] := by
  induction table with
  | nil => rfl
  | cons entry table ih =>
      obtain ⟨j, held⟩ := entry
      rw [insert]
      by_cases hj : j = t.ones
      · simp [hj]
      · rw [if_neg hj, List.map_cons, ih]
        simp only [List.map_cons, List.mem_cons, Ne.symm hj, false_or]
        split_ifs <;> rfl

theorem add_ne_nil (hash : List ℤ → ℤ) (t : Term) (held : List Term) : add hash t held ≠ [] := by
  unfold add
  split_ifs with h
  · rintro rfl
    exact Bool.false_ne_true h
  · exact List.append_ne_nil_of_right_ne_nil held (List.cons_ne_nil t [])

theorem forall_mem_insert_ne_nil {table : Table} (h : ∀ entry ∈ table, entry.2 ≠ [])
    (hash : List ℤ → ℤ) (t : Term) : ∀ entry ∈ insert hash t table, entry.2 ≠ [] := by
  induction table with
  | nil => exact List.forall_mem_singleton.mpr (add_ne_nil hash t [])
  | cons entry table ih =>
      obtain ⟨j, held⟩ := entry
      obtain ⟨hheld, htable⟩ := List.forall_mem_cons.mp h
      rw [insert]
      split_ifs
      · exact List.forall_mem_cons.mpr ⟨add_ne_nil hash t held, htable⟩
      · exact List.forall_mem_cons.mpr ⟨hheld, ih htable⟩

theorem bucket_eq_of_mem {table : Table} (h : (table.map Prod.fst).Nodup) {k : ℕ}
    {held : List Term} (hmem : (k, held) ∈ table) : bucket table k = held := by
  induction table with
  | nil => exact absurd hmem List.not_mem_nil
  | cons entry table ih =>
      obtain ⟨j, other⟩ := entry
      rw [List.map_cons, List.nodup_cons] at h
      rw [bucket_cons]
      rcases List.mem_cons.mp hmem with heq | hmem
      · obtain ⟨rfl, rfl⟩ := Prod.mk.inj heq
        rw [if_pos rfl]
      · have hne : j ≠ k := fun hjk => h.1 (List.mem_map.mpr ⟨(k, held), hmem, hjk.symm⟩)
        rw [if_neg hne, ih h.2 hmem]

theorem mem_of_bucket_ne_nil {table : Table} {k : ℕ} (h : bucket table k ≠ []) :
    (k, bucket table k) ∈ table := by
  induction table with
  | nil => exact absurd rfl h
  | cons entry table ih =>
      obtain ⟨j, held⟩ := entry
      rw [bucket_cons] at h ⊢
      split_ifs at h ⊢ with hj
      · rw [hj]
        exact List.mem_cons_self
      · exact List.mem_cons_of_mem _ (ih h)

/-! ### The table of some terms -/

theorem ofTerms_concat (hash : List ℤ → ℤ) (terms : List Term) (t : Term) :
    ofTerms hash (terms ++ [t]) = insert hash t (ofTerms hash terms) := List.foldl_concat ..

theorem nodup_keys_ofTerms (hash : List ℤ → ℤ) (terms : List Term) :
    ((ofTerms hash terms).map Prod.fst).Nodup := by
  induction terms using List.reverseRecOn with
  | nil => exact List.nodup_nil
  | append_singleton terms t ih =>
      rw [ofTerms_concat, keys_insert]
      split_ifs with h
      · exact ih
      · exact (List.perm_append_singleton _ _).nodup_iff.mpr (List.nodup_cons.mpr ⟨h, ih⟩)

theorem forall_mem_ofTerms_ne_nil (hash : List ℤ → ℤ) (terms : List Term) :
    ∀ entry ∈ ofTerms hash terms, entry.2 ≠ [] := by
  induction terms using List.reverseRecOn with
  | nil => exact fun entry h => absurd h List.not_mem_nil
  | append_singleton terms t ih =>
      rw [ofTerms_concat]
      exact forall_mem_insert_ne_nil ih hash t

theorem bucket_ofTerms (hash : List ℤ → ℤ) (terms : List Term) (k : ℕ) :
    bucket (ofTerms hash terms) k = Layer.bucket (Layer.group terms) k := by
  rw [Layer.bucket_group]
  induction terms using List.reverseRecOn with
  | nil => rfl
  | append_singleton terms t ih =>
      rw [ofTerms_concat, bucket_insert, ih, List.filter_append]
      by_cases hk : t.ones = k
      · simp [hk, add_firsts]
      · simp [hk]

/-- The table has the buckets of the first layer in which there is a term, and no others. -/
theorem mem_ofTerms_iff (hash : List ℤ → ℤ) (terms : List Term) (k : ℕ) (held : List Term) :
    (k, held) ∈ ofTerms hash terms ↔ held ≠ [] ∧ held = Layer.bucket (Layer.group terms) k := by
  rw [← bucket_ofTerms hash]
  constructor
  · intro h
    exact ⟨forall_mem_ofTerms_ne_nil hash terms _ h,
      (bucket_eq_of_mem (nodup_keys_ofTerms hash terms) h).symm⟩
  · rintro ⟨hne, rfl⟩
    exact mem_of_bucket_ne_nil hne

end Table

/-! ### Classes in the first layer -/

namespace Layer

/-- A bucket starts with the terms of its number of ones that come before all others of their class.
-/
theorem mem_bucket_group_iff {terms : List Term} {k : ℕ} {t : Term} :
    t ∈ bucket (group terms) k ↔ t.ones = k ∧ terms.find? (fun u => u ≈ t) = some t := by
  have hfilter : (terms.filter fun u => u.ones = t.ones).find? (fun u => u ≈ t) =
      terms.find? fun u => u ≈ t := by
    rw [List.find?_filter]
    congr 1
    funext u
    by_cases hu : u ≈ t
    · simp [hu, Term.ones_congr hu]
    · simp [hu]
  rw [bucket_group, Term.mem_firsts_iff]
  constructor
  · intro h
    have hones : t.ones = k := by simpa using (List.mem_filter.mp (List.mem_of_find?_eq_some h)).2
    subst hones
    exact ⟨rfl, hfilter ▸ h⟩
  · rintro ⟨rfl, h⟩
    rw [hfilter, h]

theorem mem_flatten_iff {layer : Layer} {t : Term} :
    t ∈ layer.flatten ↔ ∃ k, t ∈ bucket layer k := by
  induction layer with
  | nil => simp
  | cons low layer ih =>
      rw [List.flatten_cons, List.mem_append, ih]
      constructor
      · rintro (h | ⟨k, h⟩)
        · exact ⟨0, h⟩
        · exact ⟨k + 1, h⟩
      · rintro ⟨k, h⟩
        cases k with
        | zero => exact .inl h
        | succ k => exact .inr ⟨k, h⟩

theorem exists_first {terms : List Term} {t : Term} (ht : t ∈ terms) :
    ∃ first, terms.find? (fun s => s ≈ t) = some first ∧ first ≈ t ∧
      first ∈ bucket (group terms) first.ones := by
  have hsome : (terms.find? fun s => s ≈ t).isSome := by
    rw [List.find?_isSome]
    exact ⟨t, ht, decide_eq_true (Setoid.refl t)⟩
  obtain ⟨first, hfirst⟩ := Option.isSome_iff_exists.mp hsome
  have hequiv : first ≈ t := by simpa using List.find?_some hfirst
  refine ⟨first, hfirst, hequiv, mem_bucket_group_iff.mpr ⟨rfl, ?_⟩⟩
  rw [← hfirst]
  congr 1
  funext s
  exact decide_eq_decide.mpr
    ⟨fun h => Setoid.trans h hequiv, fun h => Setoid.trans h (Setoid.symm hequiv)⟩

end Layer

/-- **Grouping partitions the classes of the given terms**, whatever these terms are.  Every class
is found in one bucket and there once: the only term of the class in all buckets is the one that
comes first in the list, and it lies in the bucket of the number of ones that all terms of the class
have.  No other terms are in the buckets.  A table that is filled term after term, with any hash of
the sources, has no key twice and no empty bucket, and its buckets are those in which there is a
term. -/
theorem group_partitions (terms : List Term) :
    (∀ t ∈ terms, ∃ first, terms.find? (fun s => s ≈ t) = some first ∧
      (∀ s ∈ terms, s ≈ t → s.ones = first.ones) ∧
      first ∈ Layer.bucket (Layer.group terms) first.ones ∧
      (Layer.group terms).flatten.filter (fun s => s ≈ t) = [first]) ∧
    (∀ t ∈ (Layer.group terms).flatten, t ∈ terms) ∧
    ∀ hash : List ℤ → ℤ, ((Table.ofTerms hash terms).map Prod.fst).Nodup ∧
      ∀ k held, (k, held) ∈ Table.ofTerms hash terms ↔
        held ≠ [] ∧ held = Layer.bucket (Layer.group terms) k := by
  refine ⟨fun t ht => ?_, fun t ht => ?_, fun hash => ?_⟩
  · obtain ⟨first, hfirst, hequiv, hmem⟩ := Layer.exists_first ht
    refine ⟨first, hfirst, fun s _ hst => ?_, hmem, ?_⟩
    · exact Term.ones_congr (Setoid.trans hst (Setoid.symm hequiv))
    · exact Term.filter_equiv_eq_singleton (Layer.tidy_group terms).pairwise_flatten
        (Layer.mem_flatten_iff.mpr ⟨_, hmem⟩) hequiv
  · obtain ⟨k, hk⟩ := Layer.mem_flatten_iff.mp ht
    exact (Layer.mem_of_mem_bucket_group hk).1
  · exact ⟨Table.nodup_keys_ofTerms hash terms, Table.mem_ofTerms_iff hash terms⟩

/-- The pattern `0*` comes before `*`, which is equivalent, and the third term has the same hash
without being equivalent to them. -/
example : Table.ofTerms (fun _ => 0)
    [⟨[.star, .zero], .ofList [0, 1]⟩, ⟨[.star], .ofList [0, 1]⟩, ⟨[], .ofList [0, 1]⟩] =
      [(0, [⟨[.star, .zero], .ofList [0, 1]⟩, ⟨[], .ofList [0, 1]⟩])] := by decide

end TwoLevel
