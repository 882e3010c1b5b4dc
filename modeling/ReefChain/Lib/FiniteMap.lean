import Mathlib.Data.Finmap
import Mathlib.Data.Finset.Sort
import Mathlib.Algebra.BigOperators.Group.Multiset.Basic
import Mathlib.Algebra.BigOperators.Ring.Multiset
import Mathlib.Algebra.Order.BigOperators.Group.Multiset
import Mathlib.Algebra.Order.Group.Nat
import Mathlib.Algebra.Order.Ring.Nat

/-!
# Totals over a finite map, and maps in both directions

A finite map `m : Finmap fun _ : κ => ν` carries a total for every weight `f : κ → ν → ℕ` on its
entries. The total is what an incrementally maintained counter has to agree with, so the lemmas
here are the ones such a counter needs: what an insertion and a removal do to the total, in a form
without subtraction, in terms of the weight `weightAt` found at the key before the operation.

`Inverse` relates two maps that hold the same pairs in opposite directions; it survives adding a
pair that is new on both sides, and removing a pair from both.
-/

namespace FiniteMap

variable {κ ν : Type*}

/-- The sum of `f k v` over the entries of `m`. -/
def total (f : κ → ν → ℕ) (m : Finmap fun _ : κ => ν) : ℕ :=
  (m.entries.map fun e => f e.1 e.2).sum

variable [DecidableEq κ]

/-- The weight found at `k`, zero when `k` is absent. -/
def weightAt (f : κ → ν → ℕ) (m : Finmap fun _ : κ => ν) (k : κ) : ℕ :=
  (m.lookup k).elim 0 (f k)

variable {f : κ → ν → ℕ} {m : Finmap fun _ : κ => ν} {k : κ} {v : ν}

theorem weightAt_of_lookup (h : m.lookup k = some v) : weightAt f m k = f k v := by
  simp [weightAt, h]

theorem weightAt_of_notMem (h : k ∉ m) : weightAt f m k = 0 := by
  simp [weightAt, Finmap.lookup_eq_none.mpr h]

theorem weightAt_of_lookup_none (h : m.lookup k = none) : weightAt f m k = 0 := by
  simp [weightAt, h]

/-- The weight at a key after an entry is written. -/
theorem weightAt_insert (f : κ → ν → ℕ) (m : Finmap fun _ : κ => ν) (k : κ) (v : ν) (k' : κ) :
    weightAt f (m.insert k v) k' = if k' = k then f k v else weightAt f m k' := by
  by_cases hk : k' = k
  · rw [if_pos hk, hk]
    exact weightAt_of_lookup (Finmap.lookup_insert _)
  · rw [if_neg hk, weightAt, weightAt, Finmap.lookup_insert_of_ne _ hk]

/-- Inserting at a fresh key adds the weight of the new entry. -/
theorem total_insert_of_notMem (h : k ∉ m) : total f (m.insert k v) = f k v + total f m := by
  unfold total
  rw [Finmap.entries_insert_of_notMem h, Multiset.map_cons, Multiset.sum_cons]

theorem insert_erase_self (k : κ) (v : ν) (m : Finmap fun _ : κ => ν) :
    (m.erase k).insert k v = m.insert k v := by
  refine Finmap.ext_lookup fun x => ?_
  by_cases hx : x = k
  · subst hx
    rw [Finmap.lookup_insert, Finmap.lookup_insert]
  · rw [Finmap.lookup_insert_of_ne _ hx, Finmap.lookup_insert_of_ne _ hx,
      Finmap.lookup_erase_ne hx]

theorem erase_of_notMem (h : k ∉ m) : m.erase k = m := by
  refine Finmap.ext_lookup fun x => ?_
  by_cases hx : x = k
  · subst hx
    rw [Finmap.lookup_erase, Finmap.lookup_eq_none.mpr h]
  · rw [Finmap.lookup_erase_ne hx]

theorem insert_of_lookup (h : m.lookup k = some v) : m.insert k v = m := by
  refine Finmap.ext_lookup fun x => ?_
  by_cases hx : x = k
  · subst hx
    rw [Finmap.lookup_insert, h]
  · rw [Finmap.lookup_insert_of_ne _ hx]

/-- Erasing a key removes the weight found there. -/
theorem total_erase (f : κ → ν → ℕ) (m : Finmap fun _ : κ => ν) (k : κ) :
    total f (m.erase k) + weightAt f m k = total f m := by
  by_cases hk : k ∈ m
  · obtain ⟨v, hv⟩ := Finmap.mem_iff.mp hk
    have hins : total f ((m.erase k).insert k v) = f k v + total f (m.erase k) :=
      total_insert_of_notMem Finmap.notMem_erase_self
    rw [insert_erase_self, insert_of_lookup hv] at hins
    rw [weightAt_of_lookup hv, hins, Nat.add_comm]
  · rw [erase_of_notMem hk, weightAt_of_notMem hk, Nat.add_zero]

/-- Inserting replaces the weight found at the key by that of the new entry. -/
theorem total_insert (f : κ → ν → ℕ) (m : Finmap fun _ : κ => ν) (k : κ) (v : ν) :
    total f (m.insert k v) + weightAt f m k = total f m + f k v := by
  rw [← insert_erase_self, total_insert_of_notMem Finmap.notMem_erase_self,
    ← total_erase f m k]
  omega

/-- The weight found at a key is part of the total. -/
theorem weightAt_le_total (f : κ → ν → ℕ) (m : Finmap fun _ : κ => ν) (k : κ) :
    weightAt f m k ≤ total f m := by
  rw [← total_erase f m k]
  exact Nat.le_add_left _ _

theorem le_total (h : m.lookup k = some v) : f k v ≤ total f m := by
  rw [← weightAt_of_lookup h (f := f)]
  exact weightAt_le_total f m k

/-- Weights that are pointwise smaller have a smaller total. -/
theorem total_le_total {g : κ → ν → ℕ} (h : ∀ k v, m.lookup k = some v → f k v ≤ g k v) :
    total f m ≤ total g m :=
  Multiset.sum_map_le_sum_map _ _ fun e he => h e.1 e.2 (Finmap.lookup_eq_some_iff.mpr he)

theorem total_congr {g : κ → ν → ℕ} (h : ∀ k v, m.lookup k = some v → f k v = g k v) :
    total f m = total g m :=
  congrArg Multiset.sum (Multiset.map_congr rfl fun e he =>
    h e.1 e.2 (Finmap.lookup_eq_some_iff.mpr he))

theorem total_eq_zero (h : ∀ k v, m.lookup k = some v → f k v = 0) : total f m = 0 :=
  (total_congr h).trans Multiset.sum_map_zero

omit [DecidableEq κ] in
theorem total_mul_left (c : ℕ) (f : κ → ν → ℕ) (m : Finmap fun _ : κ => ν) :
    total (fun k v => c * f k v) m = c * total f m :=
  Multiset.sum_map_mul_left

/-- The weights found at different keys are parts of the total. -/
theorem sum_weightAt_le_total (f : κ → ν → ℕ) {ks : List κ} (h : ks.Nodup)
    (m : Finmap fun _ : κ => ν) : (ks.map (weightAt f m)).sum ≤ total f m := by
  induction ks generalizing m with
  | nil => exact Nat.zero_le _
  | cons k ks ih =>
    obtain ⟨hk, hks⟩ := List.nodup_cons.mp h
    -- the weights at the other keys are found in the map without `k` too
    have hrest : ks.map (weightAt f m) = ks.map (weightAt f (m.erase k)) := by
      refine List.map_congr_left fun j hj => ?_
      have hne : j ≠ k := fun heq => hk (heq ▸ hj)
      rw [weightAt, weightAt, Finmap.lookup_erase_ne hne]
    have herase := total_erase f m k
    have hle := ih hks (m.erase k)
    rw [List.map_cons, List.sum_cons, hrest]
    omega

/-- Erasing a key leaves the lookups elsewhere, and finds nothing at the key itself. -/
theorem lookup_erase_eq_some_iff {j : κ} :
    (m.erase k).lookup j = some v ↔ j ≠ k ∧ m.lookup j = some v := by
  by_cases h : j = k
  · subst h
    simp
  · simp [Finmap.lookup_erase_ne h, h]

theorem lookup_insert_eq (k : κ) (v : ν) (m : Finmap fun _ : κ => ν) (j : κ) :
    (m.insert k v).lookup j = if j = k then some v else m.lookup j := by
  split
  · next h => subst h; exact Finmap.lookup_insert m
  · next h => exact Finmap.lookup_insert_of_ne m h

theorem eq_of_lookup_insert {u : ν} (h : (m.insert k v).lookup k = some u) : v = u := by
  rw [Finmap.lookup_insert] at h
  exact Option.some.inj h

theorem lookup_of_lookup_insert {j : κ} {u : ν} (hne : j ≠ k)
    (h : (m.insert k v).lookup j = some u) : m.lookup j = some u := by
  rw [Finmap.lookup_insert_of_ne _ hne] at h
  exact h

theorem lookup_erase_eq (k : κ) (m : Finmap fun _ : κ => ν) (j : κ) :
    (m.erase k).lookup j = if j = k then none else m.lookup j := by
  split
  · next h => subst h; exact Finmap.lookup_erase _ m
  · next h => exact Finmap.lookup_erase_ne h

/-! ### Two maps inverse to each other -/

section Inverse

variable {κ ν : Type*}

/-- `f` and `g` hold the same pairs, `f` by their first and `g` by their second component. -/
def Inverse [DecidableEq κ] [DecidableEq ν] (f : Finmap fun _ : κ => ν)
    (g : Finmap fun _ : ν => κ) : Prop :=
  ∀ k v, f.lookup k = some v ↔ g.lookup v = some k

variable [DecidableEq κ] [DecidableEq ν] {f : Finmap fun _ : κ => ν} {g : Finmap fun _ : ν => κ}
  {k : κ} {v : ν}

theorem Inverse.empty : Inverse (∅ : Finmap fun _ : κ => ν) (∅ : Finmap fun _ : ν => κ) := by
  intro k v
  rw [Finmap.lookup_empty, Finmap.lookup_empty]
  constructor <;> exact fun h => nomatch h

/-- A pair whose components are both new can be added to both maps. -/
theorem Inverse.insert (h : Inverse f g) (hk : f.lookup k = none) (hv : g.lookup v = none) :
    Inverse (f.insert k v) (g.insert v k) := by
  intro j u
  rw [lookup_insert_eq, lookup_insert_eq]
  by_cases hj : j = k
  · by_cases hu : u = v
    · rw [if_pos hj, if_pos hu, hj, hu]
      exact ⟨fun _ => rfl, fun _ => rfl⟩
    · rw [if_pos hj, if_neg hu]
      constructor
      · intro heq
        exact absurd (Option.some.inj heq).symm hu
      · intro heq
        rw [hj, ← h, hk] at heq
        cases heq
  · by_cases hu : u = v
    · rw [if_neg hj, if_pos hu]
      constructor
      · intro heq
        rw [hu, h, hv] at heq
        cases heq
      · intro heq
        exact absurd (Option.some.inj heq).symm hj
    · rw [if_neg hj, if_neg hu]
      exact h j u

/-- A pair can be removed from both maps. -/
theorem Inverse.erase (h : Inverse f g) (hv : g.lookup v = some k) :
    Inverse (f.erase k) (g.erase v) := by
  intro j u
  rw [lookup_erase_eq_some_iff, lookup_erase_eq_some_iff]
  constructor
  · rintro ⟨hj, heq⟩
    refine ⟨fun hu => hj ?_, (h j u).mp heq⟩
    rw [hu, h, hv] at heq
    exact (Option.some.inj heq).symm
  · rintro ⟨hu, heq⟩
    refine ⟨fun hj => hu ?_, (h j u).mpr heq⟩
    rw [hj, ← h, (h k v).mpr hv] at heq
    exact (Option.some.inj heq).symm

end Inverse

/-! ### Enumerating a map -/

section Enumerate

variable {κ ν : Type*} [LinearOrder κ]

/-- The entries of a map, in the order of their keys. -/
def inKeyOrder (m : Finmap fun _ : κ => ν) : List (Σ _ : κ, ν) :=
  (m.keys.sort (· ≤ ·)).filterMap fun k => (m.lookup k).map (Sigma.mk k)

private theorem filterMap_eq_self {β : Type*} {f : β → Option β} {t : Multiset β}
    (h : ∀ e ∈ t, f e = some e) : t.filterMap f = t := by
  induction t using Multiset.induction with
  | empty => rfl
  | cons e t ih =>
    rw [Multiset.filterMap_cons_some f e t (h e (Multiset.mem_cons_self e t)),
      ih fun x hx => h x (Multiset.mem_cons_of_mem hx)]

/-- Enumerating in key order yields every entry once. -/
theorem coe_inKeyOrder (m : Finmap fun _ : κ => ν) :
    (inKeyOrder m : Multiset (Σ _ : κ, ν)) = m.entries := by
  have hentry : ∀ e ∈ m.entries, (m.lookup e.1).map (Sigma.mk e.1) = some e := by
    intro e he
    rw [Finmap.lookup_eq_some_iff.mpr he]
    rfl
  calc (inKeyOrder m : Multiset (Σ _ : κ, ν))
      = m.keys.val.filterMap fun k => (m.lookup k).map (Sigma.mk k) := by
        unfold inKeyOrder
        rw [← Multiset.filterMap_coe, Finset.sort_eq]
    _ = m.entries.filterMap fun e => (m.lookup e.1).map (Sigma.mk e.1) :=
        Multiset.filterMap_map _ _ _
    _ = m.entries := filterMap_eq_self hentry

end Enumerate

end FiniteMap
