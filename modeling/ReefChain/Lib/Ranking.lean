import Mathlib.Data.Finset.Sort
import Mathlib.Data.List.Sort
import Mathlib.Order.Defs.LinearOrder

/-!
# Rankings

Elements of a linear order are ranked by a score: a larger score ranks first, and between equal
scores the smaller element does. `ranked f S` lists a finite set in this order, and
`(ranked f S).take k` are the `k` best.

Three facts are proved. A program that keeps the set as a list in key order and sorts it by score
with a *stable* sort obtains the ranking (`insertionSort_eq_map_ranked`). An element is among the
`k` best exactly when fewer than `k` elements of the set rank above it (`mem_take_ranked`). And
adding elements `Z` to a set `A` leaves the `k` best as they are exactly when at least `k` elements
of `A` rank above each element added (`take_ranked_union_iff`).
-/

namespace Ranking

variable {α : Type*} [LinearOrder α]

/-- `a` ranks strictly above `b`. -/
def Above (f : α → ℕ) (a b : α) : Prop := f b < f a ∨ f a = f b ∧ a < b

/-- `a` ranks above `b` or is `b`. -/
def AboveEq (f : α → ℕ) (a b : α) : Prop := f b < f a ∨ f a = f b ∧ a ≤ b

instance (f : α → ℕ) : DecidableRel (Above f) := fun _ _ => inferInstanceAs (Decidable (_ ∨ _))

instance (f : α → ℕ) : DecidableRel (AboveEq f) := fun _ _ => inferInstanceAs (Decidable (_ ∨ _))

section Order

variable {f : α → ℕ} {a b c : α}

theorem Above.irrefl (a : α) : ¬ Above f a a := by
  rintro (h | ⟨-, h⟩)
  · exact lt_irrefl _ h
  · exact lt_irrefl _ h

theorem Above.trans (hab : Above f a b) (hbc : Above f b c) : Above f a c := by
  rcases hab with hab | ⟨hab, hab'⟩ <;> rcases hbc with hbc | ⟨hbc, hbc'⟩
  · exact .inl (hbc.trans hab)
  · exact .inl (hbc ▸ hab)
  · exact .inl (hab ▸ hbc)
  · exact .inr ⟨hab.trans hbc, hab'.trans hbc'⟩

theorem Above.total (h : a ≠ b) : Above f a b ∨ Above f b a := by
  rcases lt_trichotomy (f a) (f b) with hlt | heq | hgt
  · exact .inr (.inl hlt)
  · rcases lt_or_gt_of_ne h with hab | hba
    · exact .inl (.inr ⟨heq, hab⟩)
    · exact .inr (.inr ⟨heq.symm, hba⟩)
  · exact .inl (.inl hgt)

theorem aboveEq_iff : AboveEq f a b ↔ a = b ∨ Above f a b := by
  unfold AboveEq Above
  rw [le_iff_lt_or_eq]
  constructor
  · rintro (h | ⟨h, hlt | rfl⟩)
    · exact .inr (.inl h)
    · exact .inr (.inr ⟨h, hlt⟩)
    · exact .inl rfl
  · rintro (rfl | h | ⟨h, hlt⟩)
    · exact .inr ⟨rfl, .inr rfl⟩
    · exact .inl h
    · exact .inr ⟨h, .inl hlt⟩

theorem Above.asymm (hab : Above f a b) : ¬ Above f b a := fun hba => Above.irrefl a (hab.trans hba)

instance : IsTrans α (AboveEq f) where
  trans a b c hab hbc := by
    rw [aboveEq_iff] at hab hbc ⊢
    rcases hab with rfl | hab
    · exact hbc
    · rcases hbc with rfl | hbc
      · exact .inr hab
      · exact .inr (hab.trans hbc)

instance : Std.Antisymm (AboveEq f) where
  antisymm a b hab hba := by
    rw [aboveEq_iff] at hab hba
    rcases hab with rfl | hab
    · rfl
    · rcases hba with rfl | hba
      · rfl
      · exact absurd hba hab.asymm

instance : Std.Total (AboveEq f) where
  total a b := by
    rw [aboveEq_iff, aboveEq_iff]
    by_cases h : a = b
    · exact .inl (.inl h)
    · rcases Above.total (f := f) h with hab | hba
      · exact .inl (.inr hab)
      · exact .inr (.inr hba)

end Order

/-- The elements of `S`, best first. -/
def ranked (f : α → ℕ) (S : Finset α) : List α := S.sort (AboveEq f)

variable {f : α → ℕ} {S : Finset α} {k : ℕ} {a b : α}

theorem mem_ranked : a ∈ ranked f S ↔ a ∈ S := Finset.mem_sort _

theorem ranked_nodup (f : α → ℕ) (S : Finset α) : (ranked f S).Nodup := Finset.sort_nodup _ _

theorem pairwise_ranked (f : α → ℕ) (S : Finset α) : (ranked f S).Pairwise (Above f) := by
  have hsorted : (ranked f S).Pairwise (AboveEq f) := Finset.pairwise_sort S (AboveEq f)
  refine (hsorted.and (ranked_nodup f S)).imp ?_
  rintro a b ⟨hab, hne⟩
  exact (aboveEq_iff.mp hab).resolve_left hne

/-! ### Ranking by a stable sort -/

/-- Pairs of an element and its score, in the order of a ranking. -/
def PairAbove (p q : α × ℕ) : Prop := q.2 < p.2 ∨ p.2 = q.2 ∧ p.1 < q.1

/-- Inserting by score in front of equal scores keeps a ranking, if the inserted element is smaller
than those already there. -/
theorem pairwise_orderedInsert {p : α × ℕ} {l : List (α × ℕ)} (hl : l.Pairwise PairAbove)
    (hp : ∀ q ∈ l, p.1 < q.1) :
    (l.orderedInsert (fun a b => b.2 ≤ a.2) p).Pairwise PairAbove := by
  induction l with
  | nil => exact List.pairwise_singleton _ _
  | cons q l ih =>
    obtain ⟨hq, hl'⟩ := List.pairwise_cons.mp hl
    rw [List.orderedInsert_cons]
    split
    · next hle =>
      refine List.pairwise_cons.mpr ⟨?_, hl⟩
      -- `p` has at least the score of `q`, and so of everything behind it
      intro x hx
      have hlt := hp x hx
      have hscore : x.2 ≤ p.2 := by
        rcases List.mem_cons.mp hx with rfl | hx
        · exact hle
        · rcases hq x hx with h | ⟨h, -⟩
          · exact h.le.trans hle
          · exact h.ge.trans hle
      rcases hscore.lt_or_eq with h | h
      · exact .inl h
      · exact .inr ⟨h.symm, hlt⟩
    · next hnot =>
      refine List.pairwise_cons.mpr ⟨?_, ih hl' fun x hx => hp x (List.mem_cons_of_mem q hx)⟩
      intro x hx
      rcases (List.mem_orderedInsert _).mp hx with rfl | hx
      · exact .inl (not_le.mp hnot)
      · exact hq x hx

/-- A stable sort by score of a list in key order is a ranking. -/
theorem pairwise_insertionSort {l : List (α × ℕ)} (hl : l.Pairwise fun p q => p.1 < q.1) :
    (l.insertionSort fun a b => b.2 ≤ a.2).Pairwise PairAbove := by
  induction l with
  | nil => exact List.Pairwise.nil
  | cons p l ih =>
    obtain ⟨hp, hl'⟩ := List.pairwise_cons.mp hl
    refine pairwise_orderedInsert (ih hl') fun q hq => hp q ?_
    exact (List.mem_insertionSort _).mp hq

/-- **Ranking by a stable sort.** The pairs come in the order of the ranking. -/
theorem insertionSort_eq_map_ranked (f : α → ℕ) (S : Finset α) :
    (S.sort.map fun a => (a, f a)).insertionSort (fun p q => q.2 ≤ p.2) =
      (ranked f S).map fun a => (a, f a) := by
  set l := S.sort.map fun a => (a, f a) with hl
  have hkeys : l.Pairwise fun p q => p.1 < q.1 := by
    rw [hl, List.pairwise_map]
    exact (Finset.sortedLT_sort S).pairwise
  have hscore : ∀ p ∈ l.insertionSort fun p q => q.2 ≤ p.2, p.2 = f p.1 := by
    intro p hp
    obtain ⟨a, -, rfl⟩ := List.mem_map.mp ((List.mem_insertionSort _).mp hp)
    rfl
  -- equal scores keep the order of the keys, as the sort is stable
  have hsorted : ((l.insertionSort fun p q => q.2 ≤ p.2).map Prod.fst).Pairwise (AboveEq f) := by
    rw [List.pairwise_map]
    refine (pairwise_insertionSort hkeys).imp_of_mem ?_
    intro p q hp hq hpq
    rw [PairAbove, hscore p hp, hscore q hq] at hpq
    exact aboveEq_iff.mpr (.inr hpq)
  have hperm : ((l.insertionSort fun p q => q.2 ≤ p.2).map Prod.fst).Perm (ranked f S) := by
    refine ((List.perm_insertionSort _ l).map Prod.fst).trans ?_
    have hfst : l.map Prod.fst = S.sort := by
      rw [hl, List.map_map]
      exact List.map_id _
    rw [hfst]
    exact (Finset.sort_perm_toList _ _).trans (Finset.sort_perm_toList _ _).symm
  -- a sorted list is determined by its members, and the scores by the elements
  have hranked : (l.insertionSort fun p q => q.2 ≤ p.2).map Prod.fst = ranked f S :=
    hperm.eq_of_pairwise' hsorted (Finset.pairwise_sort S (AboveEq f))
  rw [← hranked, List.map_map]
  refine ((List.map_congr_left fun p hp => ?_).trans (List.map_id _)).symm
  exact Prod.ext rfl (hscore p hp).symm

/-! ### The best of a set -/

/-- In a list ordered by a strict relation, the first `k` elements are those that fewer than `k`
elements precede. -/
theorem mem_take_iff {l : List α} (hl : l.Pairwise (Above f)) :
    a ∈ l.take k ↔ a ∈ l ∧ l.countP (fun b => Above f b a) < k := by
  induction l generalizing k with
  | nil => simp
  | cons x l ih =>
    obtain ⟨hx, hl'⟩ := List.pairwise_cons.mp hl
    cases k with
    | zero => simp
    | succ k =>
      rw [List.take_succ_cons, List.mem_cons, List.mem_cons, ih hl', List.countP_cons]
      by_cases ha : a = x
      · -- nothing precedes the head
        have hnone : l.countP (fun b => Above f b a) = 0 := by
          rw [List.countP_eq_zero]
          intro b hb
          rw [ha, decide_eq_true_iff]
          exact (hx b hb).asymm
        have hself : ¬ Above f x a := ha ▸ Above.irrefl a
        rw [hnone, decide_eq_false hself]
        simp [ha]
      · by_cases hmem : a ∈ l
        · rw [decide_eq_true (hx a hmem)]
          simp [ha, hmem]
        · simp [ha, hmem]

theorem countP_ranked (p : α → Prop) [DecidablePred p] :
    (ranked f S).countP (fun b => p b) = (S.filter p).card := by
  have hperm : (ranked f S).Perm S.toList := Finset.sort_perm_toList _ _
  rw [hperm.countP_eq, List.countP_eq_length_filter, ← Multiset.coe_card, ← Multiset.filter_coe,
    Finset.coe_toList]
  rfl

/-- The best elements of two sets are the same list if they are the same elements. -/
theorem take_ranked_congr {T : Finset α}
    (h : ∀ x, x ∈ (ranked f S).take k ↔ x ∈ (ranked f T).take k) :
    (ranked f S).take k = (ranked f T).take k := by
  have hnodup : ∀ U : Finset α, ((ranked f U).take k).Nodup := fun U =>
    (ranked_nodup f U).sublist (List.take_sublist _ _)
  have hsorted : ∀ U : Finset α, ((ranked f U).take k).Pairwise (AboveEq f) := fun U =>
    (Finset.pairwise_sort U (AboveEq f)).sublist (List.take_sublist _ _)
  exact ((List.perm_ext_iff_of_nodup (hnodup S) (hnodup T)).mpr h).eq_of_pairwise' (hsorted S)
    (hsorted T)

/-- **The best elements** are those that fewer than `k` elements rank above. -/
theorem mem_take_ranked :
    a ∈ (ranked f S).take k ↔ a ∈ S ∧ (S.filter fun b => Above f b a).card < k := by
  rw [mem_take_iff (pairwise_ranked f S), mem_ranked, countP_ranked fun b => Above f b a]

/-- Nothing that is left out has a larger score than one of the best. -/
theorem score_le_of_notMem_take (ha : a ∈ (ranked f S).take k) (hb : b ∈ S)
    (hnot : b ∉ (ranked f S).take k) : f b ≤ f a := by
  rw [mem_take_ranked] at ha hnot
  obtain ⟨haS, ha⟩ := ha
  have hk : k ≤ (S.filter fun x => Above f x b).card := not_lt.mp fun h => hnot ⟨hb, h⟩
  by_contra hlt
  have hab : Above f b a := .inl (not_le.mp hlt)
  -- whatever ranks above `b` ranks above `a`
  have hsub : (S.filter fun x => Above f x b) ⊆ S.filter fun x => Above f x a := by
    intro x hx
    rw [Finset.mem_filter] at hx ⊢
    exact ⟨hx.1, hx.2.trans hab⟩
  have hcard := Finset.card_le_card hsub
  omega

/-- **Adding elements to a ranking.** -/
theorem take_ranked_union_iff {A Z : Finset α} (hdisj : Disjoint A Z) :
    (∀ x, x ∈ (ranked f (A ∪ Z)).take k ↔ x ∈ (ranked f A).take k) ↔
      ∀ z ∈ Z, k ≤ (A.filter fun a => Above f a z).card := by
  constructor
  · intro hsame z hz
    -- the best of the added elements has only elements of `A` above it
    obtain ⟨z₀, hz₀, hbest⟩ : ∃ z₀ ∈ Z, ∀ y ∈ Z, AboveEq f z₀ y := by
      have hne : ranked f Z ≠ [] := List.ne_nil_of_mem (mem_ranked.mpr hz)
      obtain ⟨z₀, rest, hlist⟩ := List.exists_cons_of_ne_nil hne
      have hsorted := Finset.pairwise_sort Z (AboveEq f)
      rw [show Z.sort (AboveEq f) = z₀ :: rest from hlist, List.pairwise_cons] at hsorted
      refine ⟨z₀, mem_ranked.mp (hlist ▸ List.mem_cons_self), fun y hy => ?_⟩
      have hy' : y ∈ z₀ :: rest := hlist ▸ mem_ranked.mpr hy
      rcases List.mem_cons.mp hy' with rfl | hy'
      · exact aboveEq_iff.mpr (.inl rfl)
      · exact hsorted.1 y hy'
    have hout : z₀ ∉ (ranked f (A ∪ Z)).take k := by
      rw [hsame, mem_take_ranked]
      rintro ⟨hA, -⟩
      exact Finset.disjoint_left.mp hdisj hA hz₀
    rw [mem_take_ranked] at hout
    have hk : k ≤ ((A ∪ Z).filter fun b => Above f b z₀).card :=
      not_lt.mp fun h => hout ⟨Finset.mem_union_right A hz₀, h⟩
    refine hk.trans (Finset.card_le_card ?_)
    intro b hb
    rw [Finset.mem_filter, Finset.mem_union] at hb
    rw [Finset.mem_filter]
    obtain ⟨hbA | hbZ, habove⟩ := hb
    · rcases aboveEq_iff.mp (hbest z hz) with rfl | hz₀z
      · exact ⟨hbA, habove⟩
      · exact ⟨hbA, habove.trans hz₀z⟩
    · rcases aboveEq_iff.mp (hbest b hbZ) with rfl | hz₀b
      · exact absurd habove (Above.irrefl _)
      · exact absurd habove hz₀b.asymm
  · intro hbelow x
    rw [mem_take_ranked, mem_take_ranked, Finset.mem_union, Finset.filter_union]
    constructor
    · rintro ⟨hxA | hxZ, hlt⟩
      · exact ⟨hxA, (Finset.card_le_card Finset.subset_union_left).trans_lt hlt⟩
      · refine absurd hlt (not_lt.mpr ((hbelow x hxZ).trans ?_))
        exact Finset.card_le_card Finset.subset_union_left
    · rintro ⟨hxA, hlt⟩
      -- no added element ranks above `x`: the elements above it would rank above `x` too
      have hnone : (Z.filter fun b => Above f b x) = ∅ := by
        rw [Finset.filter_eq_empty_iff]
        intro z hz hzx
        have hsub : (A.filter fun a => Above f a z) ⊆ A.filter fun a => Above f a x := by
          intro b hb
          rw [Finset.mem_filter] at hb ⊢
          exact ⟨hb.1, hb.2.trans hzx⟩
        have hcard := Finset.card_le_card hsub
        have hk := hbelow z hz
        omega
      rw [hnone, Finset.union_empty]
      exact ⟨.inl hxA, hlt⟩

end Ranking
