import Mathlib.Algebra.Order.Group.Nat
import Mathlib.Algebra.Order.Ring.Nat
import Mathlib.Data.Finset.Sort
import Mathlib.Data.List.Basic

/-!
# Vectors sorted by a key

A vector whose entries are kept in the order of a key, without two entries of the same key, is
searched by bisection. The search answers with the position of the entry, or with the position where
an entry with that key has to be inserted.

On a sorted vector the answer says how the vector splits: into what is before the entry, the entry
and what is behind it (`search_eq_ok`), or into the entries with smaller and with larger keys
(`search_eq_error`). Everything else about a sorted vector is derived from such a split, as
insertion, replacement and removal at a position are concatenations then.
-/

namespace SortedVec

variable {β κ : Type*} [LinearOrder κ] (key : β → κ)

/-- Sorted by the key, without repetitions. -/
def Sorted (l : List β) : Prop := l.Pairwise fun a b => key a < key b

/-- The bisection between the positions `left` and `right`; the fuel bounds the number of rounds. -/
def bisect (l : List β) (k : κ) : ℕ → ℕ → ℕ → Except ℕ ℕ
  | 0, left, _ => .error left
  | fuel + 1, left, right =>
    if left < right then
      let mid := left + (right - left) / 2
      match l[mid]? with
      | none => .error left
      | some b =>
        if key b < k then bisect l k fuel (mid + 1) right
        else if k < key b then bisect l k fuel left mid
        else .ok mid
    else .error left

/-- `binary_search_by_key`: the position of the entry with key `k`, or else the position where such
an entry belongs. -/
def search (l : List β) (k : κ) : Except ℕ ℕ := bisect key l k l.length 0 l.length

/-- The entries before `n` have smaller keys than `k`. -/
def Below (l : List β) (k : κ) (n : ℕ) : Prop := ∀ i b, i < n → l[i]? = some b → key b < k

/-- The entries from `n` on have larger keys than `k`. -/
def AboveFrom (l : List β) (k : κ) (n : ℕ) : Prop := ∀ i b, n ≤ i → l[i]? = some b → k < key b

variable {key} {l : List β} {k : κ}

theorem Sorted.lt_of_lt (h : Sorted key l) {i j : ℕ} {a b : β} (hij : i < j) (ha : l[i]? = some a)
    (hb : l[j]? = some b) : key a < key b := by
  obtain ⟨hi, rfl⟩ := List.getElem?_eq_some_iff.mp ha
  obtain ⟨hj, rfl⟩ := List.getElem?_eq_some_iff.mp hb
  exact List.pairwise_iff_getElem.mp h i j hi hj hij

/-- What an answer of the bisection means. -/
def Answers (key : β → κ) (l : List β) (k : κ) : Except ℕ ℕ → Prop
  | .ok i => ∃ b, l[i]? = some b ∧ key b = k
  | .error i => i ≤ l.length ∧ Below key l k i ∧ AboveFrom key l k i

/-- **The bisection is right**, if all smaller keys are before `right` and all larger ones are not
before `left`. -/
theorem bisect_answers (h : Sorted key l) {fuel left right : ℕ} (hfuel : right - left ≤ fuel)
    (hle : left ≤ right) (hright : right ≤ l.length) (hbelow : Below key l k left)
    (habove : AboveFrom key l k right) : Answers key l k (bisect key l k fuel left right) := by
  induction fuel generalizing left right with
  | zero =>
    obtain rfl : left = right := by omega
    exact ⟨hright, hbelow, habove⟩
  | succ fuel ih =>
    unfold bisect
    by_cases hlt : left < right
    · rw [if_pos hlt]
      simp only []
      have hmid : left + (right - left) / 2 < l.length := by omega
      rw [List.getElem?_eq_getElem hmid]
      have hentry := List.getElem?_eq_getElem hmid
      generalize l[left + (right - left) / 2] = b at hentry
      simp only []
      split
      · next hless =>
        -- the entry in the middle and everything before it is smaller
        refine ih (by omega) (by omega) hright ?_ habove
        intro i a hi ha
        rcases Nat.lt_succ_iff_lt_or_eq.mp hi with hi | rfl
        · exact (h.lt_of_lt hi ha hentry).trans hless
        · rw [hentry] at ha
          cases ha
          exact hless
      · split
        · next hmore =>
          -- the entry in the middle and everything behind it is larger
          refine ih (by omega) (by omega) (by omega) hbelow ?_
          intro i a hi ha
          rcases Nat.lt_or_eq_of_le hi with hi | rfl
          · exact hmore.trans (h.lt_of_lt hi hentry ha)
          · rw [hentry] at ha
            cases ha
            exact hmore
        · next hnless hnmore => exact ⟨b, hentry, le_antisymm (not_lt.mp hnmore) (not_lt.mp hnless)⟩
    · rw [if_neg hlt]
      obtain rfl : left = right := by omega
      exact ⟨hright, hbelow, habove⟩

theorem search_answers (h : Sorted key l) (k : κ) : Answers key l k (search key l k) := by
  refine bisect_answers h (by omega) (Nat.zero_le _) (Nat.le_refl _) ?_ ?_
  · intro i b hi
    omega
  · intro i b hi hb
    obtain ⟨hlt, -⟩ := List.getElem?_eq_some_iff.mp hb
    omega

/-- **An entry is found** where the vector has it. -/
theorem search_eq_ok (h : Sorted key l) {i : ℕ} (hi : search key l k = .ok i) :
    ∃ as b bs, l = as ++ b :: bs ∧ as.length = i ∧ key b = k := by
  have hanswer := search_answers h k
  rw [hi] at hanswer
  obtain ⟨b, hb, hk⟩ := hanswer
  obtain ⟨hlt, rfl⟩ := List.getElem?_eq_some_iff.mp hb
  refine ⟨l.take i, l[i], l.drop (i + 1), ?_, ?_, hk⟩
  · rw [List.getElem_cons_drop, List.take_append_drop]
  · exact List.length_take_of_le (Nat.le_of_lt hlt)

/-- **An entry is missed** where the keys pass from smaller to larger ones. -/
theorem search_eq_error (h : Sorted key l) {i : ℕ} (hi : search key l k = .error i) :
    ∃ as bs, l = as ++ bs ∧ as.length = i ∧ (∀ a ∈ as, key a < k) ∧ ∀ b ∈ bs, k < key b := by
  have hanswer := search_answers h k
  rw [hi] at hanswer
  obtain ⟨hle, hbelow, habove⟩ := hanswer
  refine ⟨l.take i, l.drop i, (List.take_append_drop i l).symm, List.length_take_of_le hle, ?_, ?_⟩
  · intro a ha
    obtain ⟨j, hj⟩ := List.mem_iff_getElem?.mp ha
    rw [List.getElem?_take] at hj
    split at hj
    · next hlt => exact hbelow j a hlt hj
    · cases hj
  · intro b hb
    obtain ⟨j, hj⟩ := List.mem_iff_getElem?.mp hb
    rw [List.getElem?_drop] at hj
    exact habove (i + j) b (Nat.le_add_right i j) hj

/-- A key that no entry has is missed. -/
theorem not_mem_of_search (h : Sorted key l) {i : ℕ} (hi : search key l k = .error i) {b : β}
    (hb : b ∈ l) : key b ≠ k := by
  obtain ⟨as, bs, rfl, -, hbelow, habove⟩ := search_eq_error h hi
  rcases List.mem_append.mp hb with hb | hb
  · exact (hbelow b hb).ne
  · exact (habove b hb).ne'

/-- A key that some entry has is found. -/
theorem exists_search_of_mem (h : Sorted key l) {b : β} (hb : b ∈ l) :
    ∃ i, search key l (key b) = .ok i := by
  cases hsearch : search key l (key b) with
  | ok i => exact ⟨i, rfl⟩
  | error i => exact absurd rfl (not_mem_of_search h hsearch hb)

/-- There is one entry with a key. -/
theorem Sorted.eq_of_key_eq (h : Sorted key l) {a b : β} (ha : a ∈ l) (hb : b ∈ l)
    (hkey : key a = key b) : a = b := by
  have hnodup : (l.map key).Nodup := List.pairwise_map.mpr (h.imp fun hlt => hlt.ne)
  exact List.inj_on_of_nodup_map hnodup ha hb hkey

/-! ### Writing at the position found -/

/-- Insertion at the seam of two vectors. -/
@[simp]
theorem insertIdx_append_length (as bs : List β) (b : β) :
    (as ++ bs).insertIdx as.length b = as ++ b :: bs := by
  induction as with
  | nil => simp
  | cons a as ih => simpa using ih

@[simp]
theorem getElem?_append_length (as bs : List β) (b : β) : (as ++ b :: bs)[as.length]? = some b := by
  simp

@[simp]
theorem modify_append_length (as bs : List β) (b : β) (f : β → β) :
    (as ++ b :: bs).modify as.length f = as ++ f b :: bs := by
  induction as with
  | nil => simp
  | cons a as ih => simpa using ih

@[simp]
theorem eraseIdx_append_length (as bs : List β) (b : β) :
    (as ++ b :: bs).eraseIdx as.length = as ++ bs := by
  induction as with
  | nil => simp
  | cons a as ih => simpa using ih

/-- Inserting a missing entry where it belongs keeps the order. -/
theorem Sorted.insertIdx (h : Sorted key l) {b : β} {i : ℕ}
    (hi : search key l (key b) = .error i) : Sorted key (l.insertIdx i b) := by
  obtain ⟨as, bs, rfl, rfl, hbelow, habove⟩ := search_eq_error h hi
  obtain ⟨has, hbs, hcross⟩ := List.pairwise_append.mp h
  rw [insertIdx_append_length]
  refine List.pairwise_append.mpr ⟨has, List.pairwise_cons.mpr ⟨habove, hbs⟩, ?_⟩
  intro a ha c hc
  rcases List.mem_cons.mp hc with rfl | hc
  · exact hbelow a ha
  · exact hcross a ha c hc

/-- Replacing an entry by one with the same key keeps the order. -/
theorem Sorted.replace {as bs : List β} {b c : β} (h : Sorted key (as ++ b :: bs))
    (hkey : key c = key b) : Sorted key (as ++ c :: bs) := by
  obtain ⟨has, hbs, hcross⟩ := List.pairwise_append.mp h
  obtain ⟨hfirst, hrest⟩ := List.pairwise_cons.mp hbs
  refine List.pairwise_append.mpr ⟨has, List.pairwise_cons.mpr ⟨fun x hx => ?_, hrest⟩, ?_⟩
  · rw [hkey]
    exact hfirst x hx
  · intro a ha x hx
    rcases List.mem_cons.mp hx with rfl | hx
    · rw [hkey]
      exact hcross a ha b List.mem_cons_self
    · exact hcross a ha x (List.mem_cons_of_mem b hx)

/-- Removing entries keeps the order. -/
theorem Sorted.sublist {l' : List β} (h : Sorted key l) (hsub : l'.Sublist l) : Sorted key l' :=
  List.Pairwise.sublist hsub h

end SortedVec
