import Mathlib.Data.List.Nodup
import Mathlib.Tactic.Ring

/-!
# Books of amounts set aside

An amount is set aside on an account `who : α` under a name `name : ν`, and it is given back when
the name is done with. A *book* lists these movements, newest first. Giving back is best effort: the
account may hold less than it should, and the account that is asked need not be the one the amount
was taken from. A name can also be done with without anything being given back; then it is
*abandoned*.

`balance` is what the movements have left on an account, and `outstanding` is what was set aside on
it under the names of a given set. The invariant `Kept` compares the two: as long as every release
is *sound*, the balance of an account is what is outstanding under the names that are pending or
were abandoned. So the balance is what is outstanding under the pending names if and only if nothing
was abandoned but amounts of zero (`Kept.balance_eq_iff`).
-/

namespace Escrow

variable {ν α : Type*}

/-- The movements. -/
inductive Entry (ν α : Type*)
  | reserved (name : ν) (who : α) (amount : ℕ)
  /-- The account was asked to give back the amount when it held `held`. -/
  | released (name : ν) (who : α) (amount held : ℕ)
  | abandoned (name : ν)
  deriving DecidableEq, Repr

/-- The name an entry sets something aside under. -/
def Entry.name? : Entry ν α → Option ν
  | .reserved name _ _ => some name
  | _ => none

/-- The names something was set aside under. -/
def names (b : List (Entry ν α)) : List ν := b.filterMap Entry.name?

/-- Something was set aside on the account under the name. -/
def Entry.Reserves (name : ν) (who : α) : Entry ν α → Prop
  | .reserved name' who' _ => name' = name ∧ who' = who
  | _ => False

/-- Every release takes the full amount from the account it was set aside on. -/
def Sound : List (Entry ν α) → Prop
  | [] => True
  | .released name who amount held :: b =>
    amount ≤ held ∧ (∃ e ∈ b, e.Reserves name who) ∧ Sound b
  | _ :: b => Sound b

section Decidable

variable [DecidableEq ν] [DecidableEq α]

instance Entry.decidableReserves (name : ν) (who : α) (e : Entry ν α) :
    Decidable (e.Reserves name who) :=
  match e with
  | .reserved name' who' _ => inferInstanceAs (Decidable (name' = name ∧ who' = who))
  | .released _ _ _ _ => inferInstanceAs (Decidable False)
  | .abandoned _ => inferInstanceAs (Decidable False)

instance decidableSound : (b : List (Entry ν α)) → Decidable (Sound b)
  | [] => inferInstanceAs (Decidable True)
  | .released name who amount held :: b =>
    have := decidableSound b
    inferInstanceAs (Decidable (amount ≤ held ∧ (∃ e ∈ b, e.Reserves name who) ∧ Sound b))
  | .reserved _ _ _ :: b => decidableSound b
  | .abandoned _ :: b => decidableSound b

end Decidable

/-- What is sound with further entries was sound before. -/
theorem Sound.of_append {b : List (Entry ν α)} (new : List (Entry ν α)) (h : Sound (new ++ b)) :
    Sound b := by
  induction new with
  | nil => exact h
  | cons e new ih =>
    cases e with
    | reserved name who amount => exact ih h
    | released name who amount held => exact ih h.2.2
    | abandoned name => exact ih h

@[simp] theorem mem_names {b : List (Entry ν α)} {name : ν} :
    name ∈ names b ↔ ∃ who amount, Entry.reserved name who amount ∈ b := by
  unfold names
  rw [List.mem_filterMap]
  constructor
  · rintro ⟨e, he, hname⟩
    cases e with
    | reserved name' who amount =>
      cases hname
      exact ⟨who, amount, he⟩
    | released name' who amount held => cases hname
    | abandoned name' => cases hname
  · rintro ⟨who, amount, h⟩
    exact ⟨_, h, rfl⟩

variable [DecidableEq α]

/-- What the movements have left on an account. -/
def balance : List (Entry ν α) → α → ℤ
  | [], _ => 0
  | .reserved _ who amount :: b, a => balance b a + if who = a then (amount : ℤ) else 0
  | .released _ who amount held :: b, a =>
    balance b a - if who = a then ((min held amount : ℕ) : ℤ) else 0
  | .abandoned _ :: b, a => balance b a

/-- What was set aside on an account under the names of `p`. -/
def outstanding (p : ν → Prop) [DecidablePred p] : List (Entry ν α) → α → ℕ
  | [], _ => 0
  | .reserved name who amount :: b, a =>
    outstanding p b a + if who = a ∧ p name then amount else 0
  | .released _ _ _ _ :: b, a => outstanding p b a
  | .abandoned _ :: b, a => outstanding p b a

/-! ### What is outstanding -/

section Outstanding

variable {p q r : ν → Prop} [DecidablePred p] [DecidablePred q] [DecidablePred r]
  {b : List (Entry ν α)}

/-- Only the names of the book matter. -/
theorem outstanding_congr (h : ∀ name ∈ names b, p name ↔ q name) (a : α) :
    outstanding p b a = outstanding q b a := by
  induction b with
  | nil => rfl
  | cons e b ih =>
    cases e with
    | reserved name who amount =>
      have hhead : p name ↔ q name := h name List.mem_cons_self
      have htail := ih fun name' hname' => h name' (List.mem_cons_of_mem name hname')
      simp only [outstanding, htail, hhead]
    | released name who amount held => exact ih h
    | abandoned name => exact ih h

/-- What is outstanding under the names of two sets, one of which leaves out the other. -/
theorem outstanding_add (h : ∀ name ∈ names b, p name ↔ q name ∨ r name)
    (hdisjoint : ∀ name ∈ names b, q name → ¬ r name) (a : α) :
    outstanding p b a = outstanding q b a + outstanding r b a := by
  induction b with
  | nil => rfl
  | cons e b ih =>
    cases e with
    | reserved name who amount =>
      have hhead : p name ↔ q name ∨ r name := h name List.mem_cons_self
      have hone : q name → ¬ r name := hdisjoint name List.mem_cons_self
      have htail := ih (fun name' hname' => h name' (List.mem_cons_of_mem name hname'))
        (fun name' hname' => hdisjoint name' (List.mem_cons_of_mem name hname'))
      simp only [outstanding, htail, hhead]
      by_cases hq : q name
      · simp only [hq, hone hq, or_false, and_true, and_false, if_false]
        ring
      · simp only [hq, false_or, and_false, if_false]
        ring
    | released name who amount held => exact ih h hdisjoint
    | abandoned name => exact ih h hdisjoint

/-- Nothing is outstanding exactly if nothing but zero was set aside. -/
theorem outstanding_eq_zero_iff :
    (∀ a, outstanding p b a = 0) ↔
      ∀ name who amount, Entry.reserved name who amount ∈ b → p name → amount = 0 := by
  induction b with
  | nil => simp [outstanding]
  | cons e b ih =>
    cases e with
    | reserved name who amount =>
      constructor
      · intro h
        have htail : ∀ a, outstanding p b a = 0 := fun a => (Nat.add_eq_zero_iff.mp (h a)).1
        intro name' who' amount' hmem hp
        rcases List.mem_cons.mp hmem with heq | hmem
        · cases heq
          have hhead := (Nat.add_eq_zero_iff.mp (h who)).2
          rwa [if_pos ⟨rfl, hp⟩] at hhead
        · exact ih.mp htail name' who' amount' hmem hp
      · intro h a
        have htail := ih.mpr (fun name' who' amount' hmem =>
          h name' who' amount' (List.mem_cons_of_mem _ hmem)) a
        simp only [outstanding, htail, Nat.zero_add]
        split
        · next hhead => exact h name who amount List.mem_cons_self hhead.2
        · rfl
    | released | abandoned => simpa [outstanding] using ih

/-- Under a single name that occurs once, the amount is outstanding on its account. -/
theorem outstanding_single {name : ν} {who : α} {amount : ℕ} (hnodup : (names b).Nodup)
    (hmem : Entry.reserved name who amount ∈ b) (hr : ∀ name', r name' ↔ name' = name) (a : α) :
    outstanding r b a = if who = a then amount else 0 := by
  induction b with
  | nil => cases hmem
  | cons e b ih =>
    cases e with
    | reserved name' who' amount' =>
      obtain ⟨hnew, hnodup⟩ := List.nodup_cons.mp hnodup
      rcases List.mem_cons.mp hmem with heq | hmem
      · cases heq
        -- the name does not occur in the rest
        have hrest : outstanding r b a = 0 := by
          refine outstanding_eq_zero_iff.mpr (fun name' who' amount' hmem' hname' => ?_) a
          obtain rfl := (hr name').mp hname'
          exact absurd (mem_names.mpr ⟨who', amount', hmem'⟩) hnew
        simp [outstanding, hrest, (hr name).mpr rfl]
      · have hne : ¬ r name' := fun h => hnew (by
          rw [(hr name').mp h]
          exact mem_names.mpr ⟨who, amount, hmem⟩)
        simp only [outstanding, hne, and_false, if_false]
        exact ih hnodup hmem
    | released | abandoned =>
      rcases List.mem_cons.mp hmem with heq | hmem
      · cases heq
      · exact ih hnodup hmem

end Outstanding

/-! ### The invariant -/

variable [DecidableEq ν]

/-- The names of a book that still matter: those of `p`, and those that were abandoned. -/
abbrev Open (p : ν → Prop) (b : List (Entry ν α)) (name : ν) : Prop :=
  p name ∨ Entry.abandoned name ∈ b

/-- The book is in order when the names of `p` are pending. -/
structure Kept (p : ν → Prop) [DecidablePred p] (b : List (Entry ν α)) : Prop where
  nodup : (names b).Nodup
  pending : ∀ name, p name → name ∈ names b
  abandoned : ∀ name, Entry.abandoned name ∈ b → name ∈ names b ∧ ¬ p name
  balance_eq : ∀ a, balance b a = outstanding (Open p b) b a

namespace Kept

variable {p q : ν → Prop} [DecidablePred p] [DecidablePred q] {b : List (Entry ν α)}

theorem nil (hp : ∀ name, ¬ p name) : Kept p ([] : List (Entry ν α)) where
  nodup := List.nodup_nil
  pending name h := absurd h (hp name)
  abandoned _ h := nomatch h
  balance_eq _ := rfl

theorem congr (h : Kept p b) (hq : ∀ name, q name ↔ p name) : Kept q b where
  nodup := h.nodup
  pending name hname := h.pending name ((hq name).mp hname)
  abandoned name hname := ⟨(h.abandoned name hname).1, fun hp =>
    (h.abandoned name hname).2 ((hq name).mp hp)⟩
  balance_eq a := by
    rw [h.balance_eq a]
    exact congrArg Nat.cast (outstanding_congr (fun name _ => or_congr (hq name).symm Iff.rfl) a)

/-- Something is set aside under a new name. -/
theorem reserve (h : Kept p b) {name : ν} (who : α) (amount : ℕ) (hnew : name ∉ names b)
    (hq : ∀ name', q name' ↔ name' = name ∨ p name') :
    Kept q (.reserved name who amount :: b) where
  nodup := List.nodup_cons.mpr ⟨hnew, h.nodup⟩
  pending name' hname' := by
    rcases (hq name').mp hname' with rfl | hp
    · exact List.mem_cons_self
    · exact List.mem_cons_of_mem name (h.pending name' hp)
  abandoned name' hname' := by
    rcases List.mem_cons.mp hname' with heq | hmem
    · cases heq
    · obtain ⟨hknown, hp⟩ := h.abandoned name' hmem
      refine ⟨List.mem_cons_of_mem name hknown, fun hq' => ?_⟩
      rcases (hq name').mp hq' with rfl | hp'
      · exact hnew hknown
      · exact hp hp'
  balance_eq a := by
    -- the older entries do not carry the new name
    have hold : outstanding (Open q (.reserved name who amount :: b)) b a =
        outstanding (Open p b) b a := by
      refine outstanding_congr (fun name' hname' => ?_) a
      have hne : name' ≠ name := fun heq => hnew (heq ▸ hname')
      simp [Open, hq, hne]
    have hopen : Open q (.reserved name who amount :: b) name := .inl ((hq name).mpr (.inl rfl))
    simp only [balance, outstanding, h.balance_eq a, hold, hopen, and_true]
    push_cast
    rfl

/-- A name is done with, and what was set aside under it is given back in full. -/
theorem release (h : Kept p b) {name : ν} {who : α} {amount held : ℕ} (hname : p name)
    (hsound : Sound (.released name who amount held :: b))
    (hamount : ∀ who' amount', Entry.reserved name who' amount' ∈ b → amount' = amount)
    (hq : ∀ name', q name' ↔ name' ≠ name ∧ p name') :
    Kept q (.released name who amount held :: b) where
  nodup := h.nodup
  pending name' hname' := h.pending name' ((hq name').mp hname').2
  abandoned name' hname' := by
    rcases List.mem_cons.mp hname' with heq | hmem
    · cases heq
    · obtain ⟨hknown, hp⟩ := h.abandoned name' hmem
      exact ⟨hknown, fun hq' => hp ((hq name').mp hq').2⟩
  balance_eq a := by
    obtain ⟨hheld, ⟨e, he, hreserves⟩, -⟩ := hsound
    -- soundness gives an entry with this name and owner, and `hamount` says what it set aside
    have hmem : Entry.reserved name who amount ∈ b := by
      cases e with
      | reserved name' who' amount' =>
        obtain ⟨rfl, rfl⟩ := hreserves
        obtain rfl := hamount who' amount' he
        exact he
      | released name' who' amount' held' => cases hreserves
      | abandoned name' => cases hreserves
    have hopen : ∀ name' ∈ names b, Open p b name' ↔
        Open q (.released name who amount held :: b) name' ∨ name' = name := by
      intro name' _
      by_cases heq : name' = name
      · simp [heq, Open, hname]
      · simp [heq, Open, hq]
    have hdisjoint : ∀ name' ∈ names b,
        Open q (.released name who amount held :: b) name' → ¬ name' = name := by
      rintro name' - (hq' | habandoned) rfl
      · exact ((hq name').mp hq').1 rfl
      · rcases List.mem_cons.mp habandoned with heq | hmem'
        · cases heq
        · exact (h.abandoned name' hmem').2 hname
    -- so what is outstanding is the rest and the released entry
    have hsplit := outstanding_add hopen hdisjoint a
    rw [outstanding_single h.nodup hmem (fun _ => Iff.rfl) a] at hsplit
    simp only [balance, outstanding, h.balance_eq a, hsplit, min_eq_right hheld]
    push_cast
    split <;> ring

/-- A name is done with, and nothing is given back. -/
theorem abandon (h : Kept p b) {name : ν} (hname : p name)
    (hq : ∀ name', q name' ↔ name' ≠ name ∧ p name') : Kept q (.abandoned name :: b) where
  nodup := h.nodup
  pending name' hname' := h.pending name' ((hq name').mp hname').2
  abandoned name' hname' := by
    rcases List.mem_cons.mp hname' with heq | hmem
    · cases heq
      exact ⟨h.pending name hname, fun hq' => ((hq name).mp hq').1 rfl⟩
    · obtain ⟨hknown, hp⟩ := h.abandoned name' hmem
      exact ⟨hknown, fun hq' => hp ((hq name').mp hq').2⟩
  balance_eq a := by
    simp only [balance, outstanding, h.balance_eq a]
    refine congrArg Nat.cast (outstanding_congr (fun name' _ => ?_) a)
    -- the name stays open, now as an abandoned one
    by_cases heq : name' = name
    · simp [heq, Open, hname]
    · simp [heq, Open, hq]

/-- **The balances are what is pending**, on all accounts, if and only if nothing but zero was
abandoned. -/
theorem balance_eq_iff (h : Kept p b) :
    (∀ a, balance b a = outstanding p b a) ↔
      ∀ name who amount, Entry.reserved name who amount ∈ b → Entry.abandoned name ∈ b →
        amount = 0 := by
  rw [← outstanding_eq_zero_iff (p := fun name => Entry.abandoned name ∈ b)]
  refine forall_congr' fun a => ?_
  have hsplit := outstanding_add (p := Open p b) (q := p)
    (r := fun name => Entry.abandoned name ∈ b) (b := b) (fun _ _ => Iff.rfl)
    (fun name _ hp habandoned => (h.abandoned name habandoned).2 hp) a
  rw [h.balance_eq a, hsplit]
  omega

end Kept

end Escrow
