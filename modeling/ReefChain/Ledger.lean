import Mathlib.Algebra.BigOperators.Group.Finset.Basic
import Mathlib.Algebra.BigOperators.Group.Finset.Piecewise
import Mathlib.Data.Fintype.Basic
import Mathlib.Logic.Function.Basic
import ReefChain.Lib.Fallible
import ReefChain.Primitives

/-!
# The native currency

The pallets hold and move the native token through the currency traits of the framework. Two
views of them are used.

* `Ledger` has a free and a reserved balance per account, with the trait operations on them.
  `unreserve` and `repatriateReserved` are best effort: they move at most what is reserved and
  return the part they could not move. The ledger has no locks and does not reap accounts.

  An account whose existence rests on its free balance, and on which a reserve rests, cannot give up
  that balance: the framework refuses to take the last provider from an account that has a consumer
  (`Sustains`). An account that something else provides for (`provided`), such as a balance of
  another token, is free of this rule; if every account is, the ledger is a plain one. The
  existential deposit is one unit, as in the runtime, so that there is no dust.
* `Currency` is the interface a pallet that only burns, mints and reserves relies on. It carries
  the laws of its operations as fields, so a result about a pallet over an arbitrary `Currency`
  holds for every implementation that keeps them; `Ledger.currency` is one.
-/

namespace Reef

/-- The errors of the currency operations. -/
inductive CurrencyError
  | insufficientBalance
  | keepAlive
  | consumerRemaining
  | frozen
  | deadAccount
  | overflow
  deriving DecidableEq, Repr

/-- `sp_runtime::DispatchError`, for a pallet with errors `ε`. -/
inductive DispatchError (ε : Type)
  | module (e : ε)
  | currency (e : CurrencyError)
  | other (message : String)
  deriving DecidableEq, Repr

/-- A ledger over accounts `α`. -/
structure Ledger (α : Type) where
  free : α → ℕ
  reserved : α → ℕ
  /-- Whether the account has another provider than its balance. -/
  provided : α → Bool := fun _ => false

namespace Ledger

variable {α : Type} [DecidableEq α]

/-- Nothing is reserved, and only the balances provide for the accounts. -/
def ofFree (free : α → ℕ) : Ledger α where
  free := free
  reserved _ := 0

/-- A plain ledger: something else provides for every account, and nothing is refused for its
sake. -/
def plain (free reserved : α → ℕ) : Ledger α where
  free := free
  reserved := reserved
  provided _ := true

/-- The account may be left with these balances: it keeps a provider, or nothing is reserved. -/
def Sustains (l : Ledger α) (a : α) (free reserved : ℕ) : Prop :=
  0 < free ∨ reserved = 0 ∨ l.provided a = true

instance (l : Ledger α) (a : α) (free reserved : ℕ) : Decidable (l.Sustains a free reserved) :=
  inferInstanceAs (Decidable (_ ∨ _))

/-- `ReservableCurrency::reserve`: move `v` from free to reserved. -/
def reserve (l : Ledger α) (a : α) (v : ℕ) : Except CurrencyError (Ledger α) :=
  if v = 0 then .ok l
  else if l.free a < v then .error .insufficientBalance
  else if l.Sustains a (l.free a - v) (l.reserved a + v) then
    .ok { l with
      free := Function.update l.free a (l.free a - v)
      reserved := Function.update l.reserved a (l.reserved a + v) }
  else .error .consumerRemaining

/-- `ReservableCurrency::unreserve`: move up to `v` from reserved to free; the amount that was not
reserved is returned. -/
def unreserve (l : Ledger α) (a : α) (v : ℕ) : Ledger α × ℕ :=
  let actual := min (l.reserved a) v
  ({ l with
      free := Function.update l.free a (l.free a + actual)
      reserved := Function.update l.reserved a (l.reserved a - actual) }, v - actual)

/-- `Currency::transfer` of free balance. -/
def transfer (l : Ledger α) (a b : α) (v : ℕ) : Except CurrencyError (Ledger α) :=
  if v = 0 ∨ a = b then .ok l
  else if l.free a < v then .error .insufficientBalance
  else if l.Sustains a (l.free a - v) (l.reserved a) then
    let free := Function.update l.free a (l.free a - v)
    .ok { l with free := Function.update free b (free b + v) }
  else .error .frozen

/-- `ReservableCurrency::repatriate_reserved` into the beneficiary's reserved balance. The amount
that was not reserved is returned; repatriating to oneself moves nothing. -/
def repatriateReserved (l : Ledger α) (slashed beneficiary : α) (v : ℕ) :
    Ledger α × ℕ :=
  if slashed = beneficiary then (l, v - l.reserved slashed)
  else
    let actual := min (l.reserved slashed) v
    let reserved := Function.update l.reserved slashed (l.reserved slashed - actual)
    ({ l with reserved := Function.update reserved beneficiary (reserved beneficiary + actual) },
      v - actual)

/-- `Currency::withdraw` keeping the account alive, with the imbalance dropped: `v` is burned. The
existential deposit is `ed`. -/
def withdraw (ed : ℕ) (l : Ledger α) (a : α) (v : ℕ) :
    Except CurrencyError (Ledger α) :=
  if v = 0 then .ok l
  else if l.free a < v then .error .insufficientBalance
  else if l.free a - v < ed ∧ ed ≤ l.free a then .error .keepAlive
  else .ok { l with free := Function.update l.free a (l.free a - v) }

/-- `Currency::withdraw` allowing the account to die, with the imbalance dropped. -/
def withdrawAllowDeath (l : Ledger α) (a : α) (v : ℕ) : Except CurrencyError (Ledger α) :=
  if v = 0 then .ok l
  else if l.free a < v then .error .insufficientBalance
  else if l.Sustains a (l.free a - v) (l.reserved a) then
    .ok { l with free := Function.update l.free a (l.free a - v) }
  else .error .consumerRemaining

/-- `Currency::deposit_creating` with the imbalance dropped, for an amount that does not overflow
the balance. -/
def depositCreating (l : Ledger α) (a : α) (v : ℕ) : Ledger α :=
  { l with free := Function.update l.free a (l.free a + v) }

/-- `Currency::slash`: burn up to `v`, the free balance first; what could not be burned is
returned. -/
def slash (l : Ledger α) (a : α) (v : ℕ) : Ledger α × ℕ :=
  let free := min (l.free a) v
  let reserved := min (l.reserved a) (v - free)
  ({ l with
     free := Function.update l.free a (l.free a - free)
     reserved := Function.update l.reserved a (l.reserved a - reserved) }, v - free - reserved)

/-- `ReservableCurrency::slash_reserved`: burn up to `v` of the reserved balance. -/
def slashReserved (l : Ledger α) (a : α) (v : ℕ) : Ledger α × ℕ :=
  let actual := min (l.reserved a) v
  ({ l with reserved := Function.update l.reserved a (l.reserved a - actual) }, v - actual)

/-- An operation from `l` to `l'` has emptied the account. -/
def emptied (l l' : Ledger α) (a : α) : Bool :=
  decide (0 < l.free a + l.reserved a ∧ l'.free a + l'.reserved a = 0)

/-- `Currency::deposit_into_existing` with the imbalance dropped: `v` is minted. -/
def depositIntoExisting (l : Ledger α) (a : α) (v : ℕ) : Except CurrencyError (Ledger α) :=
  if v = 0 then .ok l
  else if l.free a + l.reserved a = 0 then .error .deadAccount
  else if 2 ^ balanceBits ≤ l.free a + v then .error .overflow
  else .ok { l with free := Function.update l.free a (l.free a + v) }

/-! ### What the operations do to the reserved balances -/

variable {l l' : Ledger α} {a b c : α} {v : ℕ}

/-- Reserving succeeds if the funds are there and the account is left with a provider. -/
theorem reserve_eq_ok : l.reserve a v = .ok l' ↔
    (v = 0 ∨ v ≤ l.free a ∧ l.Sustains a (l.free a - v) (l.reserved a + v)) ∧ l' = { l with
      free := Function.update l.free a (l.free a - v)
      reserved := Function.update l.reserved a (l.reserved a + v) } := by
  unfold reserve
  split_ifs with hzero hlow hsustains
  · subst hzero
    simp only [true_or, Nat.sub_zero, Nat.add_zero, Function.update_eq_self, true_and]
    exact ⟨fun h => (Except.ok.inj h).symm, fun h => congrArg Except.ok h.symm⟩
  · simp [hzero, Nat.not_le.mpr hlow]
  · simp [hzero, Nat.not_lt.mp hlow, hsustains, eq_comm]
  · simp [hzero, hsustains]

/-- What is reserved was there. -/
theorem reserve_le (h : l.reserve a v = .ok l') : v ≤ l.free a := by
  obtain ⟨rfl | ⟨hle, -⟩, -⟩ := reserve_eq_ok.mp h
  · exact Nat.zero_le _
  · exact hle

/-- A reserve that leaves something succeeds. -/
theorem reserve_of_lt (h : v < l.free a) : l.reserve a v = .ok { l with
    free := Function.update l.free a (l.free a - v)
    reserved := Function.update l.reserved a (l.reserved a + v) } :=
  reserve_eq_ok.mpr ⟨.inr ⟨h.le, .inl (Nat.sub_pos_of_lt h)⟩, rfl⟩

/-- An account with another provider may reserve everything. -/
theorem reserve_of_provided (hprovided : l.provided a = true) (h : v ≤ l.free a) :
    l.reserve a v = .ok { l with
      free := Function.update l.free a (l.free a - v)
      reserved := Function.update l.reserved a (l.reserved a + v) } :=
  reserve_eq_ok.mpr ⟨.inr ⟨h, .inr (.inr hprovided)⟩, rfl⟩

theorem reserve_reserved (h : l.reserve a v = .ok l') (c : α) :
    l'.reserved c = if c = a then l.reserved a + v else l.reserved c := by
  obtain ⟨-, rfl⟩ := reserve_eq_ok.mp h
  simp [Function.update_apply]

theorem unreserve_reserved (l : Ledger α) (a : α) (v : ℕ) (c : α) :
    (l.unreserve a v).1.reserved c = if c = a then l.reserved a - v else l.reserved c := by
  simp only [unreserve, Function.update_apply]
  split <;> omega

theorem transfer_reserved (h : l.transfer a b v = .ok l') : l'.reserved = l.reserved := by
  unfold transfer at h
  split_ifs at h with hnone hlow hsustains
  · cases h
    rfl
  · cases h
    rfl

theorem withdraw_reserved {ed : ℕ} (h : l.withdraw ed a v = .ok l') : l'.reserved = l.reserved := by
  unfold withdraw at h
  split_ifs at h with h₀ h₁ h₂
  · cases h
    rfl
  · cases h
    rfl

/-- Only the free balance grows. -/
theorem depositIntoExisting_eq_ok (h : l.depositIntoExisting a v = .ok l') :
    l' = { l with free := Function.update l.free a (l.free a + v) } := by
  unfold depositIntoExisting at h
  split_ifs at h with h₀ h₁ h₂
  · cases h
    simp [h₀]
  · cases h
    rfl

theorem repatriateReserved_reserved (l : Ledger α) (a b : α) (v : ℕ) (c : α) :
    (l.repatriateReserved a b v).1.reserved c =
      if a = b then l.reserved c
      else if c = a then l.reserved a - v
      else if c = b then l.reserved b + min (l.reserved a) v
      else l.reserved c := by
  unfold repatriateReserved
  by_cases hab : a = b
  · simp [hab]
  · simp only [hab, if_false, Function.update_apply]
    by_cases hca : c = a
    · subst hca
      simp only [hab, if_true, if_false]
      omega
    · by_cases hcb : c = b
      · subst hcb
        simp [hca]
      · simp [hca, hcb]

/-! ### What the operations do to the totals -/

/-- What an account holds, free or reserved. -/
def total (l : Ledger α) (a : α) : ℕ := l.free a + l.reserved a

/-- Reserving moves within the account. -/
theorem reserve_total (h : l.reserve a v = .ok l') (c : α) : l'.total c = l.total c := by
  have hv := reserve_le h
  obtain ⟨-, rfl⟩ := reserve_eq_ok.mp h
  unfold total
  by_cases hc : c = a
  · subst hc
    simp only [Function.update_self]
    omega
  · simp only [Function.update_of_ne hc]

theorem unreserve_total (l : Ledger α) (a : α) (v : ℕ) (c : α) :
    (l.unreserve a v).1.total c = l.total c := by
  unfold total unreserve
  by_cases hc : c = a
  · subst hc
    simp only [Function.update_self]
    omega
  · simp only [Function.update_of_ne hc]

/-- A withdrawal takes the amount out of the ledger. -/
theorem withdraw_total {ed : ℕ} (h : l.withdraw ed a v = .ok l') : l'.total a + v = l.total a := by
  unfold withdraw at h
  split_ifs at h with h₀ h₁ h₂
  · cases h
    rw [h₀, Nat.add_zero]
  · cases h
    simp only [total, Function.update_self]
    omega

/-- An account that exists takes every deposit that fits. -/
theorem depositIntoExisting_of_lt (hexists : l.total a ≠ 0)
    (hfits : l.free a + v < 2 ^ balanceBits) :
    l.depositIntoExisting a v =
      .ok { l with free := Function.update l.free a (l.free a + v) } := by
  unfold depositIntoExisting
  split_ifs with h₀ h₁ h₂
  · rw [h₀, Nat.add_zero, Function.update_eq_self]
  · exact absurd h₁ hexists
  · exact absurd hfits (not_lt.mpr h₂)
  · rfl

theorem depositIntoExisting_total (h : l.depositIntoExisting a v = .ok l') :
    l'.total a = l.total a + v := by
  rw [depositIntoExisting_eq_ok h]
  simp only [total, Function.update_self]
  omega

theorem transfer_free (h : l.transfer a b v = .ok l') (c : α) :
    l'.free c = if a = b then l.free c else if c = a then l.free a - v
      else if c = b then l.free b + v else l.free c := by
  unfold transfer at h
  split at h
  · next hnone =>
    cases h
    -- nothing moves: the value is zero or it is sent to oneself
    by_cases hab : a = b
    · rw [if_pos hab]
    · obtain rfl : v = 0 := hnone.resolve_right hab
      rw [if_neg hab]
      split_ifs with hc hc
      · rw [hc, Nat.sub_zero]
      · rw [hc, Nat.add_zero]
      · rfl
  · next hsome =>
    split_ifs at h with hlow hsustains
    cases h
    have hab : a ≠ b := fun hab => hsome (.inr hab)
    rw [if_neg hab]
    simp only [Function.update_apply]
    by_cases hca : c = a
    · subst hca
      rw [if_neg hab, if_pos rfl, if_pos rfl]
    · rw [if_neg hca, if_neg hca, if_neg (Ne.symm hab)]

/-- What is transferred was there. -/
theorem transfer_le (h : l.transfer a b v = .ok l') (hab : a ≠ b) : v ≤ l.free a := by
  unfold transfer at h
  split_ifs at h with hnone hlow hsustains
  · exact (hnone.resolve_right hab).le.trans (Nat.zero_le _)
  · exact Nat.not_lt.mp hlow

/-- Slashing returns what it has not burned. -/
theorem slash_rest (l : Ledger α) (a : α) (v : ℕ) :
    (l.slash a v).2 + l.total a = v + (l.slash a v).1.total a := by
  simp only [slash, total, Function.update_self]
  omega

/-- What is not slashed is returned as the rest. -/
theorem slashReserved_rest (l : Ledger α) (a : α) (v : ℕ) :
    (l.slashReserved a v).2 + l.reserved a = v + (l.slashReserved a v).1.reserved a := by
  simp only [slashReserved, Function.update_self]
  omega

theorem repatriateReserved_free (l : Ledger α) (a b : α) (v : ℕ) :
    (l.repatriateReserved a b v).1.free = l.free := by
  unfold repatriateReserved
  split <;> rfl

end Ledger

/-! ### The interface -/

/-- The currency a pallet is configured with: its state, the operations the pallet uses and their
laws. Burning and minting are exact, they touch one free balance, and reserving moves funds within
an account. A failed operation returns no new state. -/
structure Currency (α : Type) where
  /-- The state of the currency. -/
  Book : Type
  totalIssuance : Book → ℕ
  freeBalance : Book → α → ℕ
  reserve : Book → α → ℕ → Except CurrencyError Book
  unreserve : Book → α → ℕ → Book × ℕ
  withdraw : Book → α → ℕ → Except CurrencyError Book
  depositIntoExisting : Book → α → ℕ → Except CurrencyError Book
  reserve_issuance : ∀ {l a v l'}, reserve l a v = .ok l' → totalIssuance l' = totalIssuance l
  unreserve_issuance : ∀ l a v, totalIssuance (unreserve l a v).1 = totalIssuance l
  withdraw_issuance : ∀ {l a v l'}, withdraw l a v = .ok l' →
    totalIssuance l' + v = totalIssuance l
  deposit_issuance : ∀ {l a v l'}, depositIntoExisting l a v = .ok l' →
    totalIssuance l' = totalIssuance l + v
  deposit_free : ∀ {l a v l'}, depositIntoExisting l a v = .ok l' →
    freeBalance l' a = freeBalance l a + v

namespace Ledger

variable {α : Type} [DecidableEq α] [Fintype α] {l l' : Ledger α} {a : α} {v : ℕ}

/-- `Currency::total_issuance` of a ledger over finitely many accounts. -/
def totalIssuance (l : Ledger α) : ℕ := ∑ a, l.free a + ∑ a, l.reserved a

/-- Overwriting one entry replaces its part of the sum. -/
theorem sum_update (f : α → ℕ) (a : α) (w : ℕ) :
    ∑ b, Function.update f a w b + f a = ∑ b, f b + w := by
  rw [Finset.sum_update_of_mem (Finset.mem_univ a),
    ← Finset.sum_sdiff (Finset.subset_univ {a}), Finset.sum_singleton]
  omega

theorem reserve_totalIssuance (h : l.reserve a v = .ok l') :
    l'.totalIssuance = l.totalIssuance := by
  have hv := reserve_le h
  obtain ⟨-, rfl⟩ := reserve_eq_ok.mp h
  have hfree := sum_update l.free a (l.free a - v)
  have hres := sum_update l.reserved a (l.reserved a + v)
  simp only [totalIssuance]
  omega

theorem unreserve_totalIssuance (l : Ledger α) (a : α) (v : ℕ) :
    (l.unreserve a v).1.totalIssuance = l.totalIssuance := by
  have hfree := sum_update l.free a (l.free a + min (l.reserved a) v)
  have hres := sum_update l.reserved a (l.reserved a - min (l.reserved a) v)
  simp only [totalIssuance, unreserve]
  omega

theorem withdraw_totalIssuance {ed : ℕ} (h : l.withdraw ed a v = .ok l') :
    l'.totalIssuance + v = l.totalIssuance := by
  have hfree := sum_update l.free a (l.free a - v)
  unfold withdraw at h
  split_ifs at h with h₀ h₁ h₂
  · cases h
    omega
  · cases h
    simp only [totalIssuance]
    omega

theorem depositIntoExisting_totalIssuance (h : l.depositIntoExisting a v = .ok l') :
    l'.totalIssuance = l.totalIssuance + v := by
  obtain rfl := depositIntoExisting_eq_ok h
  have hfree := sum_update l.free a (l.free a + v)
  simp only [totalIssuance]
  omega

/-- The plain ledger with existential deposit `ed` is a currency. -/
def currency (α : Type) [DecidableEq α] [Fintype α] (ed : ℕ) : Currency α where
  Book := Ledger α
  totalIssuance := totalIssuance
  freeBalance := free
  reserve := reserve
  unreserve := unreserve
  withdraw := withdraw ed
  depositIntoExisting := depositIntoExisting
  reserve_issuance := reserve_totalIssuance
  unreserve_issuance := unreserve_totalIssuance
  withdraw_issuance := withdraw_totalIssuance
  deposit_issuance := depositIntoExisting_totalIssuance
  deposit_free h := by
    obtain rfl := depositIntoExisting_eq_ok h
    simp

/-- A withdrawal that leaves the existential deposit succeeds. -/
theorem currency_withdraw (ed : ℕ) (l : Ledger α) (hv : v ≠ 0) (hfree : v ≤ l.free a)
    (hed : ed ≤ l.free a - v) :
    (currency α ed).withdraw l a v =
      .ok { l with free := Function.update l.free a (l.free a - v) } := by
  have h : l.withdraw ed a v = .ok { l with free := Function.update l.free a (l.free a - v) } := by
    unfold withdraw
    rw [if_neg hv, if_neg (by omega), if_neg (by omega)]
  exact h

/-- A deposit into an account that holds something succeeds below the largest balance. -/
theorem currency_depositIntoExisting (ed : ℕ) (l : Ledger α)
    (halive : l.free a + l.reserved a ≠ 0) (hlt : l.free a + v < 2 ^ balanceBits) :
    (currency α ed).depositIntoExisting l a v =
      .ok { l with free := Function.update l.free a (l.free a + v) } :=
  depositIntoExisting_of_lt halive hlt

end Ledger

end Reef
