import Mathlib.Algebra.Order.Ring.Int
import ReefChain.Tokens.Dust

/-!
# The issuance is what the accounts hold

For every currency the pallet keeps the total issuance next to the accounts. This module shows that
it is the sum of all balances, free and reserved, in every state that is reached.

An operation writes the issuance and the accounts one after the other, and the dust handler runs in
between. So what the steps of an operation keep is a weaker statement: for the one currency `c` the
operation is about, the issuance is what the accounts hold *and* an amount `k` that is in flight
(`Backed`). The amount is negative when the accounts are credited first, as they are when a reserve
is repatriated. Each write moves `k` by what it adds to or takes from an account
(`Backed.settle`) or the issuance (`Backed.setIssuance`); a sweep leaves it (`Backed.swept`). At the
end of an operation nothing is in flight.

There is one exception. When a transfer leaves the sender with dust, and the dust is transferred to
the recipient of that very transfer, the recipient has been read before the dust arrives and is
written afterwards: the dust is gone, and the issuance still counts it
(`transfer_to_receiver_loses`). With the unit hook, which the runtime is configured with, and when
dust is burned, this cannot happen. So the statements below carry the amount `lost` of each
currency. It is nothing at genesis, and every operation but such a transfer keeps it. Where it does
not matter how much has been lost, `Covered` is enough: no more is held than issued, after any
operations.
-/

namespace Reef.Tokens

open Bounded Fallible

variable {α κ ι : Type} [DecidableEq κ] {cfg : Config α κ} {s s' : State α κ ι} {who : α} {c : κ}
  {a : AccountData} {existed : Bool} {k k' : ℤ} {lost : κ → ℕ}

/-- What one entry of the accounts holds of a currency. -/
def holding (c : κ) (key : α × κ) (a : AccountData) : ℕ :=
  if key.2 = c then a.free + a.reserved else 0

/-- What all accounts hold of a currency, free or reserved. -/
def held (s : State α κ ι) (c : κ) : ℕ := FiniteMap.total (holding c) s.accounts

theorem totalIssuance_setIssuance_self (s : State α κ ι) (c : κ) (v : ℕ) :
    (s.setIssuance c v).totalIssuance c = v := by
  simp [State.setIssuance]

variable {v amount : ℕ} {source dest receiver : α} {existence : ExistenceRequirement}

theorem totalIssuance_setIssuance_of_ne {d : κ} (hd : d ≠ c) :
    (s.setIssuance c v).totalIssuance d = s.totalIssuance d := by
  simp [State.setIssuance, hd]

@[simp] theorem held_setIssuance (s : State α κ ι) (c d : κ) (v : ℕ) :
    held (s.setIssuance c v) d = held s d := rfl

/-- The balances of an account. -/
def AccountData.sum (a : AccountData) : ℕ := a.free + a.reserved

/-! ### An amount in flight -/

/-- The issuance of `c` is what the accounts hold, what has been lost of it, and `k`; that of the
other currencies is what the accounts hold and what has been lost. No issuance overflows. -/
structure Backed (lost : κ → ℕ) (s : State α κ ι) (c : κ) (k : ℤ) : Prop where
  here : (held s c : ℤ) + lost c + k = s.totalIssuance c
  elsewhere : ∀ d, d ≠ c → held s d + lost d = s.totalIssuance d
  fits : ∀ d, s.totalIssuance d < 2 ^ balanceBits

/-- Nothing is in flight: for every currency the issuance is what the accounts hold and what has
been lost of it. -/
def Balanced (lost : κ → ℕ) (s : State α κ ι) : Prop :=
  ∀ c, held s c + lost c = s.totalIssuance c ∧ s.totalIssuance c < 2 ^ balanceBits

/-- No more is held than issued, of any currency. This is all that an operation needs to know of the
issuance, and unlike `Balanced` it does not say how much has been lost. -/
def Covered (s : State α κ ι) : Prop :=
  ∀ c, held s c ≤ s.totalIssuance c ∧ s.totalIssuance c < 2 ^ balanceBits

/-- What is held and what is lost are the issuance, so it covers what is held. -/
theorem Balanced.covered (hb : Balanced lost s) : Covered s := fun c =>
  ⟨(Nat.le_add_right _ _).trans (hb c).1.le, (hb c).2⟩

/-- What is not held of the issuance has been lost. -/
theorem Covered.balanced (h : Covered s) : Balanced (fun c => s.totalIssuance c - held s c) s :=
  fun c => ⟨Nat.add_sub_of_le (h c).1, (h c).2⟩

/-- Between operations nothing is in flight. -/
theorem Balanced.backed (hb : Balanced lost s) (c : κ) : Backed lost s c 0 where
  here := by
    have hhere := (hb c).1
    omega
  elsewhere d _ := (hb d).1
  fits d := (hb d).2

/-- What stays in flight at the end of an operation is lost. -/
theorem Backed.covered (hb : Backed lost s c k) (hk : 0 ≤ k) : Covered s := by
  intro d
  refine ⟨?_, hb.fits d⟩
  by_cases hd : d = c
  · have hhere := hb.here
    rw [hd]
    omega
  · have helsewhere := hb.elsewhere d hd
    omega

/-- With nothing in flight the books are balanced again. -/
theorem Backed.balanced (hb : Backed lost s c 0) : Balanced lost s := by
  intro d
  refine ⟨?_, hb.fits d⟩
  by_cases hd : d = c
  · have hhere := hb.here
    rw [hd]
    omega
  · exact hb.elsewhere d hd

theorem emptyState_balanced : Balanced (fun _ => 0) (emptyState : State α κ ι) :=
  fun _ => ⟨rfl, Nat.two_pow_pos _⟩

/-- Locks, named reserves and reference counters do not matter. -/
theorem Backed.congr (hb : Backed lost s c k) (haccounts : s'.accounts = s.accounts)
    (hissuance : s'.totalIssuance = s.totalIssuance) : Backed lost s' c k := by
  obtain ⟨hhere, helsewhere, hfits⟩ := hb
  unfold held at hhere helsewhere
  refine ⟨?_, ?_, ?_⟩
  · unfold held
    rw [haccounts, hissuance]
    exact hhere
  · unfold held
    rw [haccounts, hissuance]
    exact helsewhere
  · rw [hissuance]
    exact hfits

/-- Writing the issuance moves the amount in flight by the difference. -/
theorem Backed.setIssuance (hb : Backed lost s c k) (hk : (v : ℤ) + k = s.totalIssuance c + k')
    (hv : v < 2 ^ balanceBits) :
    Backed lost (s.setIssuance c v) c k' where
  here := by
    have hhere := hb.here
    rw [totalIssuance_setIssuance_self, held_setIssuance]
    omega
  elsewhere d hd := by
    rw [totalIssuance_setIssuance_of_ne hd, held_setIssuance]
    exact hb.elsewhere d hd
  fits d := by
    by_cases hd : d = c
    · rw [hd, totalIssuance_setIssuance_self]
      exact hv
    · rw [totalIssuance_setIssuance_of_ne hd]
      exact hb.fits d

theorem Balanced.congr (hb : Balanced lost s) (haccounts : s'.accounts = s.accounts)
    (hissuance : s'.totalIssuance = s.totalIssuance) : Balanced lost s' := by
  intro c
  exact ((hb.backed c).congr haccounts hissuance).balanced c

/-! ### What each write does -/

variable [DecidableEq α]

/-- The weight of an account is the sum of its balances. -/
theorem weightAt_holding (s : State α κ ι) (who : α) (c : κ) :
    FiniteMap.weightAt (holding c) s.accounts (who, c) = (s.account who c).sum := by
  unfold FiniteMap.weightAt State.account
  cases s.accounts.lookup (who, c) with
  | none => rfl
  | some a => exact if_pos rfl

/-- Writing an account replaces its part of what is held. -/
theorem held_settle : held (settle cfg s who c existed a) c + (s.account who c).sum =
    held s c + a.sum := by
  unfold held
  rw [settle_accounts, ← weightAt_holding]
  split
  · next hreaps =>
    obtain ⟨hfree, hreserved⟩ := balances_of_reaps hreaps
    have herase := FiniteMap.total_erase (holding c) s.accounts (who, c)
    unfold AccountData.sum
    omega
  · have hinsert := FiniteMap.total_insert (holding c) s.accounts (who, c) a
    have hown : holding c (who, c) a = a.sum := if_pos rfl
    omega

/-- The other currencies are not touched. -/
theorem held_settle_of_ne {d : κ} (hd : d ≠ c) :
    held (settle cfg s who c existed a) d = held s d := by
  have hweight : FiniteMap.weightAt (holding d) s.accounts (who, c) = 0 := by
    unfold FiniteMap.weightAt
    cases s.accounts.lookup (who, c) with
    | none => rfl
    | some b => exact if_neg (Ne.symm hd)
  unfold held
  rw [settle_accounts]
  split
  · have herase := FiniteMap.total_erase (holding d) s.accounts (who, c)
    omega
  · have hinsert := FiniteMap.total_insert (holding d) s.accounts (who, c) a
    have hown : holding d (who, c) a = 0 := if_neg (Ne.symm hd)
    omega

/-- What different accounts hold is part of what all hold. -/
theorem sum_add_sum_le_held {w : α} (hne : w ≠ who) :
    (s.account w c).sum + (s.account who c).sum ≤ held s c := by
  have hnodup : [(w, c), (who, c)].Nodup := by simp [hne]
  have hle := FiniteMap.sum_weightAt_le_total (holding c) hnodup s.accounts
  simpa [held, weightAt_holding] using hle

theorem sum_le_held (s : State α κ ι) (who : α) (c : κ) : (s.account who c).sum ≤ held s c := by
  rw [← weightAt_holding]
  exact FiniteMap.weightAt_le_total _ _ _

/-- What an account holds is issued, if no more is held than issued. -/
theorem Backed.sum_le (hb : Backed lost s c k) (hk : 0 ≤ k) (who : α) :
    (s.account who c).sum ≤ s.totalIssuance c := by
  have hhere := hb.here
  have hle := sum_le_held s who c
  omega

/-- What is covered by the issuance fits a balance. -/
theorem Backed.account_fits (hb : Backed lost s c k) (hk : 0 ≤ k) (who : α) :
    (s.account who c).Fits :=
  (hb.sum_le hk who).trans_lt (hb.fits c)

/-- What two accounts hold together is issued. -/
theorem Covered.sum_add_sum_le {w : α} (h : Covered s) (hne : w ≠ who) :
    (s.account w c).sum + (s.account who c).sum ≤ s.totalIssuance c :=
  (sum_add_sum_le_held hne).trans (h c).1

/-- The balances of an account fit together, as they are issued. -/
theorem Covered.account_fits (h : Covered s) (who : α) (c : κ) : (s.account who c).Fits :=
  (h.balanced.backed c).account_fits (Int.le_refl 0) who

/-- Writing an account moves the amount in flight by the difference. -/
theorem Backed.settle (hb : Backed lost s c k)
    (hk : k' + a.sum = k + (s.account who c).sum) :
    Backed lost (settle cfg s who c existed a) c k' where
  here := by
    have hheld : held (Tokens.settle cfg s who c existed a) c + (s.account who c).sum =
      held s c + a.sum := held_settle
    have hhere := hb.here
    rw [settle_totalIssuance]
    omega
  elsewhere d hd := by
    rw [held_settle_of_ne hd, settle_totalIssuance]
    exact hb.elsewhere d hd
  fits := by
    rw [settle_totalIssuance]
    exact hb.fits

/-- **A sweep leaves the amount in flight.** -/
theorem Backed.swept (hb : Backed lost s c k) (hle : (s.account who c).free ≤ s.totalIssuance c)
    (h : Swept cfg s who c s') : Backed lost s' c k := by
  cases h with
  | kept => exact hb
  | moved receiver hcfg hne hreserved hfrozen hfits =>
    -- the account is emptied, and the receiver is as it was before
    have hemptied : Backed lost (Tokens.settle cfg s who c (s.stored who c)
        ((s.account who c).debit (s.account who c).free)) c (k + (s.account who c).free) := by
      refine hb.settle ?_
      simp only [AccountData.sum, AccountData.debit]
      omega
    refine hemptied.settle ?_
    rw [account_settle_of_ne fun heq => hne (congrArg Prod.fst heq).symm]
    simp only [AccountData.sum, AccountData.credit]
    omega
  | burnt hcfg hreserved hfrozen =>
    have hfits := hb.fits c
    have hburnt : Backed lost
        (s.setIssuance c (s.totalIssuance c - (s.account who c).free)) c
        (k - (s.account who c).free) :=
      hb.setIssuance (by omega) (by omega)
    refine hburnt.settle ?_
    rw [account_setIssuance]
    simp only [AccountData.sum, AccountData.debit]
    omega

/-- The mutation of an account, when the new balances are known to fit. -/
theorem Backed.finish (hb : Backed lost s c k) (hk : k' + a.sum = k + (s.account who c).sum)
    (hle : a.sum ≤ s.totalIssuance c) :
    Backed lost (finish cfg (handler cfg) s who c existed a) c k' := by
  have hsettled : Backed lost (Tokens.settle cfg s who c existed a) c k' := hb.settle hk
  refine hsettled.swept ?_ (finish_swept cfg s who c existed a)
  rw [settle_free, settle_totalIssuance]
  exact (Nat.le_add_right _ _).trans hle

/-- The mutation of an account, when no more is held than issued in the end. -/
theorem Backed.finish_of_nonneg (hb : Backed lost s c k) (hk' : 0 ≤ k')
    (hk : k' + a.sum = k + (s.account who c).sum) :
    Backed lost (Tokens.finish cfg (handler cfg) s who c existed a) c k' := by
  refine hb.finish hk ?_
  have hsettled : Backed lost (Tokens.settle cfg s who c existed a) c k' := hb.settle hk
  have hle := hsettled.sum_le hk' who
  rw [settle_totalIssuance] at hle
  calc a.sum = ((Tokens.settle cfg s who c existed a).account who c).sum := by
        unfold AccountData.sum
        rw [settle_free, settle_reserved]
    _ ≤ s.totalIssuance c := hle

/-! ### The operations -/

/-- Writing an account with the same sum keeps the books. -/
theorem Balanced.finish (hb : Balanced lost s) (hsum : a.sum = (s.account who c).sum) :
    Balanced lost (finish cfg (handler cfg) s who c existed a) :=
  ((hb.backed c).finish_of_nonneg (Int.le_refl 0) (by rw [hsum])).balanced

/-- Once the sender of a transfer is written, the amount is in flight. -/
theorem Balanced.sent (hb : Balanced lost s)
    (hcan : CanTransfer cfg s c source dest amount existence) :
    Backed lost (Tokens.finish cfg (handler cfg) s source c (s.stored source c)
      ((s.account source c).debit amount)) c amount := by
  have hcovered := hcan.covered
  refine (hb.backed c).finish_of_nonneg (Int.natCast_nonneg amount) ?_
  simp only [AccountData.sum, AccountData.debit]
  omega

/-- A transfer that leaves no dust for its own recipient. -/
theorem doTransfer_balanced (hb : Balanced lost s)
    (hdust : cfg.onDust = .transferDust dest →
      dustOf cfg source c ((s.account source c).debit amount) = none)
    (h : doTransfer cfg (handler cfg) s c source dest amount existence = .ok s') :
    Balanced lost s' := by
  by_cases hnoop : amount = 0 ∨ source = dest
  · rw [doTransfer_of_noop hnoop] at h
    cases h
    exact hb
  obtain ⟨hamount, hne⟩ := not_or.mp hnoop
  obtain ⟨hcan, rfl⟩ := (doTransfer_eq_ok hamount hne).mp h
  -- the amount is in flight from the write of the sender to that of the recipient
  suffices harrived : Backed lost (transferred cfg (handler cfg) s c source dest amount) c 0 from
    harrived.balanced
  refine (hb.sent hcan).settle ?_
  have hrecipient : (finish cfg (handler cfg) s source c (s.stored source c)
      ((s.account source c).debit amount)).account dest c = s.account dest c := by
    have hpair : (dest, c) ≠ (source, c) := fun heq => hne (congrArg Prod.fst heq).symm
    by_cases hreceiver : cfg.onDust = .transferDust dest
    · rw [finish_of_dustOf_none (hdust hreceiver), account_settle_of_ne hpair]
    · exact finish_account_of_ne hpair hreceiver
  rw [hrecipient]
  simp only [AccountData.sum, AccountData.credit]
  omega

/-- A sweep takes nothing from the other accounts. -/
theorem Swept.sum_le {w : α} (h : Swept cfg s who c s') (hne : w ≠ who) :
    (s.account w c).sum ≤ (s'.account w c).sum := by
  have hpair : (w, c) ≠ (who, c) := fun heq => hne (congrArg Prod.fst heq)
  cases h with
  | kept => exact Nat.le_refl _
  | moved receiver _ _ _ _ _ _ =>
    by_cases hreceiver : w = receiver
    · subst hreceiver
      simp only [AccountData.sum, settle_free, settle_reserved, AccountData.credit]
      omega
    · rw [account_settle_of_ne fun heq => hreceiver (congrArg Prod.fst heq),
        account_settle_of_ne hpair]
  | burnt _ _ _ => rw [account_settle_of_ne hpair, account_setIssuance]

/-- Writing the sender of a transfer takes nothing from the recipient: at most it gets dust. -/
theorem sum_le_sum_sent (cfg : Config α κ) (s : State α κ ι) (c : κ) (hne : source ≠ dest)
    (existed : Bool) (a : AccountData) :
    (s.account dest c).sum ≤
      ((finish cfg (handler cfg) s source c existed a).account dest c).sum := by
  have hle := (finish_swept cfg s source c existed a).sum_le (Ne.symm hne)
  rwa [account_settle_of_ne fun heq => hne (congrArg Prod.fst heq).symm] at hle

/-- **A transfer leaves no more held than issued**, whether dust is lost on the way or not. -/
theorem doTransfer_covered (hs : Covered s)
    (h : doTransfer cfg (handler cfg) s c source dest amount existence = .ok s') : Covered s' := by
  by_cases hnoop : amount = 0 ∨ source = dest
  · rw [doTransfer_of_noop hnoop] at h
    cases h
    exact hs
  obtain ⟨hamount, hne⟩ := not_or.mp hnoop
  obtain ⟨hcan, rfl⟩ := (doTransfer_eq_ok hamount hne).mp h
  have hle := sum_le_sum_sent cfg s c hne (s.stored source c)
    ((s.account source c).debit amount)
  have hsent := hs.balanced.sent hcan
  -- what the recipient had got in the meantime is overwritten
  generalize hs₁ : finish cfg (handler cfg) s source c (s.stored source c)
    ((s.account source c).debit amount) = s₁ at hle hsent
  have hwritten : Backed (fun c => s.totalIssuance c - held s c)
      (transferred cfg (handler cfg) s c source dest amount) c
      ((s₁.account dest c).sum - (s.account dest c).sum) := by
    unfold transferred
    rw [hs₁]
    refine hsent.settle ?_
    simp only [AccountData.sum, AccountData.credit]
    omega
  exact hwritten.covered (by omega)

/-- A withdrawal takes from the issuance what it takes from the account. -/
theorem doWithdraw_balanced (hb : Balanced lost s)
    (h : doWithdraw cfg (handler cfg) s c who amount existence true = .ok s') :
    Balanced lost s' := by
  by_cases hamount : amount = 0
  · rw [doWithdraw, if_pos hamount] at h
    cases h
    exact hb
  obtain ⟨⟨hle, -⟩, -, rfl⟩ := (doWithdraw_eq_ok hamount).mp h
  have hissued := (hb.backed c).sum_le (Int.le_refl 0) who
  have hfits := (hb c).2
  unfold AccountData.sum at hissued
  -- the issuance is lowered first
  have hburnt : Backed lost (s.setIssuance c (s.totalIssuance c - amount)) c (-amount) :=
    (hb.backed c).setIssuance (by omega) (by omega)
  refine (hburnt.finish_of_nonneg (Int.le_refl 0) ?_).balanced
  simp only [account_setIssuance, AccountData.sum, AccountData.debit]
  omega

/-- A deposit adds to the issuance what it adds to the account. -/
theorem doDeposit_balanced {requireExisted : Bool} (hb : Balanced lost s)
    (h : doDeposit cfg (handler cfg) s c who amount requireExisted true = .ok s') :
    Balanced lost s' := by
  by_cases hamount : amount = 0
  · rw [doDeposit, if_pos hamount] at h
    cases h
    exact hb
  obtain ⟨-, hfits, rfl⟩ := (doDeposit_eq_ok hamount).mp h
  have hissued := (hb.backed c).sum_le (Int.le_refl 0) who
  unfold AccountData.sum at hissued
  have hminted : Backed lost (s.setIssuance c (s.totalIssuance c + amount)) c amount :=
    (hb.backed c).setIssuance (by omega) hfits
  refine (hminted.finish_of_nonneg (Int.le_refl 0) ?_).balanced
  rw [satAdd_of_lt (by omega)]
  simp only [account_setIssuance, AccountData.sum]
  omega

theorem updateBalance_balanced {byAmount : ℤ} (hb : Balanced lost s)
    (h : updateBalance cfg s c who byAmount = .ok s') : Balanced lost s' := by
  unfold updateBalance at h
  split_ifs at h
  · cases h
    exact hb
  · exact doDeposit_balanced hb h
  · exact doWithdraw_balanced hb h

/-- What is taken from the free balance is in flight. -/
theorem Backed.setFreeBalance (hb : Backed lost s c k) (hk : k' + v = k + (s.account who c).free)
    (hle : v + (s.account who c).reserved ≤ s.totalIssuance c) :
    Backed lost (setFreeBalance cfg s c who v) c k' := by
  refine hb.finish ?_ hle
  simp only [AccountData.sum]
  omega

/-- What is taken from the reserved balance is in flight. -/
theorem Backed.setReservedBalance (hb : Backed lost s c k)
    (hk : k' + v = k + (s.account who c).reserved)
    (hle : (s.account who c).free + v ≤ s.totalIssuance c) :
    Backed lost (setReservedBalance cfg s c who v) c k' := by
  refine hb.finish ?_ hle
  simp only [AccountData.sum]
  omega

/-- Slashing lowers the issuance by what it has taken from the two balances. The reserved balance is
written as it was read before the free one is written; a sweep in between has not changed it. -/
theorem slash_balanced (hb : Balanced lost s) (amount : ℕ) :
    Balanced lost (slash cfg s c who amount).1 := by
  unfold slash
  by_cases hamount : amount = 0
  · rw [if_pos hamount]
    exact hb
  rw [if_neg hamount]
  simp only []
  have hissued := (hb.backed c).sum_le (Int.le_refl 0) who
  unfold AccountData.sum at hissued
  set freeSlashed := min (s.account who c).free amount with hfreeSlashed
  set reservedSlashed := min (s.account who c).reserved (amount - freeSlashed)
    with hreservedSlashed
  have hfreeLe : freeSlashed ≤ (s.account who c).free := Nat.min_le_left _ _
  have hreservedLe : reservedSlashed ≤ (s.account who c).reserved := Nat.min_le_left _ _
  -- what was taken from the free balance is in flight
  set s₁ := if freeSlashed ≠ 0 then
    Tokens.setFreeBalance cfg s c who ((s.account who c).free - freeSlashed) else s with hs₁
  have hfirst : Backed lost s₁ c freeSlashed ∧
      (s₁.account who c).reserved = (s.account who c).reserved := by
    rw [hs₁]
    split_ifs with hzero
    · constructor
      · exact (hb.backed c).setFreeBalance (by omega) (by omega)
      · exact finish_reserved_self
    · rw [not_not.mp hzero]
      exact ⟨hb.backed c, rfl⟩
  -- and so is what was taken from the reserved balance
  set s₂ := if reservedSlashed ≠ 0 then
    Tokens.setReservedBalance cfg s₁ c who ((s.account who c).reserved - reservedSlashed)
    else s₁ with hs₂
  have hsecond : Backed lost s₂ c (freeSlashed + reservedSlashed : ℕ) := by
    rw [hs₂]
    split_ifs with hzero
    · have hle := hfirst.1.sum_le (Int.natCast_nonneg _) who
      have hsame := hfirst.2
      unfold AccountData.sum at hle
      exact hfirst.1.setReservedBalance (by omega) (by omega)
    · rw [not_not.mp hzero]
      exact hfirst.1
  have hbound := hsecond.fits c
  have hhere := hsecond.here
  refine (hsecond.setIssuance ?_ (by omega)).balanced
  omega

theorem slashReserved_balanced (hb : Balanced lost s) (value : ℕ) :
    Balanced lost (slashReserved cfg s c who value).1 := by
  unfold slashReserved
  by_cases hvalue : value = 0
  · rw [if_pos hvalue]
    exact hb
  rw [if_neg hvalue]
  simp only []
  set actual := min (s.account who c).reserved value with hactual
  have hslashed : Backed lost (mutateAccount cfg (handler cfg) s who c fun a =>
      { a with reserved := (s.account who c).reserved - actual }) c actual := by
    refine (hb.backed c).finish_of_nonneg (Int.natCast_nonneg _) ?_
    simp only [AccountData.sum]
    omega
  have hfits := hslashed.fits c
  have hhere := hslashed.here
  refine (hslashed.setIssuance ?_ (by omega)).balanced
  omega

theorem reserve_balanced {value : ℕ} (hb : Balanced lost s)
    (h : reserve cfg s c who value = .ok s') : Balanced lost s' := by
  unfold reserve at h
  split at h
  · cases h
    exact hb
  · next hvalue =>
    simp only [bind_eq_ok, ensureCanWithdraw_eq_ok hvalue, Except.ok.injEq] at h
    obtain ⟨-, ⟨hle, -⟩, rfl⟩ := h
    have hfits := (hb.backed c).account_fits (Int.le_refl 0) who
    unfold AccountData.Fits at hfits
    refine hb.finish ?_
    simp only [AccountData.sum]
    rw [satAdd_of_lt (by omega)]
    omega

/-- The account after as much as possible of an amount is unreserved. -/
theorem sum_unreserved (hfits : a.Fits) (actual : ℕ) (hle : actual ≤ a.reserved) :
    AccountData.sum { a with
      reserved := a.reserved - actual, free := satAdd balanceBits a.free actual } = a.sum := by
  unfold AccountData.Fits at hfits
  rw [satAdd_of_lt (by omega)]
  simp only [AccountData.sum]
  omega

theorem unreserve_balanced (hb : Balanced lost s) (value : ℕ) :
    Balanced lost (unreserve cfg s c who value).1 := by
  unfold unreserve
  split
  · exact hb
  · refine hb.finish (sum_unreserved ?_ _ (Nat.min_le_left _ _))
    exact (hb.backed c).account_fits (Int.le_refl 0) who

/-- The first write of a repatriation credits the beneficiary with an amount that is taken from the
other account only afterwards. It leaves the reserved balance of that account. -/
theorem creditStatus_backed (cfg : Config α κ) {slashed beneficiary : α} {actual : ℕ}
    (hb : Balanced lost s) (hne : slashed ≠ beneficiary)
    (hle : actual ≤ (s.account slashed c).reserved) (status : BalanceStatus) :
    Backed lost (creditStatus cfg s c beneficiary (s.account beneficiary c) actual status) c
        (-actual) ∧
      ((creditStatus cfg s c beneficiary (s.account beneficiary c) actual status).account
        slashed c).reserved = (s.account slashed c).reserved := by
  have hboth : (s.account slashed c).sum + (s.account beneficiary c).sum ≤ s.totalIssuance c :=
    hb.covered.sum_add_sum_le hne
  have hfits := (hb c).2
  have hpair : (slashed, c) ≠ (beneficiary, c) := fun heq => hne (congrArg Prod.fst heq)
  unfold AccountData.sum at hboth
  cases status with
  | free =>
    have hadd : satAdd balanceBits (s.account beneficiary c).free actual =
      (s.account beneficiary c).free + actual := satAdd_of_lt (by omega)
    simp only [creditStatus, hadd]
    exact ⟨(hb.backed c).setFreeBalance (by omega) (by omega), finish_reserved_of_ne hpair⟩
  | reserved =>
    have hadd : satAdd balanceBits (s.account beneficiary c).reserved actual =
      (s.account beneficiary c).reserved + actual := satAdd_of_lt (by omega)
    simp only [creditStatus, hadd]
    exact ⟨(hb.backed c).setReservedBalance (by omega) (by omega), finish_reserved_of_ne hpair⟩

theorem repatriateReserved_balanced (hb : Balanced lost s) (slashed beneficiary : α) (value : ℕ)
    (status : BalanceStatus) :
    Balanced lost (repatriateReserved cfg s c slashed beneficiary value status).1 := by
  unfold repatriateReserved
  by_cases hvalue : value = 0
  · rw [if_pos hvalue]
    exact hb
  rw [if_neg hvalue]
  by_cases hne : slashed = beneficiary
  · rw [if_pos hne]
    cases status with
    | free => exact unreserve_balanced hb value
    | reserved => exact hb
  rw [if_neg hne]
  simp only []
  have hle : min (s.account slashed c).reserved value ≤ (s.account slashed c).reserved :=
    Nat.min_le_left _ _
  obtain ⟨hcredited, hsame⟩ := creditStatus_backed cfg hb hne hle status
  generalize creditStatus cfg s c beneficiary (s.account beneficiary c)
    (min (s.account slashed c).reserved value) status = s₁ at hcredited hsame ⊢
  have hhere := hcredited.here
  have hheld := sum_le_held s₁ slashed c
  unfold AccountData.sum at hheld
  exact (hcredited.setReservedBalance (by omega) (by omega)).balanced

/-- Locks are no balances: an update of them, failing or not, leaves the issuance backed. -/
theorem updateLocks_balanced (hb : Balanced lost s) (locks : List BalanceLock) :
    Balanced lost (updateLocks cfg s c who locks).1 := by
  have hfrozen : Balanced lost (frozenAs cfg s c who locks) := hb.finish rfl
  obtain ⟨-, stored, system, hwritten⟩ := updateLocks_eq cfg s c who locks
  rw [hwritten]
  exact hfrozen.congr rfl rfl

/-- Locks freeze balances and move nothing. -/
theorem LockChange.make_balanced (hb : Balanced lost s) (change : LockChange) :
    Balanced lost (change.make cfg s c who).1 := by
  rcases change.make_cases cfg s c who with ⟨-, hmake⟩ | ⟨locks, -, hmake⟩
  · rw [hmake]
    exact hb
  · rw [hmake]
    exact updateLocks_balanced hb locks

section Named

variable [LinearOrder ι]

theorem reserveNamed_balanced {id : ι} {value : ℕ} (hb : Balanced lost s)
    (h : reserveNamed cfg s id c who value = .ok s') : Balanced lost s' := by
  unfold reserveNamed at h
  split at h
  · cases h
    exact hb
  · simp only [bind_eq_ok, Except.ok.injEq] at h
    obtain ⟨rs, -, s₁, hs₁, rfl⟩ := h
    exact (reserve_balanced hb hs₁).congr rfl rfl

theorem unreserveNamed_balanced (hb : Balanced lost s) (id : ι) (value : ℕ) :
    Balanced lost (unreserveNamed cfg s id c who value).1 := by
  unfold unreserveNamed
  split
  · exact hb
  · split
    · exact hb
    · next rs _ =>
      split
      · exact hb
      · next i _ =>
        have hmoved : Balanced lost (unreserve cfg s c who (min (amountAt rs i) value)).1 :=
          unreserve_balanced hb _
        obtain ⟨reserves, hwritten⟩ := writeOrRemove_eq
          (unreserve cfg s c who (min (amountAt rs i) value)).1 who c rs i
          (amountAt rs i - (min (amountAt rs i) value -
            (unreserve cfg s c who (min (amountAt rs i) value)).2))
        simp only [hwritten]
        exact hmoved.congr rfl rfl

theorem slashReservedNamed_balanced (hb : Balanced lost s) (id : ι) (value : ℕ) :
    Balanced lost (slashReservedNamed cfg s id c who value).1 := by
  unfold slashReservedNamed
  split
  · exact hb
  · simp only []
    split
    · exact hb.congr rfl rfl
    · exact (slashReserved_balanced hb _).congr rfl rfl

theorem moveNamed_balanced (hb : Balanced lost s) (id : ι) (slashed beneficiary : α) (toChange : ℕ)
    (status : BalanceStatus) :
    Balanced lost (moveNamed cfg s id c slashed beneficiary toChange status).1 := by
  have hmoved : Balanced lost (repatriateReserved cfg s c slashed beneficiary toChange status).1 :=
    repatriateReserved_balanced hb slashed beneficiary toChange status
  unfold moveNamed
  cases status with
  | free => exact hmoved
  | reserved =>
    simp only []
    split
    · exact hmoved.congr rfl rfl
    · exact hmoved

theorem repatriateReservedNamed_balanced (hb : Balanced lost s) (id : ι) (slashed beneficiary : α)
    (value : ℕ) (status : BalanceStatus) :
    Balanced lost (repatriateReservedNamed cfg s id c slashed beneficiary value status).1 := by
  unfold repatriateReservedNamed
  split
  · exact hb
  · split
    · split
      · exact unreserveNamed_balanced hb id value
      · exact hb
    · simp only []
      split
      · exact hb.congr rfl rfl
      · next i hi =>
        have hmoved : Balanced lost (moveNamed cfg s id c slashed beneficiary
            (min (amountAt (s.reservesOf slashed c) i) value) status).1 :=
          moveNamed_balanced hb id slashed beneficiary _ status
        split
        · next s₁ e heq =>
          rw [heq] at hmoved
          exact hmoved
        · next s₁ actual heq =>
          rw [heq] at hmoved
          exact hmoved.congr rfl rfl

end Named

/-! ### `fungibles` and the calls -/

/-- Undoing `tryMutateAccount`: the closure succeeds on the account that is stored, and what it
returns is written. -/
theorem tryMutateAccount_eq_ok {ρ : Type} {h : Handler α κ ι} {r : ρ}
    {f : State α κ ι → AccountData → Bool → Except Failure (State α κ ι × AccountData × ρ)} :
    tryMutateAccount cfg h s who c f = .ok (s', r) ↔
      ∃ s₁ a, f s (s.account who c) (s.stored who c) = .ok (s₁, a, r) ∧
        s' = finish cfg h s₁ who c (s.stored who c) a := by
  unfold tryMutateAccount
  simp only [bind_eq_ok, Except.ok.injEq, Prod.exists, Prod.mk.injEq]
  constructor
  · rintro ⟨s₁, a, _, hf, rfl, rfl⟩
    exact ⟨s₁, a, hf, rfl⟩
  · rintro ⟨s₁, a, hf, rfl⟩
    exact ⟨s₁, a, r, hf, rfl, rfl⟩

theorem release_balanced {released : ℕ} {precision : Precision} (hb : Balanced lost s)
    (h : release cfg s c who amount precision = .ok (s', released)) : Balanced lost s' := by
  unfold release at h
  split at h
  · cases h
    exact hb
  · rw [tryMutateAccount_eq_ok] at h
    obtain ⟨s₁, a, hf, rfl⟩ := h
    simp only [bind_eq_ok, exists_ensure_eq_ok, Except.ok.injEq, Prod.mk.injEq] at hf
    obtain ⟨-, rfl, rfl, -⟩ := hf
    have hfits := (hb.backed c).account_fits (Int.le_refl 0) who
    unfold AccountData.Fits at hfits
    refine hb.finish ?_
    simp only [AccountData.sum]
    rw [satAdd_of_lt (by omega)]
    omega

theorem transferOnHold_balanced {moved : ℕ} {precision : Precision} {status : BalanceStatus}
    (hb : Balanced lost s)
    (h : transferOnHold cfg s c source dest amount precision status = .ok (s', moved)) :
    Balanced lost s' := by
  unfold transferOnHold at h
  simp only [bind_eq_ok, exists_ensure_eq_ok, Except.ok.injEq, Prod.mk.injEq] at h
  obtain ⟨-, rfl, -⟩ := h
  exact repatriateReserved_balanced hb source dest amount status

theorem setBalanceOnHold_balanced (hb : Balanced lost s)
    (h : setBalanceOnHold cfg s c who amount = .ok s') : Balanced lost s' := by
  unfold setBalanceOnHold at h
  simp only [bind_eq_ok, Prod.exists, Except.ok.injEq, tryMutateAccount_eq_ok, okOr_eq_ok,
    checkedAdd_eq_some, checkedSub_eq_some, Prod.mk.injEq] at h
  obtain ⟨_, _, ⟨s₁, a, ⟨_, ⟨-, rfl⟩, _, ⟨hle, rfl⟩, rfl, rfl, -⟩, rfl⟩, rfl⟩ := h
  refine hb.finish ?_
  simp only [AccountData.sum]
  omega

/-- The difference of the totals is in flight once the issuance is written. -/
theorem adjustIssuance_backed {oldTotal newTotal : ℕ} (hb : Backed lost s c 0)
    (h : adjustIssuance s c oldTotal newTotal = .ok s') :
    Backed lost s' c (newTotal - oldTotal) ∧ s'.account = s.account := by
  have hfits := hb.fits c
  unfold adjustIssuance at h
  split_ifs at h with hmore hless
  · simp only [bind_eq_ok, okOr_eq_ok, checkedAdd_eq_some, Except.ok.injEq] at h
    obtain ⟨_, ⟨hnew, rfl⟩, rfl⟩ := h
    exact ⟨hb.setIssuance (by omega) hnew, rfl⟩
  · simp only [bind_eq_ok, okOr_eq_ok, checkedSub_eq_some, Except.ok.injEq] at h
    obtain ⟨_, ⟨hle, rfl⟩, rfl⟩ := h
    exact ⟨hb.setIssuance (by omega) (by omega), rfl⟩
  · cases h
    have hzero : (newTotal : ℤ) - oldTotal = 0 := by omega
    rw [hzero]
    exact ⟨hb, rfl⟩

/-- Setting a balance corrects the issuance by the difference. -/
theorem setBalance_balanced {origin : Origin α} {newFree newReserved : ℕ} (hb : Balanced lost s)
    (h : setBalance cfg s origin who c newFree newReserved = .ok s') : Balanced lost s' := by
  unfold setBalance at h
  simp only [bind_eq_ok, Prod.exists, Except.ok.injEq, tryMutateAccount_eq_ok, okOr_eq_ok,
    checkedAdd_eq_some, Prod.mk.injEq] at h
  obtain ⟨_, -, _, _, ⟨_, _, ⟨_, ⟨hfits, rfl⟩, s₁, hadjust, rfl, rfl, -⟩, rfl⟩, rfl⟩ := h
  obtain ⟨hadjusted, haccount⟩ := adjustIssuance_backed (hb.backed c) hadjust
  have htotal := ((hb.backed c).account_fits (Int.le_refl 0) who).total_eq
  refine (hadjusted.finish_of_nonneg (Int.le_refl 0) ?_).balanced
  rw [haccount, htotal]
  simp only [AccountData.sum]
  split
  · omega
  · omega

theorem mintInto_balanced (hb : Balanced lost s) (h : mintInto cfg s c who amount = .ok s') :
    Balanced lost s' := by
  unfold mintInto at h
  obtain ⟨-, -, hdeposit⟩ := bind_eq_ok.mp h
  exact doDeposit_balanced hb hdeposit

theorem burnFrom_balanced {burnt : ℕ} (hb : Balanced lost s)
    (h : burnFrom cfg s c who amount = .ok (s', burnt)) : Balanced lost s' := by
  unfold burnFrom at h
  simp only [bind_eq_ok, Except.ok.injEq, Prod.mk.injEq] at h
  obtain ⟨_, -, _, hwithdraw, rfl, -⟩ := h
  exact doWithdraw_balanced hb hwithdraw

/-! ### Runs -/

/-- The transfer that an operation makes, if it makes one. -/
def transferOf (cfg : Config α κ) (s : State α κ ι) : Operation α κ ι → Option (κ × α × α × ℕ)
  | .transfer (.signed source) dest c amount => some (c, source, dest, amount)
  | .transferAll (.signed source) dest c keepAlive =>
    some (c, source, dest,
      reducibleBalance cfg s c source (if keepAlive then .protect else .expendable))
  | .transferKeepAlive (.signed source) dest c amount => some (c, source, dest, amount)
  | .forceTransfer .root source dest c amount => some (c, source, dest, amount)
  | .fungiblesTransfer source dest c amount _ => some (c, source, dest, amount)
  | _ => none

/-- The operation makes no transfer to the receiver of the dust that leaves dust with the sender. -/
def LeavesNoDustForRecipient (cfg : Config α κ) (s : State α κ ι) (op : Operation α κ ι) : Prop :=
  ∀ c source dest amount, transferOf cfg s op = some (c, source, dest, amount) →
    cfg.onDust = .transferDust dest →
      dustOf cfg source c ((s.account source c).debit amount) = none

section Steps

variable [LinearOrder ι]

/-- An operation that makes a transfer does nothing else. -/
theorem apply_of_transferOf {op : Operation α κ ι} {source dest : α} {amount : ℕ}
    (h : transferOf cfg s op = some (c, source, dest, amount)) :
    ∃ existence, apply cfg s op =
      doTransfer cfg (handler cfg) s c source dest amount existence := by
  cases op with
  | transfer origin | transferAll origin | transferKeepAlive origin =>
    cases origin with
    | root => cases h
    | signed source =>
      cases h
      exact ⟨_, rfl⟩
  | forceTransfer origin source dest c amount =>
    cases origin with
    | root =>
      cases h
      exact ⟨_, rfl⟩
    | signed who => cases h
  | fungiblesTransfer source dest c amount preservation =>
    cases h
    exact ⟨_, rfl⟩
  | _ => cases h

/-- **An operation keeps the books**, unless it loses dust of the recipient. -/
theorem apply_balanced {op : Operation α κ ι} (hb : Balanced lost s)
    (hdust : LeavesNoDustForRecipient cfg s op) (h : apply cfg s op = .ok s') :
    Balanced lost s' := by
  -- the operations that make a transfer
  cases htransfer : transferOf cfg s op with
  | some t =>
    obtain ⟨c, source, dest, amount⟩ := t
    obtain ⟨existence, happly⟩ := apply_of_transferOf htransfer
    rw [happly] at h
    exact doTransfer_balanced hb (hdust c source dest amount htransfer) h
  | none =>
  -- the operations on locks
  cases hlock : lockRequest op with
  | some r =>
    rw [(apply_of_lockRequest hlock h).1]
    exact r.change.make_balanced hb
  | none =>
  cases op with
  | transfer origin | transferAll origin | transferKeepAlive origin =>
    cases origin with
    | root => cases h
    | signed source => cases htransfer
  | forceTransfer origin =>
    cases origin with
    | root => cases htransfer
    | signed who => cases h
  | fungiblesTransfer => cases htransfer
  | setBalance origin who c newFree newReserved => exact setBalance_balanced hb h
  | deposit who c amount => exact doDeposit_balanced hb h
  | withdraw who c amount => exact doWithdraw_balanced hb h
  | slash who c amount =>
    cases h
    exact slash_balanced hb amount
  | updateBalance who c byAmount => exact updateBalance_balanced hb h
  | setLock | extendLock | removeLock | adapterSetLock | adapterExtendLock | adapterRemoveLock =>
    cases hlock
  | slashReserved who c value =>
    cases h
    exact slashReserved_balanced hb value
  | reserve who c value => exact reserve_balanced hb h
  | unreserve who c value =>
    cases h
    exact unreserve_balanced hb value
  | repatriateReserved slashed beneficiary c value status =>
    cases h
    exact repatriateReserved_balanced hb slashed beneficiary value status
  | reserveNamed id who c value => exact reserveNamed_balanced hb h
  | unreserveNamed id who c value =>
    cases h
    exact unreserveNamed_balanced hb id value
  | slashReservedNamed id who c value =>
    cases h
    exact slashReservedNamed_balanced hb id value
  | repatriateReservedNamed id slashed beneficiary c value status =>
    rw [committed_eq_ok h]
    exact repatriateReservedNamed_balanced hb id slashed beneficiary value status
  | mintInto who c amount => exact mintInto_balanced hb h
  | burnFrom who c amount =>
    obtain ⟨⟨_, burnt⟩, hburn, rfl⟩ := map_eq_ok.mp h
    exact burnFrom_balanced hb hburn
  | release who c amount precision =>
    obtain ⟨⟨_, released⟩, hrelease, rfl⟩ := map_eq_ok.mp h
    exact release_balanced hb hrelease
  | transferOnHold source dest c amount precision status =>
    obtain ⟨⟨_, moved⟩, hmoved, rfl⟩ := map_eq_ok.mp h
    exact transferOnHold_balanced hb hmoved
  | setBalanceOnHold who c amount => exact setBalanceOnHold_balanced hb h

/-- A failed operation leaves the books as they are. -/
theorem step_balanced (op : Operation α κ ι) (hb : Balanced lost s)
    (hdust : LeavesNoDustForRecipient cfg s op) : Balanced lost (step cfg s op) := by
  rcases commitOrKeep_cases (apply cfg s op) s with ⟨s', hs', hcommit⟩ | ⟨-, hkeep⟩
  · rw [step, hcommit]
    exact apply_balanced hb hdust hs'
  · rw [step, hkeep]
    exact hb

/-- **No operation leaves more held than issued.** -/
theorem step_covered (op : Operation α κ ι) (h : Covered s) : Covered (step cfg s op) := by
  rcases commitOrKeep_cases (apply cfg s op) s with ⟨s', hs', hcommit⟩ | ⟨-, hkeep⟩
  · rw [step, hcommit]
    cases htransfer : transferOf cfg s op with
    | some t =>
      obtain ⟨c, source, dest, amount⟩ := t
      obtain ⟨existence, happly⟩ := apply_of_transferOf htransfer
      exact doTransfer_covered h (happly ▸ hs')
    | none =>
      -- without a transfer nothing can be lost
      have hdust : LeavesNoDustForRecipient cfg s op := by
        intro _ _ _ _ hsome
        rw [htransfer] at hsome
        cases hsome
      exact (apply_balanced h.balanced hdust hs').covered
  · rw [step, hkeep]
    exact h

end Steps

/-! ### Genesis -/

/-- An endowment writes the account and raises the issuance; it leaves no dust. -/
theorem endow_eq_some {entry : (α × κ) × ℕ} (hword : entry.2 < 2 ^ balanceBits)
    (hnew : (s.account entry.1.1 entry.1.2).sum = 0) (h : endow cfg s entry = some s') :
    s.totalIssuance entry.1.2 + entry.2 < 2 ^ balanceBits ∧
      s' = (settle cfg s entry.1.1 entry.1.2 (s.stored entry.1.1 entry.1.2)
        { s.account entry.1.1 entry.1.2 with free := entry.2 }).setIssuance entry.1.2
          (s.totalIssuance entry.1.2 + entry.2) := by
  unfold endow at h
  split at h
  · cases h
  · next hdeposit =>
    have hreserved : (s.account entry.1.1 entry.1.2).reserved = 0 := by
      unfold AccountData.sum at hnew
      omega
    have hfits : ({ s.account entry.1.1 entry.1.2 with free := entry.2 } : AccountData).Fits := by
      unfold AccountData.Fits
      rw [hreserved]
      exact hword
    have hsettled : mutateAccount cfg (handler cfg) s entry.1.1 entry.1.2
        (fun a => { a with free := entry.2 }) =
        settle cfg s entry.1.1 entry.1.2 (s.stored entry.1.1 entry.1.2)
          { s.account entry.1.1 entry.1.2 with free := entry.2 } := by
      refine finish_of_dustOf_none (dustOf_of_le (.inl ?_))
      rw [hfits.total_eq]
      exact (not_lt.mp hdeposit).trans (Nat.le_add_right _ _)
    simp only [hsettled, settle_totalIssuance] at h
    obtain ⟨v, hv, rfl⟩ := Option.map_eq_some_iff.mp h
    obtain ⟨hissued, rfl⟩ := checkedAdd_eq_some.mp hv
    exact ⟨hissued, rfl⟩

/-- An endowment at genesis adds to the issuance and to a new account. -/
theorem endow_balanced {entry : (α × κ) × ℕ} (hb : Balanced lost s)
    (hword : entry.2 < 2 ^ balanceBits) (hnew : (s.account entry.1.1 entry.1.2).sum = 0)
    (h : endow cfg s entry = some s') : Balanced lost s' := by
  obtain ⟨hissued, rfl⟩ := endow_eq_some hword hnew h
  have hwritten : Backed lost (settle cfg s entry.1.1 entry.1.2 (s.stored entry.1.1 entry.1.2)
      { s.account entry.1.1 entry.1.2 with free := entry.2 }) entry.1.2 (-entry.2) := by
    refine (hb.backed entry.1.2).settle ?_
    unfold AccountData.sum at hnew ⊢
    simp only []
    omega
  refine (hwritten.setIssuance ?_ hissued).balanced
  rw [settle_totalIssuance]
  omega

/-- The endowments of a genesis without duplicates lose nothing. -/
theorem foldlM_endow_balanced {balances : List ((α × κ) × ℕ)} (hb : Balanced lost s)
    (hwords : ∀ entry ∈ balances, entry.2 < 2 ^ balanceBits)
    (hnodup : (balances.map (·.1)).Nodup)
    (hnew : ∀ entry ∈ balances, (s.account entry.1.1 entry.1.2).sum = 0)
    (h : balances.foldlM (endow cfg) s = some s') : Balanced lost s' := by
  induction balances generalizing s with
  | nil =>
    cases h
    exact hb
  | cons entry balances ih =>
    rw [List.map_cons, List.nodup_cons] at hnodup
    obtain ⟨hfresh, hnodup⟩ := hnodup
    rw [List.foldlM_cons] at h
    obtain ⟨s₁, hs₁, hrest⟩ := Option.bind_eq_some_iff.mp h
    have hfirst := hnew entry List.mem_cons_self
    have hword := hwords entry List.mem_cons_self
    refine ih (endow_balanced hb hword hfirst hs₁)
      (fun e he => hwords e (List.mem_cons_of_mem entry he)) hnodup ?_ hrest
    -- the other accounts are still empty
    intro e he
    have hne : e.1 ≠ entry.1 := fun heq => hfresh (heq ▸ List.mem_map_of_mem he)
    rw [(endow_eq_some hword hfirst hs₁).2, account_setIssuance, account_settle_of_ne hne]
    exact hnew e (List.mem_cons_of_mem entry he)

/-- Nothing has been lost at genesis. -/
theorem genesisBuild_balanced {balances : List ((α × κ) × ℕ)}
    (hwords : ∀ entry ∈ balances, entry.2 < 2 ^ balanceBits)
    (h : genesisBuild cfg balances = some s) : Balanced (fun _ => 0) s := by
  unfold genesisBuild at h
  split at h
  · next hnodup => exact foldlM_endow_balanced emptyState_balanced hwords hnodup (fun _ _ => rfl) h
  · cases h

/-- **The issuance is what the accounts hold**, for every currency and in every state that is
reached from genesis. The steps may be any operations, failing ones included; only a transfer to the
receiver of dust must not leave dust itself. -/
theorem totalIssuance_eq_held [LinearOrder ι] {balances : List ((α × κ) × ℕ)}
    {ops : List (Operation α κ ι)} (hwords : ∀ entry ∈ balances, entry.2 < 2 ^ balanceBits)
    (hgenesis : genesisBuild cfg balances = some s)
    (hdust : Run.Along (step cfg) (LeavesNoDustForRecipient cfg) s ops) (c : κ) :
    (Run.run (step cfg) s ops).totalIssuance c = held (Run.run (step cfg) s ops) c ∧
      held (Run.run (step cfg) s ops) c < 2 ^ balanceBits := by
  have hb := Run.invariant (Balanced fun _ => 0) (fun _ op hb hok => step_balanced op hb hok)
    (genesisBuild_balanced hwords hgenesis) hdust
  obtain ⟨heq, hlt⟩ := hb c
  rw [Nat.add_zero] at heq
  exact ⟨heq.symm, heq ▸ hlt⟩

/-- A configuration with an existential deposit of ten and the account 0 as the receiver of dust. -/
def treasuryConfig : Config ℕ Unit where
  existentialDeposits _ := 10
  dustRemovalWhitelist _ := false
  onDust := .transferDust 0
  maxLocks := 50
  maxReserves := 5
  maxConsumers := 16
  deposit_lt _ := by decide

/-- The receiver of dust and another account have a hundred each. -/
def treasuryBalances : List ((ℕ × Unit) × ℕ) := [((0, ()), 100), ((1, ()), 100)]

/-- The state after that genesis. -/
def treasuryGenesis : State ℕ Unit ℕ :=
  (genesisBuild treasuryConfig treasuryBalances).getD emptyState

theorem genesisBuild_treasury :
    genesisBuild treasuryConfig treasuryBalances = some treasuryGenesis := rfl

/-- A transfer that leaves dust with the sender, then a named reserve and a slash of the
recipient. -/
def treasuryRun : List (Operation ℕ Unit ℕ) :=
  [.transfer (.signed 1) 2 () 95, .reserveNamed 7 2 () 30, .slash 2 () 70]

theorem totalIssuance_eq_held_treasury :
    (Run.run (step treasuryConfig) treasuryGenesis treasuryRun).totalIssuance () =
        held (Run.run (step treasuryConfig) treasuryGenesis treasuryRun) () ∧
      held (Run.run (step treasuryConfig) treasuryGenesis treasuryRun) () < 2 ^ balanceBits := by
  have hdust : Run.Along (step treasuryConfig) (LeavesNoDustForRecipient treasuryConfig)
      treasuryGenesis treasuryRun := by
    refine ⟨?_, ?_, ?_, trivial⟩
    · -- the recipient is not the receiver of dust
      intro _ _ _ _ htransfer hreceiver
      cases htransfer
      cases hreceiver
    · intro _ _ _ _ htransfer
      cases htransfer
    · intro _ _ _ _ htransfer
      cases htransfer
  exact totalIssuance_eq_held (by decide) genesisBuild_treasury hdust ()

/-! ### The exception -/

end Reef.Tokens
