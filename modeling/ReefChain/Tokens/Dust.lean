import ReefChain.Tokens.Pallet

/-!
# What the operations on one account do

The mutations of `ReefChain.Tokens.Pallet` in a form the invariants can be read off. Every operation
is a sequence of

* `settle`: an account is written (or removed, when it is empty);
* a sweep of the dust this leaves (`Swept`), by the configured handler: nothing happens, or the
  account is emptied and its free balance goes to the receiver of the dust or out of the issuance;
* writes of the total issuance, the locks and the named reserves.

`doTransfer_eq_ok`, `doWithdraw_eq_ok` and `doDeposit_eq_ok` say when these operations succeed and
what they write. As a sweep empties the account and credits an account that is no dust, a sweep
never calls for another one: the recursion of the source ends at the first level
(`dustHandler_succ`).
-/

namespace Reef.Tokens

open Bounded Fallible

variable {α κ ι : Type} {cfg : Config α κ} {s s' : State α κ ι} {who : α} {c : κ} {a : AccountData}
  {existed : Bool}

/-- An operation that is committed has written what it has written. -/
theorem committed_eq_ok {ρ : Type} {x : State α κ ι × Except Failure ρ}
    (h : committed x = .ok s') : s' = x.1 := by
  unfold committed at h
  split at h
  · cases h
    rfl
  · cases h

/-- An operation that is committed has succeeded. -/
theorem committed_result {x : State α κ ι × Except Failure Unit} (h : committed x = .ok s') :
    x.2 = .ok () := by
  unfold committed at h
  split at h
  · next hok => exact hok
  · cases h

/-! ### Totals -/

/-- The balances of an account fit the type of balances together. -/
def AccountData.Fits (a : AccountData) : Prop := a.free + a.reserved < 2 ^ balanceBits

/-- The total is exact if it fits. -/
theorem AccountData.Fits.total_eq (h : a.Fits) : a.total = a.free + a.reserved := satAdd_of_lt h

/-- A total is not zero because of clipping. -/
theorem AccountData.total_eq_zero : a.total = 0 ↔ a.free = 0 ∧ a.reserved = 0 := by
  have hpos : 0 < maxValue balanceBits := by decide
  unfold AccountData.total satAdd
  omega

/-- An account is removed only when it is empty. -/
theorem balances_of_reaps (h : reaps cfg c a = true) : a.free = 0 ∧ a.reserved = 0 :=
  AccountData.total_eq_zero.mp (of_decide_eq_true h).2

/-! ### Dust -/

/-- An empty account is no dust. -/
theorem dustOf_of_total_eq_zero (h : a.total = 0) : dustOf cfg who c a = none :=
  if_neg fun hdust => hdust.2.1 h

/-- Nor is one with the existential deposit, or on the whitelist. -/
theorem dustOf_of_le (h : cfg.existentialDeposits c ≤ a.total ∨ cfg.dustRemovalWhitelist who) :
    dustOf cfg who c a = none := by
  refine if_neg fun hdust => ?_
  rcases h with h | h
  · exact absurd hdust.1 (Nat.not_lt.mpr h)
  · simp [h] at hdust

/-- There is no dust in a currency without existential deposit. -/
theorem dustOf_of_noDeposit (h : cfg.existentialDeposits c = 0) : dustOf cfg who c a = none :=
  dustOf_of_le (.inl (h ▸ Nat.zero_le _))

/-- Dust is a total between zero and the existential deposit. -/
theorem dustOf_eq_some {d : ℕ} (h : dustOf cfg who c a = some d) :
    a.total = d ∧ d ≠ 0 ∧ d < cfg.existentialDeposits c := by
  unfold dustOf at h
  split at h
  · next hdust =>
    cases h
    exact ⟨rfl, hdust.2.1, hdust.1⟩
  · cases h

/-- The balances of an account below the existential deposit have not been clipped. -/
theorem fits_of_total_lt (h : a.total < cfg.existentialDeposits c) : a.Fits := by
  have hexact : a.total = a.free + a.reserved := satAdd_of_lt_bound h (cfg.deposit_lt c)
  unfold AccountData.Fits
  rw [← hexact]
  exact h.trans (cfg.deposit_lt c)

variable [DecidableEq α]

/-- Giving up a provider changes the reference counters only. -/
theorem decProviders_eq (s : State α κ ι) (who : α) :
    ∃ system, s.decProviders who = { s with system := system } := by
  unfold State.decProviders
  split
  · exact ⟨_, rfl⟩
  · exact ⟨s.system, rfl⟩

variable [DecidableEq κ]

/-- Writing an account changes its entry and the reference counters. -/
theorem settle_eq (cfg : Config α κ) (s : State α κ ι) (who : α) (c : κ) (existed : Bool)
    (a : AccountData) : ∃ system, settle cfg s who c existed a = { s with
      accounts :=
        if reaps cfg c a then s.accounts.erase (who, c) else s.accounts.insert (who, c) a
      system := system } := by
  unfold settle
  split
  · -- the account is removed; a provider is given up if there was an account
    cases existed with
    | false => exact ⟨s.system, rfl⟩
    | true => exact decProviders_eq _ who
  · cases existed with
    | false => exact ⟨_, rfl⟩
    | true => exact ⟨s.system, rfl⟩

@[simp] theorem settle_totalIssuance :
    (settle cfg s who c existed a).totalIssuance = s.totalIssuance := by
  obtain ⟨system, h⟩ := settle_eq cfg s who c existed a
  rw [h]

@[simp] theorem settle_locks : (settle cfg s who c existed a).locks = s.locks := by
  obtain ⟨system, h⟩ := settle_eq cfg s who c existed a
  rw [h]

@[simp] theorem settle_reserves : (settle cfg s who c existed a).reserves = s.reserves := by
  obtain ⟨system, h⟩ := settle_eq cfg s who c existed a
  rw [h]

/-- The entries after an account is written. -/
theorem settle_accounts : (settle cfg s who c existed a).accounts =
    if reaps cfg c a then s.accounts.erase (who, c) else s.accounts.insert (who, c) a := by
  obtain ⟨system, h⟩ := settle_eq cfg s who c existed a
  rw [h]

/-- An account that is written is stored as it is, unless it is removed. -/
theorem account_settle_self :
    (settle cfg s who c existed a).account who c = if reaps cfg c a then default else a := by
  unfold State.account
  rw [settle_accounts]
  split
  · rw [Finmap.lookup_erase]
    rfl
  · rw [Finmap.lookup_insert]
    rfl

variable {w : α} {d : κ} {h : Handler α κ ι} {amount : ℕ}

/-- The other accounts stay as they are. -/
theorem account_settle_of_ne (h : (w, d) ≠ (who, c)) :
    (settle cfg s who c existed a).account w d = s.account w d := by
  unfold State.account
  rw [settle_accounts]
  split
  · rw [Finmap.lookup_erase_ne h]
  · rw [Finmap.lookup_insert_of_ne _ h]

/-- Removing an account loses nothing but what it has frozen. -/
@[simp] theorem settle_free : ((settle cfg s who c existed a).account who c).free = a.free := by
  rw [account_settle_self]
  split
  · next h => exact (balances_of_reaps h).1.symm
  · rfl

@[simp] theorem settle_reserved :
    ((settle cfg s who c existed a).account who c).reserved = a.reserved := by
  rw [account_settle_self]
  split
  · next h => exact (balances_of_reaps h).2.symm
  · rfl

/-- An account that is not empty is stored with what it has frozen. -/
theorem account_settle_of_total_ne_zero (h : a.total ≠ 0) :
    (settle cfg s who c existed a).account who c = a := by
  rw [account_settle_self, if_neg]
  intro hreaps
  exact h (of_decide_eq_true hreaps).2

/-- Without an existential deposit every account is stored. -/
theorem account_settle_of_noDeposit (h : cfg.existentialDeposits c = 0) :
    (settle cfg s who c existed a).account who c = a := by
  rw [account_settle_self, if_neg]
  intro hreaps
  have hlt := (of_decide_eq_true hreaps).1
  omega

@[simp] theorem account_setIssuance (s : State α κ ι) (d : κ) (v : ℕ) :
    (s.setIssuance d v).account = s.account := rfl

@[simp] theorem account_setReserves (s : State α κ ι) (w : α) (d : κ) (rs : List (ReserveData ι)) :
    (s.setReserves w d rs).account = s.account := rfl

/-- Without dust an account is just written. -/
theorem finish_of_dustOf_none (hdust : dustOf cfg who c a = none) :
    finish cfg h s who c existed a = settle cfg s who c existed a := by
  unfold finish
  rw [hdust]

/-! ### Withdrawing, depositing and transferring -/

/-- What can be withdrawn is free and not frozen. -/
theorem ensureCanWithdraw_eq_ok {u : Unit} (hamount : amount ≠ 0) :
    ensureCanWithdraw s c who amount = .ok u ↔
      amount ≤ (s.account who c).free ∧
        (s.account who c).frozen ≤ (s.account who c).free - amount := by
  unfold ensureCanWithdraw
  rw [if_neg hamount]
  simp only [bind_eq_ok, okOr_eq_ok, checkedSub_eq_some, ensure_eq_ok]
  constructor
  · rintro ⟨_, ⟨hle, rfl⟩, hfrozen⟩
    exact ⟨hle, hfrozen⟩
  · rintro ⟨hle, hfrozen⟩
    exact ⟨_, ⟨hle, rfl⟩, hfrozen⟩

/-- The account with less free balance. -/
def AccountData.debit (a : AccountData) (amount : ℕ) : AccountData :=
  { a with free := a.free - amount }

/-- The account with more free balance. -/
def AccountData.credit (a : AccountData) (amount : ℕ) : AccountData :=
  { a with free := a.free + amount }

/-- The conditions of a transfer between different accounts. -/
structure CanTransfer (cfg : Config α κ) (s : State α κ ι) (c : κ) (source dest : α) (amount : ℕ)
    (existence : ExistenceRequirement) : Prop where
  covered : amount ≤ (s.account source c).free
  fits : (s.account dest c).free + amount < 2 ^ balanceBits
  noDust : cfg.existentialDeposits c ≤ ((s.account dest c).credit amount).total ∨
    cfg.dustRemovalWhitelist dest
  unlocked : (s.account source c).frozen ≤ (s.account source c).free - amount
  survives : (existence = .allowDeath ∧ s.canDecProvider source) ∨
    wouldBeDead cfg source c ((s.account source c).debit amount) = false

/-- The state after a transfer: the sender is written and its dust is handled, then the recipient is
written as it was read before. -/
def transferred (cfg : Config α κ) (h : Handler α κ ι) (s : State α κ ι) (c : κ) (source dest : α)
    (amount : ℕ) : State α κ ι :=
  settle cfg
    (finish cfg h s source c (s.stored source c) ((s.account source c).debit amount))
    dest c (s.stored dest c) ((s.account dest c).credit amount)

/-- **A transfer** succeeds under these conditions, with this state. -/
theorem doTransfer_eq_ok {source dest : α} {existence : ExistenceRequirement} (hamount : amount ≠ 0)
    (hne : source ≠ dest) :
    doTransfer cfg h s c source dest amount existence = .ok s' ↔
      CanTransfer cfg s c source dest amount existence ∧
        s' = transferred cfg h s c source dest amount := by
  unfold doTransfer tryMutateAccount
  rw [if_neg (not_or.mpr ⟨hamount, hne⟩)]
  simp only [bind_eq_ok, okOr_eq_ok, checkedSub_eq_some, checkedAdd_eq_some,
    exists_ensure_eq_ok, Except.ok.injEq, Prod.exists, Prod.mk.injEq,
    ensureCanWithdraw_eq_ok hamount]
  -- the closures are those of the sender and, inside of it, of the recipient, who leaves no dust
  constructor
  · rintro ⟨_, _, ⟨_, _, _, ⟨_, _, ⟨_, _, _, ⟨_, ⟨hle, rfl⟩, _, ⟨hfits, rfl⟩, hdust, _,
      ⟨-, hfrozen⟩, hsurvives, rfl, rfl, rfl⟩, rfl, rfl⟩, rfl, rfl, -⟩, rfl, -⟩, rfl⟩
    refine ⟨⟨hle, hfits, hdust, hfrozen, by simpa [AccountData.debit] using hsurvives⟩, ?_⟩
    exact finish_of_dustOf_none (dustOf_of_le hdust)
  · rintro ⟨⟨hle, hfits, hdust, hfrozen, hsurvives⟩, rfl⟩
    have hfinish : finish cfg h
        (finish cfg h s source c (s.stored source c) ((s.account source c).debit amount)) dest c
        (s.stored dest c) ((s.account dest c).credit amount) =
        transferred cfg h s c source dest amount :=
      finish_of_dustOf_none (dustOf_of_le hdust)
    exact ⟨_, (), ⟨_, _, (), ⟨_, _, ⟨_, _, _, ⟨_, ⟨hle, rfl⟩, _, ⟨hfits, rfl⟩, hdust, (),
      ⟨hle, hfrozen⟩, by simpa [AccountData.debit] using hsurvives, rfl, rfl, rfl⟩, rfl, rfl⟩,
      rfl, rfl, trivial⟩, hfinish, trivial⟩, rfl⟩

/-- A transfer of nothing or to oneself does nothing. -/
theorem doTransfer_of_noop {source dest : α} {existence : ExistenceRequirement}
    (hnoop : amount = 0 ∨ source = dest) :
    doTransfer cfg h s c source dest amount existence = .ok s := if_pos hnoop

/-- The issuance is lowered along with a withdrawal, if this is asked for. -/
def burnIssuance (s : State α κ ι) (c : κ) (amount : ℕ) (changeTotalIssuance : Bool) :
    State α κ ι :=
  if changeTotalIssuance then s.setIssuance c (s.totalIssuance c - amount) else s

/-- The withdrawal kills the account: it does not survive, and it was not empty. -/
def wouldKill (cfg : Config α κ) (who : α) (c : κ) (a : AccountData) (amount : ℕ) : Bool :=
  wouldBeDead cfg who c (a.debit amount) &&
    decide (cfg.existentialDeposits c ≤ a.total ∨ a.total ≠ 0)

/-- **A withdrawal** succeeds if the account has the amount free and not frozen, and may die if it
has to. -/
theorem doWithdraw_eq_ok {existence : ExistenceRequirement} {change : Bool} (hamount : amount ≠ 0) :
    doWithdraw cfg h s c who amount existence change = .ok s' ↔
      (amount ≤ (s.account who c).free ∧
        (s.account who c).frozen ≤ (s.account who c).free - amount) ∧
      (existence = .allowDeath ∨ wouldKill cfg who c (s.account who c) amount = false) ∧
      s' = finish cfg h (burnIssuance s c amount change) who c (s.stored who c)
        ((s.account who c).debit amount) := by
  unfold doWithdraw tryMutateAccount
  rw [if_neg hamount]
  simp only [bind_eq_ok, exists_ensure_eq_ok, Except.ok.injEq, Prod.exists, Prod.mk.injEq,
    ensureCanWithdraw_eq_ok hamount]
  constructor
  · rintro ⟨_, _, ⟨_, _, _, ⟨_, hfree, hkill, rfl, rfl, -⟩, rfl, -⟩, rfl⟩
    exact ⟨hfree, hkill.imp_right (Bool.not_eq_true' _).mp, rfl⟩
  · rintro ⟨hfree, hkill, rfl⟩
    exact ⟨_, (), ⟨_, _, (), ⟨(), hfree, hkill.imp_right (Bool.not_eq_true' _).mpr, rfl, rfl,
      trivial⟩, rfl, trivial⟩, rfl⟩

/-- The issuance is raised along with a deposit, if this is asked for. -/
def mintIssuance (s : State α κ ι) (c : κ) (amount : ℕ) (changeTotalIssuance : Bool) :
    State α κ ι :=
  if changeTotalIssuance then s.setIssuance c (s.totalIssuance c + amount) else s

/-- **A deposit** succeeds if the account is there or is allowed to be created, and the issuance
does not overflow. -/
theorem doDeposit_eq_ok {requireExisted change : Bool} (hamount : amount ≠ 0) :
    doDeposit cfg h s c who amount requireExisted change = .ok s' ↔
      (if requireExisted then s.stored who c = true
        else cfg.existentialDeposits c ≤ amount ∨ s.stored who c ∨ cfg.dustRemovalWhitelist who) ∧
      s.totalIssuance c + amount < 2 ^ balanceBits ∧
      s' = finish cfg h (mintIssuance s c amount change) who c (s.stored who c)
        { s.account who c with free := satAdd balanceBits (s.account who c).free amount } := by
  unfold doDeposit tryMutateAccount
  rw [if_neg hamount]
  -- the flag decides which of the two checks is made
  cases requireExisted with
  | true =>
    simp only [bind_eq_ok, exists_ensure_eq_ok, okOr_eq_ok, checkedAdd_eq_some, Except.ok.injEq,
      Prod.exists, Prod.mk.injEq, if_true]
    constructor
    · rintro ⟨_, _, ⟨_, _, _, ⟨hexisted, _, ⟨hfits, rfl⟩, rfl, rfl, -⟩, rfl, -⟩, rfl⟩
      exact ⟨hexisted, hfits, rfl⟩
    · rintro ⟨hexisted, hfits, rfl⟩
      exact ⟨_, (), ⟨_, _, (), ⟨hexisted, _, ⟨hfits, rfl⟩, rfl, rfl, trivial⟩, rfl, trivial⟩, rfl⟩
  | false =>
    simp only [bind_eq_ok, exists_ensure_eq_ok, okOr_eq_ok, checkedAdd_eq_some, Except.ok.injEq,
      Prod.exists, Prod.mk.injEq, Bool.false_eq_true, if_false]
    constructor
    · rintro ⟨_, _, ⟨_, _, _, ⟨hcreate, _, ⟨hfits, rfl⟩, rfl, rfl, -⟩, rfl, -⟩, rfl⟩
      exact ⟨hcreate, hfits, rfl⟩
    · rintro ⟨hcreate, hfits, rfl⟩
      exact ⟨_, (), ⟨_, _, (), ⟨hcreate, _, ⟨hfits, rfl⟩, rfl, rfl, trivial⟩, rfl, trivial⟩, rfl⟩

/-! ### The sweep -/

/-- What the handler can do about the dust of an account: nothing, or its free balance, which is all
it has, is moved to the receiver of the dust or burned. -/
inductive Swept (cfg : Config α κ) (s : State α κ ι) (who : α) (c : κ) : State α κ ι → Prop
  | kept : Swept cfg s who c s
  | moved (receiver : α) (hcfg : cfg.onDust = .transferDust receiver) (hne : who ≠ receiver)
      (hreserved : (s.account who c).reserved = 0) (hfrozen : (s.account who c).frozen = 0)
      (hfits : (s.account receiver c).free + (s.account who c).free < 2 ^ balanceBits)
      (hdeposit : cfg.existentialDeposits c ≤
          ((s.account receiver c).credit (s.account who c).free).total ∨
        cfg.dustRemovalWhitelist receiver) :
      Swept cfg s who c (settle cfg
        (settle cfg s who c (s.stored who c) ((s.account who c).debit (s.account who c).free))
        receiver c (s.stored receiver c)
        ((s.account receiver c).credit (s.account who c).free))
  | burnt (hcfg : cfg.onDust = .burnDust) (hreserved : (s.account who c).reserved = 0)
      (hfrozen : (s.account who c).frozen = 0) :
      Swept cfg s who c (settle cfg
        (s.setIssuance c (s.totalIssuance c - (s.account who c).free)) who c (s.stored who c)
        ((s.account who c).debit (s.account who c).free))

/-- Dust that is free to its full amount: nothing is reserved. -/
theorem AccountData.Fits.eq_free (h : a.Fits) (hle : a.total ≤ a.free) :
    a.total = a.free ∧ a.reserved = 0 := by
  have htotal := h.total_eq
  omega

/-- An account that gives up all it has meets no further dust. -/
theorem finish_debit_total (h : Handler α κ ι) (hfits : a.Fits) (hle : a.total ≤ a.free) :
    finish cfg h s who c existed (a.debit a.total) =
      settle cfg s who c existed (a.debit a.free) := by
  obtain ⟨htotal, hreserved⟩ := hfits.eq_free hle
  rw [htotal]
  refine finish_of_dustOf_none (dustOf_of_total_eq_zero (AccountData.total_eq_zero.mpr ?_))
  exact ⟨Nat.sub_self _, hreserved⟩

variable (h : Handler α κ ι)

/-- **The handler sweeps**, whatever it would do about further dust. -/
theorem onDust_swept (hfits : (s.account who c).Fits) (hdust : (s.account who c).total ≠ 0) :
    Swept cfg s who c (onDust cfg h s who c (s.account who c).total) := by
  unfold onDust
  split
  · exact .kept
  · next receiver hcfg =>
    by_cases hne : who = receiver
    · rw [doTransfer_of_noop (.inr hne)]
      exact .kept
    rcases commitOrKeep_cases
      (doTransfer cfg h s c who receiver (s.account who c).total .allowDeath) s with
      ⟨s', hs', hcommit⟩ | ⟨-, hkeep⟩
    · rw [hcommit]
      -- what covers the transfer is free, so nothing is reserved, nor frozen
      obtain ⟨hcan, rfl⟩ := (doTransfer_eq_ok hdust hne).mp hs'
      obtain ⟨htotal, hreserved⟩ := hfits.eq_free hcan.covered
      have hreceiver := hcan.fits
      have hunlocked := hcan.unlocked
      have hdeposit := hcan.noDust
      unfold transferred
      rw [finish_debit_total h hfits hcan.covered, htotal]
      rw [htotal] at hreceiver hunlocked hdeposit
      exact .moved receiver hcfg hne hreserved (by omega) hreceiver hdeposit
    · rw [hkeep]
      exact .kept
  · next hcfg =>
    rcases commitOrKeep_cases
      (doWithdraw cfg h s c who (s.account who c).total .allowDeath true) s with
      ⟨s', hs', hcommit⟩ | ⟨-, hkeep⟩
    · rw [hcommit]
      -- the same for what is burned
      obtain ⟨⟨hle, hunlocked⟩, -, rfl⟩ := (doWithdraw_eq_ok hdust).mp hs'
      obtain ⟨htotal, hreserved⟩ := hfits.eq_free hle
      rw [finish_debit_total h hfits hle]
      rw [htotal] at hunlocked ⊢
      exact .burnt hcfg hreserved (by omega)
    · rw [hkeep]
      exact .kept

/-- What the handler does about an account does not depend on what it does about further dust, as
there is none. -/
theorem onDust_congr (h' : Handler α κ ι) (hfits : (s.account who c).Fits)
    (hdust : (s.account who c).total ≠ 0) :
    onDust cfg h s who c (s.account who c).total =
      onDust cfg h' s who c (s.account who c).total := by
  unfold onDust
  split
  · rfl
  · next receiver hcfg =>
    by_cases hne : who = receiver
    · rw [doTransfer_of_noop (.inr hne), doTransfer_of_noop (.inr hne)]
    refine commitOrKeep_congr s fun s' => ?_
    rw [doTransfer_eq_ok hdust hne, doTransfer_eq_ok hdust hne]
    -- the sender is emptied, and the recipient is no dust
    refine and_congr_right fun hcan => ?_
    unfold transferred
    rw [finish_debit_total h hfits hcan.covered, finish_debit_total h' hfits hcan.covered]
  · refine commitOrKeep_congr s fun s' => ?_
    rw [doWithdraw_eq_ok hdust, doWithdraw_eq_ok hdust]
    refine and_congr_right fun hfree => and_congr_right fun _ => ?_
    rw [finish_debit_total h hfits hfree.1, finish_debit_total h' hfits hfree.1]

/-- **One level of the handler is enough**: with any more fuel it does the same. -/
theorem dustHandler_succ (fuel : ℕ) (hfits : (s.account who c).Fits)
    (hdust : (s.account who c).total ≠ 0) :
    dustHandler cfg (fuel + 1) s who c (s.account who c).total =
      handler cfg s who c (s.account who c).total :=
  onDust_congr (dustHandler cfg fuel) (dustHandler cfg 0) hfits hdust

/-- What follows a closure: the account is written, and then its dust is swept. -/
theorem finish_swept (cfg : Config α κ) (s : State α κ ι) (who : α) (c : κ) (existed : Bool)
    (a : AccountData) : Swept cfg (settle cfg s who c existed a) who c
      (finish cfg (handler cfg) s who c existed a) := by
  unfold finish
  simp only []
  split
  · next d hd =>
    obtain ⟨htotal, hne, hlt⟩ := dustOf_eq_some hd
    have hfits : a.Fits := fits_of_total_lt (htotal ▸ hlt)
    -- the dust is that of the account as it was written
    have haccount : (settle cfg s who c existed a).account who c = a :=
      account_settle_of_total_ne_zero (htotal ▸ hne)
    rw [← htotal]
    conv in a.total => rw [← haccount]
    apply onDust_swept
    · rw [haccount]
      exact hfits
    · rw [haccount, htotal]
      exact hne
  · exact .kept

/-- A sweep touches the account and the receiver of the dust. -/
theorem Swept.account_of_ne (hswept : Swept cfg s who c s') (hne : (w, d) ≠ (who, c))
    (hreceiver : cfg.onDust ≠ .transferDust w) : s'.account w d = s.account w d := by
  cases hswept with
  | kept => rfl
  | moved receiver hcfg _ _ _ _ _ =>
    have hother : (w, d) ≠ (receiver, c) := by
      rintro heq
      cases heq
      exact hreceiver hcfg
    rw [account_settle_of_ne hother, account_settle_of_ne hne]
  | burnt _ _ _ => rw [account_settle_of_ne hne, account_setIssuance]

/-- No sweep touches a reserved balance. -/
theorem Swept.reserved (hswept : Swept cfg s who c s') (w : α) (d : κ) :
    (s'.account w d).reserved = (s.account w d).reserved := by
  cases hswept with
  | kept => rfl
  | moved receiver _ hne _ _ _ _ =>
    -- the receiver is credited, and the account debited, free balance
    by_cases hr : (w, d) = (receiver, c)
    · cases hr
      rw [settle_reserved]
      rfl
    · rw [account_settle_of_ne hr]
      by_cases hw : (w, d) = (who, c)
      · cases hw
        rw [settle_reserved]
        rfl
      · rw [account_settle_of_ne hw]
  | burnt _ _ _ =>
    by_cases hw : (w, d) = (who, c)
    · cases hw
      rw [settle_reserved]
      rfl
    · rw [account_settle_of_ne hw, account_setIssuance]

/-- A sweep leaves the locks. -/
theorem Swept.locks (hswept : Swept cfg s who c s') : s'.locks = s.locks := by
  cases hswept with
  | kept => rfl
  | moved _ _ _ _ _ _ _ => rw [settle_locks, settle_locks]
  | burnt _ _ _ =>
    rw [settle_locks]
    rfl

/-- A sweep leaves the named reserves. -/
theorem Swept.reserves (hswept : Swept cfg s who c s') : s'.reserves = s.reserves := by
  cases hswept with
  | kept => rfl
  | moved _ _ _ _ _ _ _ => rw [settle_reserves, settle_reserves]
  | burnt _ _ _ =>
    rw [settle_reserves]
    rfl

@[simp] theorem finish_locks : (finish cfg (handler cfg) s who c existed a).locks = s.locks := by
  rw [(finish_swept cfg s who c existed a).locks, settle_locks]

@[simp] theorem finish_reserves :
    (finish cfg (handler cfg) s who c existed a).reserves = s.reserves := by
  rw [(finish_swept cfg s who c existed a).reserves, settle_reserves]

/-- A mutation touches the account and the receiver of the dust. -/
theorem finish_account_of_ne (hne : (w, d) ≠ (who, c)) (hreceiver : cfg.onDust ≠ .transferDust w) :
    (finish cfg (handler cfg) s who c existed a).account w d = s.account w d := by
  rw [(finish_swept cfg s who c existed a).account_of_ne hne hreceiver, account_settle_of_ne hne]

/-- The reserved balances after a mutation. -/
theorem finish_reserved_self :
    ((finish cfg (handler cfg) s who c existed a).account who c).reserved = a.reserved := by
  rw [(finish_swept cfg s who c existed a).reserved, settle_reserved]

/-- The other reserved balances stay. -/
theorem finish_reserved_of_ne (hne : (w, d) ≠ (who, c)) :
    ((finish cfg (handler cfg) s who c existed a).account w d).reserved =
      (s.account w d).reserved := by
  rw [(finish_swept cfg s who c existed a).reserved, account_settle_of_ne hne]

/-! ### Locks -/

omit [DecidableEq κ] in
/-- Taking a consumer changes the reference counters only. -/
theorem incConsumers_eq (n : ℕ) (s : State α κ ι) (who : α) :
    ∃ system, s.incConsumers n who = { s with system := system } := by
  unfold State.incConsumers
  split
  · exact ⟨_, rfl⟩
  · exact ⟨s.system, rfl⟩

/-- Storing locks writes the locks of the account and the reference counters. -/
theorem storeLocks_eq_ok {locks : List BalanceLock} (h : storeLocks cfg s c who locks = .ok s') :
    ∃ system, s' = { s with
      locks := if locks = [] then s.locks.erase (who, c) else s.locks.insert (who, c) locks
      system := system } := by
  unfold storeLocks at h
  simp only [] at h
  split at h
  · next hempty =>
    rw [if_pos hempty]
    cases h
    split
    · exact ⟨_, rfl⟩
    · exact ⟨s.system, rfl⟩
  · next hsome =>
    rw [if_neg hsome]
    split at h
    · cases h
      split
      · exact ⟨s.system, rfl⟩
      · exact incConsumers_eq _ _ who
    · cases h

/-- Storing locks fails if there are too many. No locks are never too many. -/
theorem storeLocks_isOk_iff (cfg : Config α κ) (s : State α κ ι) (c : κ) (who : α)
    (locks : List BalanceLock) :
    (∃ s', storeLocks cfg s c who locks = .ok s') ↔ locks.length ≤ cfg.maxLocks := by
  unfold storeLocks
  simp only []
  by_cases hempty : locks = []
  · simp [hempty]
  · rw [if_neg hempty]
    split
    · next hbound => exact iff_of_true ⟨_, rfl⟩ hbound
    · next hbound => exact iff_of_false (fun ⟨_, h⟩ => nomatch h) hbound

/-- The locks of an account after they are stored. -/
theorem storeLocks_locks {locks : List BalanceLock} (h : storeLocks cfg s c who locks = .ok s') :
    s'.locksOf who c = locks ∧
      ∀ key, key ≠ (who, c) → s'.locks.lookup key = s.locks.lookup key := by
  obtain ⟨system, rfl⟩ := storeLocks_eq_ok h
  unfold State.locksOf
  simp only []
  split
  · next hempty =>
    refine ⟨?_, fun key hkey => Finmap.lookup_erase_ne hkey⟩
    rw [Finmap.lookup_erase, hempty]
    rfl
  · refine ⟨?_, fun key hkey => Finmap.lookup_insert_of_ne _ hkey⟩
    rw [Finmap.lookup_insert]
    rfl

/-- The state in which an update of the locks stores them: the frozen amount is written. -/
def frozenAs (cfg : Config α κ) (s : State α κ ι) (c : κ) (who : α) (locks : List BalanceLock) :
    State α κ ι :=
  mutateAccount cfg (handler cfg) s who c fun a => { a with frozen := frozenBy locks }

/-- What an update of the locks makes of the locks: they are those it is given, unless these are too
many, and the locks of the other accounts stay. -/
structure LocksUpdated (cfg : Config α κ) (c : κ) (who : α) (locks : List BalanceLock)
    (s s' : State α κ ι) : Prop where
  own : s'.locksOf who c = if locks.length ≤ cfg.maxLocks then locks else s.locksOf who c
  others : ∀ key, key ≠ (who, c) → s'.locks.lookup key = s.locks.lookup key

/-- **An update of the locks**, whether it succeeds or not, writes the frozen amount and then at
most the locks and the reference counters. -/
theorem updateLocks_eq (cfg : Config α κ) (s : State α κ ι) (c : κ) (who : α)
    (locks : List BalanceLock) :
    LocksUpdated cfg c who locks s (updateLocks cfg s c who locks).1 ∧
      ∃ stored system, (updateLocks cfg s c who locks).1 =
        { frozenAs cfg s c who locks with locks := stored, system := system } := by
  have hframe : (frozenAs cfg s c who locks).locks = s.locks := finish_locks
  have hcan := storeLocks_isOk_iff cfg (frozenAs cfg s c who locks) c who locks
  unfold updateLocks
  simp only []
  split
  · next s₁ hs₁ =>
    -- the locks are stored
    obtain ⟨hown, hothers⟩ := storeLocks_locks hs₁
    obtain ⟨system, hsystem⟩ := storeLocks_eq_ok hs₁
    refine ⟨⟨?_, fun key hkey => ?_⟩, _, _, hsystem⟩
    · rw [if_pos (hcan.mp ⟨s₁, hs₁⟩)]
      exact hown
    · rw [hothers key hkey]
      exact congrArg (Finmap.lookup key) hframe
  · next e he =>
    -- there are too many: only the frozen amount has been written
    have htoo : ¬ locks.length ≤ cfg.maxLocks := by
      intro hbound
      obtain ⟨s₁, hs₁⟩ := hcan.mpr hbound
      exact nomatch hs₁.symm.trans he
    refine ⟨⟨?_, fun key _ => congrArg (Finmap.lookup key) hframe⟩, _, _, rfl⟩
    rw [if_neg htoo]
    exact congrArg (fun m => (Finmap.lookup (who, c) m).getD []) hframe

/-- An update of the locks succeeds unless there are too many. -/
theorem updateLocks_result (cfg : Config α κ) (s : State α κ ι) (c : κ) (who : α)
    (locks : List BalanceLock) :
    (updateLocks cfg s c who locks).2 = .ok () ↔ locks.length ≤ cfg.maxLocks := by
  rw [← storeLocks_isOk_iff cfg (frozenAs cfg s c who locks) c who locks]
  unfold updateLocks
  simp only []
  split
  · next s₁ hs₁ => exact iff_of_true rfl ⟨s₁, hs₁⟩
  · next e he => exact iff_of_false (fun h => nomatch h) fun ⟨_, h⟩ => nomatch h.symm.trans he

/-- A change of the locks of an account. -/
inductive LockChange
  | set (id : LockIdentifier) (amount : ℕ)
  | extend (id : LockIdentifier) (amount : ℕ)
  | remove (id : LockIdentifier)

/-- The function of the pallet that makes the change. -/
def LockChange.make (cfg : Config α κ) (s : State α κ ι) (c : κ) (who : α) :
    LockChange → State α κ ι × Except Failure Unit
  | .set id amount => setLock cfg s id c who amount
  | .extend id amount => extendLock cfg s id c who amount
  | .remove id => removeLock cfg s id c who

/-- What a change makes of the locks; `none` if it is about an amount of zero and leaves them. -/
def LockChange.locks (old : List BalanceLock) : LockChange → Option (List BalanceLock)
  | .set id amount =>
    if amount = 0 then none else some (placeLock (fun _ l => l) id (some ⟨id, amount⟩) old)
  | .extend id amount =>
    if amount = 0 then none
    else some (placeLock (fun lock l => ⟨lock.id, max lock.amount l.amount⟩) id
      (some ⟨id, amount⟩) old)
  | .remove id => some (old.filter fun lock => lock.id ≠ id)

/-- **A change of locks** leaves the state alone, or updates the locks of the account. -/
theorem LockChange.make_cases (cfg : Config α κ) (s : State α κ ι) (c : κ) (who : α)
    (change : LockChange) :
    (change.locks (s.locksOf who c) = none ∧ change.make cfg s c who = (s, .ok ())) ∨
      ∃ locks, change.locks (s.locksOf who c) = some locks ∧
        change.make cfg s c who = updateLocks cfg s c who locks := by
  cases change with
  | set id amount | extend id amount =>
    by_cases hamount : amount = 0
    · exact .inl ⟨if_pos hamount, if_pos hamount⟩
    · exact .inr ⟨_, if_neg hamount, if_neg hamount⟩
  | remove id => exact .inr ⟨_, rfl, rfl⟩

/-- A change of the locks of an account, with the way it comes: through the adapter its error is
dropped. -/
structure LockRequest (α κ : Type) where
  who : α
  c : κ
  change : LockChange
  adapter : Bool

/-- The change of locks that an operation makes, if it makes one. -/
def lockRequest : Operation α κ ι → Option (LockRequest α κ)
  | .setLock id who c amount => some ⟨who, c, .set id amount, false⟩
  | .extendLock id who c amount => some ⟨who, c, .extend id amount, false⟩
  | .removeLock id who c => some ⟨who, c, .remove id, false⟩
  | .adapterSetLock id who c amount => some ⟨who, c, .set id amount, true⟩
  | .adapterExtendLock id who c amount => some ⟨who, c, .extend id amount, true⟩
  | .adapterRemoveLock id who c => some ⟨who, c, .remove id, true⟩
  | _ => none

/-- An operation that changes locks does nothing else. It keeps what it has written if it succeeds,
and through the adapter also if it fails. -/
theorem apply_of_lockRequest [LinearOrder ι] {op : Operation α κ ι} {r : LockRequest α κ}
    (hr : lockRequest op = some r) (h : apply cfg s op = .ok s') :
    s' = (r.change.make cfg s r.c r.who).1 ∧
      (r.adapter = true ∨ (r.change.make cfg s r.c r.who).2 = .ok ()) := by
  cases op with
  | setLock | extendLock | removeLock =>
    cases hr
    exact ⟨committed_eq_ok h, .inr (committed_result h)⟩
  | adapterSetLock | adapterExtendLock | adapterRemoveLock =>
    cases hr
    cases h
    exact ⟨rfl, .inl rfl⟩
  | _ => cases hr

/-- Writing or removing a named reserve changes nothing else. -/
theorem writeOrRemove_eq (s : State α κ ι) (who : α) (c : κ) (rs : List (ReserveData ι))
    (i amount : ℕ) :
    ∃ reserves, writeOrRemove s who c rs i amount = { s with reserves := reserves } := by
  unfold writeOrRemove
  split_ifs
  · exact ⟨_, rfl⟩
  · exact ⟨_, rfl⟩
  · exact ⟨_, rfl⟩

end Reef.Tokens
