import ReefChain.Tokens.Issuance

/-!
# What the operations leave to an account

The operations that concern locks and named reserves apart, this module says once what an operation
does to one account of one currency, `w` and `d`, seen from outside (`Kept`):

* the locks stay, and so does the frozen amount unless the account is removed;
* the part of the free balance that the locks protect, `guarded = min free frozen`, does not
  shrink;
* the reserved balance does not shrink.

The last two have exceptions: slashing and setting balances do not regard locks, and there are
operations whose purpose is to take from the reserved balance. Such an operation keeps the account
under a condition, which is that it is about another one. The conditions are the parameters `F` and
`R` of the relation.
-/

namespace Reef.Tokens

open Bounded Fallible

variable {α κ ι : Type} {cfg : Config α κ} {s s' s₁ s₂ : State α κ ι} {who w : α} {c d : κ}
  {a : AccountData} {existed : Bool} {F R : Prop}

/-- The part of the free balance that the locks protect. -/
def AccountData.guarded (a : AccountData) : ℕ := min a.free a.frozen

/-- An account that is overwritten keeps what is frozen; under `F` the free balance does not fall
below what is protected, and under `R` the reserved balance does not shrink. -/
structure Spares (F R : Prop) (old new : AccountData) : Prop where
  frozen : new.frozen = old.frozen
  free : F → old.guarded ≤ new.free
  reserved : R → old.reserved ≤ new.reserved

variable [DecidableEq κ]

/-- Correcting the issuance changes nothing else. -/
theorem adjustIssuance_storage {oldTotal newTotal : ℕ}
    (h : adjustIssuance s c oldTotal newTotal = .ok s') :
    ∃ issuance, s' = { s with totalIssuance := issuance } := by
  unfold adjustIssuance at h
  split_ifs at h
  · obtain ⟨_, -, h⟩ := bind_eq_ok.mp h
    cases h
    exact ⟨_, rfl⟩
  · obtain ⟨_, -, h⟩ := bind_eq_ok.mp h
    cases h
    exact ⟨_, rfl⟩
  · cases h
    exact ⟨_, rfl⟩

variable [DecidableEq α]

/-- What is left to the account `w` in the currency `d`. -/
structure Kept (cfg : Config α κ) (F R : Prop) (w : α) (d : κ) (s s' : State α κ ι) : Prop where
  locks : s'.locks.lookup (w, d) = s.locks.lookup (w, d)
  frozen : cfg.existentialDeposits d = 0 → (s'.account w d).frozen = (s.account w d).frozen
  free : F → (s.account w d).guarded ≤ (s'.account w d).guarded
  reserved : R → (s.account w d).reserved ≤ (s'.account w d).reserved

/-- Doing nothing keeps an account. -/
theorem Kept.refl (s : State α κ ι) : Kept cfg F R w d s s :=
  ⟨rfl, fun _ => rfl, fun _ => Nat.le_refl _, fun _ => Nat.le_refl _⟩

theorem Kept.trans (h₁ : Kept cfg F R w d s s₁) (h₂ : Kept cfg F R w d s₁ s₂) :
    Kept cfg F R w d s s₂ where
  locks := h₂.locks.trans h₁.locks
  frozen hd := (h₂.frozen hd).trans (h₁.frozen hd)
  free hF := (h₁.free hF).trans (h₂.free hF)
  reserved hR := (h₁.reserved hR).trans (h₂.reserved hR)

/-- The issuance, the named reserves, the reference counters and the locks of other accounts do not
matter. -/
theorem Kept.congr (h : Kept cfg F R w d s s₁) (haccounts : s₂.accounts = s₁.accounts)
    (hlocks : s₂.locks.lookup (w, d) = s₁.locks.lookup (w, d)) : Kept cfg F R w d s s₂ := by
  have haccount : s₂.account w d = s₁.account w d := by
    unfold State.account
    rw [haccounts]
  refine ⟨?_, ?_, ?_, ?_⟩
  · rw [hlocks]
    exact h.locks
  · rw [haccount]
    exact h.frozen
  · rw [haccount]
    exact h.free
  · rw [haccount]
    exact h.reserved

/-- Writing an account in a state that has kept the others. -/
theorem Kept.settle (hother : (w, d) ≠ (who, c) → Kept cfg F R w d s s₁)
    (hlocks : s₁.locks = s.locks)
    (hown : (w, d) = (who, c) → Spares F R (s.account w d) a) :
    Kept cfg F R w d s (settle cfg s₁ who c existed a) := by
  by_cases hkey : (w, d) = (who, c)
  · have hspares := hown hkey
    obtain ⟨rfl, rfl⟩ := Prod.mk.inj hkey
    refine ⟨?_, ?_, ?_, ?_⟩
    · rw [settle_locks, hlocks]
    · intro hd
      rw [account_settle_of_noDeposit hd]
      exact hspares.frozen
    · intro hF
      have hfree := hspares.free hF
      rw [account_settle_self]
      split
      · next hreaps =>
        -- an account that is removed had nothing to protect
        rw [(balances_of_reaps hreaps).1] at hfree
        exact hfree.trans (Nat.zero_le _)
      · refine le_min hfree ?_
        rw [hspares.frozen]
        exact Nat.min_le_right _ _
    · rw [settle_reserved]
      exact hspares.reserved
  · have hkept := hother hkey
    have haccount : (Tokens.settle cfg s₁ who c existed a).account w d = s₁.account w d :=
      account_settle_of_ne hkey
    refine ⟨?_, ?_, ?_, ?_⟩
    · rw [settle_locks]
      exact hkept.locks
    · rw [haccount]
      exact hkept.frozen
    · rw [haccount]
      exact hkept.free
    · rw [haccount]
      exact hkept.reserved

/-- A sweep takes only what is free and not frozen. -/
theorem Kept.swept (h : Swept cfg s who c s') : Kept cfg F R w d s s' := by
  cases h with
  | kept => exact .refl s
  | moved receiver _ hne _ hfrozen _ _ =>
    have hemptied : Kept cfg F R w d s (Tokens.settle cfg s who c (s.stored who c)
        ((s.account who c).debit (s.account who c).free)) := by
      refine .settle (fun _ => .refl s) rfl fun hkey => ?_
      obtain ⟨rfl, rfl⟩ := Prod.mk.inj hkey
      refine ⟨rfl, fun _ => ?_, fun _ => Nat.le_refl _⟩
      unfold AccountData.guarded
      rw [hfrozen]
      exact (Nat.min_le_right _ _).trans (Nat.zero_le _)
    refine hemptied.trans (.settle (fun _ => .refl _) rfl fun hkey => ?_)
    obtain ⟨rfl, rfl⟩ := Prod.mk.inj hkey
    rw [account_settle_of_ne fun heq => hne (congrArg Prod.fst heq).symm]
    refine ⟨rfl, fun _ => ?_, fun _ => Nat.le_refl _⟩
    exact (Nat.min_le_left _ _).trans (Nat.le_add_right _ _)
  | burnt _ _ hfrozen =>
    refine .settle (fun _ => (Kept.refl s).congr rfl rfl) rfl fun hkey => ?_
    obtain ⟨rfl, rfl⟩ := Prod.mk.inj hkey
    refine ⟨rfl, fun _ => ?_, fun _ => Nat.le_refl _⟩
    unfold AccountData.guarded
    rw [hfrozen]
    exact (Nat.min_le_right _ _).trans (Nat.zero_le _)

/-- The mutation of an account. -/
theorem Kept.finish (hown : (w, d) = (who, c) → Spares F R (s.account w d) a) :
    Kept cfg F R w d s (finish cfg (handler cfg) s who c existed a) :=
  (Kept.settle (fun _ => .refl s) rfl hown).trans (.swept (finish_swept cfg s who c existed a))

/-- The account is kept, and the named reserves of all accounts stay as they are. -/
structure Leaves (cfg : Config α κ) (F R : Prop) (w : α) (d : κ) (s s' : State α κ ι) : Prop
    extends Kept cfg F R w d s s' where
  reserves : s'.reserves = s.reserves

namespace Leaves

theorem refl (s : State α κ ι) : Leaves cfg F R w d s s := ⟨.refl s, rfl⟩

theorem trans (h₁ : Leaves cfg F R w d s s₁) (h₂ : Leaves cfg F R w d s₁ s₂) :
    Leaves cfg F R w d s s₂ :=
  ⟨h₁.toKept.trans h₂.toKept, h₂.reserves.trans h₁.reserves⟩

theorem congr (h : Leaves cfg F R w d s s₁) (haccounts : s₂.accounts = s₁.accounts)
    (hlocks : s₂.locks.lookup (w, d) = s₁.locks.lookup (w, d))
    (hreserves : s₂.reserves = s₁.reserves) : Leaves cfg F R w d s s₂ :=
  ⟨h.toKept.congr haccounts hlocks, hreserves.trans h.reserves⟩

theorem finish (hown : (w, d) = (who, c) → Spares F R (s.account w d) a) :
    Leaves cfg F R w d s (finish cfg (handler cfg) s who c existed a) :=
  ⟨.finish hown, finish_reserves⟩

end Leaves

/-! ### The operations -/

/-- A debit that leaves what is frozen. -/
theorem spares_debit {amount : ℕ} (h : a.frozen ≤ a.free - amount) :
    Spares F R a (a.debit amount) :=
  ⟨rfl, fun _ => (Nat.min_le_right _ _).trans h, fun _ => Nat.le_refl _⟩

/-- An increase of the free balance. -/
theorem spares_raise {v : ℕ} (h : a.free ≤ v) : Spares F R a { a with free := v } :=
  ⟨rfl, fun _ => (Nat.min_le_left _ _).trans h, fun _ => Nat.le_refl _⟩

/-- A transfer takes from the sender what is free and not frozen. -/
theorem doTransfer_kept {source dest : α} {amount : ℕ} {existence : ExistenceRequirement}
    (h : doTransfer cfg (handler cfg) s c source dest amount existence = .ok s') :
    Leaves cfg F R w d s s' := by
  by_cases hnoop : amount = 0 ∨ source = dest
  · rw [doTransfer_of_noop hnoop] at h
    cases h
    exact .refl s
  obtain ⟨hamount, hne⟩ := not_or.mp hnoop
  obtain ⟨hcan, rfl⟩ := (doTransfer_eq_ok hamount hne).mp h
  have hsent : Kept cfg F R w d s (finish cfg (handler cfg) s source c (s.stored source c)
      ((s.account source c).debit amount)) := by
    refine .finish fun hkey => ?_
    obtain ⟨rfl, rfl⟩ := Prod.mk.inj hkey
    exact spares_debit hcan.unlocked
  -- the recipient is compared with what was read before the sender was written
  refine ⟨.settle (fun _ => hsent) finish_locks fun hkey => ?_, ?_⟩
  · obtain ⟨rfl, rfl⟩ := Prod.mk.inj hkey
    exact spares_raise (Nat.le_add_right _ _)
  · rw [transferred, settle_reserves, finish_reserves]

/-- A withdrawal takes only what is free and not locked. -/
theorem doWithdraw_kept {amount : ℕ} {existence : ExistenceRequirement} {change : Bool}
    (h : doWithdraw cfg (handler cfg) s c who amount existence change = .ok s') :
    Leaves cfg F R w d s s' := by
  by_cases hamount : amount = 0
  · rw [doWithdraw, if_pos hamount] at h
    cases h
    exact .refl s
  obtain ⟨⟨-, hunlocked⟩, -, rfl⟩ := (doWithdraw_eq_ok hamount).mp h
  have hissuance : Leaves cfg F R w d s (burnIssuance s c amount change) := by
    unfold burnIssuance
    split
    · exact (Leaves.refl s).congr rfl rfl rfl
    · exact .refl s
  refine hissuance.trans (.finish fun hkey => ?_)
  obtain ⟨rfl, rfl⟩ := Prod.mk.inj hkey
  have haccount : (burnIssuance s d amount change).account w d = s.account w d := by
    unfold burnIssuance
    split <;> rfl
  rw [haccount]
  exact spares_debit hunlocked

/-- The free balance is a word, as it is issued, so that adding to it does not lower it. -/
theorem Covered.le_satAdd_free (hb : Covered s) (who : α) (c : κ) (amount : ℕ) :
    (s.account who c).free ≤ satAdd balanceBits (s.account who c).free amount := by
  have hfits := hb.account_fits who c
  unfold AccountData.Fits at hfits
  exact le_satAdd (lt_two_pow_iff.mp (by omega))

/-- The sum that saturates is not below the reserved balance. -/
theorem Covered.le_satAdd_reserved (hb : Covered s) (who : α) (c : κ) (amount : ℕ) :
    (s.account who c).reserved ≤ satAdd balanceBits (s.account who c).reserved amount := by
  have hfits := hb.account_fits who c
  unfold AccountData.Fits at hfits
  exact le_satAdd (lt_two_pow_iff.mp (by omega))

/-- A deposit takes nothing from anyone. -/
theorem doDeposit_kept {amount : ℕ} {requireExisted change : Bool} (hb : Covered s)
    (h : doDeposit cfg (handler cfg) s c who amount requireExisted change = .ok s') :
    Leaves cfg F R w d s s' := by
  by_cases hamount : amount = 0
  · rw [doDeposit, if_pos hamount] at h
    cases h
    exact .refl s
  obtain ⟨-, -, rfl⟩ := (doDeposit_eq_ok hamount).mp h
  have hissuance : Leaves cfg F R w d s (mintIssuance s c amount change) := by
    unfold mintIssuance
    split
    · exact (Leaves.refl s).congr rfl rfl rfl
    · exact .refl s
  refine hissuance.trans (.finish fun hkey => ?_)
  obtain ⟨rfl, rfl⟩ := Prod.mk.inj hkey
  have haccount : (mintIssuance s d amount change).account w d = s.account w d := by
    unfold mintIssuance
    split <;> rfl
  rw [haccount]
  exact spares_raise (hb.le_satAdd_free w d amount)

theorem updateBalance_kept {byAmount : ℤ} (hb : Covered s)
    (h : updateBalance cfg s c who byAmount = .ok s') : Leaves cfg F R w d s s' := by
  unfold updateBalance at h
  split_ifs at h
  · cases h
    exact .refl s
  · exact doDeposit_kept hb h
  · exact doWithdraw_kept h

/-- Writing one balance of an account keeps the other accounts. -/
theorem setFreeBalance_kept {v : ℕ} (hF : F → (w, d) = (who, c) → (s.account w d).free ≤ v) :
    Leaves cfg F R w d s (setFreeBalance cfg s c who v) := by
  refine .finish fun hkey => ⟨?_, fun hF' => ?_, fun _ => ?_⟩
  · obtain ⟨rfl, rfl⟩ := Prod.mk.inj hkey
    rfl
  · exact (Nat.min_le_left _ _).trans (hF hF' hkey)
  · obtain ⟨rfl, rfl⟩ := Prod.mk.inj hkey
    exact Nat.le_refl _

theorem setReservedBalance_kept {v : ℕ}
    (hR : R → (w, d) = (who, c) → (s.account w d).reserved ≤ v) :
    Leaves cfg F R w d s (setReservedBalance cfg s c who v) := by
  refine .finish fun hkey => ⟨?_, fun _ => ?_, fun hR' => hR hR' hkey⟩
  · obtain ⟨rfl, rfl⟩ := Prod.mk.inj hkey
    rfl
  · obtain ⟨rfl, rfl⟩ := Prod.mk.inj hkey
    exact Nat.min_le_left _ _

/-- A slash keeps the other accounts. -/
theorem slash_kept (amount : ℕ) :
    Leaves cfg ((w, d) ≠ (who, c)) ((w, d) ≠ (who, c)) w d s (slash cfg s c who amount).1 := by
  unfold slash
  split
  · exact .refl s
  · simp only []
    split_ifs
    · exact (Leaves.trans (setFreeBalance_kept fun hne hkey => absurd hkey hne)
        (setReservedBalance_kept fun hne hkey => absurd hkey hne)).congr rfl rfl rfl
    · exact (setReservedBalance_kept fun hne hkey => absurd hkey hne).congr rfl rfl rfl
    · exact (setFreeBalance_kept fun hne hkey => absurd hkey hne).congr rfl rfl rfl
    · exact (Leaves.refl s).congr rfl rfl rfl

/-- Only the reserved balance of the slashed account is taken from. -/
theorem slashReserved_kept (value : ℕ) :
    Leaves cfg F ((w, d) ≠ (who, c)) w d s (slashReserved cfg s c who value).1 := by
  unfold slashReserved
  split
  · exact .refl s
  · exact (setReservedBalance_kept fun hne hkey => absurd hkey hne).congr rfl rfl rfl

/-- Reserving checks the locks as a withdrawal does. -/
theorem reserve_kept {value : ℕ} (hb : Covered s) (h : reserve cfg s c who value = .ok s') :
    Leaves cfg F R w d s s' := by
  unfold reserve at h
  split at h
  · cases h
    exact .refl s
  · next hvalue =>
    simp only [bind_eq_ok, ensureCanWithdraw_eq_ok hvalue, Except.ok.injEq] at h
    obtain ⟨-, ⟨-, hunlocked⟩, rfl⟩ := h
    refine .finish fun hkey => ?_
    obtain ⟨rfl, rfl⟩ := Prod.mk.inj hkey
    exact ⟨rfl, fun _ => (Nat.min_le_right _ _).trans hunlocked,
      fun _ => hb.le_satAdd_reserved w d value⟩

/-- What is unreserved is free again, so the free balance is spared. -/
theorem unreserve_kept (hb : Covered s) (value : ℕ) :
    Leaves cfg F ((w, d) ≠ (who, c)) w d s (unreserve cfg s c who value).1 := by
  unfold unreserve
  split
  · exact .refl s
  · refine .finish fun hkey => ⟨?_, fun _ => ?_, fun hne => absurd hkey hne⟩
    · obtain ⟨rfl, rfl⟩ := Prod.mk.inj hkey
      rfl
    · obtain ⟨rfl, rfl⟩ := Prod.mk.inj hkey
      exact (Nat.min_le_left _ _).trans (hb.le_satAdd_free w d _)

/-- A repatriation keeps the reserved balance of all but the slashed account. -/
theorem repatriateReserved_kept (hb : Covered s) (slashed beneficiary : α) (value : ℕ)
    (status : BalanceStatus) :
    Leaves cfg F ((w, d) ≠ (slashed, c)) w d s
      (repatriateReserved cfg s c slashed beneficiary value status).1 := by
  unfold repatriateReserved
  split
  · exact .refl s
  · split
    · cases status with
      | free => exact unreserve_kept hb value
      | reserved => exact .refl s
    · have hcredited : Leaves cfg F ((w, d) ≠ (slashed, c)) w d s
          (creditStatus cfg s c beneficiary (s.account beneficiary c)
            (min (s.account slashed c).reserved value) status) := by
        cases status with
        | free =>
          refine setFreeBalance_kept fun _ hkey => ?_
          obtain ⟨rfl, rfl⟩ := Prod.mk.inj hkey
          exact hb.le_satAdd_free w d _
        | reserved =>
          refine setReservedBalance_kept fun _ hkey => ?_
          obtain ⟨rfl, rfl⟩ := Prod.mk.inj hkey
          exact hb.le_satAdd_reserved w d _
      exact hcredited.trans (setReservedBalance_kept fun hne hkey => absurd hkey hne)

/-- Changing the locks of an account keeps the other accounts, whether it succeeds or not. -/
theorem updateLocks_kept (hne : (w, d) ≠ (who, c)) (locks : List BalanceLock) :
    Kept cfg F R w d s (updateLocks cfg s c who locks).1 := by
  have hfrozen : Kept cfg F R w d s (frozenAs cfg s c who locks) :=
    .finish fun hkey => absurd hkey hne
  obtain ⟨hlocks, stored, system, hwritten⟩ := updateLocks_eq cfg s c who locks
  have hother := hlocks.others (w, d) hne
  rw [hwritten] at hother ⊢
  refine hfrozen.congr rfl (hother.trans ?_)
  exact congrArg (Finmap.lookup (w, d)) finish_locks.symm

theorem LockChange.make_kept (hne : (w, d) ≠ (who, c)) (change : LockChange) :
    Kept cfg F R w d s (change.make cfg s c who).1 := by
  rcases change.make_cases cfg s c who with ⟨-, hmake⟩ | ⟨locks, -, hmake⟩
  · rw [hmake]
    exact .refl s
  · rw [hmake]
    exact updateLocks_kept hne locks

/-- A release is an unreserving that may fail. -/
theorem release_kept {amount released : ℕ} {precision : Precision} (hb : Covered s)
    (h : release cfg s c who amount precision = .ok (s', released)) :
    Leaves cfg F ((w, d) ≠ (who, c)) w d s s' := by
  unfold release at h
  split at h
  · cases h
    exact .refl s
  · rw [tryMutateAccount_eq_ok] at h
    obtain ⟨s₁, a, hf, rfl⟩ := h
    simp only [bind_eq_ok, exists_ensure_eq_ok, Except.ok.injEq, Prod.mk.injEq] at hf
    obtain ⟨-, rfl, rfl, -⟩ := hf
    refine .finish fun hkey => ⟨?_, fun _ => ?_, fun hne => absurd hkey hne⟩
    · obtain ⟨rfl, rfl⟩ := Prod.mk.inj hkey
      rfl
    · obtain ⟨rfl, rfl⟩ := Prod.mk.inj hkey
      exact (Nat.min_le_left _ _).trans (hb.le_satAdd_free w d _)

theorem transferOnHold_kept {source dest : α} {amount moved : ℕ} {precision : Precision}
    {status : BalanceStatus} (hb : Covered s)
    (h : transferOnHold cfg s c source dest amount precision status = .ok (s', moved)) :
    Leaves cfg F ((w, d) ≠ (source, c)) w d s s' := by
  unfold transferOnHold at h
  simp only [bind_eq_ok, exists_ensure_eq_ok, Except.ok.injEq, Prod.mk.injEq] at h
  obtain ⟨-, rfl, -⟩ := h
  exact repatriateReserved_kept hb source dest amount status

/-- Setting the balance on hold regards no lock: it keeps the other accounts. -/
theorem setBalanceOnHold_kept {amount : ℕ} (h : setBalanceOnHold cfg s c who amount = .ok s') :
    Leaves cfg ((w, d) ≠ (who, c)) ((w, d) ≠ (who, c)) w d s s' := by
  unfold setBalanceOnHold at h
  simp only [bind_eq_ok, Prod.exists, Except.ok.injEq, tryMutateAccount_eq_ok, okOr_eq_ok,
    checkedAdd_eq_some, checkedSub_eq_some, Prod.mk.injEq] at h
  obtain ⟨_, _, ⟨s₁, a, ⟨_, ⟨-, rfl⟩, _, ⟨-, rfl⟩, rfl, rfl, -⟩, rfl⟩, rfl⟩ := h
  refine .finish fun hkey => ⟨?_, fun hne => absurd hkey hne, fun hne => absurd hkey hne⟩
  obtain ⟨rfl, rfl⟩ := Prod.mk.inj hkey
  rfl

/-- Setting a balance may take anything from that account. -/
theorem setBalance_kept {origin : Origin α} {newFree newReserved : ℕ}
    (h : setBalance cfg s origin who c newFree newReserved = .ok s') :
    Leaves cfg ((w, d) ≠ (who, c)) ((w, d) ≠ (who, c)) w d s s' := by
  unfold setBalance at h
  simp only [bind_eq_ok, Prod.exists, Except.ok.injEq, tryMutateAccount_eq_ok, okOr_eq_ok,
    checkedAdd_eq_some, Prod.mk.injEq] at h
  obtain ⟨_, -, _, _, ⟨_, _, ⟨_, -, s₁, hadjust, rfl, rfl, -⟩, rfl⟩, rfl⟩ := h
  obtain ⟨issuance, rfl⟩ := adjustIssuance_storage hadjust
  have hissuance : Leaves cfg ((w, d) ≠ (who, c)) ((w, d) ≠ (who, c)) w d s
      { s with totalIssuance := issuance } := (Leaves.refl s).congr rfl rfl rfl
  refine hissuance.trans (.finish fun hkey =>
    ⟨?_, fun hne => absurd hkey hne, fun hne => absurd hkey hne⟩)
  obtain ⟨rfl, rfl⟩ := Prod.mk.inj hkey
  rfl

theorem burnFrom_kept {amount burnt : ℕ} (h : burnFrom cfg s c who amount = .ok (s', burnt)) :
    Leaves cfg F R w d s s' := by
  unfold burnFrom at h
  simp only [bind_eq_ok, Except.ok.injEq, Prod.mk.injEq] at h
  obtain ⟨_, -, _, hwithdraw, rfl, -⟩ := h
  exact doWithdraw_kept hwithdraw

section Named

variable [LinearOrder ι]

theorem reserveNamed_kept {id : ι} {value : ℕ} (hb : Covered s)
    (h : reserveNamed cfg s id c who value = .ok s') : Kept cfg F R w d s s' := by
  unfold reserveNamed at h
  split at h
  · cases h
    exact .refl s
  · simp only [bind_eq_ok, Except.ok.injEq] at h
    obtain ⟨rs, -, s₁, hs₁, rfl⟩ := h
    exact (reserve_kept hb hs₁).toKept.congr rfl rfl

theorem unreserveNamed_kept (hb : Covered s) (id : ι) (value : ℕ) :
    Kept cfg F ((w, d) ≠ (who, c)) w d s (unreserveNamed cfg s id c who value).1 := by
  unfold unreserveNamed
  split
  · exact .refl s
  · split
    · exact .refl s
    · next rs _ =>
      split
      · exact .refl s
      · next i _ =>
        have hmoved : Kept cfg F ((w, d) ≠ (who, c)) w d s
            (unreserve cfg s c who (min (amountAt rs i) value)).1 := (unreserve_kept hb _).toKept
        obtain ⟨reserves, hwritten⟩ := writeOrRemove_eq
          (unreserve cfg s c who (min (amountAt rs i) value)).1 who c rs i
          (amountAt rs i - (min (amountAt rs i) value -
            (unreserve cfg s c who (min (amountAt rs i) value)).2))
        simp only [hwritten]
        exact hmoved.congr rfl rfl

theorem slashReservedNamed_kept (id : ι) (value : ℕ) :
    Kept cfg F ((w, d) ≠ (who, c)) w d s (slashReservedNamed cfg s id c who value).1 := by
  unfold slashReservedNamed
  split
  · exact .refl s
  · simp only []
    split
    · exact (Kept.refl s).congr rfl rfl
    · exact (slashReserved_kept _).toKept.congr rfl rfl

theorem moveNamed_kept (hb : Covered s) (id : ι) (slashed beneficiary : α) (toChange : ℕ)
    (status : BalanceStatus) :
    Kept cfg F ((w, d) ≠ (slashed, c)) w d s
      (moveNamed cfg s id c slashed beneficiary toChange status).1 := by
  have hmoved : Kept cfg F ((w, d) ≠ (slashed, c)) w d s
      (repatriateReserved cfg s c slashed beneficiary toChange status).1 :=
    (repatriateReserved_kept hb slashed beneficiary toChange status).toKept
  unfold moveNamed
  cases status with
  | free => exact hmoved
  | reserved =>
    simp only []
    split
    · exact hmoved.congr rfl rfl
    · exact hmoved

/-- Only the slashed account gives up reserved balance. -/
theorem repatriateReservedNamed_kept (hb : Covered s) (id : ι) (slashed beneficiary : α)
    (value : ℕ) (status : BalanceStatus) :
    Kept cfg F ((w, d) ≠ (slashed, c)) w d s
      (repatriateReservedNamed cfg s id c slashed beneficiary value status).1 := by
  unfold repatriateReservedNamed
  split
  · exact .refl s
  · split
    · split
      · exact unreserveNamed_kept hb id value
      · exact .refl s
    · simp only []
      split
      · exact (Kept.refl s).congr rfl rfl
      · next i hi =>
        have hmoved : Kept cfg F ((w, d) ≠ (slashed, c)) w d s
            (moveNamed cfg s id c slashed beneficiary
              (min (amountAt (s.reservesOf slashed c) i) value) status).1 :=
          moveNamed_kept hb id slashed beneficiary _ status
        split
        · next s₁ e heq =>
          rw [heq] at hmoved
          exact hmoved
        · next s₁ actual heq =>
          rw [heq] at hmoved
          exact hmoved.congr rfl rfl

end Named

/-! ### Which operation takes what -/

/-- The operation takes from the free balance of the account without regard to its locks. -/
def TakesFree (w : α) (d : κ) : Operation α κ ι → Prop
  | .slash who c _ => (w, d) = (who, c)
  | .setBalance _ who c _ _ => (w, d) = (who, c)
  | .setBalanceOnHold who c _ => (w, d) = (who, c)
  | _ => False

/-- The operation may take from the reserved balance of the account. -/
def TakesReserved (w : α) (d : κ) : Operation α κ ι → Prop
  | .slash who c _ => (w, d) = (who, c)
  | .setBalance _ who c _ _ => (w, d) = (who, c)
  | .setBalanceOnHold who c _ => (w, d) = (who, c)
  | .slashReserved who c _ => (w, d) = (who, c)
  | .unreserve who c _ => (w, d) = (who, c)
  | .repatriateReserved slashed _ c _ _ => (w, d) = (slashed, c)
  | .unreserveNamed _ who c _ => (w, d) = (who, c)
  | .slashReservedNamed _ who c _ => (w, d) = (who, c)
  | .repatriateReservedNamed _ slashed _ c _ _ => (w, d) = (slashed, c)
  | .release who c _ _ => (w, d) = (who, c)
  | .transferOnHold source _ c _ _ _ => (w, d) = (source, c)
  | _ => False

/-- The operation is about the locks of the account. -/
def ChangesLocks (w : α) (d : κ) (op : Operation α κ ι) : Prop :=
  ∃ r, lockRequest op = some r ∧ (w, d) = (r.who, r.c)

/-- The operation is about a named reserve. -/
def NamesReserve : Operation α κ ι → Prop
  | .reserveNamed _ _ _ _ => True
  | .unreserveNamed _ _ _ _ => True
  | .slashReservedNamed _ _ _ _ => True
  | .repatriateReservedNamed _ _ _ _ _ _ => True
  | _ => False

section Apply

variable [LinearOrder ι] {op : Operation α κ ι}

/-- What an operation that is neither about locks nor about names leaves. -/
theorem apply_leaves (hb : Covered s) (hlock : lockRequest op = none) (hnamed : ¬ NamesReserve op)
    (h : apply cfg s op = .ok s') :
    Leaves cfg (¬ TakesFree w d op) (¬ TakesReserved w d op) w d s s' := by
  -- the operations that make a transfer go first
  cases htransfer : transferOf cfg s op with
  | some t =>
    obtain ⟨existence, happly⟩ := apply_of_transferOf htransfer
    exact doTransfer_kept (happly ▸ h)
  | none =>
  cases op with
  | transfer origin | transferAll origin | transferKeepAlive origin =>
    cases origin with
    | root => cases h
    | signed source => cases htransfer
  | forceTransfer origin =>
    cases origin with
    | root => cases htransfer
    | signed who => cases h
  | fungiblesTransfer => cases htransfer
  | setBalance origin who c newFree newReserved => exact setBalance_kept h
  | deposit who c amount => exact doDeposit_kept hb h
  | withdraw who c amount => exact doWithdraw_kept h
  | slash who c amount =>
    cases h
    exact slash_kept amount
  | updateBalance who c byAmount => exact updateBalance_kept hb h
  | setLock | extendLock | removeLock | adapterSetLock | adapterExtendLock | adapterRemoveLock =>
    cases hlock
  | slashReserved who c value =>
    cases h
    exact slashReserved_kept value
  | reserve who c value => exact reserve_kept hb h
  | unreserve who c value =>
    cases h
    exact unreserve_kept hb value
  | repatriateReserved slashed beneficiary c value status =>
    cases h
    exact repatriateReserved_kept hb slashed beneficiary value status
  | reserveNamed | unreserveNamed | slashReservedNamed | repatriateReservedNamed =>
    exact absurd trivial hnamed
  | mintInto who c amount =>
    obtain ⟨-, -, hdeposit⟩ := bind_eq_ok.mp h
    exact doDeposit_kept hb hdeposit
  | burnFrom who c amount =>
    obtain ⟨⟨_, burnt⟩, hburn, rfl⟩ := map_eq_ok.mp h
    exact burnFrom_kept hburn
  | release who c amount precision =>
    obtain ⟨⟨_, released⟩, hrelease, rfl⟩ := map_eq_ok.mp h
    exact release_kept hb hrelease
  | transferOnHold source dest c amount precision status =>
    obtain ⟨⟨_, moved⟩, hmoved, rfl⟩ := map_eq_ok.mp h
    exact transferOnHold_kept hb hmoved
  | setBalanceOnHold who c amount => exact setBalanceOnHold_kept h

/-- **What an operation leaves to an account**, if it is not about its locks. -/
theorem apply_kept (hb : Covered s) (hlocks : ¬ ChangesLocks w d op)
    (h : apply cfg s op = .ok s') :
    Kept cfg (¬ TakesFree w d op) (¬ TakesReserved w d op) w d s s' := by
  by_cases hnamed : NamesReserve op
  · cases op with
    | reserveNamed id who c value => exact reserveNamed_kept hb h
    | unreserveNamed id who c value =>
      cases h
      exact unreserveNamed_kept hb id value
    | slashReservedNamed id who c value =>
      cases h
      exact slashReservedNamed_kept id value
    | repatriateReservedNamed id slashed beneficiary c value status =>
      rw [committed_eq_ok h]
      exact repatriateReservedNamed_kept hb id slashed beneficiary value status
    | _ => cases hnamed
  · cases hlock : lockRequest op with
    | some r =>
      rw [(apply_of_lockRequest hlock h).1]
      exact r.change.make_kept fun hkey => hlocks ⟨r, hlock, hkey⟩
    | none => exact (apply_leaves hb hlock hnamed h).toKept

end Apply

end Reef.Tokens
