import ReefChain.Evm.CodeRefs

/-!
# What is left of a removed contract

A contract is removed by its maintainer (`selfdestruct`) or by its own code (`SELFDESTRUCT`). Its
account holds free balance and, reserved, the deposit for its storage, which is kept until the
contract is deleted. This file compares what the two ways do to the contract and to these funds.

Both clear the storage of the contract, delete its record and give back the reference to its code
(`Removed`). They differ in the deposit. The extrinsic unreserves it and sends everything to the
caller (`selfdestruct_paidOut_iff`). The opcode sends the free balance to the beneficiary and does
not look at the reserve. What happens to the reserve is up to the meter of the frame, which moves
back to the origin what the frame itself has freed, slot by slot (`opcode_paidOut_iff`). The bytes a
contract is charged for besides its slots are never among them, so as a rule a part of the deposit
stays on an account without a contract.

Funds are followed through the totals of accounts. Unreserving moves funds within an account, so the
totals do not depend on what the root meter releases, nor on whose account that is after the
contract's own account has been reaped.
-/

namespace Reef

/-! ### Settlements and totals -/

namespace Evm.DepositConfig

variable {α : Type} [DecidableEq α] {D : DepositConfig α} {origin contract : EvmAddress}
  {l l' : Ledger α} {used refunded : ℕ} {r : DispatchResult}

theorem unreserveStorage_total (D : DepositConfig α) (origin : EvmAddress) (l : Ledger α)
    (limit used refunded : ℕ) (a : α) :
    (D.unreserveStorage origin l limit used refunded).1.total a = l.total a := by
  unfold unreserveStorage
  split
  · rfl
  · exact Ledger.unreserve_total l _ _ a

/-- A settlement within one account leaves all totals. -/
theorem chargeStorage_total_self (hself : D.getAccountId contract = D.getAccountId origin)
    (h : D.chargeStorage origin l contract used refunded = (l', r)) (a : α) :
    l'.total a = l.total a := by
  unfold chargeStorage at h
  simp only [hself] at h
  split at h
  · cases h
    rfl
  · split at h
    · -- the amount is unreserved, transferred to the account itself and reserved again
      split at h
      · cases h
        exact Ledger.unreserve_total l _ _ a
      · next l₁ htransfer =>
        have hsame :
        l₁ = (l.unreserve (D.getAccountId origin) (D.deposit (used - refunded))).1 := by
          simpa [Ledger.transfer, eq_comm] using htransfer
        subst hsame
        split at h
        · cases h
          exact Ledger.unreserve_total l _ _ a
        · next l₂ hreserve =>
          cases h
          rw [Ledger.reserve_total hreserve, Ledger.unreserve_total]
    · cases h
      unfold Ledger.repatriateReserved
      rw [if_pos rfl]

/-- A settlement that is not a net refund takes nothing from the contract. -/
theorem chargeStorage_total_le (hle : refunded ≤ used)
    (h : D.chargeStorage origin l contract used refunded = (l', r)) :
    l.total (D.getAccountId contract) ≤ l'.total (D.getAccountId contract) := by
  by_cases hself : D.getAccountId contract = D.getAccountId origin
  · exact (chargeStorage_total_self hself h _).ge
  unfold chargeStorage at h
  simp only [] at h
  split at h
  · cases h
    exact le_rfl
  · next hne =>
    have hlt : refunded < used := by omega
    rw [if_pos hlt] at h
    have hunreserve := Ledger.unreserve_total l (D.getAccountId origin)
      (D.deposit (used - refunded)) (D.getAccountId contract)
    split at h
    · cases h
      exact hunreserve.ge
    · next l₁ htransfer =>
      -- the contract is on the receiving side
      have hfree := Ledger.transfer_free htransfer (D.getAccountId contract)
      rw [if_neg (Ne.symm hself), if_neg hself, if_pos rfl] at hfree
      have hreserved := congrFun (Ledger.transfer_reserved htransfer) (D.getAccountId contract)
      have hgrows : l.total (D.getAccountId contract) ≤ l₁.total (D.getAccountId contract) := by
        rw [← hunreserve]
        unfold Ledger.total
        omega
      split at h
      · cases h
        exact hgrows
      · next l₂ hreserve =>
        cases h
        rw [Ledger.reserve_total hreserve]
        exact hgrows

/-- A net refund moves what it can from the reserve of the contract to that of the origin. -/
theorem chargeStorage_total_refund (hlt : used < refunded)
    (hne : D.getAccountId contract ≠ D.getAccountId origin)
    (h : D.chargeStorage origin l contract used refunded = (l', r)) (a : α) :
    l'.total a =
      if a = D.getAccountId contract then
        l.free a + (l.reserved a - D.deposit (refunded - used))
      else if a = D.getAccountId origin then
        l.total a + min (l.reserved (D.getAccountId contract)) (D.deposit (refunded - used))
      else l.total a := by
  unfold chargeStorage at h
  simp only [] at h
  rw [if_neg (by omega), if_neg (by omega)] at h
  cases h
  unfold Ledger.total
  rw [Ledger.repatriateReserved_free, Ledger.repatriateReserved_reserved, if_neg hne]
  by_cases hcontract : a = D.getAccountId contract
  · rw [if_pos hcontract, if_pos hcontract, hcontract]
  · rw [if_neg hcontract, if_neg hcontract]
    by_cases horigin : a = D.getAccountId origin
    · rw [if_pos horigin, if_pos horigin, horigin, Nat.add_assoc]
    · rw [if_neg horigin, if_neg horigin]

end Evm.DepositConfig

namespace Evm

open Bounded

/-! ### Records, storage and code -/

/-- From `s` to `s'` the storage of the contract was cleared and a reference to its code, which has
the hash `h`, was given back. -/
structure Cleared (s s' : State) (contract : EvmAddress) (h : H256) : Prop where
  storage : s'.accountStorages contract = ∅
  reference : s'.refCount h ≤ s.refCount h - 1

variable {C : Config} {s s₁ s' : State} {contract : EvmAddress} {h : H256}

/-- Removing further accounts keeps the contract cleared. -/
theorem Cleared.removeAccount (hc : Cleared s s' contract h) (address : EvmAddress) :
    Cleared s (s'.removeAccount address) contract h := by
  constructor
  · rw [State.removeAccount_accountStorages]
    by_cases ha : contract = address
    · rw [ha, Function.update_self]
    · rw [Function.update_of_ne ha]
      exact hc.storage
  · rw [removeAccount_refCount]
    exact (Nat.sub_le _ _).trans hc.reference

theorem Cleared.congr (hc : Cleared s s₁ contract h)
    (hstorages : s'.accountStorages = s₁.accountStorages) (hinfos : s'.codeInfos = s₁.codeInfos) :
    Cleared s s' contract h := by
  constructor
  · rw [hstorages]
    exact hc.storage
  · unfold State.refCount
    rw [hinfos]
    exact hc.reference

theorem Cleared.setLedger (hc : Cleared s s₁ contract h) (l : Ledger AccountId)
    (accounts : List AccountId) : Cleared s (s₁.setLedger C l accounts) contract h :=
  State.setLedger_induction (P := fun s' => Cleared s s' contract h)
    (fun _ address hc => hc.removeAccount address)
    (fun _ _ hc => hc.congr rfl rfl) (fun _ _ hc => hc.congr rfl rfl) hc l accounts

/-- Unlinking a contract clears it. -/
theorem cleared_unlink (s : State) (contract : EvmAddress) (h : H256) :
    Cleared s (s.unlink contract h) contract h := by
  constructor
  · exact (congrFun (State.derefCode_accountStorages _ h) contract).trans (Function.update_self ..)
  · rw [State.unlink_refCount, if_pos rfl]

variable {info : ContractInfo} {caller target origin : EvmAddress} {c : Chain} {w' : World}
  {above : List StorageMeter}

/-- Removing the account of a contract clears it. -/
theorem cleared_removeAccount (hinfo : s.contractInfo contract = some info) :
    Cleared s (s.removeAccount contract) contract info.codeHash := by
  have hcode : s.codeOf contract = some info.codeHash := by
    rw [State.codeOf, hinfo]
    rfl
  constructor
  · rw [State.removeAccount_accountStorages, Function.update_self]
  · rw [removeAccount_refCount, if_pos hcode]

/-! ### Funds -/

/-- From `s` to `s'` the account `acc` lost everything it held, and the others received `gain`. -/
structure PaidOut (s s' : State) (acc : AccountId) (gain : AccountId → ℕ) : Prop where
  free : s'.ledger.free acc = 0
  reserved : s'.ledger.reserved acc = 0
  received : ∀ b, b ≠ acc → s'.ledger.total b = s.ledger.total b + gain b

theorem paidOut_iff {acc : AccountId} {gain : AccountId → ℕ} :
    PaidOut s s' acc gain ↔ s'.ledger.total acc = 0 ∧
      ∀ b, b ≠ acc → s'.ledger.total b = s.ledger.total b + gain b := by
  constructor
  · rintro ⟨hfree, hreserved, hothers⟩
    refine ⟨?_, hothers⟩
    rw [Ledger.total, hfree, hreserved]
  · rintro ⟨hnone, hothers⟩
    unfold Ledger.total at hnone
    exact ⟨by omega, by omega, hothers⟩

/-- Transferring all free balance of an account. -/
theorem transfer_all_total {l l' : Ledger AccountId} {a b : AccountId}
    (h : l.transfer a b (l.free a) = .ok l') (c : AccountId) :
    l'.total c = if a = b then l.total c else if c = a then l.reserved a
      else l.total c + if c = b then l.free a else 0 := by
  have hfree := Ledger.transfer_free h c
  have hreserved := congrFun (Ledger.transfer_reserved h) c
  unfold Ledger.total
  by_cases hab : a = b
  · rw [if_pos hab] at hfree ⊢
    rw [hfree, hreserved]
  · rw [if_neg hab] at hfree ⊢
    by_cases hca : c = a
    · subst hca
      rw [if_pos rfl, Nat.sub_self] at hfree
      rw [if_pos rfl, hfree, hreserved, Nat.zero_add]
    · rw [if_neg hca] at hfree ⊢
      by_cases hcb : c = b
      · subst hcb
        rw [if_pos rfl] at hfree ⊢
        omega
      · rw [if_neg hcb] at hfree ⊢
        rw [hfree, hreserved, Nat.add_zero]

/-! ### The extrinsic -/

theorem State.selfdestruct_eq_ok {who : AccountId} (hcaller : s.getEvmAddress who = some caller)
    (hok : s.selfdestruct C who contract = .ok s') :
    ∃ s₁, s.removeContract C caller contract = .ok s₁ ∧
      s' = { s₁ with history := .destroyed contract :: s₁.history }.depositEvent
        (.contractSelfdestructed caller contract) := by
  unfold State.selfdestruct at hok
  obtain ⟨caller', hcaller', hok⟩ := Fallible.bind_eq_ok.mp hok
  obtain ⟨s₁, hs₁, hok⟩ := Fallible.bind_eq_ok.mp hok
  cases hok
  obtain rfl : caller = caller' :=
    Option.some.inj (hcaller.symm.trans (Fallible.okOr_eq_ok.mp hcaller'))
  exact ⟨s₁, (State.doSelfdestruct_eq_ok hs₁).2, rfl⟩

/-- `remove_contract` clears the contract. -/
theorem removeContract_cleared (hinfo : s.contractInfo contract = some info)
    (hok : s.removeContract C caller contract = .ok s') :
    s'.contractInfo contract = none ∧ Cleared s s' contract info.codeHash := by
  obtain ⟨record, info', s₁, hrecord, hinfo', htransfer, rfl⟩ := State.removeContract_eq_ok hok
  obtain rfl : info = info' := by
    rw [State.contractInfo, hrecord] at hinfo
    exact Option.some.inj (hinfo.symm.trans hinfo')
  constructor
  · refine (State.contractInfo_insert rfl contract).trans ?_
    rw [if_pos rfl]
  · have hmoved : Cleared s s₁ contract info.codeHash := by
      obtain ⟨l, -, rfl⟩ := State.transferAll_eq_ok htransfer
      exact (cleared_unlink s contract info.codeHash).setLedger l _
    exact hmoved.congr rfl rfl

/-- What `remove_contract` does to the totals: everything goes to the caller. -/
theorem removeContract_total (hok : s.removeContract C caller contract = .ok s') (b : AccountId) :
    s'.ledger.total b =
      if s.getAccountId contract = s.getAccountId caller then s.ledger.total b
      else if b = s.getAccountId contract then 0
      else s.ledger.total b +
        if b = s.getAccountId caller then s.ledger.total (s.getAccountId contract) else 0 := by
  obtain ⟨record, info, s₁, hrecord, hinfo, htransfer, rfl⟩ := State.removeContract_eq_ok hok
  set acc := s.getAccountId contract
  obtain ⟨l, hl, rfl⟩ := State.transferAll_eq_ok htransfer
  change (State.setLedger C _ l [acc]).ledger.total b = _
  rw [State.setLedger_ledger]
  -- the deposit is unreserved first
  have hunlinked : (s.unlink contract info.codeHash).ledger =
      (s.ledger.unreserve acc (s.ledger.reserved acc)).1 := rfl
  have hreserved : (s.unlink contract info.codeHash).ledger.reserved acc = 0 := by
    rw [hunlinked, Ledger.unreserve_reserved, if_pos rfl, Nat.sub_self]
  have htotals : ∀ c, (s.unlink contract info.codeHash).ledger.total c = s.ledger.total c := by
    intro c
    rw [hunlinked, Ledger.unreserve_total]
  have hfree : (s.unlink contract info.codeHash).ledger.free acc = s.ledger.total acc := by
    rw [← htotals, Ledger.total, hreserved, Nat.add_zero]
  rw [transfer_all_total hl, hreserved, hfree, htotals]

/-- **The extrinsic** pays out the whole deposit with the free balance, unless the caller has the
account of the contract itself. -/
theorem selfdestruct_paidOut_iff (hpos : 0 < s.ledger.reserved (s.getAccountId contract))
    (hok : s.removeContract C caller contract = .ok s') :
    PaidOut s s' (s.getAccountId contract)
        (fun b => if b = s.getAccountId caller then s.ledger.total (s.getAccountId contract)
          else 0) ↔
      s.getAccountId caller ≠ s.getAccountId contract := by
  have htotal := removeContract_total hok
  have hheld : 0 < s.ledger.total (s.getAccountId contract) := Nat.add_pos_right _ hpos
  rw [paidOut_iff]
  constructor
  · rintro ⟨hnone, -⟩ hsame
    rw [htotal, if_pos hsame.symm] at hnone
    omega
  · intro hne
    constructor
    · rw [htotal, if_neg (Ne.symm hne), if_pos rfl]
    · intro b hb
      rw [htotal, if_neg (Ne.symm hne), if_neg hb]

/-! ### The opcode -/

/-- What a successful `SELFDESTRUCT` of a contract with a deposit does. Nobody is reaped, since the
deposit stays. -/
theorem markDelete_eq_ok (hpos : 0 < s.ledger.reserved (s.getAccountId contract))
    (hok : s.markDelete C false contract target = .ok s₁) :
    ∃ l, s.ledger.transfer (s.getAccountId contract) (s.getAccountId target)
        (s.ledger.free (s.getAccountId contract)) = .ok l ∧
      s₁ = { s.removeAccount contract with
        ledger := l
        queuedEvents := s₁.queuedEvents
        history := s₁.history } := by
  obtain ⟨s₂, htransfer, rfl⟩ := State.markDelete_moved hok
  obtain ⟨l, hl, rfl⟩ := State.transferAll_eq_ok htransfer
  rw [State.removeAccount_ledger] at hl
  refine ⟨l, hl, ?_⟩
  have halive : ∀ a ∈ [s.getAccountId contract],
      (s.removeAccount contract).ledger.emptied l a = false := by
    intro a ha
    obtain rfl := List.mem_singleton.mp ha
    have hreserved := congrFun (Ledger.transfer_reserved hl) (s.getAccountId contract)
    rw [Ledger.emptied, decide_eq_false_iff_not]
    omega
  rw [State.setLedger_of_not_emptied halive]

/-- Finishing the meter of a frame changes the totals by the settlement of its storage. -/
theorem finish_total {w : World} (hfin : c.finish (World.host C origin) w = (above, w', .ok ())) :
    ∃ l, (w.state.deposits C).chargeStorage origin w.state.ledger c.self.contract c.self.selfUsed
        c.self.selfRefunded = (l, .ok ()) ∧ ∀ b, w'.state.ledger.total b = l.total b := by
  rcases Chain.finish_host hfin with ⟨-, e, he⟩ | ⟨e, -, he⟩ | ⟨w₁, hcharge, hunreserve⟩
  · cases he
  · cases he
  · obtain rfl := congrArg Prod.fst hcharge
    have haccepted : ((w.state.deposits C).chargeStorage origin w.state.ledger c.self.contract
        c.self.selfUsed c.self.selfRefunded).2 = .ok () := congrArg Prod.snd hcharge
    have hcharged := State.setLedger_ledger C w.state ((w.state.deposits C).chargeStorage origin
        w.state.ledger c.self.contract c.self.selfUsed c.self.selfRefunded).1
      [w.state.getAccountId origin, w.state.getAccountId c.self.contract]
    refine ⟨_, Prod.ext rfl haccepted, fun b => ?_⟩
    -- only the root meter unreserves what is left
    cases above with
    | nil =>
      obtain rfl := congrArg Prod.fst hunreserve
      refine (DepositConfig.unreserveStorage_total _ origin _ _ _ _ b).trans ?_
      exact congrArg (Ledger.total · b) hcharged
    | cons m ms =>
      obtain rfl := congrArg Prod.fst hunreserve
      exact congrArg (Ledger.total · b) hcharged

/-- **The opcode** and the settlement of its frame pay out everything exactly if the beneficiary is
not the contract itself (or there is no free balance), the origin is not the contract, and the frame
has freed, net, storage worth the whole deposit. -/
theorem opcode_paidOut_iff {tr : List Observation}
    (hpos : 0 < s.ledger.reserved (s.getAccountId contract))
    (hok : s.markDelete C false contract target = .ok s₁) (hmeter : c.self.contract = contract)
    (hfin : c.finish (World.host C origin) ⟨s₁, tr⟩ = (above, w', .ok ())) :
    PaidOut s w'.state (s.getAccountId contract)
        (fun b => (if b = s.getAccountId target then s.ledger.free (s.getAccountId contract)
          else 0) + if b = s.getAccountId origin then s.ledger.reserved (s.getAccountId contract)
          else 0) ↔
      (s.getAccountId target = s.getAccountId contract →
        s.ledger.free (s.getAccountId contract) = 0) ∧
      s.getAccountId origin ≠ s.getAccountId contract ∧
      c.self.selfUsed < c.self.selfRefunded ∧
      s.ledger.reserved (s.getAccountId contract) ≤
        (s.deposits C).deposit (c.self.selfRefunded - c.self.selfUsed) := by
  obtain ⟨l, hl, hs₁⟩ := markDelete_eq_ok hpos hok
  -- the settlement sees the ledger after the transfer, and the same accounts
  have hdeposits : s₁.deposits C = s.deposits C := by
    rw [hs₁]
    unfold State.deposits State.getAccountId
    simp only [State.removeAccount_mapping]
  have hledger : s₁.ledger = l := by rw [hs₁]
  obtain ⟨l₂, hcharge, htotals⟩ := finish_total hfin
  rw [hdeposits, hledger, hmeter] at hcharge
  set acc := s.getAccountId contract
  set beneficiary := s.getAccountId target
  have hreserved : l.reserved acc = s.ledger.reserved acc :=
    congrFun (Ledger.transfer_reserved hl) acc
  have hfree : l.free acc = if acc = beneficiary then s.ledger.free acc else 0 := by
    rw [Ledger.transfer_free hl, if_pos rfl, Nat.sub_self]
  have hheld : 0 < l.total acc := by
    rw [Ledger.total, hreserved]
    exact Nat.add_pos_right _ hpos
  rw [paidOut_iff]
  by_cases hself : s.getAccountId origin = acc
  · -- settling with itself leaves the account what it held
    have hsame := DepositConfig.chargeStorage_total_self hself.symm hcharge acc
    refine iff_of_false (fun h => ?_) (fun h => h.2.1 hself)
    rw [htotals, hsame] at h
    omega
  by_cases hlt : c.self.selfUsed < c.self.selfRefunded
  · have hrefund : ∀ b, w'.state.ledger.total b = _ := fun b => (htotals b).trans
      (DepositConfig.chargeStorage_total_refund hlt (Ne.symm hself) hcharge b)
    have hacc : w'.state.ledger.total acc = (if acc = beneficiary then s.ledger.free acc else 0) +
        (s.ledger.reserved acc -
          (s.deposits C).deposit (c.self.selfRefunded - c.self.selfUsed)) := by
      refine (hrefund acc).trans ((if_pos rfl).trans ?_)
      rw [hfree, hreserved]
    constructor
    · rintro ⟨hnone, -⟩
      rw [hacc] at hnone
      refine ⟨fun heq => ?_, hself, hlt, by omega⟩
      rw [if_pos heq.symm] at hnone
      omega
    · rintro ⟨hkept, -, -, hcovered⟩
      have hzero : (if acc = beneficiary then s.ledger.free acc else 0) = 0 := by
        split
        · next heq => exact hkept heq.symm
        · rfl
      refine ⟨by omega, fun b hb => ?_⟩
      -- the beneficiary has got the free balance, the origin gets the deposit
      have hsent : l.total b =
          s.ledger.total b + if b = beneficiary then s.ledger.free acc else 0 := by
        rw [transfer_all_total hl, if_neg hb]
        split
        · next heq => rw [if_neg (heq ▸ hb), Nat.add_zero]
        · rfl
      refine (hrefund b).trans ((if_neg hb).trans ?_)
      change (if b = s.getAccountId origin then _ else _) = _
      split
      · next heq =>
        rw [hsent, Nat.add_assoc]
        congr 2
        change min (l.reserved acc) _ = _
        rw [hreserved]
        exact Nat.min_eq_left hcovered
      · rw [hsent, Nat.add_zero]
  · have hle := DepositConfig.chargeStorage_total_le (Nat.le_of_not_lt hlt) hcharge
    refine iff_of_false (fun h => ?_) (fun h => hlt h.2.2.1)
    have hnone := h.1
    rw [htotals] at hnone
    exact absurd (hle.trans hnone.le) (Nat.not_le.mpr hheld)

/-! ### Both ways -/

/-- `SELFDESTRUCT` and the settlement of its frame clear the contract. -/
theorem opcode_cleared {tr : List Observation} {r : DispatchResult}
    (hinfo : s.contractInfo contract = some info)
    (hok : s.markDelete C false contract target = .ok s₁)
    (hfin : c.finish (World.host C origin) ⟨s₁, tr⟩ = (above, w', r)) :
    w'.state.contractInfo contract = none ∧ Cleared s w'.state contract info.codeHash := by
  have hremoved : (s.removeAccount contract).contractInfo contract = none := by
    rw [State.removeAccount_contractInfo, if_pos rfl]
  have hdeleted : s₁.contractInfo contract = none ∧ Cleared s s₁ contract info.codeHash := by
    obtain ⟨s₂, htransfer, rfl⟩ := State.markDelete_moved hok
    obtain ⟨l, -, rfl⟩ := State.transferAll_eq_ok htransfer
    exact ⟨State.setLedger_contractInfo_none hremoved _ _,
      ((cleared_removeAccount hinfo).setLedger _ _).congr rfl rfl⟩
  rcases finish_world hfin with rfl | ⟨l, accounts, l', rfl⟩
  · exact hdeleted
  · exact ⟨State.setLedger_contractInfo_none hdeleted.1 l accounts,
      (hdeleted.2.setLedger l accounts).congr rfl rfl⟩

/-- **What removing a contract releases.** Take any state and a contract whose account has a
reserve. Both ways of removing it delete the record and clear storage and code. The extrinsic leaves
the account empty, with everything paid to the caller, exactly if the caller does not have the
account of the contract. The opcode does so, with everything paid to the beneficiary and the origin,
exactly if the frame's net refund covers the whole reserve and neither of the two is the
contract. -/
theorem removal_releases_deposit_iff (C : Config) (s : State) (contract : EvmAddress)
    (info : ContractInfo) (hinfo : s.contractInfo contract = some info)
    (hpos : 0 < s.ledger.reserved (s.getAccountId contract)) :
    (∀ who caller s', s.getEvmAddress who = some caller →
      s.selfdestruct C who contract = .ok s' →
      s'.contractInfo contract = none ∧ Cleared s s' contract info.codeHash ∧
      (PaidOut s s' (s.getAccountId contract)
          (fun b => if b = s.getAccountId caller then s.ledger.total (s.getAccountId contract)
            else 0) ↔
        s.getAccountId caller ≠ s.getAccountId contract)) ∧
    ∀ target origin s₁ (c : Chain) tr above w',
      s.markDelete C false contract target = .ok s₁ → c.self.contract = contract →
      c.finish (World.host C origin) ⟨s₁, tr⟩ = (above, w', .ok ()) →
      w'.state.contractInfo contract = none ∧ Cleared s w'.state contract info.codeHash ∧
      (PaidOut s w'.state (s.getAccountId contract)
          (fun b => (if b = s.getAccountId target then s.ledger.free (s.getAccountId contract)
            else 0) + if b = s.getAccountId origin then s.ledger.reserved (s.getAccountId contract)
            else 0) ↔
        (s.getAccountId target = s.getAccountId contract →
          s.ledger.free (s.getAccountId contract) = 0) ∧
        s.getAccountId origin ≠ s.getAccountId contract ∧
        c.self.selfUsed < c.self.selfRefunded ∧
        s.ledger.reserved (s.getAccountId contract) ≤
          (s.deposits C).deposit (c.self.selfRefunded - c.self.selfUsed)) := by
  constructor
  · intro who caller s' hcaller hok
    -- the extrinsic also writes the history, which pays nobody
    obtain ⟨s₁, hremove, rfl⟩ := State.selfdestruct_eq_ok hcaller hok
    obtain ⟨hnone, hcleared⟩ := removeContract_cleared hinfo hremove
    refine ⟨hnone, hcleared.congr rfl rfl, ?_⟩
    rw [← selfdestruct_paidOut_iff hpos hremove, paidOut_iff, paidOut_iff]
    rfl
  · intro target origin s₁ c tr above w' hok hmeter hfin
    obtain ⟨hnone, hcleared⟩ := opcode_cleared hinfo hok hfin
    exact ⟨hnone, hcleared, opcode_paidOut_iff hpos hok hmeter hfin⟩

/-- The first account becomes a developer and creates a contract. -/
def development : List Input := [.enableContractDevelopment 1, creation [1]]

/-- The state with the contract of the first account. -/
def developed : State := (Run.run (step sampleEnv) ⟨funded, []⟩ development).state

/-- The maintainer gets the deposit of the contract back. -/
theorem removal_releases_deposit_selfdestruct :
    ∃ s', developed.selfdestruct sampleEnv.toConfig 1 (createdAt 0) = .ok s' ∧
      s'.ledger.reserved (developed.getAccountId (createdAt 0)) = 0 := by
  have hinfo : developed.contractInfo (createdAt 0) =
      some ⟨sampleEnv.codeHash [1], sampleEnv.defaultAddress 1, false⟩ := by decide
  have hcaller : developed.getEvmAddress 1 = some (sampleEnv.defaultAddress 1) := by decide
  have hends : (developed.selfdestruct sampleEnv.toConfig 1 (createdAt 0)).isOk = true := by decide
  have hremoval := (removal_releases_deposit_iff sampleEnv.toConfig developed (createdAt 0) _ hinfo
    (by decide)).1 1 (sampleEnv.defaultAddress 1)
  cases hok : developed.selfdestruct sampleEnv.toConfig 1 (createdAt 0) with
  | error e =>
    rw [hok] at hends
    cases hends
  | ok s' =>
    obtain ⟨-, -, hpaid⟩ := hremoval s' hcaller hok
    exact ⟨s', rfl, (hpaid.mpr (by decide)).reserved⟩

/-- The first account calls its contract, which destroys itself and names itself as the beneficiary.
Nothing has to be moved, so the transfer is not refused although a deposit rests on the account. The
contract is gone, and the deposit is still reserved on its account. -/
theorem selfdestruct_opcode_keeps_deposit :
    let s := (Run.run (step sampleEnv) ⟨funded, []⟩ (development ++
      [.call 1 (createdAt 0) 0 1_000_000 2_000 (.selfdestruct (createdAt 0))])).state
    genesis sampleEnv.toConfig funds [] = .ok funded ∧
    developed.contractInfo (createdAt 0) =
      some ⟨sampleEnv.codeHash [1], sampleEnv.defaultAddress 1, false⟩ ∧
    s.contractInfo (createdAt 0) = none ∧
    s.ledger.reserved (developed.getAccountId (createdAt 0)) = 1_001 * (10 * MILLI_REEF) := by
  exact ⟨rfl, by decide, by decide, by decide⟩

end Evm
end Reef
