import ReefChain.Evm.StateRule
import ReefChain.Lib.Run

/-!
# Contract code and its reference counts

Contracts with the same code share one entry of `codes`, and the entry of `codeInfos` under the same
hash counts them. The invariant (`RefInv`) is that a count is never below the number of contracts
that refer to the code, and that counted code is stored. Every contract then has its code.

The count may be above the number of contracts: a creation over an existing contract and `set_code`
take references that nobody gives back. It must never be below, and there is one operation that can
bring it there. `remove_contract` gives back the reference of the contract and then moves the funds
away from its account while its record is still in place. If the transfer empties the account, the
framework reaps it, the hook of the pallet finds the record and gives back the *same* reference once
more. `RemovalSafe` says when this does no harm: the account is not emptied, or nobody else uses the
code, or the count is high enough.

In every run whose self-destructions are safe in this sense, and whose creations do not meet a full
count, no code is missing (`no_dangling_code`). A self-destruction that is not safe takes the code
of another contract away (`selfdestruct_removes_shared_code`).
-/

namespace Reef
namespace Evm

open Bounded FiniteMap

namespace State

variable (s : State)

/-! ### Users and references -/

/-- The code hash of the contract at an address. -/
def codeOf (address : EvmAddress) : Option H256 := (s.contractInfo address).map (·.codeHash)

/-- An account uses the code under the hash `h`. -/
def usesCode (h : H256) (_ : EvmAddress) (info : EvmAccountInfo) : ℕ :=
  if info.contractInfo.map (·.codeHash) = some h then 1 else 0

/-- The number of contracts with the code hash `h`. -/
def users (h : H256) : ℕ := total (usesCode h) s.accounts

/-- The reference count of the code hash `h`, zero when there is none. -/
def refCount (h : H256) : ℕ := weightAt (fun _ info => info.refCount) s.codeInfos h

theorem weightAt_usesCode (h : H256) (address : EvmAddress) :
    weightAt (usesCode h) s.accounts address = if s.codeOf address = some h then 1 else 0 := by
  unfold codeOf contractInfo
  cases hlookup : s.accounts.lookup address with
  | none => simp [weightAt_of_lookup_none hlookup]
  | some info =>
    rw [weightAt_of_lookup hlookup]
    rfl

/-- Writing a record replaces what the address uses. -/
theorem users_insert (address : EvmAddress) (info : EvmAccountInfo) (h : H256) :
    total (usesCode h) (s.accounts.insert address info) +
        (if s.codeOf address = some h then 1 else 0) =
      s.users h + usesCode h address info := by
  rw [← weightAt_usesCode, total_insert]
  rfl

/-- Deleting a record gives up what the address uses. -/
theorem users_erase (address : EvmAddress) (h : H256) :
    total (usesCode h) (s.accounts.erase address) +
        (if s.codeOf address = some h then 1 else 0) = s.users h := by
  rw [← weightAt_usesCode, total_erase]
  rfl

variable {address : EvmAddress} {h : H256}

/-- A record with the same code hash uses the same code. -/
theorem users_insert_same {info : EvmAccountInfo}
    (hinfo : info.contractInfo.map (·.codeHash) = s.codeOf address) (h : H256) :
    total (usesCode h) (s.accounts.insert address info) = s.users h := by
  have hins := s.users_insert address info h
  have hsame : usesCode h address info = if s.codeOf address = some h then 1 else 0 := by
    rw [usesCode, hinfo]
  rw [hsame] at hins
  omega

/-- The number of contracts with the code hash `h` besides the one at `address`. -/
def others (address : EvmAddress) (h : H256) : ℕ := total (usesCode h) (s.accounts.erase address)

/-- The users of a code are the others and the account itself. -/
theorem others_add (address : EvmAddress) (h : H256) :
    s.others address h + (if s.codeOf address = some h then 1 else 0) = s.users h :=
  s.users_erase address h

/-- A record without a contract leaves the other users. -/
theorem users_insert_none {info : EvmAccountInfo} (hinfo : info.contractInfo = none) (h : H256) :
    total (usesCode h) (s.accounts.insert address info) = s.others address h := by
  have hnone : usesCode h address info = 0 := by
    rw [usesCode, hinfo]
    rfl
  rw [← insert_erase_self, total_insert_of_notMem Finmap.notMem_erase_self, hnone, Nat.zero_add]
  rfl

/-- A contract is one of the users of its code. -/
theorem one_le_users (hcode : s.codeOf address = some h) : 1 ≤ s.users h := by
  have herase := s.users_erase address h
  rw [if_pos hcode] at herase
  omega

/-! ### Taking and giving back references -/

theorem refCount_of_lookup {info : CodeInfo} (hinfo : s.codeInfos.lookup h = some info) :
    s.refCount h = info.refCount := weightAt_of_lookup hinfo

theorem refCount_of_lookup_none (hinfo : s.codeInfos.lookup h = none) :
    s.refCount h = 0 := weightAt_of_lookup_none hinfo

/-- One reference more, unless the counter is full. -/
theorem refCode_refCount (h k : H256) (code : Bytes) :
    (s.refCode h code).refCount k =
      if k = h then satAdd 32 (s.refCount h) 1 else s.refCount k := by
  unfold refCode
  cases hinfo : s.codeInfos.lookup h with
  | none =>
    rw [s.refCount_of_lookup_none hinfo]
    exact weightAt_insert _ _ _ _ _
  | some info =>
    rw [s.refCount_of_lookup hinfo]
    exact weightAt_insert _ _ _ _ _

/-- One reference less; the last one removes the record. -/
theorem derefCode_refCount (h k : H256) :
    (s.derefCode h).refCount k = if k = h then s.refCount h - 1 else s.refCount k := by
  unfold derefCode
  cases hinfo : s.codeInfos.lookup h with
  | none =>
    by_cases hk : k = h
    · subst hk
      rw [if_pos rfl, s.refCount_of_lookup_none hinfo]
    · rw [if_neg hk]
  | some info =>
    rw [s.refCount_of_lookup hinfo]
    simp only []
    split
    · next hzero =>
      -- the last reference: the entry is removed, and a missing entry counts as zero
      rw [hzero]
      unfold refCount weightAt
      by_cases hk : k = h
      · rw [if_pos hk, hk, Finmap.lookup_erase]
        rfl
      · rw [if_neg hk, Finmap.lookup_erase_ne hk]
    · exact weightAt_insert _ _ _ _ _

end State

/-! ### Changes that do not matter -/

/-- The two states store the same code, and each piece of it has as many users. -/
structure SameCode (s s' : State) : Prop where
  codes : s'.codes = s.codes
  codeInfos : s'.codeInfos = s.codeInfos
  users : ∀ h, s'.users h = s.users h

namespace SameCode

variable {s s' : State} {address : EvmAddress}

theorem of_eq (haccounts : s'.accounts = s.accounts) (hcodes : s'.codes = s.codes)
    (hinfos : s'.codeInfos = s.codeInfos) : SameCode s s' where
  codes := hcodes
  codeInfos := hinfos
  users _ := by rw [State.users, haccounts, State.users]

/-- A record with the same code hash may be written in place of another. -/
theorem insert {info : EvmAccountInfo}
    (hinfo : info.contractInfo.map (·.codeHash) = s.codeOf address) (history : List Entry) :
    SameCode s { s with accounts := s.accounts.insert address info, history := history } where
  codes := rfl
  codeInfos := rfl
  users := s.users_insert_same hinfo

theorem incNonce (s : State) (address : EvmAddress) : SameCode s (s.incNonce address) := by
  refine insert ?_ _
  simp only [State.getD_contractInfo]
  rfl

theorem setDeveloperDeposit (s : State) (address : EvmAddress) (deposit : Option ℕ) :
    SameCode s (s.setDeveloperDeposit address deposit) := by
  refine insert ?_ s.history
  simp only [State.getD_contractInfo]
  rfl

theorem setContractInfo {info info' : ContractInfo} (hinfo : s.contractInfo address = some info)
    (hhash : info'.codeHash = info.codeHash) : SameCode s (s.setContractInfo address info') := by
  unfold State.setContractInfo
  split
  · refine insert ?_ s.history
    rw [State.codeOf, hinfo]
    exact congrArg some hhash
  · exact of_eq rfl rfl rfl

end SameCode

/-! ### The invariant -/

/-- The counts are at most `debt` below the numbers of users and fit their type, and counted code is
stored. -/
structure RefDebt (C : Config) (debt : H256 → ℕ) (s : State) : Prop where
  counted : ∀ h, s.users h ≤ s.refCount h + debt h
  bounded : ∀ h, s.refCount h ≤ maxValue 32
  stored : ∀ h info, s.codeInfos.lookup h = some info →
    ∃ code, s.codes.lookup h = some code ∧ C.codeHash code = h

/-- **The reference invariant**: no count is too low. -/
def RefInv (C : Config) (s : State) : Prop := RefDebt C (fun _ => 0) s

/-- The property the counts are there for: every contract has its code. -/
def NoDangling (C : Config) (s : State) : Prop :=
  ∀ address info, s.contractInfo address = some info →
    ∃ code, s.codes.lookup info.codeHash = some code ∧ C.codeHash code = info.codeHash

/-- No code of `s'` is new. -/
def CodesWithin (s s' : State) : Prop :=
  ∀ h code, s'.codes.lookup h = some code → s.codes.lookup h = some code

variable {C : Config} {s s' : State} {debt : H256 → ℕ}

/-- A code that is used is stored, since its count is not zero. -/
theorem RefInv.noDangling (h : RefInv C s) : NoDangling C s := by
  intro address info hinfo
  have hcode : s.codeOf address = some info.codeHash := by
    rw [State.codeOf, hinfo]
    rfl
  have huser := s.one_le_users hcode
  have hcount := h.counted info.codeHash
  cases hlookup : s.codeInfos.lookup info.codeHash with
  | none =>
    rw [s.refCount_of_lookup_none hlookup] at hcount
    omega
  | some codeInfo => exact h.stored _ _ hlookup

/-- Only accounts, codes and counts matter. -/
theorem RefDebt.of_sameCode (h : RefDebt C debt s) (hsame : SameCode s s') : RefDebt C debt s' := by
  have hcounts : ∀ k, s'.refCount k = s.refCount k := fun k => by
    unfold State.refCount
    rw [hsame.codeInfos]
  refine ⟨fun k => ?_, fun k => ?_, fun k info hinfo => ?_⟩
  · rw [hsame.users, hcounts]
    exact h.counted k
  · rw [hcounts]
    exact h.bounded k
  · rw [hsame.codeInfos] at hinfo
    rw [hsame.codes]
    exact h.stored k info hinfo

/-- Only accounts, codes and counts matter. -/
theorem RefDebt.congr (h : RefDebt C debt s) (haccounts : s'.accounts = s.accounts)
    (hcodes : s'.codes = s.codes) (hinfos : s'.codeInfos = s.codeInfos) : RefDebt C debt s' :=
  h.of_sameCode (.of_eq haccounts hcodes hinfos)

theorem RefDebt.derefCode_stored (h : RefDebt C debt s) (k : H256) :
    ∀ h' info, (s.derefCode k).codeInfos.lookup h' = some info →
      ∃ code, (s.derefCode k).codes.lookup h' = some code ∧ C.codeHash code = h' := by
  intro h' info hinfo
  unfold State.derefCode at hinfo ⊢
  cases hlookup : s.codeInfos.lookup k with
  | none =>
    rw [hlookup] at hinfo
    exact h.stored h' info hinfo
  | some info₀ =>
    simp only [hlookup] at hinfo ⊢
    split at hinfo
    · next hzero =>
      -- the last reference: code and count disappear together
      rw [if_pos hzero]
      obtain ⟨hne, hold⟩ := lookup_erase_eq_some_iff.mp hinfo
      obtain ⟨code, hcode, hhash⟩ := h.stored h' info hold
      exact ⟨code, lookup_erase_eq_some_iff.mpr ⟨hne, hcode⟩, hhash⟩
    · next hpos =>
      -- the count is lowered and the code stays
      rw [if_neg hpos]
      by_cases hk : h' = k
      · subst hk
        exact h.stored h' info₀ hlookup
      · exact h.stored h' info (lookup_of_lookup_insert hk hinfo)

theorem RefDebt.refCode_stored (h : RefDebt C debt s) (code : Bytes) :
    ∀ h' info, (s.refCode (C.codeHash code) code).codeInfos.lookup h' = some info →
      ∃ code', (s.refCode (C.codeHash code) code).codes.lookup h' = some code' ∧
        C.codeHash code' = h' := by
  intro h' info hinfo
  unfold State.refCode at hinfo ⊢
  cases hlookup : s.codeInfos.lookup (C.codeHash code) with
  | none =>
    simp only [hlookup] at hinfo ⊢
    by_cases hk : h' = C.codeHash code
    · subst hk
      exact ⟨code, Finmap.lookup_insert _, rfl⟩
    · rw [Finmap.lookup_insert_of_ne _ hk]
      exact h.stored h' info (lookup_of_lookup_insert hk hinfo)
  | some info₀ =>
    simp only [hlookup] at hinfo ⊢
    by_cases hk : h' = C.codeHash code
    · subst hk
      exact h.stored _ info₀ hlookup
    · exact h.stored h' info (lookup_of_lookup_insert hk hinfo)

theorem codesWithin_refl (s : State) : CodesWithin s s := fun _ _ h => h

theorem CodesWithin.trans {s₁ s₂ s₃ : State} (h₁ : CodesWithin s₁ s₂) (h₂ : CodesWithin s₂ s₃) :
    CodesWithin s₁ s₃ := fun k code h => h₁ k code (h₂ k code h)

theorem codesWithin_derefCode (s : State) (k : H256) : CodesWithin s (s.derefCode k) := by
  intro h' code hcode
  unfold State.derefCode at hcode
  split at hcode
  · exact hcode
  · split at hcode
    · exact (lookup_erase_eq_some_iff.mp hcode).2
    · exact hcode

/-! ### Removing accounts -/

/-- A removed account uses its code no longer. -/
theorem removeAccount_users (s : State) (address : EvmAddress) (h : H256) :
    (s.removeAccount address).users h + (if s.codeOf address = some h then 1 else 0) =
      s.users h := by
  rw [← s.users_erase address h]
  unfold State.users
  rw [State.removeAccount_accounts]

/-- Its reference is dropped with it. -/
theorem removeAccount_refCount (s : State) (address : EvmAddress) (h : H256) :
    (s.removeAccount address).refCount h =
      s.refCount h - (if s.codeOf address = some h then 1 else 0) := by
  unfold State.removeAccount State.codeOf
  cases hinfo : s.contractInfo address with
  | none => rfl
  | some info =>
    change (s.derefCode info.codeHash).refCount h = _
    rw [State.derefCode_refCount]
    by_cases hk : h = info.codeHash
    · subst hk
      simp
    · rw [if_neg hk]
      simp [Ne.symm hk]

/-- Removing an account gives back one reference for one user. -/
theorem RefDebt.removeAccount (h : RefDebt C debt s) (address : EvmAddress) :
    RefDebt C debt (s.removeAccount address) := by
  constructor
  · intro k
    have husers := removeAccount_users s address k
    have hcount := h.counted k
    rw [removeAccount_refCount]
    omega
  · intro k
    rw [removeAccount_refCount]
    exact (Nat.sub_le _ _).trans (h.bounded k)
  · intro k info
    unfold State.removeAccount
    split
    · exact h.derefCode_stored _ k info
    · exact h.stored k info

theorem codesWithin_removeAccount (s : State) (address : EvmAddress) :
    CodesWithin s (s.removeAccount address) := by
  unfold State.removeAccount
  split
  · exact codesWithin_derefCode s _
  · exact codesWithin_refl s

/-- Moving funds, with the reaping it may cause, keeps the counts as they are. -/
theorem RefDebt.setLedger (h : RefDebt C debt s) (l : Ledger AccountId)
    (accounts : List AccountId) : RefDebt C debt (s.setLedger C l accounts) :=
  State.setLedger_induction (fun _ address h => h.removeAccount address)
    (fun _ _ h => h.congr rfl rfl rfl) (fun _ _ h => h.congr rfl rfl rfl) h l accounts

theorem codesWithin_setLedger (s : State) (l : Ledger AccountId) (accounts : List AccountId) :
    CodesWithin s (s.setLedger C l accounts) :=
  State.setLedger_induction (fun s₁ address h => h.trans (codesWithin_removeAccount s₁ address))
    (fun _ _ h => h) (fun _ _ h => h) (codesWithin_refl s) l accounts

/-! ### Removing contracts -/

theorem State.unlink_refCount (s : State) (contract : EvmAddress) (h k : H256) :
    (s.unlink contract h).refCount k = if k = h then s.refCount h - 1 else s.refCount k :=
  State.derefCode_refCount _ h k

/-- Removing the contract with the record `info` cannot make a count too low: its account is not
emptied and reaped, or no other contract has the same code, or the count is above the number of
contracts. -/
def RemovalSafe (C : Config) (s : State) (caller contract : EvmAddress) (info : ContractInfo) :
    Prop :=
  C.killHook = true → s.getAccountId contract ≠ s.getAccountId caller →
    0 < s.ledger.free (s.getAccountId contract) + s.ledger.reserved (s.getAccountId contract) →
    s.users info.codeHash = 1 ∨ s.users info.codeHash < s.refCount info.codeHash

/-- Moving all funds of an account keeps the state apart from the ledger, unless the account is
emptied and reaped. -/
theorem transferAll_cases {source dest : AccountId} (hok : s.transferAll C source dest = .ok s') :
    (∃ l, s' = { s with ledger := l }) ∨
    ((∃ l, s' = s.setLedger C l [source]) ∧ C.killHook = true ∧ source ≠ dest ∧
      0 < s.ledger.free source + s.ledger.reserved source) := by
  obtain ⟨l, hl, rfl⟩ := State.transferAll_eq_ok hok
  cases hdead : (C.killHook && s.ledger.emptied l source) with
  | false =>
    refine .inl ⟨l, ?_⟩
    simp [State.setLedger, hdead]
  | true =>
    rw [Bool.and_eq_true, Ledger.emptied, decide_eq_true_eq] at hdead
    obtain ⟨hhook, hbefore, hafter⟩ := hdead
    refine .inr ⟨⟨l, rfl⟩, hhook, ?_, hbefore⟩
    -- a transfer to oneself moves nothing
    rintro rfl
    have hself : l = s.ledger := by
      simpa [Ledger.transfer, eq_comm] using hl
    rw [hself] at hafter
    omega

/-- Reaping does not add users. -/
theorem others_setLedger_le (s : State) (contract : EvmAddress) (h : H256) (l : Ledger AccountId)
    (accounts : List AccountId) :
    (s.setLedger C l accounts).others contract h ≤ s.others contract h := by
  refine State.setLedger_induction (P := fun s' => s'.others contract h ≤ s.others contract h)
    (fun s₁ address hle => ?_) (fun _ _ hle => hle) (fun _ _ hle => hle) le_rfl l accounts
  refine le_trans ?_ hle
  unfold State.others
  rw [State.removeAccount_accounts, Finmap.erase_erase,
        ← total_erase _ (s₁.accounts.erase contract) address]
  exact Nat.le_add_right _ _

theorem State.others_le_users (s : State) (contract : EvmAddress) (h : H256) :
    s.others contract h ≤ s.users h := by
  have hadd := s.others_add contract h
  omega

/-- Unlinking leaves the account, which still names the code. -/
theorem State.unlink_users (s : State) (contract : EvmAddress) (h k : H256) :
    (s.unlink contract h).users k = s.users k := by
  unfold State.users
  rw [State.unlink_accounts]

/-- Unlinking a contract puts the count of its code one below. -/
theorem RefInv.unlink (h : RefInv C s) (contract : EvmAddress) (h₀ : H256) :
    RefDebt C (fun k => if k = h₀ then 1 else 0) (s.unlink contract h₀) := by
  constructor
  · intro k
    have hcount := h.counted k
    -- the contract is still counted as a user, its reference is given back
    rw [State.unlink_users, State.unlink_refCount]
    by_cases hk : k = h₀
    · subst hk
      rw [if_pos rfl, if_pos rfl]
      omega
    · rw [if_neg hk, if_neg hk]
      exact hcount
  · intro k
    rw [State.unlink_refCount]
    split
    · exact (Nat.sub_le _ _).trans (h.bounded h₀)
    · exact h.bounded k
  · have hcleared : RefDebt C (fun _ => 0)
        { s with accountStorages := Function.update s.accountStorages contract ∅ } :=
      h.congr rfl rfl rfl
    exact hcleared.derefCode_stored h₀

variable {contract address : EvmAddress}

/-- The count of an unlinked contract covers the other contracts with its code. -/
theorem RefInv.unlink_others {h₀ : H256} (h : RefInv C s) (hcode : s.codeOf contract = some h₀)
    (k : H256) : (s.unlink contract h₀).others contract k ≤ (s.unlink contract h₀).refCount k := by
  have hothers : (s.unlink contract h₀).others contract k = s.others contract k := by
    unfold State.others
    rw [State.unlink_accounts]
  have hadd := s.others_add contract k
  have hcount := h.counted k
  rw [hothers, State.unlink_refCount]
  by_cases hk : k = h₀
  · subst hk
    rw [if_pos hcode] at hadd
    rw [if_pos rfl]
    omega
  · rw [if_neg hk]
    omega

/-- It still does when the account is reaped, if nobody else has the code or the count is high
enough to be lowered twice. -/
theorem RefInv.reaped_others {h₀ : H256} (h : RefInv C s) (hcode : s.codeOf contract = some h₀)
    (hsafe : s.users h₀ = 1 ∨ s.users h₀ < s.refCount h₀) (l : Ledger AccountId)
    (accounts : List AccountId) (k : H256) :
    ((s.unlink contract h₀).setLedger C l accounts).others contract k ≤
      ((s.unlink contract h₀).setLedger C l accounts).refCount k := by
  have hunlink := h.unlink contract h₀
  have hothers := State.others_le_users ((s.unlink contract h₀).setLedger C l accounts) contract k
  by_cases hk : k = h₀
  · subst hk
    rcases hsafe with halone | hslack
    · -- nobody else uses the code, so nothing is left to be counted
      have hle := others_setLedger_le (C := C) (s.unlink contract k) contract k l accounts
      have hadd := State.others_add (s.unlink contract k) contract k
      have hcode' : (s.unlink contract k).codeOf contract = some k := by
        unfold State.codeOf State.contractInfo
        rw [State.unlink_accounts]
        exact hcode
      rw [if_pos hcode', State.unlink_users] at hadd
      omega
    · -- there is a reference to spare for the second time it is given back
      have hkeeps : RefInv C (s.unlink contract k) := by
        refine ⟨fun k' => ?_, hunlink.bounded, hunlink.stored⟩
        have hcount := hunlink.counted k'
        by_cases hk' : k' = k
        · subst hk'
          rw [State.unlink_users, State.unlink_refCount, if_pos rfl]
          omega
        · rw [if_neg hk'] at hcount
          exact hcount
      exact hothers.trans ((RefDebt.setLedger hkeeps l accounts).counted k)
  · have hcount := (hunlink.setLedger l accounts).counted k
    rw [if_neg hk] at hcount
    exact hothers.trans hcount

/-- A safe self-destruction keeps the counts high enough, and adds no code. -/
theorem RefInv.removeContract {caller : EvmAddress} (h : RefInv C s)
    (hsafe : ∀ info ∈ s.contractInfo contract, RemovalSafe C s caller contract info)
    (hok : s.removeContract C caller contract = .ok s') : RefInv C s' ∧ CodesWithin s s' := by
  obtain ⟨info, contractInfo, s₁, hinfo, hcontract, htransfer, rfl⟩ :=
    State.removeContract_eq_ok hok
  have hci : s.contractInfo contract = some contractInfo := by
    rw [State.contractInfo, hinfo]
    exact hcontract
  have hcode : s.codeOf contract = some contractInfo.codeHash := by
    rw [State.codeOf, hci]
    rfl
  have hunlink := h.unlink contract contractInfo.codeHash
  have hwithin : CodesWithin s (s.unlink contract contractInfo.codeHash) :=
    codesWithin_derefCode { s with accountStorages := _ } contractInfo.codeHash
  have hdone : RefDebt C (fun k => if k = contractInfo.codeHash then 1 else 0) s₁ ∧
      CodesWithin s s₁ ∧ ∀ k, s₁.others contract k ≤ s₁.refCount k := by
    rcases transferAll_cases htransfer with ⟨l, rfl⟩ | ⟨⟨l, rfl⟩, hhook, hne, hpos⟩
    · exact ⟨hunlink.congr rfl rfl rfl, hwithin, h.unlink_others hcode⟩
    · have hsum : 0 < s.ledger.free (s.getAccountId contract) +
          s.ledger.reserved (s.getAccountId contract) := by
        simpa [State.unlink, Ledger.unreserve] using hpos
      exact ⟨hunlink.setLedger l _, hwithin.trans (codesWithin_setLedger _ l _),
        h.reaped_others hcode (hsafe contractInfo hci hhook hne hsum) l _⟩
  obtain ⟨hdebt, hwithin₁, hcovered⟩ := hdone
  refine ⟨⟨fun k => ?_, hdebt.bounded, hdebt.stored⟩, hwithin₁⟩
  -- the record written back has no contract, so the users are the others
  have hfinal : total (State.usesCode k)
      (s₁.accounts.insert contract { info with contractInfo := none }) = s₁.others contract k :=
    s₁.users_insert_none rfl k
  change total (State.usesCode k) (s₁.accounts.insert contract _) ≤ s₁.refCount k
  rw [hfinal]
  exact hcovered k

/-! ### Changing and creating contracts -/

/-- Taking a reference that nobody uses does no harm. -/
theorem RefInv.refCode (h : RefInv C s) (code : Bytes) :
    RefInv C (s.refCode (C.codeHash code) code) := by
  refine ⟨fun k => ?_, fun k => ?_, h.refCode_stored code⟩
  · have hcount : s.users k ≤ s.refCount k := h.counted k
    have husers : (s.refCode (C.codeHash code) code).users k = s.users k := by
      unfold State.users
      rw [State.refCode_accounts]
    rw [husers, State.refCode_refCount]
    split
    · next hk =>
      rw [hk] at hcount ⊢
      exact hcount.trans (le_satAdd (h.bounded _))
    · exact hcount
  · rw [State.refCode_refCount]
    split
    · exact satAdd_le_maxValue 32 _ _
    · exact h.bounded k

/-- Only the new contract can become a user of the code. -/
theorem onContractInitialization_users {maintainer : EvmAddress} {code : Bytes} {used : ℕ × ℤ}
    (hok : s.onContractInitialization C address maintainer code used = .ok s') (h : H256) :
    s'.users h ≤ s.users h + if h = C.codeHash code then 1 else 0 := by
  obtain ⟨info, hinfo, -, hs'⟩ := State.onContractInitialization_eq_ok hok
  have hins := s.users_insert address info h
  have huses : State.usesCode h address info = if h = C.codeHash code then 1 else 0 := by
    simp [State.usesCode, hinfo, eq_comm]
  rw [huses] at hins
  rw [hs']
  exact Nat.le_of_add_right_le hins.le

/-- A creation takes a reference for the new contract, unless the count is full. -/
theorem RefInv.onContractInitialization {maintainer : EvmAddress} {code : Bytes} {used : ℕ × ℤ}
    (h : RefInv C s) (hroom : s.users (C.codeHash code) < maxValue 32)
    (hok : s.onContractInitialization C address maintainer code used = .ok s') : RefInv C s' := by
  have htaken := h.refCode code
  have husers := onContractInitialization_users hok
  obtain ⟨info, -, -, hs'⟩ := State.onContractInitialization_eq_ok hok
  have hcount : ∀ k, s'.refCount k = (s.refCode (C.codeHash code) code).refCount k := by
    rw [hs']
    exact fun _ => rfl
  refine ⟨fun k => ?_, fun k => ?_, ?_⟩
  · have hbefore : s.users k ≤ s.refCount k := h.counted k
    refine (husers k).trans ?_
    rw [hcount, State.refCode_refCount]
    by_cases hk : k = C.codeHash code
    · subst hk
      rw [if_pos rfl, if_pos rfl]
      -- the count saturates, and a full count still covers one more user
      exact le_min (Nat.succ_le_succ hbefore) hroom
    · rw [if_neg hk, if_neg hk]
      exact hbefore
  · rw [hcount]
    exact htaken.bounded k
  · rw [hs']
    exact htaken.stored

/-! ### The rule -/

/-- A creation finds fewer contracts with its code than the count can count. -/
def Roomy (C : Config) : Observation → Prop
  | .initialised before _ _ code => before.users (C.codeHash code) < maxValue 32
  | _ => True

/-- The operations that stand between creations and calls of precompiles. -/
theorem refInv_stateOps (C : Config) : StateOps (RefInv C) where
  writeStorage _ _ _ _ h := h.congr rfl rfl rfl
  incNonce s address h := h.of_sameCode (.incNonce s address)
  removeAccount _ address h := h.removeAccount address
  setContractInfo _ _ _ _ hinfo hhash h := h.of_sameCode (.setContractInfo hinfo hhash)
  setDeveloperDeposit s address deposit h := h.of_sameCode (.setDeveloperDeposit s address deposit)
  destroyed _ _ _ h := h.congr rfl rfl rfl
  other _ _ _ _ _ _ h := h.congr rfl rfl rfl

/-- **The operations on the state keep the reference invariant.** -/
theorem refInv_stateRule (E : Env) : StateRule E (Roomy E.toConfig) (RefInv E.toConfig) where
  toStateOps := refInv_stateOps E.toConfig
  initialise _ _ _ _ _ _ _ hroom h hok :=
    (RefInv.onContractInitialization h hroom hok).congr rfl rfl rfl
  execute _ _ _ _ _ h :=
    (refInv_stateOps E.toConfig).execute (fun _ _ h => h.congr rfl rfl rfl) h _ _ _ _
  index _ _ h := h.congr rfl rfl rfl

/-! ### Removals -/

/-- The three ways a contract is removed: by its maintainer, by its own code, and with its
account. -/
inductive Removal (C : Config) (s : State) : State → Prop
  | maintainer {caller contract : EvmAddress} {s' : State}
      (hsafe : ∀ info ∈ s.contractInfo contract, RemovalSafe C s caller contract info)
      (hok : s.doSelfdestruct C caller contract = .ok s') : Removal C s s'
  | opcode {isStatic : Bool} {address target : EvmAddress} {s' : State}
      (hok : s.markDelete C isStatic address target = .ok s') : Removal C s s'
  | reaped (who : AccountId) : Removal C s (s.onKilledAccount C who)

/-- A removal keeps the reference invariant and stores no new code. -/
theorem Removal.keeps (hremoval : Removal C s s') (h : RefInv C s) :
    RefInv C s' ∧ CodesWithin s s' := by
  cases hremoval with
  | maintainer hsafe hok => exact h.removeContract hsafe (State.doSelfdestruct_eq_ok hok).2
  | @opcode isStatic address target s' hok =>
    obtain ⟨s₁, htransfer, rfl⟩ := State.markDelete_moved hok
    obtain ⟨l, -, rfl⟩ := State.transferAll_eq_ok htransfer
    refine ⟨RefDebt.congr ((h.removeAccount address).setLedger _ _) rfl rfl rfl, ?_⟩
    exact (codesWithin_removeAccount s address).trans (codesWithin_setLedger _ _ _)
  | reaped who =>
    refine State.onKilledAccount_induction (P := fun s' => RefInv C s' ∧ CodesWithin s s')
      (fun s₁ address h₁ => ?_) (fun _ _ h₁ => ⟨h₁.1.congr rfl rfl rfl, h₁.2⟩)
      ⟨h, codesWithin_refl s⟩ who
    exact ⟨h₁.1.removeAccount address, h₁.2.trans (codesWithin_removeAccount s₁ address)⟩

/-- A removal leaves the code of the contracts that remain. -/
theorem Removal.codeAtAddress (hremoval : Removal C s s') (h : RefInv C s) {other : EvmAddress}
    {info : ContractInfo} (hbefore : s.contractInfo other = some info)
    (hafter : s'.contractInfo other = some info) :
    s'.codeAtAddress C other = s.codeAtAddress C other := by
  obtain ⟨hinv, hwithin⟩ := hremoval.keeps h
  obtain ⟨code, hcode, -⟩ := hinv.noDangling other info hafter
  have hold := hwithin _ _ hcode
  have hhash : s'.codeHashAtAddress C other = info.codeHash := by
    rw [State.codeHashAtAddress, hafter]
  have hhash₀ : s.codeHashAtAddress C other = info.codeHash := by
    rw [State.codeHashAtAddress, hbefore]
  rw [State.codeAtAddress, State.codeAtAddress, hhash, hhash₀, hcode, hold]

/-! ### Genesis -/

/-- One account of the genesis has one reference. -/
theorem RefInv.addGenesisAccount {account : GenesisAccount} {n : ℕ} (h : RefInv C s)
    (husers : ∀ k, s.users k ≤ n) (hn : n < maxValue 32)
    (hok : s.addGenesisAccount C address account = .ok s') :
    RefInv C s' ∧ ∀ k, s'.users k ≤ n + 1 := by
  -- the new record has no contract yet
  have hfresh : ∀ k, total (State.usesCode k)
      (s.accounts.insert address (.new account.nonce none)) ≤ s.users k := by
    intro k
    rw [s.users_insert_none rfl]
    exact s.others_le_users address k
  obtain ⟨l, s₀, hs₀, hdone⟩ := State.addGenesisAccount_cases hok
  have hinv : RefInv C s₀ := by
    rw [hs₀]
    exact ⟨fun k => (hfresh k).trans (h.counted k), h.bounded, h.stored⟩
  have hfew : ∀ k, s₀.users k ≤ n := by
    intro k
    rw [hs₀]
    exact (hfresh k).trans (husers k)
  rcases hdone with rfl | ⟨s₁, info, storages, hinit, hinfo, rfl⟩
  · exact ⟨hinv, fun k => (hfew k).trans (Nat.le_succ n)⟩
  · have hcreated := hinv.onContractInitialization ((hfew _).trans_lt hn) hinit
    have hsame : SameCode s₁ (s₁.setContractInfo address { info with deployed := true }) :=
      .setContractInfo hinfo rfl
    have hmarked : RefInv C (s₁.setContractInfo address { info with deployed := true }) :=
      hcreated.of_sameCode hsame
    refine ⟨hmarked.congr rfl rfl rfl, fun k => ?_⟩
    have hone := onContractInitialization_users hinit k
    refine (hsame.users k).le.trans (hone.trans (Nat.add_le_add (hfew k) ?_))
    split
    · exact le_rfl
    · exact Nat.zero_le 1

/-- After `n` accounts at most `n` contracts share a code, so the next one finds the count with
room. -/
theorem RefInv.addGenesisAccounts {accounts : List (EvmAddress × GenesisAccount)} {n : ℕ}
    (h : RefInv C s) (husers : ∀ k, s.users k ≤ n) (hn : n + accounts.length ≤ maxValue 32)
    (hok : accounts.foldlM (fun s e => s.addGenesisAccount C e.1 e.2) s = .ok s') :
    RefInv C s' := by
  induction accounts generalizing n s with
  | nil =>
    cases hok
    exact h
  | cons e accounts ih =>
    rw [List.length_cons] at hn
    obtain ⟨s₁, hs₁, hok⟩ := Fallible.bind_eq_ok.mp hok
    obtain ⟨h₁, husers₁⟩ := h.addGenesisAccount husers (by omega) hs₁
    exact ih h₁ husers₁ (by omega) hok

/-- The reference invariant holds at genesis. -/
theorem refInv_genesis {ledger : Ledger AccountId} {accounts : List (EvmAddress × GenesisAccount)}
    (hfew : accounts.length < 2 ^ 32) (hok : genesis C ledger accounts = .ok s) : RefInv C s := by
  obtain ⟨s₁, hs₁, hok⟩ := Fallible.bind_eq_ok.mp hok
  cases hok
  have hempty : RefInv C { State.empty with ledger := ledger } :=
    ⟨fun _ => le_rfl, fun _ => Nat.zero_le _, fun _ _ hinfo => by cases hinfo⟩
  have hlength : 0 + accounts.length ≤ maxValue 32 := by
    rw [Nat.zero_add]
    exact lt_two_pow_iff.mp hfew
  exact (hempty.addGenesisAccounts (fun _ => le_rfl) hlength hs₁).congr rfl rfl rfl

/-! ### All runs -/

instance (C : Config) : (e : Observation) → Decidable (Roomy C e)
  | .initialised before _ _ code =>
    inferInstanceAs (Decidable (before.users (C.codeHash code) < maxValue 32))
  | .dispatched _ _ _ _ _ | .metered _ _ | .settled _ _ _ _ => inferInstanceAs (Decidable True)

/-- A self-destruction that its maintainer may make is safe, and the creations find the counts with
room. -/
def CodeOk (E : Env) (w : World) (i : Input) : Prop :=
  (match i with
    | .selfdestruct who contract =>
      ∀ caller ∈ w.state.getEvmAddress who, ∀ info ∈ w.state.contractInfo contract,
        info.maintainer = caller → info.deployed = false →
        RemovalSafe E.toConfig w.state caller contract info
    | _ => True) ∧
  ∀ e ∈ (step E w i).trace, Roomy E.toConfig e

/-- **One input** that meets the condition keeps the reference invariant. -/
theorem refInv_step {E : Env} {w : World} {i : Input} (h : RefInv E.toConfig w.state)
    (hok : CodeOk E w i) : RefInv E.toConfig (step E w i).state := by
  obtain ⟨hinput, hroomy⟩ := hok
  refine ((refInv_stateRule E).step ?_ ?_).keeps hroomy h
  · -- `set_code` takes a reference or does nothing
    intro signer contract code s₁ _ h hset
    obtain ⟨info, -, -, ⟨-, rfl⟩ | ⟨-, -, rfl⟩⟩ := State.doSetCode_eq_ok hset
    · exact h
    · exact RefInv.refCode h code
  · intro who contract caller s₁ hi h hcaller hdestruct
    subst hi
    obtain ⟨⟨info, hinfo, hmaintainer, hdeployed⟩, hremove⟩ := State.doSelfdestruct_eq_ok hdestruct
    refine (RefInv.removeContract h (fun info' hinfo' => ?_) hremove).1
    obtain rfl : info = info' := Option.some.inj (hinfo.symm.trans hinfo')
    exact hinput caller hcaller info hinfo hmaintainer hdeployed

/-- **No code is missing.** In every state reached from genesis by inputs that meet the condition,
every contract has its code, and removing a contract leaves the code of the others. -/
theorem no_dangling_code (E : Env) {ledger : Ledger AccountId}
    {accounts : List (EvmAddress × GenesisAccount)} {s₀ : State}
    (hgenesis : genesis E.toConfig ledger accounts = .ok s₀) (hfew : accounts.length < 2 ^ 32)
    (is : List Input) (hok : Run.Along (step E) (CodeOk E) ⟨s₀, []⟩ is) :
    NoDangling E.toConfig (Run.run (step E) ⟨s₀, []⟩ is).state ∧
    ∀ s', Removal E.toConfig (Run.run (step E) ⟨s₀, []⟩ is).state s' → ∀ other info,
      (Run.run (step E) ⟨s₀, []⟩ is).state.contractInfo other = some info →
      s'.contractInfo other = some info →
      s'.codeAtAddress E.toConfig other =
        (Run.run (step E) ⟨s₀, []⟩ is).state.codeAtAddress E.toConfig other := by
  have hinv : RefInv E.toConfig (Run.run (step E) ⟨s₀, []⟩ is).state :=
    Run.invariant (fun w : World => RefInv E.toConfig w.state) (fun _ _ h hok => refInv_step h hok)
      (refInv_genesis hfew hgenesis) hok
  exact ⟨hinv.noDangling, fun s' hremoval other info hbefore hafter =>
    hremoval.codeAtAddress hinv hbefore hafter⟩

/-- The first account creates a contract with the given code. -/
def creation (code : Bytes) : Input :=
  .create 1 [] none 0 1_000_000 2_000 (.exit (.succeed .returned) code)

/-- The address of the contract the first account creates with the given nonce. -/
def createdAt (nonce : ℕ) : EvmAddress :=
  sampleEnv.legacyAddress (sampleEnv.defaultAddress 1) nonce

/-- The first account creates two contracts with different code and destroys one of them. -/
theorem no_dangling_code_unshared :
    NoDangling sampleEnv.toConfig (Run.run (step sampleEnv) ⟨funded, []⟩
      [creation [1], creation [2], .selfdestruct 1 (createdAt 0)]).state := by
  have hinfo : (Run.run (step sampleEnv) ⟨funded, []⟩
      [creation [1], creation [2]]).state.contractInfo (createdAt 0) =
        some ⟨sampleEnv.codeHash [1], sampleEnv.defaultAddress 1, false⟩ := by
    decide
  have halone : (Run.run (step sampleEnv) ⟨funded, []⟩
      [creation [1], creation [2]]).state.users (sampleEnv.codeHash [1]) = 1 := by
    decide
  refine (no_dangling_code sampleEnv (show genesis _ funds [] = .ok funded from rfl) (by decide)
    [creation [1], creation [2], .selfdestruct 1 (createdAt 0)] ⟨⟨trivial, by decide⟩,
      ⟨trivial, by decide⟩, ⟨fun caller _ info hmem _ _ _ _ _ => .inl ?_, by decide⟩, trivial⟩).1
  obtain rfl := Option.some.inj (hinfo.symm.trans hmem)
  exact halone

/-- Two contracts with the same code. When the maintainer destroys the first, the second loses its
code: the account of the first is emptied and reaped, and its reference is given back twice. -/
theorem selfdestruct_removes_shared_code :
    genesis sampleEnv.toConfig funds [] = .ok funded ∧
    ¬ NoDangling sampleEnv.toConfig (Run.run (step sampleEnv) ⟨funded, []⟩
      [creation [1], creation [1], .selfdestruct 1 (createdAt 0)]).state := by
  refine ⟨rfl, fun h => ?_⟩
  obtain ⟨code, hcode, -⟩ := h (createdAt 1)
    ⟨sampleEnv.codeHash [1], sampleEnv.defaultAddress 1, false⟩ (by decide)
  have hmissing : (Run.run (step sampleEnv) ⟨funded, []⟩
      [creation [1], creation [1], .selfdestruct 1 (createdAt 0)]).state.codes.lookup
        (sampleEnv.codeHash [1]) = none := by
    decide
  rw [hmissing] at hcode
  cases hcode

end Evm
end Reef
