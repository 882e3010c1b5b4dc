import ReefChain.EvmAccounts.Mapping
import ReefChain.Evm.StorageMeter
import ReefChain.Lib.Escrow
import ReefChain.Scheduler

/-!
# The EVM pallet

The storage of the pallet, and the functions of the pallet that change it outside the interpreter:
creating and removing contracts, the contract's maintainer and deployment, and what happens to the
pallet when the framework reaps an account.

Contract code is shared. `codes` holds a code under its hash and `codeInfos` how many contracts
refer to it: a creation takes a reference (`refCode`), a removal gives it back (`derefCode`), and
the last one deletes the code. There are three ways to remove a contract, which differ in what they
do besides: `removeAccount` for the `SELFDESTRUCT` opcode and for reaped accounts, and
`removeContract` for the `selfdestruct` extrinsic.

Native funds are moved on the plain ledger of the state. A currency that reaps accounts calls the
pallet back when a transfer leaves an account with nothing (`Config.killHook`). The callback runs in
the middle of the operation that moved the funds, and `removeContract` still holds a copy of the
account's record then.

`history` is not storage. It records the creations, the self-destructions and the losses of a nonce
that took effect, so that statements about the past of a state can be made; no function reads it.
-/

namespace Reef
namespace Evm

open Bounded EvmAccounts

/-! ### Results of the interpreter -/

/-- `ExitSucceed`. -/
inductive ExitSucceed
  | stopped
  | returned
  | suicided
  deriving DecidableEq, Repr

/-- `ExitError`: the errors the pallet raises itself, and the others of the interpreter. -/
inductive ExitError
  | outOfGas
  | other (message : String)
  | machine (code : ℕ)
  deriving DecidableEq, Repr

/-- `ExitReason`. -/
inductive ExitReason
  | succeed (s : ExitSucceed)
  | revert
  | error (e : ExitError)
  | fatal
  deriving DecidableEq, Repr

/-- `is_succeed`. -/
def ExitReason.isSucceed : ExitReason → Bool
  | .succeed _ => true
  | _ => false

/-! ### Storage -/

/-- `ContractInfo`. -/
structure ContractInfo where
  codeHash : H256
  maintainer : EvmAddress
  deployed : Bool
  deriving DecidableEq, Repr

/-- `EvmAccountInfo`. -/
structure EvmAccountInfo where
  nonce : ℕ
  contractInfo : Option ContractInfo
  developerDeposit : Option ℕ
  deriving DecidableEq, Repr

/-- `EvmAccountInfo::new`. -/
def EvmAccountInfo.new (nonce : ℕ) (contractInfo : Option ContractInfo) : EvmAccountInfo :=
  ⟨nonce, contractInfo, none⟩

/-- `CodeInfo`. -/
structure CodeInfo where
  codeSize : ℕ
  refCount : ℕ
  deriving DecidableEq, Repr

/-- The events of the pallet. Amounts of gas and storage come as a pair. -/
inductive Event
  | log (address : EvmAddress) (topics : List H256) (data : Bytes)
  | created (maintainer contract : EvmAddress) (used : ℕ × ℤ)
  | createdFailed (maintainer contract : EvmAddress) (reason : ExitReason) (output : Bytes)
      (used : ℕ × ℤ)
  | executed (source contract : EvmAddress) (usedGas : ℕ) (usedStorage : ℤ)
  | executedFailed (source contract : EvmAddress) (reason : ExitReason) (output : Bytes)
      (used : ℕ × ℤ)
  | transferredMaintainer (contract newMaintainer : EvmAddress)
  | contractDevelopmentEnabled (who : AccountId)
  | contractDevelopmentDisabled (who : AccountId)
  | contractDeployed (contract : EvmAddress)
  | contractSetCode (contract : EvmAddress)
  | contractSelfdestructed (caller contract : EvmAddress)
  deriving DecidableEq, Repr

/-- What the address of a new contract is derived from. -/
inductive CreateKey
  | legacy (caller : EvmAddress) (nonce : ℕ)
  | create2 (caller : EvmAddress) (salt codeHash : H256)
  | assigned (address : EvmAddress)
  deriving DecidableEq, Repr

/-- What the history of a state records. -/
inductive Entry
  /-- A contract was created from the key. -/
  | created (key : CreateKey)
  /-- The address was self-destructed. -/
  | destroyed (address : EvmAddress)
  /-- The record of the address, and with it its nonce, was deleted. -/
  | removed (address : EvmAddress)
  /-- The nonce of the address wrapped around. -/
  | wrapped (address : EvmAddress)
  deriving DecidableEq, Repr

/-- The arguments of a call that is scheduled. -/
structure ScheduledCall where
  source : EvmAddress
  target : EvmAddress
  input : Bytes
  value : ℕ
  gasLimit : ℕ
  storageLimit : ℕ
  deriving DecidableEq, Repr

/-- What the core precompiles act on besides the storage of the EVM: the currencies other than the
native one, and the scheduler, with the number of the next task (`EvmSchedulerNextID`). The book of
the fees of scheduled calls is not part of the storage; like the history it is kept to state
properties. -/
structure Outer where
  tokens : CurrencyId → Ledger AccountId
  agenda : Agenda ScheduledCall
  nextTaskId : ℕ
  fees : List (Escrow.Entry Bytes AccountId)

/-- No tokens, no tasks. -/
def Outer.empty : Outer := ⟨fun _ => .plain (fun _ => 0) (fun _ => 0), ⟨0, ∅⟩, 0, []⟩

/-- The storage the EVM reads and writes: that of the pallet, the address mapping and the native
ledger, with what the core precompiles act on and the history of the state. -/
structure State where
  accounts : Finmap fun _ : EvmAddress => EvmAccountInfo
  accountStorages : EvmAddress → Finmap fun _ : H256 => H256
  codes : Finmap fun _ : H256 => Bytes
  codeInfos : Finmap fun _ : H256 => CodeInfo
  networkContractIndex : ℕ
  queuedEvents : List Event
  events : List Event
  mapping : AddressMapping
  ledger : Ledger AccountId
  outer : Outer
  history : List Entry

/-- Nothing is stored. -/
def State.empty : State :=
  ⟨∅, fun _ => ∅, ∅, ∅, 0, [], [], .empty, .ofFree fun _ => 0, .empty, []⟩

/-- What the pallet is configured with, and the functions it takes from outside: `codeHash` is
keccak, `defaultAddress`, `create2Address` and `legacyAddress` hash what an address is derived
from. -/
structure Config where
  codeHash : Bytes → H256
  defaultAddress : AccountId → EvmAddress
  create2Address : EvmAddress → H256 → H256 → EvmAddress
  legacyAddress : EvmAddress → ℕ → EvmAddress
  storageDepositPerByte : ℕ
  minimumBalance : ℕ
  newContractExtraBytes : ℕ
  maxCodeSize : ℕ
  developerDeposit : ℕ
  deploymentFee : ℕ
  networkContractSource : EvmAddress
  /-- The currency reaps emptied accounts and `OnKilledAccount` is wired to the pallet. -/
  killHook : Bool
  deposit_le : storageDepositPerByte * maxValue storageBits ≤ maxValue balanceBits

namespace State

variable (C : Config) (s : State)

/-- `AddressMapping::get_account_id`. -/
def getAccountId (address : EvmAddress) : AccountId := s.mapping.getAccountId address

/-- `AddressMapping::get_evm_address`. -/
def getEvmAddress (who : AccountId) : Option EvmAddress := s.mapping.getEvmAddress who

/-- `contract_info` of an address. -/
def contractInfo (address : EvmAddress) : Option ContractInfo :=
  (s.accounts.lookup address).bind (·.contractInfo)

/-- `account_basic`, the nonce. -/
def nonce (address : EvmAddress) : ℕ := ((s.accounts.lookup address).map (·.nonce)).getD 0

/-- `code_hash_at_address`. -/
def codeHashAtAddress (address : EvmAddress) : H256 :=
  match s.contractInfo address with
  | some info => info.codeHash
  | none => C.codeHash []

/-- `code_at_address`. -/
def codeAtAddress (address : EvmAddress) : Bytes :=
  (s.codes.lookup (s.codeHashAtAddress C address)).getD []

/-- `deposit_event`. -/
def depositEvent (e : Event) : State := { s with events := s.events ++ [e] }

/-! ### Looking up records -/

theorem getD_nonce (address : EvmAddress) :
    ((s.accounts.lookup address).getD (.new 0 none)).nonce = s.nonce address := by
  unfold nonce
  cases s.accounts.lookup address with
  | none => rfl
  | some info => rfl

theorem getD_contractInfo (address : EvmAddress) :
    ((s.accounts.lookup address).getD (.new 0 none)).contractInfo = s.contractInfo address := by
  unfold contractInfo
  cases s.accounts.lookup address with
  | none => rfl
  | some info => rfl

section

variable {s s' : State} {address : EvmAddress} {info : EvmAccountInfo}

theorem nonce_insert (h : s'.accounts = s.accounts.insert address info) (a : EvmAddress) :
    s'.nonce a = if a = address then info.nonce else s.nonce a := by
  unfold nonce
  rw [h]
  by_cases ha : a = address
  · subst ha
    rw [Finmap.lookup_insert, if_pos rfl]
    rfl
  · rw [Finmap.lookup_insert_of_ne _ ha, if_neg ha]

theorem contractInfo_insert (h : s'.accounts = s.accounts.insert address info) (a : EvmAddress) :
    s'.contractInfo a = if a = address then info.contractInfo else s.contractInfo a := by
  unfold contractInfo
  rw [h]
  by_cases ha : a = address
  · subst ha
    rw [Finmap.lookup_insert, if_pos rfl]
    rfl
  · rw [Finmap.lookup_insert_of_ne _ ha, if_neg ha]

end

/-! ### Code and its references -/

/-- Take a reference to `code` under the hash `h`, storing it with the first one. -/
def refCode (h : H256) (code : Bytes) : State :=
  match s.codeInfos.lookup h with
  | some info =>
    let info := { info with refCount := satAdd 32 info.refCount 1 }
    { s with codeInfos := s.codeInfos.insert h info }
  | none =>
    { s with
        codeInfos := s.codeInfos.insert h ⟨code.length % 2 ^ 32, 1⟩
        codes := s.codes.insert h code }

/-- Give back a reference to the code under the hash `h`, deleting it with the last one. -/
def derefCode (h : H256) : State :=
  match s.codeInfos.lookup h with
  | none => s
  | some info =>
    if info.refCount - 1 = 0 then
      { s with codes := s.codes.erase h, codeInfos := s.codeInfos.erase h }
    else
      { s with codeInfos := s.codeInfos.insert h { info with refCount := info.refCount - 1 } }

/-- Taking a reference touches the codes and their counts only. -/
theorem refCode_eq (h : H256) (code : Bytes) :
    ∃ codes infos, s.refCode h code = { s with codes := codes, codeInfos := infos } := by
  unfold refCode
  split
  · exact ⟨_, _, rfl⟩
  · exact ⟨_, _, rfl⟩

/-- Giving back a reference touches the codes and their counts only. -/
theorem derefCode_eq (h : H256) :
    ∃ codes infos, s.derefCode h = { s with codes := codes, codeInfos := infos } := by
  unfold derefCode
  split
  · exact ⟨_, _, rfl⟩
  · split
    · exact ⟨_, _, rfl⟩
    · exact ⟨_, _, rfl⟩

@[simp] theorem refCode_accounts (h : H256) (code : Bytes) :
    (s.refCode h code).accounts = s.accounts := by
  unfold refCode
  split <;> rfl

@[simp] theorem derefCode_accounts (h : H256) : (s.derefCode h).accounts = s.accounts := by
  unfold derefCode
  split
  · rfl
  · split <;> rfl

@[simp] theorem refCode_history (h : H256) (code : Bytes) :
    (s.refCode h code).history = s.history := by
  unfold refCode
  split <;> rfl

@[simp] theorem refCode_networkContractIndex (h : H256) (code : Bytes) :
    (s.refCode h code).networkContractIndex = s.networkContractIndex := by
  unfold refCode
  split <;> rfl

@[simp] theorem derefCode_networkContractIndex (h : H256) :
    (s.derefCode h).networkContractIndex = s.networkContractIndex := by
  unfold derefCode
  split
  · rfl
  · split <;> rfl

@[simp] theorem derefCode_history (h : H256) : (s.derefCode h).history = s.history := by
  unfold derefCode
  split
  · rfl
  · split <;> rfl

@[simp] theorem derefCode_ledger (h : H256) : (s.derefCode h).ledger = s.ledger := by
  unfold derefCode
  split
  · rfl
  · split <;> rfl

@[simp] theorem derefCode_mapping (h : H256) : (s.derefCode h).mapping = s.mapping := by
  unfold derefCode
  split
  · rfl
  · split <;> rfl

@[simp] theorem derefCode_accountStorages (h : H256) :
    (s.derefCode h).accountStorages = s.accountStorages := by
  unfold derefCode
  split
  · rfl
  · split <;> rfl

/-! ### Creating -/

/-- `Handler::inc_nonce`. The addition is that of the release profile and wraps. -/
def incNonce (address : EvmAddress) : State :=
  let info := (s.accounts.lookup address).getD (.new 0 none)
  { s with
    accounts := s.accounts.insert address { info with nonce := wrapAdd nonceBits info.nonce 1 }
    history :=
      if info.nonce + 1 < 2 ^ nonceBits then s.history else .wrapped address :: s.history }

theorem incNonce_nonce (address a : EvmAddress) :
    (s.incNonce address).nonce a =
      if a = address then wrapAdd nonceBits (s.nonce address) 1 else s.nonce a := by
  refine (nonce_insert rfl a).trans ?_
  rw [s.getD_nonce]

theorem incNonce_contractInfo (address a : EvmAddress) :
    (s.incNonce address).contractInfo a = s.contractInfo a := by
  refine (contractInfo_insert rfl a).trans ?_
  rw [s.getD_contractInfo]
  split
  · next ha => rw [ha]
  · rfl

/-- The history has an entry exactly if the nonce wraps around. -/
theorem incNonce_history (address : EvmAddress) :
    (s.incNonce address).history =
      if s.nonce address + 1 < 2 ^ nonceBits then s.history else .wrapped address :: s.history := by
  rw [← s.getD_nonce]
  rfl

/-- `on_contract_initialization`: whatever contract the address had is replaced. -/
def onContractInitialization (address maintainer : EvmAddress) (code : Bytes) (used : ℕ × ℤ) :
    Except ExitError State :=
  let h := C.codeHash code
  if C.maxCodeSize < code.length % 2 ^ 32 then .error .outOfGas
  else
    let s := s.refCode h code
    let info := (s.accounts.lookup address).getD (.new 0 none)
    .ok { s with
      accounts := s.accounts.insert address
        { info with contractInfo := some ⟨h, maintainer, false⟩ }
      queuedEvents := s.queuedEvents ++ [.created maintainer address used] }

/-- What a successful `on_contract_initialization` does to records, codes and counts. -/
theorem onContractInitialization_eq_ok {C : Config} {s s' : State}
    {address maintainer : EvmAddress} {code : Bytes} {used : ℕ × ℤ}
    (hok : s.onContractInitialization C address maintainer code used = .ok s') :
    ∃ info : EvmAccountInfo, info.contractInfo = some ⟨C.codeHash code, maintainer, false⟩ ∧
      info.nonce = s.nonce address ∧
      s' = { s.refCode (C.codeHash code) code with
        accounts := s.accounts.insert address info
        queuedEvents := s'.queuedEvents } := by
  unfold onContractInitialization at hok
  simp only [] at hok
  split at hok
  · cases hok
  · rw [refCode_accounts] at hok
    cases hok
    refine ⟨{ (s.accounts.lookup address).getD (.new 0 none) with
      contractInfo := some ⟨C.codeHash code, maintainer, false⟩ }, rfl, ?_, rfl⟩
    exact s.getD_nonce address

/-! ### Removing -/

/-- `remove_account`. -/
def removeAccount (address : EvmAddress) : State :=
  let s := match s.contractInfo address with
    | some info => s.derefCode info.codeHash
    | none => s
  { s with
    accounts := s.accounts.erase address
    accountStorages := Function.update s.accountStorages address ∅
    history := .removed address :: s.history }

/-- What `remove_account` does, besides giving back the reference to the code. -/
theorem removeAccount_eq (address : EvmAddress) :
    ∃ codes infos, s.removeAccount address = { s with
      accounts := s.accounts.erase address
      accountStorages := Function.update s.accountStorages address ∅
      codes := codes
      codeInfos := infos
      history := .removed address :: s.history } := by
  unfold removeAccount
  split
  · next info _ =>
    obtain ⟨codes, infos, h⟩ := s.derefCode_eq info.codeHash
    rw [h]
    exact ⟨codes, infos, rfl⟩
  · exact ⟨_, _, rfl⟩

theorem removeAccount_accounts (address : EvmAddress) :
    (s.removeAccount address).accounts = s.accounts.erase address := by
  unfold removeAccount
  split
  · simp only [derefCode_accounts]
  · rfl

theorem removeAccount_contractInfo (address a : EvmAddress) :
    (s.removeAccount address).contractInfo a = if a = address then none else s.contractInfo a := by
  unfold contractInfo
  rw [removeAccount_accounts]
  by_cases ha : a = address
  · subst ha
    rw [Finmap.lookup_erase, if_pos rfl]
    rfl
  · rw [Finmap.lookup_erase_ne ha, if_neg ha]

theorem removeAccount_history (address : EvmAddress) :
    (s.removeAccount address).history = .removed address :: s.history := by
  unfold removeAccount
  split
  · simp only [derefCode_history]
  · rfl

theorem removeAccount_networkContractIndex (address : EvmAddress) :
    (s.removeAccount address).networkContractIndex = s.networkContractIndex := by
  unfold removeAccount
  split
  · exact derefCode_networkContractIndex s _
  · rfl

theorem removeAccount_accountStorages (address : EvmAddress) :
    (s.removeAccount address).accountStorages =
      Function.update s.accountStorages address ∅ := by
  unfold removeAccount
  split
  · simp only [derefCode_accountStorages]
  · rfl

@[simp] theorem removeAccount_ledger (address : EvmAddress) :
    (s.removeAccount address).ledger = s.ledger := by
  unfold removeAccount
  split
  · exact derefCode_ledger s _
  · rfl

@[simp] theorem removeAccount_mapping (address : EvmAddress) :
    (s.removeAccount address).mapping = s.mapping := by
  unfold removeAccount
  split
  · exact derefCode_mapping s _
  · rfl

/-- `OnKilledAccount` of the runtime: the hook of this pallet and then that of the address
mapping. -/
def onKilledAccount (who : AccountId) : State :=
  let s := match s.getEvmAddress who with
    | some address => s.removeAccount address
    | none => s
  let s := s.removeAccount (C.defaultAddress who)
  { s with mapping := s.mapping.onKilledAccount C.defaultAddress who }

/-- Put `l` in place of the ledger, and reap those of `accounts` that this has emptied. -/
def setLedger (l : Ledger AccountId) (accounts : List AccountId) : State :=
  let dead := accounts.filter fun a => C.killHook && s.ledger.emptied l a
  dead.foldl (onKilledAccount C) { s with ledger := l }

/-- Nobody is reaped when none of the accounts is emptied. -/
theorem setLedger_of_not_emptied {C : Config} {s : State} {l : Ledger AccountId}
    {accounts : List AccountId} (h : ∀ a ∈ accounts, s.ledger.emptied l a = false) :
    s.setLedger C l accounts = { s with ledger := l } := by
  have hdead : (accounts.filter fun a => C.killHook && s.ledger.emptied l a) = [] := by
    rw [List.filter_eq_nil_iff]
    intro a ha
    rw [h a ha, Bool.and_false]
    exact Bool.false_ne_true
  unfold setLedger
  rw [hdead]
  rfl

/-- Nobody is reaped if reaping is not wired. -/
theorem setLedger_of_not_killHook {C : Config} (hhook : C.killHook = false) (s : State)
    (l : Ledger AccountId) (accounts : List AccountId) :
    s.setLedger C l accounts = { s with ledger := l } := by
  unfold setLedger
  rw [hhook]
  simp

/-- `TransferAll::transfer_all` of the native currency. -/
def transferAll (source dest : AccountId) : Except DispatchError State :=
  match s.ledger.transfer source dest (s.ledger.free source) with
  | .error e => .error (.currency e)
  | .ok l => .ok (s.setLedger C l [source])

/-- The inversion of `transfer_all`. -/
theorem transferAll_eq_ok {C : Config} {s s' : State} {source dest : AccountId}
    (h : s.transferAll C source dest = .ok s') :
    ∃ l, s.ledger.transfer source dest (s.ledger.free source) = .ok l ∧
      s' = s.setLedger C l [source] := by
  unfold transferAll at h
  split at h
  · cases h
  · next l hl =>
    cases h
    exact ⟨l, hl, rfl⟩

/-- `remove_contract`, up to the point where funds are moved: the storage of the contract is
cleared, the reference to its code is given back and its deposits are unreserved. -/
def unlink (contract : EvmAddress) (h : H256) : State :=
  let contractAcc := s.getAccountId contract
  let s := { s with accountStorages := Function.update s.accountStorages contract ∅ }
  { s.derefCode h with
    ledger := (s.ledger.unreserve contractAcc (s.ledger.reserved contractAcc)).1 }

theorem unlink_accounts (contract : EvmAddress) (h : H256) :
    (s.unlink contract h).accounts = s.accounts :=
  derefCode_accounts _ h

/-- `remove_contract`. The record of the contract is written back from a copy taken before the funds
are moved. -/
def removeContract (caller contract : EvmAddress) : Except DispatchError State := do
  let info ← Fallible.okOr (s.accounts.lookup contract) (.module .contractNotFound)
  let contractInfo ← Fallible.okOr info.contractInfo (.module .contractNotFound)
  let contractAcc := s.getAccountId contract
  let who := s.getAccountId caller
  let s ← (s.unlink contract contractInfo.codeHash).transferAll C contractAcc who
  return { s with accounts := s.accounts.insert contract { info with contractInfo := none } }

/-- What a successful `remove_contract` does: it moves the funds of the unlinked contract and writes
the record back without the contract. -/
theorem removeContract_eq_ok {C : Config} {s s' : State} {caller contract : EvmAddress}
    (hok : s.removeContract C caller contract = .ok s') :
    ∃ info contractInfo s₁, s.accounts.lookup contract = some info ∧
      info.contractInfo = some contractInfo ∧
      (s.unlink contract contractInfo.codeHash).transferAll C (s.getAccountId contract)
        (s.getAccountId caller) = .ok s₁ ∧
      s' = { s₁ with
        accounts := s₁.accounts.insert contract { info with contractInfo := none } } := by
  unfold removeContract at hok
  obtain ⟨info, hinfo, hok⟩ := Fallible.bind_eq_ok.mp hok
  obtain ⟨contractInfo, hcontract, hok⟩ := Fallible.bind_eq_ok.mp hok
  obtain ⟨s₁, htransfer, hok⟩ := Fallible.bind_eq_ok.mp hok
  cases hok
  exact ⟨info, contractInfo, s₁, Fallible.okOr_eq_ok.mp hinfo, Fallible.okOr_eq_ok.mp hcontract,
    htransfer, rfl⟩

/-- `do_selfdestruct`. -/
def doSelfdestruct (caller contract : EvmAddress) : Except DispatchError State := do
  let info ← Fallible.okOr (s.contractInfo contract) (.module .contractNotFound)
  Fallible.ensure (info.maintainer = caller) (.module .noPermission)
  Fallible.ensure (info.deployed = false) (.module .contractAlreadyDeployed)
  s.removeContract C caller contract

/-- Only the maintainer removes a contract, and before it is deployed. -/
theorem doSelfdestruct_eq_ok {C : Config} {s s' : State} {caller contract : EvmAddress}
    (hok : s.doSelfdestruct C caller contract = .ok s') :
    (∃ info, s.contractInfo contract = some info ∧ info.maintainer = caller ∧
      info.deployed = false) ∧ s.removeContract C caller contract = .ok s' := by
  unfold doSelfdestruct at hok
  obtain ⟨info, hinfo, hok⟩ := Fallible.bind_eq_ok.mp hok
  obtain ⟨_, hmaintainer, hok⟩ := Fallible.bind_eq_ok.mp hok
  obtain ⟨_, hdeployed, hok⟩ := Fallible.bind_eq_ok.mp hok
  exact ⟨⟨info, Fallible.okOr_eq_ok.mp hinfo, Fallible.ensure_eq_ok.mp hmaintainer,
    Fallible.ensure_eq_ok.mp hdeployed⟩, hok⟩

/-- What removing accounts and changing the mapping keep, reaping an account keeps. -/
theorem onKilledAccount_induction {C : Config} {P : State → Prop}
    (hremove : ∀ s address, P s → P (s.removeAccount address))
    (hmapping : ∀ s mapping, P s → P { s with mapping := mapping }) {s : State} (h : P s)
    (who : AccountId) : P (s.onKilledAccount C who) := by
  unfold onKilledAccount
  refine hmapping _ _ (hremove _ _ ?_)
  split
  · exact hremove _ _ h
  · exact h

/-- What removing accounts and changing the mapping and the ledger keep, moving funds keeps. -/
theorem setLedger_induction {C : Config} {P : State → Prop}
    (hremove : ∀ s address, P s → P (s.removeAccount address))
    (hmapping : ∀ s mapping, P s → P { s with mapping := mapping })
    (hledger : ∀ s ledger, P s → P { s with ledger := ledger }) {s : State} (h : P s)
    (l : Ledger AccountId) (accounts : List AccountId) : P (s.setLedger C l accounts) := by
  unfold setLedger
  generalize (accounts.filter fun a => C.killHook && s.ledger.emptied l a) = dead
  have hstart : P { s with ledger := l } := hledger s l h
  generalize { s with ledger := l } = s₁ at hstart
  induction dead generalizing s₁ with
  | nil => exact hstart
  | cons who dead ih =>
    exact ih _ (onKilledAccount_induction hremove hmapping hstart who)

/-- Reaping gives no address a contract. -/
theorem setLedger_contractInfo_none {C : Config} {s : State} {contract : EvmAddress}
    (hnone : s.contractInfo contract = none) (l : Ledger AccountId) (accounts : List AccountId) :
    (s.setLedger C l accounts).contractInfo contract = none := by
  refine setLedger_induction (P := fun s => s.contractInfo contract = none)
    (fun s₁ address hnone => ?_) (fun _ _ h => h) (fun _ _ h => h) hnone l accounts
  rw [removeAccount_contractInfo]
  split
  · rfl
  · exact hnone

/-- A contract that is removed is gone. -/
theorem removeContract_contractInfo {C : Config} {s s' : State} {caller contract : EvmAddress}
    (hok : s.removeContract C caller contract = .ok s') : s'.contractInfo contract = none := by
  obtain ⟨info, contractInfo, s₁, -, -, -, rfl⟩ := removeContract_eq_ok hok
  rw [State.contractInfo_insert rfl, if_pos rfl]

/-- The ledger that is put in place stays, whoever is reaped. -/
theorem setLedger_ledger (C : Config) (s : State) (l : Ledger AccountId)
    (accounts : List AccountId) : (s.setLedger C l accounts).ledger = l := by
  unfold setLedger
  generalize (accounts.filter fun a => C.killHook && s.ledger.emptied l a) = dead
  have hstart : ({ s with ledger := l } : State).ledger = l := rfl
  generalize { s with ledger := l } = s₁ at hstart
  induction dead generalizing s₁ with
  | nil => exact hstart
  | cons who dead ih =>
    refine ih _ (onKilledAccount_induction (P := fun s => s.ledger = l) ?_ ?_ hstart who)
    · intro s address h
      rw [removeAccount_ledger, h]
    · exact fun _ _ h => h

/-! ### Maintaining -/

/-- Replace the contract record of an address that has one. -/
def setContractInfo (address : EvmAddress) (info : ContractInfo) : State :=
  match s.accounts.lookup address with
  | some account =>
    { s with accounts := s.accounts.insert address { account with contractInfo := some info } }
  | none => s

/-- Only the accounts change. -/
theorem setContractInfo_eq (s : State) (address : EvmAddress) (info : ContractInfo) :
    ∃ accounts, s.setContractInfo address info = { s with accounts := accounts } := by
  unfold setContractInfo
  split
  · exact ⟨_, rfl⟩
  · exact ⟨s.accounts, rfl⟩

theorem setContractInfo_contractInfo_of_ne {address a : EvmAddress} (info : ContractInfo)
    (ha : a ≠ address) : (s.setContractInfo address info).contractInfo a = s.contractInfo a := by
  unfold setContractInfo
  split
  · refine (contractInfo_insert rfl a).trans ?_
    rw [if_neg ha]
  · rfl

/-- `do_transfer_maintainer`. -/
def doTransferMaintainer (who : AccountId) (contract newMaintainer : EvmAddress) :
    Except DispatchError State := do
  let info ← Fallible.okOr (s.contractInfo contract) (.module .contractNotFound)
  let maintainer ← Fallible.okOr (s.getEvmAddress who) (.module .addressNotMapped)
  Fallible.ensure (info.maintainer = maintainer) (.module .noPermission)
  return s.setContractInfo contract { info with maintainer := newMaintainer }

/-- Nothing but the maintainer changes. -/
theorem doTransferMaintainer_eq_ok {s s' : State} {who : AccountId}
    {contract newMaintainer : EvmAddress}
    (h : s.doTransferMaintainer who contract newMaintainer = .ok s') :
    ∃ info, s.contractInfo contract = some info ∧
      s' = s.setContractInfo contract { info with maintainer := newMaintainer } := by
  obtain ⟨info, hinfo, h⟩ := Fallible.bind_eq_ok.mp h
  obtain ⟨maintainer, -, h⟩ := Fallible.bind_eq_ok.mp h
  obtain ⟨-, -, h⟩ := Fallible.bind_eq_ok.mp h
  cases h
  exact ⟨info, Fallible.okOr_eq_ok.mp hinfo, rfl⟩

/-- `mark_deployed`. -/
def markDeployed (contract : EvmAddress) (maintainer : Option EvmAddress) :
    Except DispatchError State := do
  let info ← Fallible.okOr (s.contractInfo contract) (.module .contractNotFound)
  Fallible.ensure (∀ m ∈ maintainer, info.maintainer = m) (.module .noPermission)
  Fallible.ensure (info.deployed = false) (.module .contractAlreadyDeployed)
  return s.setContractInfo contract { info with deployed := true }

/-- Nothing but the mark changes. -/
theorem markDeployed_eq_ok {s s' : State} {contract : EvmAddress} {maintainer : Option EvmAddress}
    (hok : s.markDeployed contract maintainer = .ok s') :
    ∃ info, s.contractInfo contract = some info ∧
      s' = s.setContractInfo contract { info with deployed := true } := by
  unfold markDeployed at hok
  obtain ⟨info, hinfo, hok⟩ := Fallible.bind_eq_ok.mp hok
  obtain ⟨-, -, hok⟩ := Fallible.bind_eq_ok.mp hok
  obtain ⟨-, -, hok⟩ := Fallible.bind_eq_ok.mp hok
  cases hok
  exact ⟨info, Fallible.okOr_eq_ok.mp hinfo, rfl⟩

/-- Who may change the code of a contract: root (`none`), and the maintainer before deployment. -/
def checkSetCode (signer : Option AccountId) (info : ContractInfo) : Except DispatchError Unit :=
  match signer with
  | none => .ok ()
  | some who => do
    let maintainer ← Fallible.okOr (s.getEvmAddress who) (.module .addressNotMapped)
    Fallible.ensure (info.maintainer = maintainer) (.module .noPermission)
    Fallible.ensure (info.deployed = false) (.module .contractAlreadyDeployed)

/-- `do_set_code`, called by root or by a signer. The new code gets a reference; the contract's own
record is not touched. -/
def doSetCode (signer : Option AccountId) (contract : EvmAddress) (code : Bytes) :
    Except DispatchError State := do
  let info ← Fallible.okOr (s.contractInfo contract) (.module .contractNotFound)
  s.checkSetCode signer info
  if C.codeHash code = info.codeHash then return s
  else
    Fallible.ensure (code.length % 2 ^ 32 ≤ C.maxCodeSize) (.module .contractExceedsMaxCodeSize)
    return s.refCode (C.codeHash code) code

/-- What a successful `do_set_code` does: nothing if the hash is the contract's, and otherwise it
takes a reference to the new code. -/
theorem doSetCode_eq_ok {C : Config} {s s' : State} {signer : Option AccountId}
    {contract : EvmAddress} {code : Bytes} (hok : s.doSetCode C signer contract code = .ok s') :
    ∃ info, s.contractInfo contract = some info ∧ s.checkSetCode signer info = .ok () ∧
      ((C.codeHash code = info.codeHash ∧ s' = s) ∨
        (C.codeHash code ≠ info.codeHash ∧ code.length % 2 ^ 32 ≤ C.maxCodeSize ∧
          s' = s.refCode (C.codeHash code) code)) := by
  unfold doSetCode at hok
  obtain ⟨info, hinfo, hok⟩ := Fallible.bind_eq_ok.mp hok
  obtain ⟨u, hcheck, hok⟩ := Fallible.bind_eq_ok.mp hok
  refine ⟨info, Fallible.okOr_eq_ok.mp hinfo, hcheck, ?_⟩
  split at hok
  · next heq =>
    cases hok
    exact .inl ⟨heq, rfl⟩
  · next hne =>
    obtain ⟨_, hsize, hok⟩ := Fallible.bind_eq_ok.mp hok
    cases hok
    exact .inr ⟨hne, Fallible.ensure_eq_ok.mp hsize, rfl⟩

end State

end Evm
end Reef
