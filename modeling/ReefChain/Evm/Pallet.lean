import ReefChain.Evm.Runner

/-!
# The EVM pallet as a system

The extrinsics of the pallet, and what other parts of the runtime do to its storage: they execute
contracts, reap accounts and change balances and the address mapping. A run is a sequence of inputs;
each input is transactional, and the world it leads to keeps the observations of what was undone.

Fees and the weights of extrinsics are not modelled.
-/

namespace Reef
namespace Evm

open Bounded EvmAccounts

/-- `get_or_create_evm_address`. -/
def State.getOrCreateEvmAddress (C : Config) (s : State) (who : AccountId) : State × EvmAddress :=
  let (mapping, address) := s.mapping.getOrCreateEvmAddress C.defaultAddress who
  ({ s with mapping := mapping }, address)

/-- `process_queued_events`. -/
def State.processQueuedEvents (s : State) : State :=
  { s with events := s.events ++ s.queuedEvents, queuedEvents := [] }

/-! ### Genesis -/

/-- `GenesisAccount`. -/
structure GenesisAccount where
  nonce : ℕ
  balance : ℕ
  storage : List (H256 × H256)
  code : Bytes

/-- `GenesisConfig::build` for one account. A contract that cannot be initialised makes the chain
not start. -/
def State.addGenesisAccount (C : Config) (s : State) (address : EvmAddress)
    (account : GenesisAccount) : Except DispatchError State := do
  let s := { s with accounts := s.accounts.insert address (.new account.nonce none) }
  let s := { s with ledger := s.ledger.depositCreating (s.getAccountId address) account.balance }
  if account.code = [] then return s
  else
    let s ← (s.onContractInitialization C address 0 account.code (0, 0)).mapError
      fun _ => .other "Genesis contract shouldn't fail"
    let s ← s.markDeployed address none
    let slots := account.storage.foldl (fun m e => m.insert e.1 e.2) (s.accountStorages address)
    return { s with accountStorages := Function.update s.accountStorages address slots }

/-- What building one account does: it writes a record without a contract, and if there is code, it
creates the contract, marks it as deployed and fills its storage. -/
theorem State.addGenesisAccount_cases {C : Config} {s s' : State} {address : EvmAddress}
    {account : GenesisAccount} (hok : s.addGenesisAccount C address account = .ok s') :
    ∃ l s₀, s₀ = { s with
        accounts := s.accounts.insert address (.new account.nonce none)
        ledger := l } ∧
      (s' = s₀ ∨ ∃ s₁ info storages,
        s₀.onContractInitialization C address 0 account.code (0, 0) = .ok s₁ ∧
        s₁.contractInfo address = some info ∧
        s' = { s₁.setContractInfo address { info with deployed := true } with
          accountStorages := storages }) := by
  unfold State.addGenesisAccount at hok
  refine ⟨s.ledger.depositCreating (s.getAccountId address) account.balance, _, rfl, ?_⟩
  split at hok
  · cases hok
    exact .inl rfl
  · obtain ⟨s₁, hs₁, hok⟩ := Fallible.bind_eq_ok.mp hok
    obtain ⟨s₂, hs₂, hok⟩ := Fallible.bind_eq_ok.mp hok
    cases hok
    obtain ⟨info, hinfo, rfl⟩ := State.markDeployed_eq_ok hs₂
    exact .inr ⟨s₁, info, _, Fallible.mapError_eq_ok.mp hs₁, hinfo, rfl⟩

/-- `GenesisConfig::build` over the balances other pallets start with. -/
def genesis (C : Config) (ledger : Ledger AccountId)
    (accounts : List (EvmAddress × GenesisAccount)) : Except DispatchError State := do
  let s ← accounts.foldlM (fun s e => s.addGenesisAccount C e.1 e.2)
    { State.empty with ledger := ledger }
  return { s with networkContractIndex := NETWORK_CONTRACT_START }

/-! ### Extrinsics -/

/-- What happens to the pallet. -/
inductive Input
  | call (who : AccountId) (target : EvmAddress) (value gasLimit storageLimit : ℕ) (prog : Prog)
  /-- `create` or, with a salt, `create2`. -/
  | create (who : AccountId) (initCode : Bytes) (salt : Option H256)
      (value gasLimit storageLimit : ℕ) (prog : Prog)
  | createNetworkContract (initCode : Bytes) (value gasLimit storageLimit : ℕ) (prog : Prog)
  | transferMaintainer (who : AccountId) (contract newMaintainer : EvmAddress)
  | deploy (who : AccountId) (contract : EvmAddress)
  | deployFree (contract : EvmAddress)
  | enableContractDevelopment (who : AccountId)
  | disableContractDevelopment (who : AccountId)
  /-- By root, or by a signer. -/
  | setCode (signer : Option AccountId) (contract : EvmAddress) (code : Bytes)
  | selfdestruct (who : AccountId) (contract : EvmAddress)
  /-- `EVM::execute`, called by another pallet. -/
  | execute (sender origin target : EvmAddress) (value gasLimit storageLimit : ℕ) (isView : Bool)
      (prog : Prog)
  /-- An operation of another pallet makes the framework reap an account. -/
  | reap (who : AccountId)
  /-- Other pallets change balances and the address mapping. -/
  | other (ledger : Ledger AccountId) (mapping : AddressMapping)

/-- The end of the extrinsic `call`. -/
def callDone (w : World) (source target : EvmAddress) (gasLimit : ℕ)
    (x : World × Except DispatchError CallInfo) : World :=
  match x.2 with
  | .error _ => { x.1 with state := w.state }
  | .ok info =>
    let event :=
      if info.exitReason.isSucceed then .executed source target info.usedGas info.usedStorage
      else .executedFailed source target info.exitReason info.output (gasLimit, 0)
    { x.1 with state := (x.1.state.depositEvent event).processQueuedEvents }

/-- The end of the creating extrinsics. `f` is what a creation that returned does besides. -/
def createDone (w : World) (source : EvmAddress) (gasLimit : ℕ) (f : State → State)
    (x : World × Except DispatchError CreateInfo) : World :=
  match x.2 with
  | .error _ => { x.1 with state := w.state }
  | .ok info =>
    let s := f x.1.state
    let s :=
      if info.exitReason.isSucceed then s
      else s.depositEvent
        (.createdFailed source info.address info.exitReason info.output (gasLimit, 0))
    { x.1 with state := s.processQueuedEvents }

/-- `deploy`. -/
def State.deploy (C : Config) (s : State) (who : AccountId) (contract : EvmAddress) :
    Except DispatchError State := do
  let address ← Fallible.okOr (s.getEvmAddress who) (.module .addressNotMapped)
  let l ← (s.ledger.withdrawAllowDeath who C.deploymentFee).mapError .currency
  let s ← (s.setLedger C l [who]).markDeployed contract (some address)
  return s.depositEvent (.contractDeployed contract)

/-- Set the developer deposit in the record of an address, making one if there is none. -/
def State.setDeveloperDeposit (s : State) (address : EvmAddress) (deposit : Option ℕ) : State :=
  let info := (s.accounts.lookup address).getD (.new 0 none)
  { s with accounts := s.accounts.insert address { info with developerDeposit := deposit } }

/-- `enable_contract_development`. -/
def State.enableContractDevelopment (C : Config) (s : State) (who : AccountId) :
    Except DispatchError State := do
  let (s, address) := s.getOrCreateEvmAddress C who
  let l ← (s.ledger.reserve who C.developerDeposit).mapError .currency
  let s := { s with ledger := l }
  Fallible.ensure (((s.accounts.lookup address).bind (·.developerDeposit)) = none)
    (.module .contractDevelopmentAlreadyEnabled)
  return (s.setDeveloperDeposit address (some C.developerDeposit)).depositEvent
    (.contractDevelopmentEnabled who)

/-- `disable_contract_development`. -/
def State.disableContractDevelopment (s : State) (who : AccountId) :
    Except DispatchError State := do
  let address ← Fallible.okOr (s.getEvmAddress who) (.module .addressNotMapped)
  let info ← Fallible.okOr (s.accounts.lookup address) (.module .contractDevelopmentNotEnabled)
  let deposit ← Fallible.okOr info.developerDeposit (.module .contractDevelopmentNotEnabled)
  let s := s.setDeveloperDeposit address none
  return { s with ledger := (s.ledger.unreserve who deposit).1 }.depositEvent
    (.contractDevelopmentDisabled who)

/-- `selfdestruct`. -/
def State.selfdestruct (C : Config) (s : State) (who : AccountId) (contract : EvmAddress) :
    Except DispatchError State := do
  let caller ← Fallible.okOr (s.getEvmAddress who) (.module .addressNotMapped)
  let s ← s.doSelfdestruct C caller contract
  let s := { s with history := .destroyed contract :: s.history }
  return s.depositEvent (.contractSelfdestructed caller contract)

/-- Carry out what does not execute code. -/
def State.admin (C : Config) (s : State) : Input → Except DispatchError State
  | .transferMaintainer who contract newMaintainer => do
    let s ← s.doTransferMaintainer who contract newMaintainer
    return s.depositEvent (.transferredMaintainer contract newMaintainer)
  | .deploy who contract => s.deploy C who contract
  | .deployFree contract => do
    let s ← s.markDeployed contract none
    return s.depositEvent (.contractDeployed contract)
  | .enableContractDevelopment who => s.enableContractDevelopment C who
  | .disableContractDevelopment who => s.disableContractDevelopment who
  | .setCode signer contract code => do
    let s ← s.doSetCode C signer contract code
    return s.depositEvent (.contractSetCode contract)
  | .selfdestruct who contract => s.selfdestruct C who contract
  | .reap who => .ok (s.onKilledAccount C who)
  | .other ledger mapping => .ok { s with ledger := ledger, mapping := mapping }
  | _ => .ok s

/-- Carry out an input. -/
def step (E : Env) (w : World) : Input → World
  | .call who target value gasLimit storageLimit prog =>
    let (s, source) := w.state.getOrCreateEvmAddress E.toConfig who
    callDone w source target gasLimit
      (Runner.call E source source target value gasLimit storageLimit prog { w with state := s })
  | .create who initCode salt value gasLimit storageLimit prog =>
    let (s, source) := w.state.getOrCreateEvmAddress E.toConfig who
    createDone w source gasLimit id
      (Runner.create E source initCode salt value gasLimit storageLimit prog { w with state := s })
  | .createNetworkContract initCode value gasLimit storageLimit prog =>
    let source := E.networkContractSource
    let address := fromLowU64 w.state.networkContractIndex
    createDone w source gasLimit
      (fun s => { s with networkContractIndex := satAdd 64 s.networkContractIndex 1 })
      (Runner.createAtAddress E source initCode value address gasLimit storageLimit prog w)
  | .execute sender origin target value gasLimit storageLimit isView prog =>
    executed w sender target isView
      (Runner.call E sender origin target value gasLimit storageLimit prog w)
  | i => { w with state := Fallible.commitOrKeep (w.state.admin E.toConfig i) w.state }

/-! ### A chain to start with -/

/-- The balances of a chain on which the first account has funds. -/
def funds : Ledger AccountId := .ofFree fun a => if a = 1 then 1_000_000 * REEF else 0

/-- A chain that starts without contracts. -/
def funded : State :=
  { State.empty with ledger := funds, networkContractIndex := NETWORK_CONTRACT_START }

/-! ### Relations between worlds -/

namespace WorldRule

variable {E : Env} {T : World → World → Prop} (hT : WorldRule E T)

include hT

/-- The end of a call keeps the relation. -/
theorem callDone {w : World} {source target : EvmAddress} {gasLimit : ℕ}
    {x : World × Except DispatchError CallInfo} (h : T w x.1) :
    T w (Evm.callDone w source target gasLimit x) := by
  unfold Evm.callDone
  split
  · exact hT.undo h
  · exact hT.trans h (hT.other _ _ _ _ x.1
      ((List.prefix_append _ _).trans (List.prefix_append _ _)))

/-- The end of a creation keeps the relation if what it does besides does. -/
theorem createDone {w : World} {source : EvmAddress} {gasLimit : ℕ} {f : State → State}
    {x : World × Except DispatchError CreateInfo}
    (hf : ∀ w : World, T w { w with state := f w.state }) (h : T w x.1) :
    T w (Evm.createDone w source gasLimit f x) := by
  unfold Evm.createDone
  split
  · exact hT.undo h
  · -- the events of a failed creation are deposited in between
    refine hT.trans h (hT.trans (hf x.1) ?_)
    split
    · exact hT.other _ _ _ _ { x.1 with state := f x.1.state } (List.prefix_append _ _)
    · exact hT.other _ _ _ _ { x.1 with state := f x.1.state }
        ((List.prefix_append _ _).trans (List.prefix_append _ _))

/-- **Inputs satisfy the relation**, if those that do not execute code and the creations of network
contracts do. -/
theorem step {w : World} {i : Input}
    (hadmin : ∀ s, w.state.admin E.toConfig i = .ok s → T w { w with state := s })
    (hnetwork : ∀ initCode value gasLimit storageLimit prog,
      i = .createNetworkContract initCode value gasLimit storageLimit prog →
      T w (Evm.step E w i)) : T w (Evm.step E w i) := by
  have hrun := hT.runRule_unassigned
  -- what executes no code is committed as a whole or not at all
  have hcommitted : T w
      { w with state := Fallible.commitOrKeep (w.state.admin E.toConfig i) w.state } := by
    rcases Fallible.commitOrKeep_cases (w.state.admin E.toConfig i) w.state with
      ⟨s', hok, heq⟩ | ⟨-, heq⟩
    · rw [heq]
      exact hadmin s' hok
    · rw [heq]
      exact hT.refl w
  cases i with
  | call who target value gasLimit storageLimit prog =>
    exact hT.callDone (hT.trans (hT.other _ _ _ _ w List.prefix_rfl) (hrun.call prog.only_any))
  | create who initCode salt value gasLimit storageLimit prog =>
    exact hT.createDone (fun w => hT.refl w)
      (hT.trans (hT.other _ _ _ _ w List.prefix_rfl) (hrun.create rfl prog.only_any))
  | createNetworkContract initCode value gasLimit storageLimit prog =>
    exact hnetwork initCode value gasLimit storageLimit prog rfl
  | execute sender origin target value gasLimit storageLimit isView prog =>
    -- a view or a failure is undone, a success is followed by its event
    exact RunRule.executed hT.undo
      (fun _ h => hT.trans h (hT.other _ _ _ _ _ (List.prefix_append _ _)))
      (hrun.call prog.only_any)
  | transferMaintainer | deploy | deployFree | enableContractDevelopment
  | disableContractDevelopment | setCode | selfdestruct | reap | other => exact hcommitted

end WorldRule

end Evm
end Reef
