import ReefChain.Evm.Precompiles

/-!
# Frames of the interpreter

The interpreter is an external crate. It runs the code of a frame and calls back a `Handler` for
everything that concerns the chain: storage, logs, `SELFDESTRUCT`, nested creations and calls. This
file models the handler, and the code of a frame by what it asks of the handler: a `Prog` is the
sequence of these requests, where a nested creation or call carries the program that runs in the
nested frame. Nothing relates the program of a frame to the bytes of its code; results about all
programs hold for all contracts.

A frame has a gasometer and a chain of storage meters. A nested frame runs in a storage transaction
(`runSubTransaction`): it is rolled back unless the frame succeeds and its meter can be finished.
The gasometer of the parent is charged from within the transaction but, like the meters, it is not
part of what is rolled back (`Host.keep`).

A `World` is the state of the chain with a trace of observations. Observations are not rolled back
either, so the trace tells what happened in frames whose effects were undone.
-/

namespace Reef
namespace Evm

open Bounded

/-! ### Gas -/

/-- `Gasometer` of the interpreter. Memory costs are counted with the others. -/
structure Gasometer where
  limit : ℕ
  used : ℕ
  refunded : ℤ
  failed : Bool
  deriving DecidableEq, Repr

namespace Gasometer

variable (g : Gasometer)

/-- `Gasometer::new`. -/
def new (limit : ℕ) : Gasometer := ⟨limit, 0, 0, false⟩

/-- `gas`. -/
def gas : ℕ := if g.failed then 0 else g.limit - g.used

/-- `total_used_gas`. -/
def totalUsedGas : ℕ := if g.failed then g.limit else g.used

/-- `refunded_gas`. -/
def refundedGas : ℤ := if g.failed then 0 else g.refunded

/-- `fail`. -/
def fail : Gasometer := { g with failed := true }

/-- `record_cost`. -/
def recordCost (cost : ℕ) : Gasometer × Except ExitError Unit :=
  if g.failed ∨ g.limit < g.used + cost then (g.fail, .error .outOfGas)
  else ({ g with used := g.used + cost }, .ok ())

/-- `record_refund`. -/
def recordRefund (refund : ℤ) : Gasometer × Except ExitError Unit :=
  if g.failed then (g, .error .outOfGas) else ({ g with refunded := g.refunded + refund }, .ok ())

/-- `record_stipend`. What is given back was recorded before, so the subtraction is exact. -/
def recordStipend (stipend : ℕ) : Gasometer × Except ExitError Unit :=
  if g.failed then (g, .error .outOfGas) else ({ g with used := g.used - stipend }, .ok ())

/-- `record_deposit`. -/
def recordDeposit (len : ℕ) : Gasometer × Except ExitError Unit := g.recordCost (200 * len)

/-- `record_transaction`. -/
def recordTransaction (cost : ℕ) : Gasometer × Except ExitError Unit :=
  if g.gas < cost then (g.fail, .error .outOfGas)
  else ({ g with used := g.used + cost }, .ok ())

/-- `Handler::used_gas`. The refund is cast from `i64` to `u64`. -/
def usedGas : ℕ :=
  g.totalUsedGas - min (g.totalUsedGas / 2) (g.refundedGas % 2 ^ 64).toNat

/-- Give back to `g` what a nested frame with gasometer `sub` has left. -/
def giveBack (sub : Gasometer) : Gasometer × Except ExitError Unit :=
  match g.recordStipend sub.gas with
  | (g, .error e) => (g, .error e)
  | (g, .ok _) => g.recordRefund sub.refundedGas

end Gasometer

/-- `l64`. -/
def l64 (gas : ℕ) : ℕ := gas - gas / 64

/-- The gas a nested frame gets, before a stipend. -/
def Env.targetGas (E : Env) (g : Gasometer) (target : Option ℕ) : ℕ :=
  let afterGas := if E.callL64AfterGas then l64 g.gas else g.gas
  min (target.getD afterGas) afterGas

/-! ### The world -/

/-- The call opcodes. -/
inductive CallScheme
  | call
  | callCode
  | delegateCall
  | staticCall
  deriving DecidableEq, Repr

/-- What is observed of an execution. -/
inductive Observation
  /-- The frame `issuer` has called `codeAddress`, and the call was routed. -/
  | dispatched (issuer : Context) (scheme : CallScheme) (codeAddress : EvmAddress)
      (context : Context) (route : Route)
  /-- A counter of a meter that stands at `counter` is about to count `storage`. -/
  | metered (counter storage : ℕ)
  /-- In the state `before` a contract is created at `address`, which was derived from `key`. -/
  | initialised (before : State) (key : CreateKey) (address : EvmAddress) (code : Bytes)
  /-- In the state `before` the storage of a frame of `contract` is charged to the origin. -/
  | settled (before : State) (contract : EvmAddress) (used refunded : ℕ)

/-- The state of the chain and what has been observed, newest first. -/
structure World where
  state : State
  trace : List Observation

/-- Add an observation. -/
def World.observe (w : World) (o : Observation) : World := { w with trace := o :: w.trace }

/-- The deposits of the pallet, with the address mapping of a state. -/
def State.deposits (C : Config) (s : State) : DepositConfig AccountId where
  getAccountId := s.getAccountId
  storageDepositPerByte := C.storageDepositPerByte
  minimumBalance := C.minimumBalance
  deposit_le := C.deposit_le

/-- `StorageMeterHandlerImpl` for the origin of a transaction. -/
def World.host (C : Config) (origin : EvmAddress) : Host World where
  reserveStorage w limit :=
    let (l, result) := (w.state.deposits C).reserveStorage origin w.state.ledger limit
    ({ w with state := { w.state with ledger := l } }, result)
  unreserveStorage w limit used refunded :=
    let (l, result) :=
      (w.state.deposits C).unreserveStorage origin w.state.ledger limit used refunded
    ({ w with state := { w.state with ledger := l } }, result)
  chargeStorage w contract used refunded :=
    let (l, result) :=
      (w.state.deposits C).chargeStorage origin w.state.ledger contract used refunded
    let accounts := [w.state.getAccountId origin, w.state.getAccountId contract]
    ({ state := w.state.setLedger C l accounts
       trace := .settled w.state contract used refunded :: w.trace }, result)
  rollback start now := { now with state := start.state }

/-- A host next to a value that is not rolled back. -/
def Host.keep {σ : Type} (γ : Type) (H : Host σ) : Host (γ × σ) where
  reserveStorage p limit :=
    let (s, result) := H.reserveStorage p.2 limit
    ((p.1, s), result)
  unreserveStorage p limit used refunded :=
    let (s, result) := H.unreserveStorage p.2 limit used refunded
    ((p.1, s), result)
  chargeStorage p contract used refunded :=
    let (s, result) := H.chargeStorage p.2 contract used refunded
    ((p.1, s), result)
  rollback start now := (now.1, H.rollback start.2 now.2)

/-! ### The requests of a frame -/

/-- `STORAGE_SIZE`: storage key size and storage value size. -/
def STORAGE_SIZE : ℕ := 64

/-- The mutable part of a `Handler`. -/
structure Frame where
  gasometer : Gasometer
  meters : Chain

/-- What running a frame ends with. -/
structure Exit where
  frame : Frame
  world : World
  reason : ExitReason
  output : Bytes

/-- `charge` on the meter of a frame. -/
def Chain.charge (c : Chain) (storage : ℕ) : Chain × DispatchResult :=
  let (m, result) := c.self.charge storage
  (⟨m, c.above⟩, result)

/-- `refund` on the meter of a frame. -/
def Chain.refund (c : Chain) (storage : ℕ) : Chain × DispatchResult :=
  let (m, result) := c.self.refund storage
  (⟨m, c.above⟩, result)

/-- The value of a storage slot. -/
def State.storage (s : State) (address : EvmAddress) (index : H256) : H256 :=
  ((s.accountStorages address).lookup index).getD 0

/-- Write a storage slot. A zero is not stored. -/
def State.writeStorage (s : State) (address : EvmAddress) (index value : H256) : State :=
  let slots := s.accountStorages address
  { s with
    accountStorages := Function.update s.accountStorages address
      (if value = 0 then slots.erase index else slots.insert index value) }

theorem State.storage_writeStorage (s : State) (address : EvmAddress) (index value : H256)
    (address' : EvmAddress) (index' : H256) :
    (s.writeStorage address index value).storage address' index' =
      if address' = address ∧ index' = index then value else s.storage address' index' := by
  unfold State.writeStorage State.storage
  simp only []
  by_cases haddress : address' = address
  · subst haddress
    rw [Function.update_self]
    by_cases hvalue : value = 0
    · rw [if_pos hvalue]
      by_cases hindex : index' = index
      · rw [if_pos ⟨rfl, hindex⟩, hindex, Finmap.lookup_erase, hvalue]
        rfl
      · rw [if_neg fun h => hindex h.2, Finmap.lookup_erase_ne hindex]
    · rw [if_neg hvalue]
      by_cases hindex : index' = index
      · rw [if_pos ⟨rfl, hindex⟩, hindex, Finmap.lookup_insert]
        rfl
      · rw [if_neg fun h => hindex h.2, Finmap.lookup_insert_of_ne _ hindex]
  · rw [Function.update_of_ne haddress, if_neg fun h => haddress h.1]

/-- `Handler::set_storage`. -/
def setStorage (isStatic : Bool) (address : EvmAddress) (index value : H256) (c : Chain)
    (w : World) : Chain × World × Except ExitError Unit :=
  if isStatic then (c, w, .error .outOfGas)
  else
    let previous := w.state.storage address index
    let w := { w with state := w.state.writeStorage address index value }
    if value = 0 ∧ previous ≠ 0 then
      let (c', result) := c.refund STORAGE_SIZE
      (c', w.observe (.metered c.self.selfRefunded STORAGE_SIZE),
        result.mapError fun _ => .outOfGas)
    else if value ≠ 0 ∧ previous = 0 then
      let (c', result) := c.charge STORAGE_SIZE
      (c', w.observe (.metered c.self.selfUsed STORAGE_SIZE), result.mapError fun _ => .outOfGas)
    else (c, w, .ok ())

/-- The slot is written whether or not it can be metered. -/
theorem setStorage_state (address : EvmAddress) (index value : H256) (c : Chain) (w : World) :
    (setStorage false address index value c w).2.1.state =
      w.state.writeStorage address index value := by
  unfold setStorage
  rw [if_neg Bool.false_ne_true]
  simp only []
  split
  · rfl
  · split <;> rfl

/-- What `set_storage` does: nothing in a static frame; otherwise it writes the slot, and meters it
if this stores or deletes a value. -/
theorem setStorage_cases {b : Bool} {address : EvmAddress} {index value : H256} {c c' : Chain}
    {w w' : World} {r : Except ExitError Unit}
    (h : setStorage b address index value c w = (c', w', r)) :
    (c' = c ∧ w' = w) ∨
    (w'.state = w.state.writeStorage address index value ∧
      ((value = 0 ∧ w.state.storage address index ≠ 0 ∧ c' = (c.refund STORAGE_SIZE).1 ∧
          w'.trace = .metered c.self.selfRefunded STORAGE_SIZE :: w.trace) ∨
        (value ≠ 0 ∧ w.state.storage address index = 0 ∧ c' = (c.charge STORAGE_SIZE).1 ∧
          w'.trace = .metered c.self.selfUsed STORAGE_SIZE :: w.trace) ∨
        ((value = 0 ↔ w.state.storage address index = 0) ∧ c' = c ∧ w'.trace = w.trace))) := by
  unfold setStorage at h
  split at h
  · cases h
    exact .inl ⟨rfl, rfl⟩
  · simp only [] at h
    split at h
    · next hdelete =>
      cases h
      exact .inr ⟨rfl, .inl ⟨hdelete.1, hdelete.2, rfl, rfl⟩⟩
    · next hdelete =>
      split at h
      · next hstore =>
        cases h
        exact .inr ⟨rfl, .inr (.inl ⟨hstore.1, hstore.2, rfl, rfl⟩)⟩
      · next hstore =>
        cases h
        refine .inr ⟨rfl, .inr (.inr ⟨?_, rfl, rfl⟩)⟩
        -- neither deleted nor stored: both values are zero or neither is
        tauto

/-- `Handler::log`. -/
def State.log (s : State) (address : EvmAddress) (topics : List H256) (data : Bytes) : State :=
  { s with events := s.events ++ [.log address topics data] }

/-- `Handler::mark_delete`. -/
def State.markDelete (C : Config) (isStatic : Bool) (address target : EvmAddress) (s : State) :
    Except ExitError State :=
  if isStatic then .error .outOfGas
  else
    let source := s.getAccountId address
    let dest := s.getAccountId target
    match (s.removeAccount address).transferAll C source dest with
    | .error _ => .error (.other "TransferAllError")
    | .ok s =>
      .ok { s with
        queuedEvents := s.queuedEvents ++ [.contractSelfdestructed target address]
        history := .destroyed address :: s.history }

theorem State.markDelete_moved {C : Config} {isStatic : Bool} {address target : EvmAddress}
    {s s' : State} (h : s.markDelete C isStatic address target = .ok s') :
    ∃ s₁, (s.removeAccount address).transferAll C (s.getAccountId address)
        (s.getAccountId target) = .ok s₁ ∧
      s' = { s₁ with
        queuedEvents := s₁.queuedEvents ++ [.contractSelfdestructed target address]
        history := .destroyed address :: s₁.history } := by
  unfold State.markDelete at h
  split at h
  · cases h
  · simp only [] at h
    split at h
    · cases h
    · next s₁ hmoved =>
      cases h
      exact ⟨s₁, hmoved, rfl⟩

/-- `Transfer`. -/
structure Transfer where
  source : EvmAddress
  target : EvmAddress
  value : ℕ
  deriving DecidableEq, Repr

/-- `Currency::transfer` between the accounts of two addresses, allowing death. -/
def State.moveFunds (C : Config) (source target : EvmAddress) (value : ℕ) (s : State) :
    Except CurrencyError State :=
  match s.ledger.transfer (s.getAccountId source) (s.getAccountId target) value with
  | .error e => .error e
  | .ok l => .ok (s.setLedger C l [s.getAccountId source])

theorem State.moveFunds_eq_ok {C : Config} {source target : EvmAddress} {value : ℕ} {s s' : State}
    (h : s.moveFunds C source target value = .ok s') :
    ∃ l, s.ledger.transfer (s.getAccountId source) (s.getAccountId target) value = .ok l ∧
      s' = s.setLedger C l [s.getAccountId source] := by
  unfold State.moveFunds at h
  split at h
  · cases h
  · next l hl =>
    cases h
    exact ⟨l, hl, rfl⟩

/-- `Handler::transfer`. -/
def State.transfer (C : Config) (t : Transfer) (s : State) : Except ExitError State :=
  (s.moveFunds C t.source t.target (min t.value (maxValue balanceBits))).mapError
    fun _ => .outOfGas

/-! ### Creating contracts -/

/-- `CreateScheme`. -/
inductive CreateScheme
  | legacy (caller : EvmAddress)
  | create2 (caller : EvmAddress) (codeHash salt : H256)
  | fixed (address : EvmAddress)
  deriving DecidableEq, Repr

/-- What the address of the new contract is derived from in a state. -/
def CreateScheme.key (s : State) : CreateScheme → CreateKey
  | .legacy caller => .legacy caller (s.nonce caller)
  | .create2 caller codeHash salt => .create2 caller salt codeHash
  | .fixed address => .assigned address

/-- The address derived from a key. -/
def Config.keyAddress (C : Config) : CreateKey → EvmAddress
  | .legacy caller nonce => C.legacyAddress caller nonce
  | .create2 caller salt codeHash => C.create2Address caller salt codeHash
  | .assigned address => address

/-- The texts of the errors of the pallet. -/
def Error.message : Error → String
  | .addressNotMapped => "AddressNotMapped"
  | .contractNotFound => "ContractNotFound"
  | .noPermission => "NoPermission"
  | .numOutOfBound => "NumOutOfBound"
  | .storageExceedsStorageLimit => "StorageExceedsStorageLimit"
  | .contractDevelopmentNotEnabled => "ContractDevelopmentNotEnabled"
  | .contractDevelopmentAlreadyEnabled => "ContractDevelopmentAlreadyEnabled"
  | .contractAlreadyDeployed => "ContractAlreadyDeployed"
  | .contractExceedsMaxCodeSize => "ContractExceedsMaxCodeSize"
  | .outOfStorage => "OutOfStorage"
  | .chargeFeeFailed => "ChargeFeeFailed"
  | .conflictContractAddress => "ConflictContractAddress"

/-- The texts of the errors of the currency. -/
def CurrencyError.message : CurrencyError → String
  | .insufficientBalance => "InsufficientBalance"
  | .keepAlive => "KeepAlive"
  | .consumerRemaining => "Consumer remaining"
  | .frozen => "Funds exist but are frozen"
  | .deadAccount => "DeadAccount"
  | .overflow => "Overflow"

/-- `DispatchError` as a text. -/
def DispatchError.message : DispatchError → String
  | .module e => e.message
  | .currency e => CurrencyError.message e
  | .other text => text

/-- `Handler::create_address`. An address that begins with `SYSTEM_CONTRACT_ADDRESS_PREFIX`, which
is eleven zero bytes, is refused. -/
def createAddress (C : Config) (scheme : CreateScheme) (s : State) : Except ExitError EvmAddress :=
  let address := C.keyAddress (scheme.key s)
  if address.extractLsb' 72 88 = 0#88 then
    .error (.other (Error.message .conflictContractAddress))
  else .ok address

/-- The storage a new contract with the given code is charged for, besides its slots. -/
def Config.contractStorage (C : Config) (code : Bytes) : ℕ :=
  satAdd storageBits (code.length % 2 ^ 32) C.newContractExtraBytes

/-- What a creation does once the init code has returned `code`: the nonce of the contract, its
storage and its record. `used` is what the event of the creation reports, given the meter. -/
def initialise (C : Config) (key : CreateKey) (address maintainer : EvmAddress) (code : Bytes)
    (used : StorageMeter → ℕ × ℤ) (c : Chain) (w : World) :
    Chain × World × Except ExitError Unit :=
  let storage := C.contractStorage code
  let w := { w with state := w.state.incNonce address }
  let w := w.observe (.metered c.self.selfUsed storage)
  match c.charge storage with
  | (c, .error _) => (c, w, .error .outOfGas)
  | (c, .ok _) =>
    match w.state.onContractInitialization C address maintainer code (used c.self) with
    | .error e => (c, w, .error e)
    | .ok s =>
      let w' := w.observe (.initialised w.state key address code)
      (c, { w' with state := { s with history := .created key :: s.history } }, .ok ())

/-- What `initialise` does: it counts the contract's nonce and storage, and creates the contract
unless the meter or the size of the code forbids it. -/
theorem initialise_cases {C : Config} {key : CreateKey} {address maintainer : EvmAddress}
    {code : Bytes} {used : StorageMeter → ℕ × ℤ} {c c' : Chain} {w w' : World}
    {r : Except ExitError Unit}
    (h : initialise C key address maintainer code used c w = (c', w', r)) :
    c' = (c.charge (C.contractStorage code)).1 ∧
    ((w' = ⟨w.state.incNonce address,
        .metered c.self.selfUsed (C.contractStorage code) :: w.trace⟩ ∧ ∃ e, r = .error e) ∨
      ∃ s used, (w.state.incNonce address).onContractInitialization C address maintainer code
          used = .ok s ∧
        w' = ⟨{ s with history := .created key :: s.history },
          .initialised (w.state.incNonce address) key address code ::
            .metered c.self.selfUsed (C.contractStorage code) :: w.trace⟩) := by
  unfold initialise at h
  simp only [] at h
  split at h
  · next heq =>
    cases h
    exact ⟨by rw [heq], .inl ⟨rfl, _, rfl⟩⟩
  · next heq =>
    split at h
    · cases h
      exact ⟨by rw [heq], .inl ⟨rfl, _, rfl⟩⟩
    · next s hs =>
      cases h
      exact ⟨by rw [heq], .inr ⟨s, _, hs, rfl⟩⟩

end Evm
end Reef
