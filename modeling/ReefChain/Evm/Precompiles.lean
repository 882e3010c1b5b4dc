import ReefChain.Evm.State

/-!
# Precompiled contracts

A call whose code address is that of a precompiled contract runs native code in place of the
interpreter. The runtime has two sets of them. The Ethereum precompiles compute a function of their
input. The *core* precompiles, at addresses from `PRECOMPILE_ADDRESS_START` up to
`PREDEPLOY_ADDRESS_START`, act on the chain: they move tokens, change the maintainers of contracts
and schedule calls. They are meant for the system contracts, whose addresses start with twelve zero
bytes, so a call is routed to them only if its context names a system contract as the caller.

`route` is that decision, `execute` carries it out. What the precompiles compute is a parameter. A
core precompile acts on the chain by a sequence of native operations: it moves funds, transfers the
maintenance of a contract or changes the agenda of the scheduler. Operations on tokens that are
contracts themselves are not modelled.
-/

namespace Reef
namespace Evm

/-- `Context`: what the code of a frame sees of its call. -/
structure Context where
  address : EvmAddress
  caller : EvmAddress
  apparentValue : ℕ
  deriving DecidableEq, Repr

/-- The Ethereum precompiles. -/
inductive EthereumPrecompile
  | ecRecover
  | sha256
  | ripemd160
  | identity
  | ecRecoverPublicKey
  | sha3FIPS256
  | sha3FIPS512
  deriving DecidableEq, Repr

/-- The core precompiles. -/
inductive CorePrecompile
  | multiCurrency
  | stateRent
  | scheduleCall
  deriving DecidableEq, Repr

/-- What a core precompile can do to the state of the EVM. -/
inductive NativeOp
  /-- The ledger changes to `l`, which may empty some of `accounts`. -/
  | setLedger (l : Ledger AccountId) (accounts : List AccountId)
  | transferMaintainer (who : AccountId) (contract newMaintainer : EvmAddress)
  /-- Tokens are moved, or calls are scheduled. -/
  | setOuter (o : Outer)

/-- Carry out a native operation. A transfer of maintenance that fails does nothing. -/
def State.native (C : Config) (s : State) : NativeOp → State
  | .setLedger l accounts => s.setLedger C l accounts
  | .transferMaintainer who contract newMaintainer =>
    Fallible.commitOrKeep (s.doTransferMaintainer who contract newMaintainer) s
  | .setOuter o => { s with outer := o }

/-- What a precompile returns: an exit, an output and a cost. -/
abbrev PrecompileResult := Except ExitError (ExitSucceed × Bytes × ℕ)

/-- The configuration of the pallet with that of the interpreter: the gas rules it uses and the
precompiles. -/
structure Env extends Config where
  callL64AfterGas : Bool
  callStipend : ℕ
  /-- `gasometer::call_transaction_cost` with the costs of the configuration. -/
  transactionCost : Bytes → ℕ
  ethereum : EthereumPrecompile → Bytes → ℕ → PrecompileResult
  core : CorePrecompile → Bytes → ℕ → Context → State → List NativeOp × PrecompileResult

/-- An environment to evaluate executions in. Hashes are replaced by numberings, and the precompiles
do nothing; the costs and sizes are those of the runtime. -/
def sampleEnv : Env where
  codeHash code := BitVec.ofNat 256 (code.foldl (fun n b => 256 * n + b.toNat) 1)
  defaultAddress who := BitVec.ofNat 160 (2 ^ 150 + who.toNat)
  create2Address caller salt codeHash :=
    BitVec.ofNat 160 (2 ^ 140 + 2 ^ 100 * caller.toNat + 2 ^ 64 * salt.toNat + codeHash.toNat)
  legacyAddress caller nonce := BitVec.ofNat 160 (2 ^ 130 + 2 ^ 32 * caller.toNat + nonce)
  storageDepositPerByte := 10 * MILLI_REEF
  minimumBalance := 1
  newContractExtraBytes := 1_000
  maxCodeSize := 60 * 1024
  developerDeposit := 1_000 * REEF
  deploymentFee := 100 * REEF
  networkContractSource := 0
  killHook := true
  deposit_le := runtime_deposit_le
  callL64AfterGas := true
  callStipend := 2_300
  transactionCost _ := 21_000
  ethereum _ _ _ := .ok (.returned, [], 0)
  core _ _ _ _ _ := ([], .ok (.returned, [], 0))

/-- `H160::from_low_u64_be`. -/
def fromLowU64 (n : ℕ) : EvmAddress := BitVec.ofNat 160 (n % 2 ^ 64)

/-- `is_system_contract`: twelve leading zero bytes. -/
def isSystemContract (address : EvmAddress) : Bool := decide (address.extractLsb' 64 96 = 0#96)

/-- `is_core_precompile`. -/
def isCorePrecompile (address : EvmAddress) : Bool :=
  decide (fromLowU64 PRECOMPILE_ADDRESS_START ≤ address ∧
    address < fromLowU64 PREDEPLOY_ADDRESS_START)

/-- `EvmPrecompiles::execute`, the choice of the precompile. -/
def ethereumPrecompile (address : EvmAddress) : Option EthereumPrecompile :=
  if address = fromLowU64 1 then some .ecRecover
  else if address = fromLowU64 2 then some .sha256
  else if address = fromLowU64 3 then some .ripemd160
  else if address = fromLowU64 4 then some .identity
  else if address = fromLowU64 128 then some .ecRecoverPublicKey
  else if address = fromLowU64 129 then some .sha3FIPS256
  else if address = fromLowU64 130 then some .sha3FIPS512
  else none

/-- `AllPrecompiles::execute`, the choice of the core precompile. -/
def corePrecompile (address : EvmAddress) : Option CorePrecompile :=
  if address = fromLowU64 PRECOMPILE_ADDRESS_START then some .multiCurrency
  else if address = fromLowU64 (PRECOMPILE_ADDRESS_START + 2) then some .stateRent
  else if address = fromLowU64 (PRECOMPILE_ADDRESS_START + 4) then some .scheduleCall
  else none

/-- What a call of a code address is turned into. -/
inductive Route
  | ethereum (p : EthereumPrecompile)
  | refused
  | core (p : CorePrecompile)
  /-- No precompile: the interpreter runs the code. -/
  | interpret
  deriving DecidableEq, Repr

/-- `AllPrecompiles::execute`, up to running the precompile. -/
def route (address caller : EvmAddress) : Route :=
  match ethereumPrecompile address with
  | some p => .ethereum p
  | none =>
    if isCorePrecompile address && !isSystemContract caller then .refused
    else
      match corePrecompile address with
      | some p => .core p
      | none => .interpret

/-- `AllPrecompiles::execute`. -/
def Env.execute (E : Env) (address : EvmAddress) (input : Bytes) (targetGas : ℕ)
    (context : Context) (s : State) : State × Option PrecompileResult :=
  match route address context.caller with
  | .ethereum p => (s, some (E.ethereum p input targetGas))
  | .refused => (s, some (.error (.other "no permission")))
  | .core p =>
    let (ops, result) := E.core p input targetGas context s
    (ops.foldl (State.native E.toConfig) s, some result)
  | .interpret => (s, none)

/-- The core precompiles are core precompiles and no Ethereum precompiles. -/
theorem isCorePrecompile_of_corePrecompile {address : EvmAddress} {p : CorePrecompile}
    (h : corePrecompile address = some p) :
    ethereumPrecompile address = none ∧ isCorePrecompile address = true := by
  unfold corePrecompile at h
  split_ifs at h with h₁ h₂ h₃
  · rw [h₁]
    decide
  · rw [h₂]
    decide
  · rw [h₃]
    decide

/-- A core precompile runs exactly for its address and a system contract as the caller. -/
theorem route_eq_core {address caller : EvmAddress} {p : CorePrecompile} :
    route address caller = .core p ↔
      corePrecompile address = some p ∧ isSystemContract caller = true := by
  constructor
  · intro h
    unfold route at h
    split at h
    · cases h
    · split at h
      · cases h
      · next hallowed =>
        split at h
        · next q hq =>
          cases h
          have hcore := (isCorePrecompile_of_corePrecompile hq).2
          simpa [hq, hcore] using hallowed
        · cases h
  · rintro ⟨hcore, hsystem⟩
    have hother := (isCorePrecompile_of_corePrecompile hcore).1
    simp [route, hother, hsystem, hcore]

end Evm
end Reef
