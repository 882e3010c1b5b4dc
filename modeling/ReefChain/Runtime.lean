import ReefChain.Currencies
import ReefChain.Precompile.Core

/-!
# Extrinsics that run contracts

The ways in which extrinsics of the runtime reach the EVM: the inputs of the EVM pallet, calls that
were scheduled and are due, and operations on tokens that are contracts.

`scheduledCall` is an extrinsic of the EVM pallet that only root can make, which is how the
scheduler dispatches it. The fee was reserved when the call was scheduled. It is withdrawn first,
and like everything else this is undone when the call fails.
-/

namespace Reef

open Evm EvmBridge TransactionPayment

/-- The configuration of the runtime. -/
structure Runtime where
  env : Env
  fees : TransactionPayment.Config
  /-- The address ERC20 tokens are reserved at, a hash. -/
  reserveAddress : EvmAddress → EvmAddress

namespace Runtime

variable (R : Runtime)

/-! ### Scheduled calls -/

/-- The end of a scheduled call that was carried out: its event, the refund for the gas it did not
use and the queued events. An error of the refund is ignored. -/
def scheduledDone (c : ScheduledCall) (who : AccountId) (payed : ℕ) (info : CallInfo) (s : State) :
    State :=
  let event :=
    if info.exitReason.isSucceed then .executed c.source c.target info.usedGas info.usedStorage
    else .executedFailed c.source c.target info.exitReason info.output (c.gasLimit, 0)
  let s := s.depositEvent event
  let refundGas := c.gasLimit - info.usedGas
  let s :=
    if refundGas = 0 then s
    else { s with ledger := (refundFee R.fees s.ledger who (gasToWeight refundGas) payed).1 }
  s.processQueuedEvents

/-- `scheduled_call`, where `prog` is what the code of the target does. -/
def scheduledCall (c : ScheduledCall) (prog : Prog) (w : World) :
    World × Except Evm.DispatchError Unit :=
  let who := w.state.getAccountId c.source
  match unreserveAndChargeFee R.fees w.state.ledger who (gasToWeight c.gasLimit) with
  | .error _ => (w, .error (.module .chargeFeeFailed))
  | .ok (l, payed) =>
    match Runner.call R.env c.source c.source c.target c.value c.gasLimit c.storageLimit prog
        { w with state := { w.state with ledger := l } } with
    | (w', .error e) => ({ w' with state := w.state }, .error e)
    | (w', .ok info) => ({ w' with state := R.scheduledDone c who payed info w'.state }, .ok ())

/-! ### Tokens that are contracts -/

/-- An operation on the ERC20 token `contract`. -/
inductive TokenOp
  /-- The real origin is that of the extrinsic, if it is known. -/
  | transfer (source dest : AccountId) (amount : ℕ) (origin : Option AccountId)
  | reserve (who : AccountId) (value : ℕ)
  | unreserve (who : AccountId) (value : ℕ)
  | repatriateReserved (slashed beneficiary : AccountId) (value : ℕ)
      (status : Currencies.BalanceStatus)

/-- The end of an extrinsic: it is undone if it fails. -/
def orUndo {ε α : Type} (w : World) (x : World × Except ε α) : World :=
  match x.2 with
  | .ok _ => x.1
  | .error _ => { x.1 with state := w.state }

/-- Carry out an operation on a token as an extrinsic of its own. One that panics is not
included. -/
def tokenOp (code : Behaviour) (contract : EvmAddress) (op : TokenOp) (w : World) : World :=
  match op with
  | .transfer source dest amount origin =>
    orUndo w (Currencies.transfer R.env code contract source dest amount origin w)
  | .reserve who value =>
    orUndo w (Currencies.reserve R.env R.reserveAddress code contract who value w)
  | .unreserve who value =>
    match Currencies.unreserve R.env R.reserveAddress code contract who value w with
    | some x => x.1
    | none => w
  | .repatriateReserved slashed beneficiary value status =>
    match Currencies.repatriateReserved R.env R.reserveAddress code contract slashed beneficiary
        value status w with
    | some x => orUndo w x
    | none => w

/-! ### Extrinsics -/

/-- An extrinsic that concerns the EVM. -/
inductive Extrinsic
  | evm (i : Input)
  | scheduledCall (c : ScheduledCall) (prog : Prog)
  | token (code : Behaviour) (contract : EvmAddress) (op : TokenOp)

/-- Carry out an extrinsic. -/
def step (w : World) : Extrinsic → World
  | .evm i => Evm.step R.env w i
  | .scheduledCall c prog => (R.scheduledCall c prog w).1
  | .token code contract op => R.tokenOp code contract op w

/-- A runtime to evaluate extrinsics in, with the fees of the source. -/
def sampleRuntime : Runtime := ⟨sampleEnv, Precompile.sampleCore.fees, fun address => address + 1⟩

end Runtime

end Reef
