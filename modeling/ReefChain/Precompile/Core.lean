import ReefChain.Evm.Handler
import ReefChain.Precompile.Input
import ReefChain.TransactionPayment.Linear

/-!
# The core precompiles

What the core precompiles of the runtime do: `MultiCurrency` queries and moves currencies,
`StateRent` queries the prices of storage and the maintainers of contracts and transfers
maintenance, and `ScheduleCall` schedules calls of contracts.

None of them is told the frame it is called from, and none of them looks at its context: the account
that pays is an argument. The fee of a scheduled call is reserved from the account of its `from`
address. The task is scheduled under the encoding of its `TaskInfo`, from which the fee is read
again when the task is cancelled. Both are noted in the book of fees.

This is the build without the feature `with-ethereum-compatibility`.
-/

namespace Reef
namespace Precompile

open Evm Scale TransactionPayment

/-- The configuration of the core precompiles: the fees, and the queries of other pallets. -/
structure CoreConfig where
  fees : TransactionPayment.Config
  totalIssuance : State → CurrencyId → ℕ

/-- The native operations of a precompile and its result. -/
abbrev Answer := List NativeOp × PrecompileResult

/-- Return an output. Core precompiles have no cost. -/
def returned (ops : List NativeOp) (output : Bytes) : Parsed Answer :=
  .ok (ops, .ok (.returned, output, 0))

/-- Fail after some operations. -/
def failed (ops : List NativeOp) (message : String) : Parsed Answer :=
  .ok (ops, .error (.other message))

/-! ### Currencies -/

/-- `multicurrency::Action`. -/
inductive MultiCurrencyAction
  | queryTotalIssuance
  | queryBalance
  | transfer
  deriving DecidableEq, Repr

/-- `Action::try_from`. -/
def MultiCurrencyAction.tryFrom (n : ℕ) : Option MultiCurrencyAction :=
  if n = 0 then some .queryTotalIssuance
  else if n = 1 then some .queryBalance
  else if n = 2 then some .transfer
  else none

/-- `MultiCurrency::total_balance` for the currencies that are not contracts. -/
def totalBalance (s : State) (who : AccountId) : CurrencyId → ℕ
  | .token .reef => s.ledger.total who
  | id => (s.outer.tokens id).total who

/-- `MultiCurrency::transfer` for the currencies that are not contracts. -/
def transferCurrency (s : State) (id : CurrencyId) (source dest : AccountId) (amount : ℕ) :
    Except CurrencyError (List NativeOp) :=
  if amount = 0 ∨ source = dest then .ok []
  else
    match id with
    | .token .reef => do
      let l ← s.ledger.transfer source dest amount
      return [.setLedger l [source]]
    | id => do
      let l ← (s.outer.tokens id).transfer source dest amount
      return [.setOuter { s.outer with tokens := Function.update s.outer.tokens id l }]

/-- `MultiCurrencyPrecompile::execute`. -/
def multiCurrency (K : CoreConfig) (input : Bytes) (s : State) : Parsed Answer := do
  let action ← action MultiCurrencyAction.tryFrom input
  let id ← currencyIdAt input 1
  match action with
  | .queryTotalIssuance => returned [] (word (K.totalIssuance s id))
  | .queryBalance =>
    let who ← accountIdAt s input 2
    returned [] (word (totalBalance s who id))
  | .transfer =>
    let source ← accountIdAt s input 2
    let dest ← accountIdAt s input 3
    let amount ← balanceAt input 4
    match transferCurrency s id source dest amount with
    | .error e => failed [] (CurrencyError.message e)
    | .ok ops => returned ops []

/-! ### State rent -/

/-- `state_rent::Action`. -/
inductive StateRentAction
  | queryNewContractExtraBytes
  | queryStorageDepositPerByte
  | queryMaintainer
  | queryDeveloperDeposit
  | queryDeploymentFee
  | transferMaintainer
  deriving DecidableEq, Repr

/-- `Action::try_from`. -/
def StateRentAction.tryFrom (n : ℕ) : Option StateRentAction :=
  if n = 0 then some .queryNewContractExtraBytes
  else if n = 1 then some .queryStorageDepositPerByte
  else if n = 2 then some .queryMaintainer
  else if n = 3 then some .queryDeveloperDeposit
  else if n = 4 then some .queryDeploymentFee
  else if n = 128 then some .transferMaintainer
  else none

/-- `StateRentPrecompile::execute`. -/
def stateRent (C : Evm.Config) (input : Bytes) (s : State) : Parsed Answer := do
  let action ← action StateRentAction.tryFrom input
  match action with
  | .queryNewContractExtraBytes => returned [] (word C.newContractExtraBytes)
  | .queryStorageDepositPerByte => returned [] (word C.storageDepositPerByte)
  | .queryMaintainer =>
    let contract ← evmAddressAt input 1
    match s.contractInfo contract with
    | none => failed [] (Error.message .contractNotFound)
    | some info => returned [] (word info.maintainer.toNat)
  | .queryDeveloperDeposit => returned [] (word C.developerDeposit)
  | .queryDeploymentFee => returned [] (word C.deploymentFee)
  | .transferMaintainer =>
    let source ← accountIdAt s input 1
    let contract ← evmAddressAt input 2
    let newMaintainer ← evmAddressAt input 3
    match s.doTransferMaintainer source contract newMaintainer with
    | .error e => failed [] (DispatchError.message e)
    | .ok _ => returned [.transferMaintainer source contract newMaintainer] []

/-! ### Scheduled calls -/

/-- `TaskInfo`, what the name of a task encodes. The `label` is the field `prefix` of the source. -/
structure TaskInfo where
  label : { bs : Bytes // bs.length < 256 ^ 4 }
  id : Fin (256 ^ 4)
  sender : EvmAddress
  fee : Fin (256 ^ 16)

namespace TaskInfo

/-- Addresses are written as their twenty bytes. -/
def address : Codec EvmAddress :=
  (Codec.be 20).along (fun a => ⟨a.toNat, a.isLt⟩) (fun n => BitVec.ofNat 160 n)
    (fun a => BitVec.ofNat_toNat 160 a)

/-- The derived encoding: the fields in order, the fee compact. -/
def codec : Codec TaskInfo :=
  (Codec.bytes.prod ((Codec.le 4).prod (address.prod (Codec.compact 16 (by decide))))).along
    (fun t => (t.label, t.id, t.sender, t.fee)) (fun p => ⟨p.1, p.2.1, p.2.2.1, p.2.2.2⟩)
    (fun _ => rfl)

/-- `encode`. -/
def encode (t : TaskInfo) : Bytes := codec.encode t

/-- `decode`, which ignores what follows. -/
def decode (bs : Bytes) : Option TaskInfo := (codec.decode bs).map (·.1)

@[simp] theorem decode_encode (t : TaskInfo) : decode t.encode = some t := by
  have h := codec.decode_encode t []
  rw [List.append_nil] at h
  rw [decode, encode, h, Option.map_some]

/-- The label of the tasks of the precompile, `ScheduleCall`. -/
def scheduleCall : { bs : Bytes // bs.length < 256 ^ 4 } :=
  ⟨[83, 99, 104, 101, 100, 117, 108, 101, 67, 97, 108, 108], by decide⟩

end TaskInfo

/-- `schedule_call::Action`. -/
inductive ScheduleCallAction
  | schedule
  | cancel
  | reschedule
  deriving DecidableEq, Repr

/-- `Action::try_from`. -/
def ScheduleCallAction.tryFrom (n : ℕ) : Option ScheduleCallAction :=
  if n = 0 then some .schedule
  else if n = 1 then some .cancel
  else if n = 2 then some .reschedule
  else none

/-- The name of a task, with its length, in three words. -/
def nameReply (name : Bytes) : Bytes :=
  word name.length ++ name ++ List.replicate (64 - name.length) 0

/-- The task that a scheduled call becomes. -/
def newTask (F : TransactionPayment.Config) (s : State) (call : ScheduledCall) : TaskInfo :=
  ⟨TaskInfo.scheduleCall, Fin.ofNat _ s.outer.nextTaskId, call.source,
    Fin.ofNat _ (F.gasFee call.gasLimit)⟩

/-- The number of a task is the one it is counted by. -/
theorem newTask_id {F : TransactionPayment.Config} {s : State} (h : s.outer.nextTaskId < 2 ^ 32)
    (call : ScheduledCall) : (newTask F s call).id.val = s.outer.nextTaskId :=
  Nat.mod_eq_of_lt (h.trans_eq (by norm_num))

/-- Its fee is what its gas limit costs. -/
theorem newTask_fee (F : TransactionPayment.Config) (s : State) (call : ScheduledCall) :
    (newTask F s call).fee.val = F.gasFee call.gasLimit :=
  Nat.mod_eq_of_lt ((F.gasFee_lt call.gasLimit).trans_eq (by norm_num))

/-- Schedule a call: reserve its fee, count the task and put it on the agenda. -/
def schedule (F : TransactionPayment.Config) (s : State) (minDelay : ℕ) (call : ScheduledCall) :
    Answer :=
  let who := s.getAccountId call.source
  match reserveFee F s.ledger who (gasToWeight call.gasLimit) with
  | .error e => ([], .error (.other (CurrencyError.message e)))
  | .ok (l, fee) =>
    if s.outer.nextTaskId + 1 < 2 ^ 32 then
      let name := (newTask F s call).encode
      let o := { s.outer with nextTaskId := s.outer.nextTaskId + 1 }
      match o.agenda.scheduleNamed name minDelay call with
      | .error _ => ([.setLedger l [], .setOuter o], .error (.other "Schedule failed"))
      | .ok agenda =>
        ([.setLedger l [],
            .setOuter { o with agenda := agenda, fees := .reserved name who fee :: o.fees }],
          .ok (.returned, nameReply name, 0))
    else ([.setLedger l []], .error (.other "Scheduler next id overflow"))

/-- Cancel the task `name` for `source`, and release its fee. -/
def cancel (s : State) (source : EvmAddress) (name : Bytes) : Answer :=
  match TaskInfo.decode name with
  | none => ([], .error (.other "Decode task_id failed"))
  | some info =>
    if info.sender ≠ source then ([], .error (.other "NoPermission"))
    else
      match s.outer.agenda.cancelNamed name with
      | .error _ => ([], .error (.other "Cancel schedule failed"))
      | .ok agenda =>
        let who := s.getAccountId source
        let l := unreserveFee s.ledger who info.fee
        let entry := .released name who info.fee (s.ledger.reserved who)
        ([.setOuter { s.outer with agenda := agenda, fees := entry :: s.outer.fees },
            .setLedger l []],
          .ok (.returned, [], 0))

/-- Move the task `name` for `source` to another block. -/
def reschedule (s : State) (source : EvmAddress) (minDelay : ℕ) (name : Bytes) : Answer :=
  match TaskInfo.decode name with
  | none => ([], .error (.other "Decode task_id failed"))
  | some info =>
    if info.sender ≠ source then ([], .error (.other "NoPermission"))
    else
      match s.outer.agenda.rescheduleNamed name minDelay with
      | .error e => ([], .error (.other e.message))
      | .ok agenda => ([.setOuter { s.outer with agenda := agenda }], .ok (.returned, [], 0))

/-- `ScheduleCallPrecompile::execute`. The first word of the input is skipped. -/
def scheduleCall (F : TransactionPayment.Config) (input : Bytes) (s : State) : Parsed Answer := do
  let input ← sliceFrom input PER_PARAM_BYTES
  let action ← action ScheduleCallAction.tryFrom input
  match action with
  | .schedule =>
    let source ← evmAddressAt input 1
    let target ← evmAddressAt input 2
    let value ← balanceAt input 3
    let gasLimit ← u64At input 4
    let storageLimit ← u32At input 5
    let minDelay ← u32At input 6
    let inputLen ← u32At input 7
    let inputData ← bytesAt input (8 * PER_PARAM_BYTES) inputLen
    return schedule F s minDelay ⟨source, target, inputData, value, gasLimit, storageLimit⟩
  | .cancel =>
    let source ← evmAddressAt input 1
    let nameLen ← u32At input 2
    let name ← bytesAt input (3 * PER_PARAM_BYTES) nameLen
    return cancel s source name
  | .reschedule =>
    let source ← evmAddressAt input 1
    let minDelay ← u32At input 2
    let nameLen ← u32At input 3
    let name ← bytesAt input (4 * PER_PARAM_BYTES) nameLen
    return reschedule s source minDelay name

/-! The same in two steps, reading a request and doing what it says, for statements that speak of
what was asked for. -/

/-- An action of the precompile with its arguments. -/
inductive Request
  | schedule (minDelay : ℕ) (call : ScheduledCall)
  | cancel (source : EvmAddress) (name : Bytes)
  | reschedule (source : EvmAddress) (minDelay : ℕ) (name : Bytes)
  deriving DecidableEq, Repr

/-- The request in an input. -/
def readRequest (input : Bytes) : Parsed Request := do
  let input ← sliceFrom input PER_PARAM_BYTES
  let action ← action ScheduleCallAction.tryFrom input
  match action with
  | .schedule =>
    let source ← evmAddressAt input 1
    let target ← evmAddressAt input 2
    let value ← balanceAt input 3
    let gasLimit ← u64At input 4
    let storageLimit ← u32At input 5
    let minDelay ← u32At input 6
    let inputLen ← u32At input 7
    let inputData ← bytesAt input (8 * PER_PARAM_BYTES) inputLen
    return .schedule minDelay ⟨source, target, inputData, value, gasLimit, storageLimit⟩
  | .cancel =>
    let source ← evmAddressAt input 1
    let nameLen ← u32At input 2
    let name ← bytesAt input (3 * PER_PARAM_BYTES) nameLen
    return .cancel source name
  | .reschedule =>
    let source ← evmAddressAt input 1
    let minDelay ← u32At input 2
    let nameLen ← u32At input 3
    let name ← bytesAt input (4 * PER_PARAM_BYTES) nameLen
    return .reschedule source minDelay name

/-- What is done about a request. -/
def Request.perform (F : TransactionPayment.Config) (s : State) : Request → Answer
  | .schedule minDelay call => Precompile.schedule F s minDelay call
  | .cancel source name => Precompile.cancel s source name
  | .reschedule source minDelay name => Precompile.reschedule s source minDelay name

/-- The precompile reads a request and does what it says. -/
theorem scheduleCall_eq (F : TransactionPayment.Config) (input : Bytes) (s : State) :
    scheduleCall F input s = (readRequest input).map (Request.perform F s) := by
  unfold scheduleCall readRequest
  rw [Fallible.map_bind]
  congr 1
  funext rest
  rw [Fallible.map_bind]
  congr 1
  funext action
  cases action with
  | schedule | cancel | reschedule => simp only [Fallible.map_bind]; rfl

/-! ### The environment of the runtime -/

/-- Run a core precompile. -/
def run (C : Evm.Config) (K : CoreConfig) (p : CorePrecompile) (input : Bytes) (s : State) :
    Parsed Answer :=
  match p with
  | .multiCurrency => multiCurrency K input s
  | .stateRent => stateRent C input s
  | .scheduleCall => scheduleCall K.fees input s

/-- The answer of a precompile. A panic ends the extrinsic in the runtime; here the call fails. -/
def answer : Parsed Answer → Answer
  | .ok a => a
  | .error (.exit e) => ([], .error e)
  | .error .panic => ([], .error (.other "panic"))

/-- An environment with the core precompiles of the runtime. -/
def wire (K : CoreConfig) (E : Env) : Env :=
  { E with core := fun p input _ _ s => answer (run E.toConfig K p input s) }

/-- The fees of the runtime, and no tokens. -/
def sampleCore : CoreConfig where
  fees := (TransactionPayment.LinearFee.runtime TransactionPayment.EXTRINSIC_BASE_WEIGHT).config 1
  totalIssuance _ _ := 0

/-! ### Queries -/

/-- The input asks a precompile for an action that changes nothing, or for none at all. -/
def isQuery (p : CorePrecompile) (input : Bytes) : Bool :=
  match p with
  | .multiCurrency =>
    match action MultiCurrencyAction.tryFrom input with
    | .ok .transfer => false
    | _ => true
  | .stateRent =>
    match action StateRentAction.tryFrom input with
    | .ok .transferMaintainer => false
    | _ => true
  | .scheduleCall =>
    match sliceFrom input PER_PARAM_BYTES >>= action ScheduleCallAction.tryFrom with
    | .ok _ => false
    | .error _ => true

/-- What is answered is of the kind `P`. -/
def Answers (P : Answer → Prop) (x : Parsed Answer) : Prop := ∀ a, x = .ok a → P a

theorem Answers.answer {P : Answer → Prop} {x : Parsed Answer} (h : Answers P x)
    (hnone : ∀ r, P ([], r)) : P (answer x) := by
  rcases x with (e | -) | a
  · exact hnone _
  · exact hnone _
  · exact h a rfl

/-- Reading an argument first does not matter. -/
theorem Answers.bind {P : Answer → Prop} {α : Type} {x : Parsed α} {f : α → Parsed Answer}
    (h : ∀ a, x = .ok a → Answers P (f a)) : Answers P (x >>= f) := by
  intro b hb
  obtain ⟨a, ha, hf⟩ := Fallible.bind_eq_ok.mp hb
  exact h a ha b hf

theorem Answers.of {P : Answer → Prop} {a : Answer} (h : P a) : Answers P (.ok a) := by
  intro b hb
  cases hb
  exact h

/-- No native operations. -/
abbrev Silent (x : Parsed Answer) : Prop := Answers (fun a => a.1 = []) x

theorem silent_returned (output : Bytes) : Silent (returned [] output) := .of rfl

theorem silent_failed (message : String) : Silent (failed [] message) := .of rfl

theorem multiCurrency_silent {K : CoreConfig} {input : Bytes} (s : State)
    (h : isQuery .multiCurrency input = true) : Silent (multiCurrency K input s) := by
  refine Answers.bind fun a haction => Answers.bind fun id _ => ?_
  cases a with
  | queryTotalIssuance => exact silent_returned _
  | queryBalance => exact Answers.bind fun who _ => silent_returned _
  | transfer =>
    simp only [isQuery, haction] at h
    cases h

theorem stateRent_silent {C : Evm.Config} {input : Bytes} (s : State)
    (h : isQuery .stateRent input = true) : Silent (stateRent C input s) := by
  refine Answers.bind fun a haction => ?_
  cases a with
  | queryNewContractExtraBytes => exact silent_returned _
  | queryStorageDepositPerByte => exact silent_returned _
  | queryMaintainer =>
    refine Answers.bind fun contract _ => ?_
    cases s.contractInfo contract with
    | none => exact silent_failed _
    | some info => exact silent_returned _
  | queryDeveloperDeposit => exact silent_returned _
  | queryDeploymentFee => exact silent_returned _
  | transferMaintainer =>
    simp only [isQuery, haction] at h
    cases h

/-- Every action of the scheduling precompile changes something, so a query is no action. -/
theorem scheduleCall_silent {F : TransactionPayment.Config} {input : Bytes} (s : State)
    (h : isQuery .scheduleCall input = true) : Silent (scheduleCall F input s) := by
  refine Answers.bind fun rest hslice => Answers.bind fun a haction => ?_
  have hread : (sliceFrom input PER_PARAM_BYTES >>= action ScheduleCallAction.tryFrom) = .ok a :=
    Fallible.bind_eq_ok.mpr ⟨rest, hslice, haction⟩
  simp only [isQuery, hread] at h
  cases h

/-- **Queries perform no native operations.** -/
theorem run_silent {C : Evm.Config} {K : CoreConfig} {p : CorePrecompile} {input : Bytes}
    (s : State) (h : isQuery p input = true) : Silent (run C K p input s) := by
  cases p with
  | multiCurrency => exact multiCurrency_silent s h
  | stateRent => exact stateRent_silent s h
  | scheduleCall => exact scheduleCall_silent s h

end Precompile
end Reef
