import ReefChain.Evm.StateRule
import ReefChain.Lib.Run
import ReefChain.Runtime

/-!
# The fees of scheduled calls

A call can be scheduled by a contract, through the precompile `ScheduleCall`, and its fee is then
reserved. It can be cancelled, which releases the fee, moved to another block, and when it is due
the scheduler takes it off the agenda and dispatches `scheduled_call`, which releases the fee and
withdraws it. The amounts are not carried along: the fee is computed from the gas limit when the
call is scheduled and when it is dispatched, and read from the name of the task when it is
cancelled.

`Outer.fees` is the book of what these steps have moved into and out of the reserved balances. It is
rolled back with the state. The invariant `FeesKept` says that the book is in order, where the names
on the agenda are the pending ones. It only speaks of what the core precompiles act on, so nothing
else an execution does can break it; what remains to be looked at are the three actions of the
precompile and the dispatch.

The dispatch is where the fee can get lost. `scheduled_call` is transactional, so when it fails the
release of the fee is undone too, but the task is off the agenda. Therefore what is reserved for
scheduling is the sum of the fees of the pending tasks exactly if no dispatch of a task with a fee
has failed (`scheduling_reserve_eq_pending_iff`).
-/

namespace Reef

open Evm Escrow Precompile TransactionPayment

/-! ### What is reserved for scheduling -/

/-- The part of the reserved balance of an account that stems from scheduling. -/
def Evm.Outer.feeReserve (o : Outer) (who : AccountId) : ℤ := balance o.fees who

/-- The sum of the fees of the tasks scheduled from an account that are pending. -/
def Evm.Outer.pendingFees (o : Outer) (who : AccountId) : ℕ :=
  outstanding (· ∈ o.agenda.tasks) o.fees who

namespace Runtime

/-! ### Runs -/

/-- A runtime with the core precompiles. -/
def wired (R : Runtime) (K : CoreConfig) : Runtime := { R with env := wire K R.env, fees := K.fees }

/-- An action of the precompile `ScheduleCall` in a frame of its own, which is undone if it
fails. -/
def scheduleAction (C : Evm.Config) (K : CoreConfig) (input : Bytes) (s : State) : State :=
  match answer (scheduleCall K.fees input s) with
  | (ops, .ok _) => ops.foldl (State.native C) s
  | (_, .error _) => s

/-- Off the agenda, and an entry in the book. -/
def taskDone (s : State) (name : Bytes) (entry : Entry Bytes AccountId) : State :=
  { s with
    outer := { s.outer with
      agenda := { s.outer.agenda with tasks := s.outer.agenda.tasks.erase name }
      fees := entry :: s.outer.fees } }

/-- The scheduler dispatches a task that is due, and takes it off the agenda. The error of a
dispatch is ignored. -/
def dispatchTask (R : Runtime) (name : Bytes) (prog : Prog) (w : World) : World :=
  match w.state.outer.agenda.tasks.lookup name with
  | none => w
  | some task =>
    if task.due ≤ w.state.outer.agenda.now then
      let who := w.state.getAccountId task.call.source
      let entry :=
        .released name who (R.fees.gasFee task.call.gasLimit) (w.state.ledger.reserved who)
      match R.scheduledCall task.call prog { w with state := taskDone w.state name entry } with
      | (w', .ok _) => w'
      | (w', .error _) =>
        -- the fee has not been released after all
        { w' with state := taskDone w.state name (.abandoned name) }
    else w

/-- What happens on the chain. -/
inductive Move
  | scheduleAction (input : Bytes)
  | dispatchTask (name : Bytes) (prog : Prog)
  /-- Inputs of the EVM pallet, in which contracts may use the precompiles too. -/
  | evm (i : Input)
  | nextBlock

/-- One step. -/
def move (R : Runtime) (K : CoreConfig) (w : World) : Move → World
  | .scheduleAction input => { w with state := scheduleAction R.env.toConfig K input w.state }
  | .dispatchTask name prog => (R.wired K).dispatchTask name prog w
  | .evm i => Evm.step (R.wired K).env w i
  | .nextBlock =>
    { w with
      state := { w.state with
        outer := { w.state.outer with
          agenda := { w.state.outer.agenda with now := w.state.outer.agenda.now + 1 } } } }

end Runtime

/-! ### What the book notes

The entries are the movements of the ledger: the actions of the precompile change the reserved
balances by what they enter, and so does the release of the fee by a dispatch. -/

variable {F : TransactionPayment.Config} {l l' : Ledger AccountId} {who : AccountId} {fee : ℕ}

theorem reserveFee_eq_ok {weight : ℕ} (h : reserveFee F l who weight = .ok (l', fee)) :
    l.reserve who fee = .ok l' ∧ fee = F.weightToFee weight := by
  obtain ⟨l₁, hreserve, h⟩ := Fallible.bind_eq_ok.mp h
  cases h
  exact ⟨hreserve, rfl⟩

theorem reserve_balance (h : l.reserve who fee = .ok l') (name : Bytes)
    (b : List (Entry Bytes AccountId)) (a : AccountId) : (l'.reserved a : ℤ) - l.reserved a =
      balance (.reserved name who fee :: b) a - balance b a := by
  rw [Ledger.reserve_reserved h a, balance]
  by_cases ha : a = who
  · subst ha
    rw [if_pos rfl, if_pos rfl]
    push_cast
    ring
  · rw [if_neg ha, if_neg (Ne.symm ha)]
    ring

theorem unreserve_balance (l : Ledger AccountId) (who : AccountId) (fee : ℕ) (name : Bytes)
    (b : List (Entry Bytes AccountId)) (a : AccountId) :
    ((l.unreserve who fee).1.reserved a : ℤ) - l.reserved a =
      balance (.released name who fee (l.reserved who) :: b) a - balance b a := by
  rw [Ledger.unreserve_reserved, balance]
  by_cases ha : a = who
  · subst ha
    rw [if_pos rfl, if_pos rfl]
    omega
  · rw [if_neg ha, if_neg (Ne.symm ha)]
    ring

/-- **The dispatch of a task moves what it enters**: what is still reserved of the fee is released,
and the withdrawal that follows takes free balance only. -/
theorem unreserveAndChargeFee_balance {gas : ℕ}
    (h : unreserveAndChargeFee F l who (gasToWeight gas) = .ok (l', fee)) (name : Bytes)
    (b : List (Entry Bytes AccountId)) (a : AccountId) : (l'.reserved a : ℤ) - l.reserved a =
      balance (.released name who (F.gasFee gas) (l.reserved who) :: b) a - balance b a := by
  obtain ⟨l₁, hwithdraw, h⟩ := Fallible.bind_eq_ok.mp h
  cases h
  rw [Ledger.withdraw_reserved (Fallible.mapError_eq_ok.mp hwithdraw)]
  exact unreserve_balance l who (F.gasFee gas) name b a

namespace Precompile

/-- The three actions of the precompile, whatever their arguments. -/
theorem scheduleCall_answers {P : Answer → Prop} {F : TransactionPayment.Config} {s : State}
    (hschedule : ∀ minDelay call, P (schedule F s minDelay call))
    (hcancel : ∀ source name, P (cancel s source name))
    (hreschedule : ∀ source minDelay name, P (reschedule s source minDelay name)) (input : Bytes) :
    Answers P (scheduleCall F input s) := by
  rw [scheduleCall_eq]
  cases readRequest input with
  | error e => exact nofun
  | ok request =>
    refine .of ?_
    cases request with
    | schedule minDelay call => exact hschedule minDelay call
    | cancel source name => exact hcancel source name
    | reschedule source minDelay name => exact hreschedule source minDelay name

/-- If the answer is not an error, its operations move what they enter. -/
def MovesFees (C : Evm.Config) (s : State) (a : Answer) : Prop :=
  ∀ r, a.2 = .ok r → ∀ who,
    ((a.1.foldl (State.native C) s).ledger.reserved who : ℤ) - s.ledger.reserved who =
      (a.1.foldl (State.native C) s).outer.feeReserve who - s.outer.feeReserve who

variable {C : Evm.Config} {F : TransactionPayment.Config} {s : State}

theorem MovesFees.failed (ops : List NativeOp) (e : ExitError) :
    MovesFees C s (ops, .error e) := by
  intro r h
  cases h

theorem schedule_movesFees (minDelay : ℕ) (call : ScheduledCall) :
    MovesFees C s (schedule F s minDelay call) := by
  unfold schedule
  simp only []
  split
  · exact .failed _ _
  · next l fee hreserve =>
    split
    · split
      · exact .failed _ _
      · exact fun r _ who => reserve_balance (reserveFee_eq_ok hreserve).1 _ _ who
    · exact .failed _ _

theorem cancel_movesFees (source : EvmAddress) (name : Bytes) :
    MovesFees C s (cancel s source name) := by
  unfold cancel
  split
  · exact .failed _ _
  · next info _ =>
    split
    · exact .failed _ _
    · split
      · exact .failed _ _
      · exact fun r _ who => unreserve_balance s.ledger (s.getAccountId source) info.fee name _ who

theorem reschedule_movesFees (source : EvmAddress) (minDelay : ℕ) (name : Bytes) :
    MovesFees C s (reschedule s source minDelay name) := by
  unfold reschedule
  split
  · exact .failed _ _
  · split
    · exact .failed _ _
    · split
      · exact .failed _ _
      · intro r _ who
        exact (sub_self _).trans (sub_self _).symm

end Precompile

/-- **An action of the precompile moves what it enters.** -/
theorem Runtime.scheduleAction_balance (C : Evm.Config) (K : CoreConfig) (input : Bytes) (s : State)
    (who : AccountId) :
    ((scheduleAction C K input s).ledger.reserved who : ℤ) - s.ledger.reserved who =
      (scheduleAction C K input s).outer.feeReserve who - s.outer.feeReserve who := by
  have hanswer : MovesFees C s (answer (scheduleCall K.fees input s)) := by
    refine (scheduleCall_answers schedule_movesFees cancel_movesFees reschedule_movesFees
      input).answer fun r _ _ _ => ?_
    exact (sub_self _).trans (sub_self _).symm
  unfold scheduleAction
  split
  · next ops r heq =>
    rw [heq] at hanswer
    exact hanswer r rfl who
  · exact (sub_self _).trans (sub_self _).symm

/-! ### The invariant -/

/-- The book is in order. -/
structure FeesKept (F : TransactionPayment.Config) (o : Outer) : Prop where
  kept : Kept (· ∈ o.agenda.tasks) o.fees
  /-- A name in the book is that of a task that has been counted, and it tells the fee. -/
  known : ∀ name who fee, Entry.reserved name who fee ∈ o.fees →
    ∃ t : TaskInfo, name = t.encode ∧ t.id.val < o.nextTaskId ∧ t.fee.val = fee
  /-- The fee of a pending task is what its gas limit costs. -/
  charged : ∀ name task, o.agenda.tasks.lookup name = some task →
    ∀ who fee, Entry.reserved name who fee ∈ o.fees → fee = F.gasFee task.call.gasLimit

namespace FeesKept

variable {F : TransactionPayment.Config} {o : Outer}

theorem initial (htasks : o.agenda.tasks = ∅) (hfees : o.fees = []) : FeesKept F o := by
  have hnone : ∀ name, name ∉ o.agenda.tasks := by
    rw [htasks]
    exact fun _ => Finmap.notMem_empty
  refine ⟨?_, ?_, ?_⟩
  · rw [hfees]
    exact .nil hnone
  · intro name who fee h
    rw [hfees] at h
    cases h
  · intro name task h
    exact absurd (Finmap.mem_of_lookup_eq_some h) (hnone name)

/-- What does not concern the tasks and the book. -/
theorem congr {o' : Outer} (h : FeesKept F o) (htasks : o'.agenda.tasks = o.agenda.tasks)
    (hfees : o'.fees = o.fees) (hnext : o.nextTaskId ≤ o'.nextTaskId) : FeesKept F o' := by
  obtain ⟨tokens, ⟨now, tasks⟩, next, fees⟩ := o
  obtain ⟨tokens', ⟨now', tasks'⟩, next', fees'⟩ := o'
  obtain rfl : tasks' = tasks := htasks
  obtain rfl : fees' = fees := hfees
  refine ⟨h.kept, fun name who fee hmem => ?_, h.charged⟩
  obtain ⟨t, hname, hid, hfee⟩ := h.known name who fee hmem
  exact ⟨t, hname, hid.trans_le hnext, hfee⟩

variable {who : AccountId} {agenda : Agenda ScheduledCall}

/-- A task is scheduled under a name that tells its number and its fee. -/
theorem schedule (h : FeesKept F o) {t : TaskInfo} {call : ScheduledCall} {delay : ℕ}
    (hid : t.id.val = o.nextTaskId) (hfee : t.fee.val = F.gasFee call.gasLimit)
    (hok : o.agenda.scheduleNamed t.encode delay call = .ok agenda) :
    FeesKept F { o with
      nextTaskId := o.nextTaskId + 1
      agenda := agenda
      fees := .reserved t.encode who (F.gasFee call.gasLimit) :: o.fees } := by
  obtain ⟨-, due, rfl⟩ := Agenda.scheduleNamed_eq_ok hok
  -- tasks in the book have smaller numbers
  have hnew : t.encode ∉ names o.fees := by
    rw [mem_names]
    rintro ⟨who', fee', hmem⟩
    obtain ⟨t', hname, hlt, -⟩ := h.known _ _ _ hmem
    have hdecode := congrArg TaskInfo.decode hname
    rw [TaskInfo.decode_encode, TaskInfo.decode_encode] at hdecode
    obtain rfl := Option.some.inj hdecode
    omega
  refine ⟨h.kept.reserve who _ hnew fun name' => Finmap.mem_insert, ?_, ?_⟩
  · intro name' who' fee' hmem
    rcases List.mem_cons.mp hmem with heq | hmem
    · cases heq
      refine ⟨t, rfl, ?_, hfee⟩
      change t.id.val < o.nextTaskId + 1
      omega
    · obtain ⟨t', hname, hlt, hfee'⟩ := h.known name' who' fee' hmem
      exact ⟨t', hname, hlt.trans (Nat.lt_succ_self _), hfee'⟩
  · intro name' task hlookup who' fee' hmem
    rcases List.mem_cons.mp hmem with heq | hmem
    · cases heq
      rw [← FiniteMap.eq_of_lookup_insert hlookup]
    · have hne : name' ≠ t.encode := fun heq => hnew (heq ▸ mem_names.mpr ⟨who', fee', hmem⟩)
      exact h.charged name' task (FiniteMap.lookup_of_lookup_insert hne hlookup) who' fee' hmem

/-- The other tasks keep their fees when one is done with. -/
theorem charged_erase (h : FeesKept F o) (name : Bytes) {entry : Entry Bytes AccountId}
    (hentry : entry.name? = none) :
    ∀ name' task, (o.agenda.tasks.erase name).lookup name' = some task →
      ∀ who fee, Entry.reserved name' who fee ∈ entry :: o.fees →
        fee = F.gasFee task.call.gasLimit := by
  intro name' task hlookup who fee hmem
  rcases List.mem_cons.mp hmem with heq | hmem
  · rw [← heq] at hentry
    cases hentry
  · exact h.charged name' task (FiniteMap.lookup_erase_eq_some_iff.mp hlookup).2 who fee hmem

theorem known_cons (h : FeesKept F o) {entry : Entry Bytes AccountId}
    (hentry : entry.name? = none) :
    ∀ name who fee, Entry.reserved name who fee ∈ entry :: o.fees →
      ∃ t : TaskInfo, name = t.encode ∧ t.id.val < o.nextTaskId ∧ t.fee.val = fee := by
  intro name who fee hmem
  rcases List.mem_cons.mp hmem with heq | hmem
  · rw [← heq] at hentry
    cases hentry
  · exact h.known name who fee hmem

variable {name : Bytes}

/-- A task is done with, and its fee is released. -/
theorem release (h : FeesKept F o) {fee held : ℕ} (hname : name ∈ o.agenda.tasks)
    (hsound : Sound (.released name who fee held :: o.fees))
    (hfee : ∀ who' fee', Entry.reserved name who' fee' ∈ o.fees → fee' = fee) :
    FeesKept F { o with
      agenda := { o.agenda with tasks := o.agenda.tasks.erase name }
      fees := .released name who fee held :: o.fees } :=
  ⟨h.kept.release hname hsound hfee fun _ => Finmap.mem_erase, h.known_cons rfl,
    h.charged_erase name rfl⟩

/-- A task is done with, and its fee stays reserved. -/
theorem abandon (h : FeesKept F o) (hname : name ∈ o.agenda.tasks) :
    FeesKept F { o with
      agenda := { o.agenda with tasks := o.agenda.tasks.erase name }
      fees := .abandoned name :: o.fees } :=
  ⟨h.kept.abandon hname fun _ => Finmap.mem_erase, h.known_cons rfl, h.charged_erase name rfl⟩

/-- A cancelled task has the fee its name tells. -/
theorem cancel (h : FeesKept F o) {info : TaskInfo} {held : ℕ}
    (hinfo : TaskInfo.decode name = some info) (hok : o.agenda.cancelNamed name = .ok agenda)
    (hsound : Sound (.released name who info.fee.val held :: o.fees)) :
    FeesKept F
      { o with agenda := agenda, fees := .released name who info.fee.val held :: o.fees } := by
  obtain ⟨hname, rfl⟩ := Agenda.cancelNamed_eq_ok hok
  refine h.release hname hsound fun who' fee' hmem => ?_
  obtain ⟨t, rfl, -, rfl⟩ := h.known name who' fee' hmem
  rw [TaskInfo.decode_encode] at hinfo
  rw [Option.some.inj hinfo]

/-- A task that is moved keeps its name and its call. -/
theorem reschedule (h : FeesKept F o) {delay : ℕ}
    (hok : o.agenda.rescheduleNamed name delay = .ok agenda) :
    FeesKept F { o with agenda := agenda } := by
  obtain ⟨task, due, htask, rfl⟩ := Agenda.rescheduleNamed_eq_ok hok
  have hname : name ∈ o.agenda.tasks := Finmap.mem_of_lookup_eq_some htask
  refine ⟨h.kept.congr fun name' => ?_, h.known, ?_⟩
  · constructor
    · intro hmem
      rcases Finmap.mem_insert.mp hmem with rfl | hmem
      · exact hname
      · exact hmem
    · exact fun hmem => Finmap.mem_insert.mpr (.inr hmem)
  · intro name' task' hlookup who fee hmem
    by_cases heq : name' = name
    · subst heq
      rw [← FiniteMap.eq_of_lookup_insert hlookup]
      exact h.charged name' task htask who fee hmem
    · exact h.charged name' task' (FiniteMap.lookup_of_lookup_insert heq hlookup) who fee hmem

end FeesKept

/-- The invariant of all executions: the book is in order if its releases are sound. -/
def FeesInv (F : TransactionPayment.Config) (o : Outer) : Prop := Sound o.fees → FeesKept F o

/-- What does not concern the tasks and the book. -/
theorem FeesInv.congr {o o' : Outer} (h : FeesInv F o) (htasks : o'.agenda.tasks = o.agenda.tasks)
    (hfees : o'.fees = o.fees) (hnext : o.nextTaskId ≤ o'.nextTaskId) : FeesInv F o' := by
  intro hsound
  rw [hfees] at hsound
  exact (h hsound).congr htasks hfees hnext

/-! ### The precompiles -/

/-- What a native operation makes of the storage the precompiles act on. -/
def Evm.NativeOp.outer (o : Outer) : NativeOp → Outer
  | .setOuter o' => o'
  | _ => o

theorem Evm.State.native_outer (C : Evm.Config) (s : State) (op : NativeOp) :
    (s.native C op).outer = op.outer s.outer := by
  cases op with
  | setLedger l accounts => exact (outer_stateOps (· = s.outer)).setLedger rfl l accounts
  | transferMaintainer who contract newMaintainer =>
    change (Fallible.commitOrKeep (s.doTransferMaintainer who contract newMaintainer) s).outer =
      s.outer
    rcases Fallible.commitOrKeep_cases (s.doTransferMaintainer who contract newMaintainer) s with
      ⟨s', hok, heq⟩ | ⟨-, heq⟩
    · rw [heq]
      exact (outer_stateOps (· = s.outer)).doTransferMaintainer rfl hok
    · rw [heq]
  | setOuter o => rfl

theorem Evm.State.foldl_native_outer (C : Evm.Config) (ops : List NativeOp) (s : State) :
    (ops.foldl (State.native C) s).outer = ops.foldl NativeOp.outer s.outer := by
  induction ops generalizing s with
  | nil => rfl
  | cons op ops ih => rw [List.foldl_cons, List.foldl_cons, ih, s.native_outer]

namespace Precompile

variable {C : Evm.Config} {K : CoreConfig} {s : State}

/-- The operations of an answer keep the book in order. -/
def KeepsFees (F : TransactionPayment.Config) (o : Outer) (a : Answer) : Prop :=
  FeesInv F (a.1.foldl NativeOp.outer o)

theorem multiCurrency_keepsFees (h : FeesInv K.fees s.outer) (input : Bytes) :
    Answers (KeepsFees K.fees s.outer) (multiCurrency K input s) := by
  refine Answers.bind fun action _ => Answers.bind fun id _ => ?_
  cases action with
  | queryTotalIssuance => exact .of h
  | queryBalance => exact Answers.bind fun who _ => .of h
  | transfer =>
    refine Answers.bind fun source _ => Answers.bind fun dest _ => Answers.bind fun amount _ => ?_
    cases hops : transferCurrency s id source dest amount with
    | error e => exact .of h
    | ok ops =>
      refine .of ?_
      -- a transfer of tokens leaves the tasks and the book
      unfold transferCurrency at hops
      split at hops
      · cases hops
        exact h
      · split at hops
        · obtain ⟨l, -, hops⟩ := Fallible.bind_eq_ok.mp hops
          cases hops
          exact h
        · obtain ⟨l, -, hops⟩ := Fallible.bind_eq_ok.mp hops
          cases hops
          exact h.congr rfl rfl le_rfl

variable {F : TransactionPayment.Config}

theorem stateRent_keepsFees (h : FeesInv F s.outer) (input : Bytes) :
    Answers (KeepsFees F s.outer) (stateRent C input s) := by
  refine Answers.bind fun action _ => ?_
  cases action with
  | queryNewContractExtraBytes => exact .of h
  | queryStorageDepositPerByte => exact .of h
  | queryMaintainer =>
    refine Answers.bind fun contract _ => ?_
    cases s.contractInfo contract with
    | none => exact .of h
    | some info => exact .of h
  | queryDeveloperDeposit => exact .of h
  | queryDeploymentFee => exact .of h
  | transferMaintainer =>
    refine Answers.bind fun source _ => Answers.bind fun contract _ =>
      Answers.bind fun newMaintainer _ => ?_
    cases s.doTransferMaintainer source contract newMaintainer with
    | error e => exact .of h
    | ok s' => exact .of h

/-- Scheduling reserves the fee its name tells. -/
theorem schedule_keepsFees (h : FeesInv F s.outer) (minDelay : ℕ) (call : ScheduledCall) :
    KeepsFees F s.outer (schedule F s minDelay call) := by
  unfold schedule
  simp only []
  split
  · exact h
  · next l fee hreserve =>
    obtain ⟨-, rfl⟩ := reserveFee_eq_ok hreserve
    split
    · next hnext =>
      split
      · exact h.congr rfl rfl (Nat.le_succ _)
      · next agenda hok =>
        intro hsound
        have hid := newTask_id (F := F) (Nat.lt_of_succ_lt hnext) call
        exact (h (hsound.of_append [_])).schedule hid (newTask_fee F s call) hok
    · exact h

/-- Cancelling releases the fee the name tells. -/
theorem cancel_keepsFees (h : FeesInv F s.outer) (source : EvmAddress) (name : Bytes) :
    KeepsFees F s.outer (cancel s source name) := by
  unfold cancel
  split
  · exact h
  · next info hinfo =>
    split
    · exact h
    · split
      · exact h
      · next agenda hok =>
        intro hsound
        exact (h (hsound.of_append [_])).cancel hinfo hok hsound

theorem reschedule_keepsFees (h : FeesInv F s.outer) (source : EvmAddress) (minDelay : ℕ)
    (name : Bytes) : KeepsFees F s.outer (reschedule s source minDelay name) := by
  unfold reschedule
  split
  · exact h
  · split
    · exact h
    · split
      · exact h
      · next agenda hok => exact fun hsound => (h hsound).reschedule hok

theorem scheduleCall_keepsFees (h : FeesInv F s.outer) (input : Bytes) :
    Answers (KeepsFees F s.outer) (scheduleCall F input s) :=
  scheduleCall_answers (schedule_keepsFees h) (cancel_keepsFees h) (reschedule_keepsFees h) input

/-- **The core precompiles keep the book in order.** -/
theorem execute_feesInv (K : CoreConfig) (E : Env) (s : State) (address : EvmAddress)
    (input : Bytes) (gas : ℕ) (context : Context) (h : FeesInv K.fees s.outer) :
    FeesInv K.fees ((wire K E).execute address input gas context s).1.outer := by
  unfold Env.execute
  split
  · exact h
  · exact h
  · next p _ =>
    have hrun : Answers (KeepsFees K.fees s.outer) (run E.toConfig K p input s) := by
      cases p with
      | multiCurrency => exact multiCurrency_keepsFees h input
      | stateRent => exact stateRent_keepsFees h input
      | scheduleCall => exact scheduleCall_keepsFees h input
    have hanswer : KeepsFees K.fees s.outer (answer (run E.toConfig K p input s)) :=
      hrun.answer fun _ => h
    simp only []
    rw [State.foldl_native_outer]
    exact hanswer
  · exact h

end Precompile

/-! ### Runs -/

namespace Runtime

variable {R : Runtime} {K : CoreConfig} {w : World}

theorem scheduleAction_feesInv {C : Evm.Config} {s : State} (h : FeesInv K.fees s.outer)
    (input : Bytes) : FeesInv K.fees (scheduleAction C K input s).outer := by
  have hanswer : KeepsFees K.fees s.outer (answer (scheduleCall K.fees input s)) :=
    (scheduleCall_keepsFees h input).answer fun _ => h
  unfold scheduleAction
  split
  · next ops r heq =>
    rw [heq] at hanswer
    rw [State.foldl_native_outer]
    exact hanswer
  · exact h

variable {prog : Prog}

/-- Executions keep the book in order, whatever the contracts do. -/
theorem call_feesInv {sender origin target : EvmAddress} {value gasLimit storageLimit : ℕ}
    (h : FeesInv K.fees w.state.outer) :
    FeesInv K.fees (Runner.call (wire K R.env) sender origin target value gasLimit storageLimit prog
      w).1.state.outer := by
  have hrule := (outer_stateRule (execute_feesInv K R.env)).worldRule.runRule_unassigned
  have hkeeps : Keeps (fun _ => True) (fun s => FeesInv K.fees s.outer) w
      (Runner.call (wire K R.env) sender origin target value gasLimit storageLimit prog w).1 :=
    hrule.call prog.only_any
  exact hkeeps.keeps (fun _ _ => trivial) h

theorem scheduledDone_outer {c : ScheduledCall} {who : AccountId} {payed : ℕ} {info : CallInfo}
    {s : State} : (R.scheduledDone c who payed info s).outer = s.outer := by
  unfold scheduledDone
  simp only []
  split <;> rfl

/-- A scheduled call keeps the book in order. -/
theorem scheduledCall_feesInv {call : ScheduledCall} (h : FeesInv K.fees w.state.outer) :
    FeesInv K.fees ((R.wired K).scheduledCall call prog w).1.state.outer := by
  unfold scheduledCall
  simp only []
  split
  · exact h
  · next l payed _ =>
    have hran : FeesInv K.fees (Runner.call (wire K R.env) call.source call.source call.target
        call.value call.gasLimit call.storageLimit prog
        { w with state := { w.state with ledger := l } }).1.state.outer := call_feesInv h
    split
    · exact h
    · next w' info heq =>
      obtain rfl : w' = _ := (congrArg Prod.fst heq).symm
      rw [scheduledDone_outer]
      exact hran

/-- A dispatched task is done with: its fee is released, or it is abandoned. -/
theorem dispatchTask_feesInv {name : Bytes} (h : FeesInv K.fees w.state.outer) :
    FeesInv K.fees ((R.wired K).dispatchTask name prog w).state.outer := by
  unfold dispatchTask
  split
  · exact h
  · next task htask =>
    have hname : name ∈ w.state.outer.agenda.tasks := Finmap.mem_of_lookup_eq_some htask
    split
    · -- the fee that is released is the one that was reserved
      have hreleased : ∀ who held, FeesInv K.fees (taskDone w.state name
          (.released name who (K.fees.gasFee task.call.gasLimit) held)).outer := by
        intro who held hsound
        have hkept := h (hsound.of_append [_])
        exact hkept.release hname hsound fun who' fee' => hkept.charged name task htask who' fee'
      simp only []
      split
      · next w' u heq =>
        obtain rfl : w' = _ := (congrArg Prod.fst heq).symm
        exact scheduledCall_feesInv (hreleased _ _)
      · exact fun hsound => (h (hsound.of_append [_])).abandon hname
    · exact h

/-- **Every step keeps the book in order.** -/
theorem move_feesInv (h : FeesInv K.fees w.state.outer) (m : Move) :
    FeesInv K.fees (R.move K w m).state.outer := by
  cases m with
  | scheduleAction input => exact scheduleAction_feesInv h input
  | dispatchTask name prog => exact dispatchTask_feesInv h
  | evm i => exact outer_step (execute_feesInv K R.env) h i
  | nextBlock => exact h.congr rfl rfl le_rfl

/-- **What is reserved for scheduling is what is pending**, on every account, exactly if no task
with a fee has been dispatched in vain: in every run from a state without tasks in which the fees
are released from the accounts they were reserved on, and these still hold them. -/
theorem scheduling_reserve_eq_pending_iff (R : Runtime) (K : CoreConfig) (w₀ : World)
    (htasks : w₀.state.outer.agenda.tasks = ∅) (hfees : w₀.state.outer.fees = [])
    (ms : List Move) (hsound : Sound (Run.run (R.move K) w₀ ms).state.outer.fees) :
    let o := (Run.run (R.move K) w₀ ms).state.outer
    (∀ who, o.feeReserve who = o.pendingFees who) ↔
      ∀ name who fee, Entry.reserved name who fee ∈ o.fees → Entry.abandoned name ∈ o.fees →
        fee = 0 := by
  intro o
  have hstart : FeesInv K.fees w₀.state.outer := fun _ => .initial htasks hfees
  have hrun : FeesInv K.fees o :=
    Run.invariant_of_step (fun w : World => FeesInv K.fees w.state.outer)
      (fun w m h => move_feesInv h m) hstart
  exact (hrun hsound).kept.balance_eq_iff

/-- A state in which the account that has funds has an address, from which it schedules calls. -/
def scheduling : State :=
  { State.empty with
    ledger := funds
    mapping := ⟨Finmap.singleton 5 1, Finmap.singleton 1 5⟩ }

/-- A call without input that has one unit of gas. -/
def hopelessCall : ScheduledCall := ⟨5, 8, [], 0, 1, 0⟩

/-- The name it is scheduled under. -/
def hopelessName : Bytes := (newTask sampleCore.fees scheduling hopelessCall).encode

/-- The input of the precompile that schedules it for the next block. -/
def scheduleHopeless : Bytes := [0, 0, 5, 8, 0, 1, 0, 0, 0].flatMap Scale.word

/-- The input that cancels it. -/
def cancelHopeless : Bytes := [0, 1, 5, hopelessName.length].flatMap Scale.word ++ hopelessName

/-- Cancelled, a call leaves nothing reserved. -/
theorem scheduling_reserve_eq_pending_cancelled :
    let o := (Run.run (sampleRuntime.move sampleCore) ⟨scheduling, []⟩
      [.scheduleAction scheduleHopeless, .scheduleAction cancelHopeless]).state.outer
    o.fees.length = 2 ∧ o.feeReserve 1 = o.pendingFees 1 := by
  have hfees : (Run.run (sampleRuntime.move sampleCore) ⟨scheduling, []⟩
      [.scheduleAction scheduleHopeless, .scheduleAction cancelHopeless]).state.outer.fees =
      [.released hopelessName 1 81_421_437_360 81_421_437_360,
        .reserved hopelessName 1 81_421_437_360] := by
    decide +kernel
  refine ⟨congrArg List.length hfees, ?_⟩
  refine (scheduling_reserve_eq_pending_iff sampleRuntime sampleCore ⟨scheduling, []⟩ rfl rfl _
    (by rw [hfees]; decide +kernel)).mpr ?_ 1
  intro name who fee _ habandoned
  rw [hfees] at habandoned
  simp at habandoned

/-- The call is scheduled, and dispatched when it is due. -/
def dispatchHopeless : List Move :=
  [.scheduleAction scheduleHopeless, .nextBlock,
    .dispatchTask hopelessName (.exit (.succeed .stopped) [])]

/-- The gas does not cover the base cost of a transaction, so the dispatch fails. The task is gone,
and its fee is still reserved. -/
theorem failed_dispatch_keeps_fee :
    let s := (Run.run (sampleRuntime.move sampleCore) ⟨scheduling, []⟩ dispatchHopeless).state
    hopelessName ∉ s.outer.agenda.tasks ∧ s.outer.pendingFees 1 = 0 ∧
      s.outer.feeReserve 1 = 81_421_437_360 ∧ s.ledger.reserved 1 = 81_421_437_360 := by
  decide +kernel

end Runtime

end Reef
