import ReefChain.Precompile.Panics
import ReefChain.ScheduledFees

/-!
# The ids of scheduled calls

Whoever schedules a call gets an id for it, and cancels or moves the call by that id. The id is the
name of the task: the encoding of a number, the sender and the fee. Nothing else is kept, so when a
call is cancelled, who may do that and how much is released is decoded from the bytes the caller
passes.

What protects the fees of others is that the scheduler finds a task only under the very bytes it was
scheduled with. A name that is found was therefore produced by the precompile, and it decodes to
what was encoded then (`TaskInfo.decode_encode`). Since every name has the number of its task in it,
no two tasks share one.

Between the actions of the precompile, other parts of the runtime act on the state too.
`Undisturbed` says what they have to leave alone: tasks under names that decode as a `TaskInfo` are
those of the precompile, the reserved balances cover the fees of these tasks, and addresses keep
their accounts.
-/

namespace Reef

open Evm Precompile Scale TransactionPayment

namespace Precompile

variable {C : Evm.Config} {K : CoreConfig} {F : TransactionPayment.Config} {s s₁ : State}
  {input : Bytes} {request : Request} {reply : Bytes} {call : ScheduledCall} {source : EvmAddress}
  {name : Bytes} {delay : ℕ}

/-! ### Replies -/

/-- The id in a reply, which stands behind its length. -/
def taskId (reply : Bytes) : Bytes :=
  (reply.drop PER_PARAM_BYTES).take (beNat (reply.take PER_PARAM_BYTES))

theorem length_nameReply (h : name.length ≤ 64) : (nameReply name).length = 96 := by
  simp only [nameReply, List.length_append, length_word, List.length_replicate]
  omega

/-- An id that fits is read back from the reply. -/
theorem taskId_nameReply (h : name.length ≤ 64) : taskId (nameReply name) = name := by
  have hword : (nameReply name).take PER_PARAM_BYTES = word name.length := by
    rw [nameReply, List.append_assoc]
    exact List.take_left' (length_word _)
  have hrest : (nameReply name).drop PER_PARAM_BYTES =
      name ++ List.replicate (64 - name.length) 0 := by
    rw [nameReply, List.append_assoc]
    exact List.drop_left' (length_word _)
  have hlength : name.length < 256 ^ 32 := h.trans_lt (by decide)
  rw [taskId, hword, hrest, beNat_word hlength]
  exact List.take_left' rfl

/-! ### What the actions do -/

/-- What is changed by scheduling a call. -/
structure Scheduled (F : TransactionPayment.Config) (s : State) (call : ScheduledCall)
    (s₁ : State) : Prop where
  room : s.outer.nextTaskId + 1 < 2 ^ 32
  reserves : s.ledger.reserve (s.getAccountId call.source) (F.gasFee call.gasLimit) = .ok s₁.ledger
  counts : s₁.outer.nextTaskId = s.outer.nextTaskId + 1
  fresh : (newTask F s call).encode ∉ s.outer.agenda.tasks
  tasks : ∃ due, s₁.outer.agenda.tasks =
    s.outer.agenda.tasks.insert (newTask F s call).encode ⟨call, due⟩
  mapping : s₁.mapping = s.mapping

/-- What is changed by cancelling a task. -/
structure Cancelled (s : State) (source : EvmAddress) (name : Bytes) (s₁ : State) : Prop where
  releases : ∃ info, TaskInfo.decode name = some info ∧ info.sender = source ∧
    s₁.ledger = (s.ledger.unreserve (s.getAccountId source) info.fee).1
  pending : name ∈ s.outer.agenda.tasks
  counts : s₁.outer.nextTaskId = s.outer.nextTaskId
  tasks : s₁.outer.agenda.tasks = s.outer.agenda.tasks.erase name
  mapping : s₁.mapping = s.mapping

/-- What is changed by moving a task. -/
structure Rescheduled (s : State) (source : EvmAddress) (name : Bytes) (s₁ : State) : Prop where
  permitted : ∃ info, TaskInfo.decode name = some info ∧ info.sender = source
  pending : name ∈ s.outer.agenda.tasks
  counts : s₁.outer.nextTaskId = s.outer.nextTaskId
  tasks : ∃ task, s₁.outer.agenda.tasks = s.outer.agenda.tasks.insert name task
  ledger : s₁.ledger = s.ledger
  mapping : s₁.mapping = s.mapping

section Effects

variable {r : ExitSucceed × Bytes × ℕ}

theorem schedule_effect (h : (schedule F s delay call).2 = .ok r) :
    r = (.returned, nameReply (newTask F s call).encode, 0) ∧
      Scheduled F s call ((schedule F s delay call).1.foldl (State.native C) s) := by
  unfold schedule at h ⊢
  simp only [] at h ⊢
  split at h
  · cases h
  · next l fee hreserve =>
    obtain ⟨hledger, rfl⟩ := reserveFee_eq_ok hreserve
    split at h
    · next hroom =>
      split at h
      · cases h
      · next agenda hagenda =>
        cases h
        obtain ⟨hfresh, due, rfl⟩ := Agenda.scheduleNamed_eq_ok hagenda
        rw [if_pos hroom]
        exact ⟨rfl, hroom, hledger, rfl, hfresh, ⟨due, rfl⟩, rfl⟩
    · cases h

theorem cancel_effect (h : (cancel s source name).2 = .ok r) :
    Cancelled s source name ((cancel s source name).1.foldl (State.native C) s) := by
  unfold cancel at h ⊢
  split at h
  · cases h
  · next info hinfo =>
    split at h
    · cases h
    · next hsender =>
      split at h
      · cases h
      · next agenda hagenda =>
        cases h
        obtain ⟨hpending, rfl⟩ := Agenda.cancelNamed_eq_ok hagenda
        rw [if_neg hsender]
        exact ⟨⟨info, hinfo, not_not.mp hsender, rfl⟩, hpending, rfl, rfl, rfl⟩

theorem reschedule_effect (h : (reschedule s source delay name).2 = .ok r) :
    Rescheduled s source name ((reschedule s source delay name).1.foldl (State.native C) s) := by
  unfold reschedule at h ⊢
  split at h
  · cases h
  · next info hinfo =>
    split at h
    · cases h
    · next hsender =>
      split at h
      · cases h
      · next agenda hagenda =>
        cases h
        obtain ⟨task, due, htask, rfl⟩ := Agenda.rescheduleNamed_eq_ok hagenda
        have hpending := Finmap.mem_of_lookup_eq_some htask
        rw [if_neg hsender]
        exact ⟨⟨info, hinfo, not_not.mp hsender⟩, hpending, rfl, ⟨_, rfl⟩, rfl, rfl⟩

end Effects

/-- The request in `input` is accepted in the state `s`, and answered with `reply`. -/
structure Accepted (F : TransactionPayment.Config) (s : State) (input : Bytes) (request : Request)
    (reply : Bytes) : Prop where
  read : readRequest input = .ok request
  answered : ∃ exit cost, (request.perform F s).2 = .ok (exit, reply, cost)

/-- A request that is accepted is carried out. -/
theorem Accepted.state (h : Accepted K.fees s input request reply) (C : Evm.Config) :
    Runtime.scheduleAction C K input s =
      (request.perform K.fees s).1.foldl (State.native C) s := by
  obtain ⟨exit, cost, hanswered⟩ := h.answered
  have hanswer : answer (scheduleCall K.fees input s) =
      ((request.perform K.fees s).1, .ok (exit, reply, cost)) := by
    rw [scheduleCall_eq, h.read, ← hanswered]
    rfl
  unfold Runtime.scheduleAction
  rw [hanswer]

/-- All others leave the state alone. -/
theorem scheduleAction_of_not_accepted (C : Evm.Config)
    (h : ∀ request reply, ¬ Accepted K.fees s input request reply) :
    Runtime.scheduleAction C K input s = s := by
  unfold Runtime.scheduleAction
  rw [scheduleCall_eq]
  split
  · next ops r heq =>
    -- an answer that is no error comes from a request
    cases hread : readRequest input with
    | error e =>
      rw [hread] at heq
      cases e <;> cases heq
    | ok request =>
      rw [hread] at heq
      exact absurd ⟨hread, r.1, r.2.2, congrArg Prod.snd heq⟩ (h request r.2.1)
  · rfl

namespace Accepted

theorem scheduled (h : Accepted K.fees s input (.schedule delay call) reply) (C : Evm.Config) :
    reply = nameReply (newTask K.fees s call).encode ∧
      Scheduled K.fees s call (Runtime.scheduleAction C K input s) := by
  obtain ⟨exit, cost, hanswered⟩ := h.answered
  obtain ⟨hreply, heffect⟩ := schedule_effect (C := C) hanswered
  rw [h.state C]
  exact ⟨congrArg (·.2.1) hreply, heffect⟩

theorem cancelled (h : Accepted K.fees s input (.cancel source name) reply) (C : Evm.Config) :
    Cancelled s source name (Runtime.scheduleAction C K input s) := by
  obtain ⟨exit, cost, hanswered⟩ := h.answered
  rw [h.state C]
  exact cancel_effect hanswered

theorem rescheduled (h : Accepted K.fees s input (.reschedule source delay name) reply)
    (C : Evm.Config) : Rescheduled s source name (Runtime.scheduleAction C K input s) := by
  obtain ⟨exit, cost, hanswered⟩ := h.answered
  rw [h.state C]
  exact reschedule_effect hanswered

end Accepted

end Precompile

namespace TaskIds

/-! ### Runs -/

/-- The fee that a name tells, if it is due from the account `who`. -/
def feeOf (m : EvmAccounts.AddressMapping) (who : AccountId) (name : Bytes) : ℕ :=
  match TaskInfo.decode name with
  | some info => if m.getAccountId info.sender = who then info.fee else 0
  | none => 0

/-- The fees of the account `who` that the names on the agenda tell. -/
def namedFees (s : State) (who : AccountId) : ℕ :=
  FiniteMap.total (fun name _ => feeOf s.mapping who name) s.outer.agenda.tasks

/-- What happens: an action of the precompile, or something elsewhere that leads to `s`. -/
inductive Step
  | action (input : Bytes)
  | elsewhere (s : State)

/-- One step. -/
def step (C : Evm.Config) (K : CoreConfig) (s : State) : Step → State
  | .action input => Runtime.scheduleAction C K input s
  | .elsewhere s₁ => s₁

/-- What happens elsewhere between `s` and `s₁` leaves the tasks of the precompile alone. Actions
that are rolled back do not count as steps, so the number of the next task does not decrease. -/
structure Undisturbed (s s₁ : State) : Prop where
  mapping : s₁.mapping = s.mapping
  counter : s.outer.nextTaskId ≤ s₁.outer.nextTaskId
  /-- Nobody else schedules tasks under names that decode as a `TaskInfo`. -/
  tasks : ∀ name ∈ s₁.outer.agenda.tasks, (TaskInfo.decode name).isSome →
    name ∈ s.outer.agenda.tasks
  /-- No more is taken from what is reserved than the fees of the tasks that are taken off the
  agenda. -/
  reserves : ∀ who, namedFees s₁ who + s.ledger.reserved who ≤
    namedFees s who + s₁.ledger.reserved who

/-- The state in the next block. -/
def nextBlock (s : State) : State :=
  { s with
    outer := { s.outer with agenda := { s.outer.agenda with now := s.outer.agenda.now + 1 } } }

theorem undisturbed_nextBlock (s : State) : Undisturbed s (nextBlock s) :=
  ⟨rfl, le_rfl, fun _ hname _ => hname, fun _ => le_rfl⟩

/-- The actions of the precompile are not restricted. -/
def Permitted (s : State) : Step → Prop
  | .action _ => True
  | .elsewhere s₁ => Undisturbed s s₁

/-- The entry `e` of a trace is an action that was accepted, has scheduled `call` and was answered
with the id `name`. -/
def Produces (F : TransactionPayment.Config) (e : State × Step) (name : Bytes)
    (call : ScheduledCall) : Prop :=
  ∃ input delay reply, e.2 = .action input ∧
    Accepted F e.1 input (.schedule delay call) reply ∧ taskId reply = name

/-- **The invariant.** What is known about the ids after the trace `tr`, in the state `s`. -/
structure Authentic (F : TransactionPayment.Config) (tr : List (State × Step)) (s : State) :
    Prop where
  /-- An id has a number that was counted. -/
  counted : ∀ e ∈ tr, ∀ name call, Produces F e name call →
    e.1.outer.nextTaskId < s.outer.nextTaskId
  mapping : ∀ e ∈ tr, e.1.mapping = s.mapping
  /-- The tasks of the precompile are pending under ids it has produced. -/
  produced : ∀ name ∈ s.outer.agenda.tasks, (TaskInfo.decode name).isSome →
    ∃ e ∈ tr, ∃ call, Produces F e name call
  /-- What is reserved covers the fees of the tasks. -/
  covered : ∀ who, namedFees s who ≤ s.ledger.reserved who

variable {C : Evm.Config} {K : CoreConfig} {F : TransactionPayment.Config} {s s₁ : State}
  {tr : List (State × Step)} {e : State × Step} {name : Bytes} {call : ScheduledCall}

/-- An id is the name of the task, and it has been scheduled. -/
theorem Produces.scheduled (h : Produces K.fees e name call) (C : Evm.Config) :
    name = (newTask K.fees e.1 call).encode ∧ Scheduled K.fees e.1 call (step C K e.1 e.2) := by
  obtain ⟨input, delay, reply, hinput, haccepted, rfl⟩ := h
  obtain ⟨hreply, heffect⟩ := haccepted.scheduled C
  rw [hreply, taskId_nameReply (length_encode_newTask ..), hinput]
  exact ⟨rfl, heffect⟩

/-! ### The fees that names tell -/

variable {who : AccountId} {source : EvmAddress}

theorem feeOf_of_decode {m : EvmAccounts.AddressMapping} {info : TaskInfo}
    (h : TaskInfo.decode name = some info) :
    feeOf m who name = if m.getAccountId info.sender = who then info.fee.val else 0 := by
  unfold feeOf
  rw [h]

theorem feeOf_newTask (m : EvmAccounts.AddressMapping) (who : AccountId)
    (F : TransactionPayment.Config) (s : State) (call : ScheduledCall) :
    feeOf m who (newTask F s call).encode =
      if m.getAccountId call.source = who then F.gasFee call.gasLimit else 0 := by
  rw [feeOf_of_decode (TaskInfo.decode_encode _), newTask_fee]
  rfl

/-- The fee of a task is one of those on the agenda. -/
theorem feeOf_le_namedFees (h : name ∈ s.outer.agenda.tasks) (who : AccountId) :
    feeOf s.mapping who name ≤ namedFees s who := by
  obtain ⟨task, htask⟩ := Finmap.mem_iff.mp h
  exact FiniteMap.le_total (f := fun name _ => feeOf s.mapping who name) htask

/-- Without names that decode there are no fees. -/
theorem namedFees_eq_zero
    (h : ∀ name ∈ s.outer.agenda.tasks, TaskInfo.decode name = none) (who : AccountId) :
    namedFees s who = 0 := by
  refine FiniteMap.total_eq_zero fun name task htask => ?_
  unfold feeOf
  rw [h name (Finmap.mem_of_lookup_eq_some htask)]

/-- Scheduling reserves the fee that the new name tells. -/
theorem scheduled_covers (h : Scheduled F s call s₁)
    (hcovered : ∀ who, namedFees s who ≤ s.ledger.reserved who) (who : AccountId) :
    namedFees s₁ who ≤ s₁.ledger.reserved who := by
  obtain ⟨due, htasks⟩ := h.tasks
  have hfees : namedFees s₁ who =
      feeOf s.mapping who (newTask F s call).encode + namedFees s who := by
    unfold namedFees
    rw [htasks, h.mapping]
    exact FiniteMap.total_insert_of_notMem h.fresh
  have hledger := Ledger.reserve_reserved h.reserves who
  have hbefore := hcovered who
  rw [hfees, feeOf_newTask, hledger]
  change (if s.getAccountId call.source = who then _ else _) + _ ≤ _
  by_cases hwho : who = s.getAccountId call.source
  · rw [if_pos hwho.symm, if_pos hwho, ← hwho]
    omega
  · rw [if_neg (Ne.symm hwho), if_neg hwho]
    omega

/-- Cancelling releases no more than the fee that the name told. -/
theorem cancelled_covers (h : Cancelled s source name s₁)
    (hcovered : ∀ who, namedFees s who ≤ s.ledger.reserved who) (who : AccountId) :
    namedFees s₁ who ≤ s₁.ledger.reserved who := by
  obtain ⟨info, hinfo, rfl, hledger⟩ := h.releases
  obtain ⟨task, htask⟩ := Finmap.mem_iff.mp h.pending
  -- the task that is erased took its fee out of the sum
  have hfees : namedFees s₁ who + feeOf s.mapping who name = namedFees s who := by
    unfold namedFees
    rw [h.tasks, h.mapping]
    have herase := FiniteMap.total_erase (fun name _ => feeOf s.mapping who name)
      s.outer.agenda.tasks name
    rw [FiniteMap.weightAt_of_lookup htask] at herase
    exact herase
  have hbefore := hcovered who
  rw [feeOf_of_decode hinfo] at hfees
  rw [hledger, Ledger.unreserve_reserved]
  have hfees : namedFees s₁ who +
    (if s.getAccountId info.sender = who then info.fee.val else 0) = namedFees s who := hfees
  -- only the account of the sender in the name is released, by the fee in the name
  by_cases hwho : who = s.getAccountId info.sender
  · rw [if_pos hwho.symm] at hfees
    rw [if_pos hwho, ← hwho]
    omega
  · rw [if_neg (Ne.symm hwho)] at hfees
    rw [if_neg hwho]
    omega

/-- Moving a task keeps its name. -/
theorem rescheduled_covers (h : Rescheduled s source name s₁)
    (hcovered : ∀ who, namedFees s who ≤ s.ledger.reserved who) (who : AccountId) :
    namedFees s₁ who ≤ s₁.ledger.reserved who := by
  obtain ⟨task, htasks⟩ := h.tasks
  obtain ⟨old, hold⟩ := Finmap.mem_iff.mp h.pending
  have hfees : namedFees s₁ who = namedFees s who := by
    unfold namedFees
    rw [htasks, h.mapping]
    have hinsert := FiniteMap.total_insert (fun name _ => feeOf s.mapping who name)
      s.outer.agenda.tasks name task
    rw [FiniteMap.weightAt_of_lookup hold] at hinsert
    exact Nat.add_right_cancel hinsert
  rw [hfees, h.ledger]
  exact hcovered who

/-! ### The invariant is kept -/

/-- Before anything was scheduled. -/
theorem Authentic.initial (h : ∀ name ∈ s.outer.agenda.tasks, TaskInfo.decode name = none) :
    Authentic F [] s := by
  refine ⟨?_, ?_, ?_, ?_⟩
  · intro e he
    cases he
  · intro e he
    cases he
  · intro name hname hsome
    rw [h name hname] at hsome
    cases hsome
  · intro who
    rw [namedFees_eq_zero h]
    exact Nat.zero_le _

/-- A step that keeps the accounts of the addresses, does not count backwards and covers the fees
only has to say where new tasks come from. -/
theorem Authentic.extend (h : Authentic K.fees tr s) {i : Step}
    (hmapping : (step C K s i).mapping = s.mapping)
    (hcounter : s.outer.nextTaskId ≤ (step C K s i).outer.nextTaskId)
    (htasks : ∀ name ∈ (step C K s i).outer.agenda.tasks, (TaskInfo.decode name).isSome →
      name ∈ s.outer.agenda.tasks ∨ ∃ call, Produces K.fees (s, i) name call)
    (hcovered : ∀ who, namedFees (step C K s i) who ≤ (step C K s i).ledger.reserved who) :
    Authentic K.fees (tr ++ [(s, i)]) (step C K s i) := by
  refine ⟨?_, ?_, ?_, hcovered⟩
  · intro e he name call hproduces
    rcases List.mem_append.mp he with he | he
    · exact (h.counted e he name call hproduces).trans_le hcounter
    · -- a name produced now carries the counter of `s`, which the step has raised
      obtain rfl := List.mem_singleton.mp he
      have hcounts := (hproduces.scheduled C).2.counts
      exact (Nat.lt_succ_self _).trans_eq hcounts.symm
  · intro e he
    rcases List.mem_append.mp he with he | he
    · exact (h.mapping e he).trans hmapping.symm
    · obtain rfl := List.mem_singleton.mp he
      exact hmapping.symm
  · intro name hname hsome
    rcases htasks name hname hsome with hold | ⟨call, hproduces⟩
    · obtain ⟨e, he, call, hproduces⟩ := h.produced name hold hsome
      exact ⟨e, List.mem_append_left _ he, call, hproduces⟩
    · exact ⟨(s, i), List.mem_append_right _ List.mem_cons_self, call, hproduces⟩

/-- An action of the precompile keeps the invariant, accepted or not. -/
theorem Authentic.action (h : Authentic K.fees tr s) (C : Evm.Config) (input : Bytes) :
    Authentic K.fees (tr ++ [(s, .action input)]) (step C K s (.action input)) := by
  by_cases haccepted : ∃ request reply, Accepted K.fees s input request reply
  · obtain ⟨request, reply, haccepted⟩ := haccepted
    cases request with
    | schedule delay call =>
      -- the one request that adds a name, and it answers with that name
      obtain ⟨hreply, hscheduled⟩ := haccepted.scheduled C
      obtain ⟨due, htasks⟩ := hscheduled.tasks
      refine h.extend hscheduled.mapping (hscheduled.counts.symm ▸ Nat.le_succ _) ?_
        (scheduled_covers hscheduled h.covered)
      intro name hname _
      rcases Finmap.mem_insert.mp (htasks ▸ hname) with rfl | hold
      · have hid : taskId reply = (newTask K.fees s call).encode := by
          rw [hreply, taskId_nameReply (length_encode_newTask ..)]
        exact .inr ⟨call, input, delay, reply, rfl, haccepted, hid⟩
      · exact .inl hold
    | cancel source name =>
      have hcancelled := haccepted.cancelled C
      refine h.extend hcancelled.mapping hcancelled.counts.ge ?_
        (cancelled_covers hcancelled h.covered)
      intro name' hname _
      exact .inl (Finmap.mem_erase.mp (hcancelled.tasks ▸ hname)).2
    | reschedule source delay name =>
      -- the task is put back under the name it had
      have hrescheduled := haccepted.rescheduled C
      obtain ⟨task, htasks⟩ := hrescheduled.tasks
      refine h.extend hrescheduled.mapping hrescheduled.counts.ge ?_
        (rescheduled_covers hrescheduled h.covered)
      intro name' hname _
      rcases Finmap.mem_insert.mp (htasks ▸ hname) with rfl | hold
      · exact .inl hrescheduled.pending
      · exact .inl hold
  · -- what is not accepted is rolled back
    have hsame : step C K s (.action input) = s :=
      scheduleAction_of_not_accepted C fun request reply hreply =>
        haccepted ⟨request, reply, hreply⟩
    refine h.extend (by rw [hsame]) (by rw [hsame]) ?_ (by rw [hsame]; exact h.covered)
    intro name hname _
    rw [hsame] at hname
    exact .inl hname

/-- So does what happens elsewhere. -/
theorem Authentic.elsewhere (h : Authentic K.fees tr s) (C : Evm.Config) (hs : Undisturbed s s₁) :
    Authentic K.fees (tr ++ [(s, .elsewhere s₁)]) (step C K s (.elsewhere s₁)) := by
  refine h.extend hs.mapping hs.counter ?_ ?_
  · exact fun name hname hsome => .inl (hs.tasks name hname hsome)
  intro who
  have hbefore := h.covered who
  have hreserves := hs.reserves who
  change namedFees s₁ who ≤ s₁.ledger.reserved who
  omega

/-- **Runs.** -/
theorem authentic_run {s₀ : State}
    (h : ∀ name ∈ s₀.outer.agenda.tasks, TaskInfo.decode name = none) {is : List Step}
    (his : Run.Along (step C K) Permitted s₀ is) :
    Authentic K.fees (Run.trace (step C K) s₀ is) (Run.run (step C K) s₀ is) := by
  refine Run.history (Authentic K.fees) ?_ (.initial h) his
  intro tr s i hauthentic hpermitted
  cases i with
  | action input => exact hauthentic.action C input
  | elsewhere s₁ => exact hauthentic.elsewhere C hpermitted

/-! ### What follows for an action -/

/-- The id of a new task has not been produced before, as the number in it is new. -/
theorem Authentic.fresh (h : Authentic K.fees tr s) (C : Evm.Config)
    (hroom : s.outer.nextTaskId + 1 < 2 ^ 32) (call : ScheduledCall) : ∀ e ∈ tr, ∀ call',
      ¬ Produces K.fees e (newTask K.fees s call).encode call' := by
  intro e he call' hproduces
  have hcounted := h.counted e he _ _ hproduces
  obtain ⟨hname, hscheduled⟩ := hproduces.scheduled C
  have hdecode := congrArg TaskInfo.decode hname
  rw [TaskInfo.decode_encode, TaskInfo.decode_encode] at hdecode
  have hid := congrArg (fun t : TaskInfo => t.id.val) (Option.some.inj hdecode)
  have hroom' := hscheduled.room
  rw [newTask_id (by omega), newTask_id (by omega)] at hid
  omega

/-- A pending task whose name decodes to the sender `source` is one that `source` has scheduled, and
the name tells the fee. -/
theorem Authentic.provenance (h : Authentic K.fees tr s) (C : Evm.Config) {info : TaskInfo}
    (hname : name ∈ s.outer.agenda.tasks) (hinfo : TaskInfo.decode name = some info) :
    ∃ e ∈ tr, ∃ call, Produces K.fees e name call ∧ call.source = info.sender ∧
      info.fee.val = K.fees.gasFee call.gasLimit := by
  obtain ⟨e, he, call, hproduces⟩ := h.produced name hname (by rw [hinfo]; rfl)
  obtain ⟨rfl, -⟩ := hproduces.scheduled C
  rw [TaskInfo.decode_encode] at hinfo
  obtain rfl := Option.some.inj hinfo
  exact ⟨e, he, call, hproduces, rfl, newTask_fee ..⟩

/-- Cancelling a task takes off what scheduling it has put on the reserved balance. -/
theorem Authentic.refund (h : Authentic K.fees tr s) (hcancelled : Cancelled s source name s₁)
    (C : Evm.Config) : ∃ e ∈ tr, ∃ call, Produces K.fees e name call ∧ call.source = source ∧
      let who := s.getAccountId source
      let fee := K.fees.gasFee call.gasLimit
      (step C K e.1 e.2).ledger.reserved who = e.1.ledger.reserved who + fee ∧
        s.ledger.reserved who = s₁.ledger.reserved who + fee := by
  obtain ⟨info, hinfo, rfl, hledger⟩ := hcancelled.releases
  obtain ⟨e, he, call, hproduces, hsource, hfee⟩ := h.provenance C hcancelled.pending hinfo
  refine ⟨e, he, call, hproduces, hsource, ?_, ?_⟩
  · -- the account is still the same
    have hwho : s.getAccountId info.sender = e.1.getAccountId call.source := by
      rw [hsource]
      exact congrArg (fun m => EvmAccounts.AddressMapping.getAccountId m info.sender)
        (h.mapping e he).symm
    rw [Ledger.reserve_reserved (hproduces.scheduled C).2.reserves, if_pos hwho, hwho]
  · -- the reserved balance covers the fee
    have hcovered : info.fee.val ≤ s.ledger.reserved (s.getAccountId info.sender) := by
      have hle := feeOf_le_namedFees hcancelled.pending (s.getAccountId info.sender)
      have hwho : s.mapping.getAccountId info.sender = s.getAccountId info.sender := rfl
      rw [feeOf_of_decode hinfo, if_pos hwho] at hle
      exact hle.trans (h.covered _)
    rw [hledger, Ledger.unreserve_reserved, if_pos rfl, ← hfee]
    omega

/-- **Task ids are unique and authentic**, in every run from a state in which no name of a task
decodes as a `TaskInfo`. An id has at most 64 bytes, so it fits the reply and is read back from it,
and it is different from those before. A task is cancelled or moved only with an id that was
produced for a call with the same `source`, and cancelling it releases what was reserved for it. -/
theorem task_ids_unique_and_authentic (C : Evm.Config) (K : CoreConfig) (s₀ : State)
    (hnone : ∀ name ∈ s₀.outer.agenda.tasks, TaskInfo.decode name = none) (is : List Step)
    (hpermitted : Run.Along (step C K) Permitted s₀ is) :
    let tr := Run.trace (step C K) s₀ is
    let s := Run.run (step C K) s₀ is
    (∀ id sender fee, (TaskInfo.encode ⟨TaskInfo.scheduleCall, id, sender, fee⟩).length ≤ 64) ∧
    (∀ input delay call reply, Accepted K.fees s input (.schedule delay call) reply →
      reply.length = 96 ∧ taskId reply = (newTask K.fees s call).encode ∧
        ∀ e ∈ tr, ∀ call', ¬ Produces K.fees e (taskId reply) call') ∧
    (∀ input source name reply, Accepted K.fees s input (.cancel source name) reply →
      ∃ e ∈ tr, ∃ call, Produces K.fees e name call ∧ call.source = source ∧
        let who := s.getAccountId source
        let fee := K.fees.gasFee call.gasLimit
        (step C K e.1 e.2).ledger.reserved who = e.1.ledger.reserved who + fee ∧
          s.ledger.reserved who = (step C K s (.action input)).ledger.reserved who + fee) ∧
    (∀ input source delay name reply,
      Accepted K.fees s input (.reschedule source delay name) reply →
      ∃ e ∈ tr, ∃ call, Produces K.fees e name call ∧ call.source = source) := by
  intro tr s
  -- all that is asked of the trace follows from this invariant
  have hrun : Authentic K.fees tr s := authentic_run hnone hpermitted
  refine ⟨TaskInfo.length_encode_le, ?_, ?_, ?_⟩
  · intro input delay call reply haccepted
    obtain ⟨rfl, hscheduled⟩ := haccepted.scheduled C
    have hfits := length_encode_newTask K.fees s call
    rw [taskId_nameReply hfits]
    exact ⟨length_nameReply hfits, rfl, hrun.fresh C hscheduled.room call⟩
  · intro input source name reply haccepted
    exact hrun.refund (haccepted.cancelled C) C
  · intro input source delay name reply haccepted
    have hrescheduled := haccepted.rescheduled C
    obtain ⟨info, hinfo, rfl⟩ := hrescheduled.permitted
    obtain ⟨e, he, call, hproduces, hsource, -⟩ := hrun.provenance C hrescheduled.pending hinfo
    exact ⟨e, he, call, hproduces, hsource⟩

open Reef.Runtime in
/-- The state after a call was scheduled. -/
def afterSchedule : State :=
  scheduleAction sampleEnv.toConfig sampleCore scheduleHopeless scheduling

open Reef.Runtime in
/-- In the next block, the call is cancelled with its id. The fee was reserved when it was
scheduled. -/
theorem task_ids_authentic_cancelled :
    ∃ e ∈ Run.trace (step sampleEnv.toConfig sampleCore) scheduling
        [.action scheduleHopeless, .elsewhere (nextBlock afterSchedule)],
      ∃ call, Produces sampleCore.fees e hopelessName call ∧ call.source = 5 := by
  have haccepted : Accepted sampleCore.fees (nextBlock afterSchedule) cancelHopeless
      (.cancel 5 hopelessName) [] := by
    refine ⟨by decide +kernel, .returned, 0, ?_⟩
    decide +kernel
  have htheorem := task_ids_unique_and_authentic sampleEnv.toConfig sampleCore scheduling
    (fun name hname => absurd hname Finmap.notMem_empty)
    [.action scheduleHopeless, .elsewhere (nextBlock afterSchedule)]
    ⟨trivial, undisturbed_nextBlock _, trivial⟩
  obtain ⟨e, he, call, hproduces, hsource, -⟩ := htheorem.2.2.1 _ _ _ _ haccepted
  exact ⟨e, he, call, hproduces, hsource⟩

end TaskIds

end Reef
