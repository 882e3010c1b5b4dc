import ReefChain.Lib.Run
import ReefChain.Evm.CoreAccess
import ReefChain.Runtime

/-!
# The queue of events

The creation and the self-destruction of a contract are *announced*: an event is put into a queue
where it happens, deep inside an execution, and it is rolled back with the frame. The extrinsics
that execute code emit the queue at their end (`processQueuedEvents`).

The history of a state records the creations and self-destructions that took effect. It is what the
announcements are compared with: `State.caused` lists those of the history and `State.announced`
those of the events. The relation `Queues` says what a part of an execution does: it appends to the
queue exactly what it adds to the history, and it emits nothing. It satisfies the induction
principle for transactions, for every set of requests that are allowed; if neither creations nor
self-destructions are, nothing is queued at all.

An extrinsic that empties the queue at its end has therefore announced, once, what it has caused.
Calls through `EVM::execute` do not empty it. They are harmless as long as the contract they call
neither creates contracts nor self-destructs (`events_emitted_once`); otherwise the announcement
waits for an extrinsic of somebody else (`token_transfer_leaves_event`).
-/

namespace Reef
namespace Evm

/-! ### Announcements -/

/-- What is announced by an event of the queue. -/
inductive Announcement
  | created (address : EvmAddress)
  | selfdestructed (address : EvmAddress)
  deriving DecidableEq, Repr

/-- The announcement an event makes, if it makes one. -/
def Event.announcement : Event → Option Announcement
  | .created _ contract _ => some (.created contract)
  | .contractSelfdestructed _ contract => some (.selfdestructed contract)
  | _ => none

/-- The announcement due for an entry of the history. -/
def Entry.announcement (C : Config) : Entry → Option Announcement
  | .created key => some (.created (C.keyAddress key))
  | .destroyed address => some (.selfdestructed address)
  | _ => none

/-- The announcements that have been emitted, in order. -/
def State.announced (s : State) : List Announcement := s.events.filterMap Event.announcement

/-- The announcements that are due, in order. -/
def State.caused (C : Config) (s : State) : List Announcement :=
  s.history.reverse.filterMap (Entry.announcement C)

variable {C : Config}

/-- One entry more in the history causes its announcement. -/
theorem State.caused_cons {s s' : State} {entry : Entry} (h : s'.history = entry :: s.history) :
    s'.caused C = s.caused C ++ (entry.announcement C).toList := by
  unfold State.caused
  rw [h, List.reverse_cons, List.filterMap_append]
  cases hentry : entry.announcement C with
  | none => simp [hentry]
  | some a => simp [hentry]

theorem State.announced_depositEvent (s : State) (e : Event) :
    (s.depositEvent e).announced = s.announced ++ e.announcement.toList := by
  unfold State.announced State.depositEvent
  rw [List.filterMap_append]
  cases he : e.announcement with
  | none => simp [he]
  | some a => simp [he]

/-! ### Executions -/

/-- A part of an execution that makes only the requests of `A`: it appends to the queue what it adds
to the history, and emits nothing. -/
def Queues (C : Config) (A : Request → Bool) (s s' : State) : Prop :=
  ∃ q, s'.queuedEvents = s.queuedEvents ++ q ∧ s'.announced = s.announced ∧
    s'.caused C = s.caused C ++ q.filterMap Event.announcement ∧
    ((∀ r, A r = false) → q = [])

namespace Queues

variable {A : Request → Bool} {s s₁ s₂ : State}

/-- Nothing is queued, emitted or caused. -/
theorem of_eq (hqueue : s₁.queuedEvents = s.queuedEvents) (hevents : s₁.announced = s.announced)
    (hhistory : s₁.caused C = s.caused C) : Queues C A s s₁ :=
  ⟨[], by rw [hqueue, List.append_nil], hevents, by rw [hhistory, List.filterMap_nil,
    List.append_nil], fun _ => rfl⟩

theorem refl (s : State) : Queues C A s s := of_eq rfl rfl rfl

/-- What one step queues follows what the step before queued. -/
theorem trans (h₁ : Queues C A s s₁) (h₂ : Queues C A s₁ s₂) : Queues C A s s₂ := by
  obtain ⟨q₁, hq₁, he₁, hc₁, hn₁⟩ := h₁
  obtain ⟨q₂, hq₂, he₂, hc₂, hn₂⟩ := h₂
  refine ⟨q₁ ++ q₂, ?_, he₂.trans he₁, ?_, fun hA => ?_⟩
  · rw [hq₂, hq₁, List.append_assoc]
  · rw [hc₂, hc₁, List.filterMap_append, List.append_assoc]
  · rw [hn₁ hA, hn₂ hA, List.append_nil]

/-- An entry of the history that is no creation or self-destruction is not announced. -/
theorem of_entry {entry : Entry} (hhistory : s₁.history = entry :: s.history)
    (hentry : entry.announcement C = none) (hqueue : s₁.queuedEvents = s.queuedEvents)
    (hevents : s₁.events = s.events) : Queues C A s s₁ := by
  refine of_eq hqueue (by rw [State.announced, hevents, State.announced]) ?_
  rw [State.caused_cons hhistory, hentry]
  exact List.append_nil _

/-- A creation or self-destruction that is announced, by an allowed request. -/
theorem of_announced {entry : Entry} {e : Event} {r : Request} (hr : A r = true)
    (hhistory : s₁.history = entry :: s.history)
    (hqueue : s₁.queuedEvents = s.queuedEvents ++ [e]) (hevents : s₁.events = s.events)
    (hentry : entry.announcement C = e.announcement) : Queues C A s s₁ := by
  refine ⟨[e], hqueue, by rw [State.announced, hevents, State.announced], ?_, fun hA => ?_⟩
  · rw [State.caused_cons hhistory, hentry]
    cases he : e.announcement with
    | none => simp [he]
    | some a => simp [he]
  · rw [hA r] at hr
    cases hr

/-! ### The operations on the state -/

theorem incNonce (s : State) (address : EvmAddress) : Queues C A s (s.incNonce address) := by
  by_cases hfits : s.nonce address + 1 < 2 ^ nonceBits
  · have hhistory : (s.incNonce address).history = s.history := by
      rw [s.incNonce_history, if_pos hfits]
    refine of_eq rfl rfl ?_
    rw [State.caused, hhistory, State.caused]
  · have hhistory : (s.incNonce address).history = .wrapped address :: s.history := by
      rw [s.incNonce_history, if_neg hfits]
    exact of_entry hhistory rfl rfl rfl

theorem removeAccount (s : State) (address : EvmAddress) :
    Queues C A s (s.removeAccount address) := by
  obtain ⟨codes, infos, h⟩ := s.removeAccount_eq address
  rw [h]
  exact of_entry rfl rfl rfl rfl

theorem setLedger (D : Config) (s : State) (l : Ledger AccountId) (accounts : List AccountId) :
    Queues C A s (s.setLedger D l accounts) :=
  State.setLedger_induction (fun s₁ address h => h.trans (removeAccount s₁ address))
    (fun _ _ h => h.trans (of_eq rfl rfl rfl)) (fun _ _ h => h.trans (of_eq rfl rfl rfl))
    (refl s) l accounts

theorem setContractInfo (s : State) (address : EvmAddress) (info : ContractInfo) :
    Queues C A s (s.setContractInfo address info) := by
  obtain ⟨accounts, heq⟩ := s.setContractInfo_eq address info
  rw [heq]
  exact of_eq rfl rfl rfl

variable {D : Config} {address contract : EvmAddress} {who : AccountId}

theorem transferAll {source dest : AccountId} (hok : s.transferAll D source dest = .ok s₁) :
    Queues C A s s₁ := by
  obtain ⟨l, -, rfl⟩ := State.transferAll_eq_ok hok
  exact setLedger D s l _

theorem moveFunds {source target : EvmAddress} {value : ℕ}
    (hok : s.moveFunds D source target value = .ok s₁) : Queues C A s s₁ := by
  obtain ⟨l, -, rfl⟩ := State.moveFunds_eq_ok hok
  exact setLedger D s l _

/-- A self-destruction is recorded and queued. -/
theorem markDelete {b : Bool} {target : EvmAddress} (hA : A .selfdestruct = true)
    (hok : s.markDelete D b address target = .ok s₁) : Queues C A s s₁ := by
  obtain ⟨s₂, htransfer, rfl⟩ := State.markDelete_moved hok
  refine ((removeAccount s address).trans (transferAll htransfer)).trans ?_
  exact of_announced hA rfl rfl rfl rfl

theorem doTransferMaintainer {newMaintainer : EvmAddress}
    (hok : s.doTransferMaintainer who contract newMaintainer = .ok s₁) : Queues C A s s₁ := by
  obtain ⟨info, -, rfl⟩ := State.doTransferMaintainer_eq_ok hok
  exact setContractInfo s contract _

/-- A native operation announces nothing of its own. -/
theorem native (D : Config) (s : State) (op : NativeOp) : Queues C A s (s.native D op) := by
  cases op with
  | setLedger l accounts => exact setLedger D s l accounts
  | setOuter o => exact of_eq rfl rfl rfl
  | transferMaintainer who contract newMaintainer =>
    change Queues C A s
      (Fallible.commitOrKeep (s.doTransferMaintainer who contract newMaintainer) s)
    rcases Fallible.commitOrKeep_cases (s.doTransferMaintainer who contract newMaintainer) s with
      ⟨s', hok, heq⟩ | ⟨-, heq⟩
    · rw [heq]
      exact doTransferMaintainer hok
    · rw [heq]
      exact refl s

/-- A precompile queues what its native operations queue. -/
theorem execute (E : Env) (s : State) (address : EvmAddress) (input : Bytes) (gas : ℕ)
    (context : Context) : Queues C A s (E.execute address input gas context s).1 := by
  unfold Env.execute
  split
  · exact refl s
  · exact refl s
  · -- a core precompile is a sequence of native operations
    next p _ =>
    simp only []
    generalize (E.core p input gas context s).1 = ops
    induction ops generalizing s with
    | nil => exact refl s
    | cons op ops ih => exact (native E.toConfig s op).trans (ih _)
  · exact refl s

/-- A creation is recorded and queued. -/
theorem initialise {key : CreateKey} {maintainer : EvmAddress} {code : Bytes}
    {used : StorageMeter → ℕ × ℤ} {c c' : Chain} {w w' : World} {r : Except ExitError Unit}
    (hA : A .create = true) (hkey : C.keyAddress key = address)
    (h : Evm.initialise C key address maintainer code used c w = (c', w', r)) :
    Queues C A w.state w'.state := by
  rcases initialise_cases h with ⟨-, ⟨rfl, -⟩ | ⟨s, u, hs, rfl⟩⟩
  · exact incNonce w.state address
  · refine (incNonce w.state address).trans ?_
    unfold State.onContractInitialization at hs
    simp only [] at hs
    split at hs
    · cases hs
    · cases hs
      obtain ⟨codes, infos, href⟩ := (w.state.incNonce address).refCode_eq (C.codeHash code) code
      simp only [href]
      refine of_announced hA rfl rfl rfl ?_
      rw [Entry.announcement, hkey]
      rfl

theorem finish {origin : EvmAddress} {c : Chain} {w w' : World} {above : List StorageMeter}
    {r : DispatchResult} (h : c.finish (World.host D origin) w = (above, w', r)) :
    Queues C A w.state w'.state := by
  rcases finish_world h with rfl | ⟨l, accounts, l', rfl⟩
  · exact refl _
  · exact (setLedger D w.state l accounts).trans (of_eq rfl rfl rfl)

theorem setStorage {b : Bool} {index value : H256} {c c' : Chain} {w w' : World}
    {r : Except ExitError Unit} (h : Evm.setStorage b address index value c w = (c', w', r)) :
    Queues C A w.state w'.state := by
  rcases setStorage_cases h with ⟨-, rfl⟩ | ⟨hstate, -⟩
  · exact refl _
  · rw [hstate]
    exact of_eq rfl rfl rfl

theorem log (s : State) (address : EvmAddress) (topics : List H256) (data : Bytes) :
    Queues C A s (s.log address topics data) := by
  refine of_eq rfl ?_ rfl
  exact (State.announced_depositEvent s (.log address topics data)).trans (List.append_nil _)

/-! ### The rule -/

/-- The address of a creation is derived from its key. -/
theorem keyAddress_of_createAddress {scheme : CreateScheme}
    (h : createAddress C scheme s = .ok address) : C.keyAddress (scheme.key s) = address := by
  unfold createAddress at h
  simp only [] at h
  split at h
  · cases h
  · cases h
    rfl

/-- **The rule for frames**: each step of a program queues what it causes. -/
theorem frameRule (E : Env) (A : Request → Bool) (origin : EvmAddress) :
    FrameRule E origin A fun _ _ w _ w' => Queues E.toConfig A w.state w'.state where
  refl _ _ w := refl w.state
  trans := trans
  setStorage _ _ _ _ _ _ _ h := setStorage h
  log _ topics data _ w := log w.state _ topics data
  markDelete hA _ _ _ _ h := markDelete hA h
  incNonce caller _ w := incNonce w.state caller
  moveFunds _ _ _ _ _ _ h := moveFunds h
  dispatch _ _ _ _ _ _ _ _ w := execute E w.state _ _ _ _
  initialise hA _ _ _ _ _ _ _ w _ _ _ _ _ haddress _ _ hran h :=
    ((incNonce w.state _).trans hran).trans
      (initialise hA (keyAddress_of_createAddress haddress) h)
  commit _ _ _ hran h := hran.trans (finish h)
  refused _ _ _ _ _ := refl _
  rollback _ _ _ _ := refl _

/-- The relation holds of every transaction. -/
theorem runRule (E : Env) (A : Request → Bool) :
    RunRule E A (fun _ => A .create = true)
      (fun _ _ _ w _ w' => Queues E.toConfig A w.state w'.state)
      (fun w w' => Queues E.toConfig A w.state w'.state) := by
  have hends : ∀ {origin : EvmAddress} {w : World} {c : Chain} {w' : World},
      Queues E.toConfig A w.state w'.state →
      Ends E origin (fun w w' => Queues E.toConfig A w.state w'.state) w c w' := fun h =>
    { commit := fun hfin => h.trans (finish hfin)
      refused := fun _ => refl _
      rollback := refl _ }
  refine ⟨frameRule E A, fun w => refl w.state, fun source w w' _ => incNonce w.state source,
    fun h => ?_, fun hA _ hran h => ?_, fun _ hran => hends hran⟩
  · obtain rfl := (congrArg Prod.fst h).symm
    exact of_eq rfl rfl rfl
  · exact hends (((incNonce _ _).trans hran).trans (initialise hA rfl h))

/-! ### Extrinsics that do not execute code -/

/-- An event that announces nothing is deposited. -/
theorem depositEvent (s : State) {e : Event} (he : e.announcement = none) :
    Queues C A s (s.depositEvent e) := by
  refine of_eq rfl ?_ rfl
  rw [State.announced_depositEvent, he]
  exact List.append_nil _

theorem markDeployed {maintainer : Option EvmAddress}
    (hok : s.markDeployed contract maintainer = .ok s₁) : Queues C A s s₁ := by
  obtain ⟨info, -, rfl⟩ := State.markDeployed_eq_ok hok
  exact setContractInfo s contract _

theorem removeContract {caller : EvmAddress} (hok : s.removeContract D caller contract = .ok s₁) :
    Queues C A s s₁ := by
  obtain ⟨info, contractInfo, s₂, -, -, htransfer, rfl⟩ := State.removeContract_eq_ok hok
  have hunlink : Queues C A s (s.unlink contract contractInfo.codeHash) := by
    unfold State.unlink
    simp only []
    obtain ⟨codes, infos, h⟩ := State.derefCode_eq
      { s with accountStorages := Function.update s.accountStorages contract ∅ }
      contractInfo.codeHash
    rw [h]
    exact of_eq rfl rfl rfl
  exact (hunlink.trans (transferAll htransfer)).trans (of_eq rfl rfl rfl)

theorem doSetCode {signer : Option AccountId} {code : Bytes}
    (hok : s.doSetCode D signer contract code = .ok s₁) : Queues C A s s₁ := by
  obtain ⟨info, -, -, ⟨-, rfl⟩ | ⟨-, -, rfl⟩⟩ := State.doSetCode_eq_ok hok
  · exact refl _
  · obtain ⟨codes, infos, h⟩ := s.refCode_eq (D.codeHash code) code
    rw [h]
    exact of_eq rfl rfl rfl

theorem deploy (hok : s.deploy D who contract = .ok s₁) : Queues C A s s₁ := by
  unfold State.deploy at hok
  obtain ⟨address, -, hok⟩ := Fallible.bind_eq_ok.mp hok
  obtain ⟨l, -, hok⟩ := Fallible.bind_eq_ok.mp hok
  obtain ⟨s₂, hmark, hok⟩ := Fallible.bind_eq_ok.mp hok
  cases hok
  exact ((setLedger D s l [who]).trans (markDeployed hmark)).trans (depositEvent s₂ rfl)

theorem enableContractDevelopment (hok : s.enableContractDevelopment D who = .ok s₁) :
    Queues C A s s₁ := by
  unfold State.enableContractDevelopment at hok
  obtain ⟨l, -, hok⟩ := Fallible.bind_eq_ok.mp hok
  obtain ⟨-, -, hok⟩ := Fallible.bind_eq_ok.mp hok
  cases hok
  exact trans (of_eq rfl rfl rfl) (depositEvent _ rfl)

theorem disableContractDevelopment (hok : s.disableContractDevelopment who = .ok s₁) :
    Queues C A s s₁ := by
  unfold State.disableContractDevelopment at hok
  obtain ⟨address, -, hok⟩ := Fallible.bind_eq_ok.mp hok
  obtain ⟨info, -, hok⟩ := Fallible.bind_eq_ok.mp hok
  obtain ⟨deposit, -, hok⟩ := Fallible.bind_eq_ok.mp hok
  cases hok
  exact trans (of_eq rfl rfl rfl) (depositEvent _ rfl)

theorem onKilledAccount (D : Config) (s : State) (who : AccountId) :
    Queues C A s (s.onKilledAccount D who) :=
  State.onKilledAccount_induction (fun s₁ address h => h.trans (removeAccount s₁ address))
    (fun _ _ h => h.trans (of_eq rfl rfl rfl)) (refl s) who

end Queues

/-! ### Extrinsics -/

/-- An extrinsic that leaves the queue empty, and has emitted what it has caused. -/
structure Emits (C : Config) (s s' : State) : Prop where
  queue : s'.queuedEvents = []
  announced : ∃ l, s'.announced = s.announced ++ l ∧ s'.caused C = s.caused C ++ l

/-- A call through `EVM::execute` queues nothing if it is a view, or if its program neither creates
contracts nor self-destructs. -/
theorem executed_quiet {E : Env} {sender origin target : EvmAddress}
    {value gasLimit storageLimit : ℕ} {isView : Bool} {prog : Prog} {w : World}
    (hquiet : isView = true ∨ prog.Only (fun _ => false) = true) :
    Queues E.toConfig (fun _ => false) w.state
      (executed w sender target isView
        (Runner.call E sender origin target value gasLimit storageLimit prog w)).state := by
  unfold executed
  split
  · next info _ =>
    split
    · next hcommit =>
      -- only what is executed, not viewed, is committed
      have hprog : prog.Only (fun _ => false) = true := by
        refine hquiet.resolve_left fun hview => ?_
        rw [hview] at hcommit
        simp at hcommit
      exact ((Queues.runRule E fun _ => false).call hprog).trans (.depositEvent _ rfl)
    · exact .refl _
  · exact .refl _

namespace Emits

variable {A : Request → Bool} {s s₁ : State}

theorem refl (hempty : s.queuedEvents = []) : Emits C s s :=
  ⟨hempty, [], (List.append_nil _).symm, (List.append_nil _).symm⟩

/-- Emptying the queue at the end emits what was queued. -/
theorem of_processQueuedEvents (hempty : s.queuedEvents = []) (h : Queues C A s s₁) :
    Emits C s s₁.processQueuedEvents := by
  obtain ⟨q, hq, he, hc, -⟩ := h
  refine ⟨rfl, q.filterMap Event.announcement, ?_, hc⟩
  have hqueue : s₁.queuedEvents = q := by
    rw [hq, hempty, List.nil_append]
  unfold State.processQueuedEvents State.announced
  rw [List.filterMap_append, hqueue]
  exact congrArg (· ++ q.filterMap Event.announcement) he

/-- Nothing is queued where neither creations nor self-destructions are allowed. -/
theorem of_quiet (hempty : s.queuedEvents = []) (h : Queues C (fun _ => false) s s₁) :
    Emits C s s₁ := by
  obtain ⟨q, hq, he, hc, hnone⟩ := h
  obtain rfl := hnone fun _ => rfl
  rw [List.append_nil] at hq
  exact ⟨hq.trans hempty, [], he.trans (List.append_nil _).symm, hc⟩

/-- The extrinsic `selfdestruct` emits its announcement itself. -/
theorem selfdestruct {who : AccountId} {contract : EvmAddress} (hempty : s.queuedEvents = [])
    (hok : s.selfdestruct C who contract = .ok s₁) : Emits C s s₁ := by
  unfold State.selfdestruct at hok
  obtain ⟨caller, -, hok⟩ := Fallible.bind_eq_ok.mp hok
  obtain ⟨s₂, hs₂, hok⟩ := Fallible.bind_eq_ok.mp hok
  cases hok
  have hremoved := of_quiet hempty
    (Queues.removeContract (C := C) (State.doSelfdestruct_eq_ok hs₂).2)
  obtain ⟨l, he, hc⟩ := hremoved.announced
  refine ⟨hremoved.queue, l ++ [.selfdestructed contract], ?_, ?_⟩
  · rw [State.announced_depositEvent, ← List.append_assoc]
    exact congrArg (· ++ [Announcement.selfdestructed contract]) he
  · have hcons : ({ s₂ with history := .destroyed contract :: s₂.history } : State).caused C =
        s₂.caused C ++ [.selfdestructed contract] := (State.caused_cons (s := s₂) rfl).trans rfl
    rw [← List.append_assoc, ← hc]
    exact hcons

/-- Extrinsics that do not execute code. -/
theorem admin {i : Input} (hempty : s.queuedEvents = []) (hok : s.admin C i = .ok s₁) :
    Emits C s s₁ := by
  cases i with
  | transferMaintainer who contract newMaintainer =>
    obtain ⟨s₂, hs₂, hok⟩ := Fallible.bind_eq_ok.mp hok
    cases hok
    exact of_quiet hempty ((Queues.doTransferMaintainer hs₂).trans (.depositEvent s₂ rfl))
  | deploy who contract => exact of_quiet hempty (Queues.deploy hok)
  | deployFree contract =>
    obtain ⟨s₂, hs₂, hok⟩ := Fallible.bind_eq_ok.mp hok
    cases hok
    exact of_quiet hempty ((Queues.markDeployed hs₂).trans (.depositEvent s₂ rfl))
  | enableContractDevelopment who =>
    exact of_quiet hempty (Queues.enableContractDevelopment hok)
  | disableContractDevelopment who =>
    exact of_quiet hempty (Queues.disableContractDevelopment hok)
  | setCode signer contract code =>
    obtain ⟨s₂, hs₂, hok⟩ := Fallible.bind_eq_ok.mp hok
    cases hok
    exact of_quiet hempty ((Queues.doSetCode hs₂).trans (.depositEvent s₂ rfl))
  | selfdestruct who contract => exact selfdestruct hempty hok
  | reap who =>
    cases hok
    exact of_quiet hempty (Queues.onKilledAccount C s who)
  | other ledger mapping =>
    cases hok
    exact of_quiet hempty (.of_eq rfl rfl rfl)
  | call who target value gasLimit storageLimit prog =>
    -- the four inputs that execute code are not handled here
    cases hok
    exact refl hempty
  | create | createNetworkContract | execute =>
    cases hok
    exact refl hempty

/-! ### Extrinsics that execute code -/

/-- The end of a call turns what is queued into events. -/
theorem callDone {w : World} {source target : EvmAddress} {gasLimit : ℕ}
    {x : World × Except DispatchError CallInfo} (hempty : w.state.queuedEvents = [])
    (h : Queues C A w.state x.1.state) :
    Emits C w.state (Evm.callDone w source target gasLimit x).state := by
  unfold Evm.callDone
  split
  · exact refl hempty
  · refine of_processQueuedEvents hempty (h.trans (.depositEvent _ ?_))
    split <;> rfl

/-- The same for a creation, with what it does to the state afterwards. -/
theorem createDone {w : World} {source : EvmAddress} {gasLimit : ℕ} {f : State → State}
    {x : World × Except DispatchError CreateInfo} (hempty : w.state.queuedEvents = [])
    (hf : ∀ s, Queues C A s (f s)) (h : Queues C A w.state x.1.state) :
    Emits C w.state (Evm.createDone w source gasLimit f x).state := by
  unfold Evm.createDone
  split
  · exact refl hempty
  · refine of_processQueuedEvents hempty ((h.trans (hf x.1.state)).trans ?_)
    split
    · exact .refl _
    · exact .depositEvent _ rfl

/-- The inputs of the EVM pallet. Code that is executed for another pallet may neither create
contracts nor self-destruct. -/
theorem step {E : Env} {w : World} {i : Input} (hempty : w.state.queuedEvents = [])
    (hquiet : ∀ sender origin target value gasLimit storageLimit isView prog,
      i = .execute sender origin target value gasLimit storageLimit isView prog →
      isView = true ∨ prog.Only (fun _ => false) = true) :
    Emits E.toConfig w.state (Evm.step E w i).state := by
  have hany := Queues.runRule E Request.any
  -- an extrinsic that fails is rolled back with its events
  have hadmin : Emits E.toConfig w.state
      (Fallible.commitOrKeep (w.state.admin E.toConfig i) w.state) := by
    rcases Fallible.commitOrKeep_cases (w.state.admin E.toConfig i) w.state with
      ⟨s', hok, heq⟩ | ⟨-, heq⟩
    · rw [heq]
      exact admin hempty hok
    · rw [heq]
      exact refl hempty
  cases i with
  | call who target value gasLimit storageLimit prog =>
    exact callDone hempty (Queues.trans (.of_eq rfl rfl rfl) (hany.call prog.only_any))
  | create who initCode salt value gasLimit storageLimit prog =>
    exact createDone hempty (fun s => .refl s)
      (Queues.trans (.of_eq rfl rfl rfl) (hany.create rfl prog.only_any))
  | createNetworkContract initCode value gasLimit storageLimit prog =>
    exact createDone hempty (fun s => .of_eq rfl rfl rfl)
      (hany.createAtAddress prog.only_any rfl)
  | execute sender origin target value gasLimit storageLimit isView prog =>
    exact of_quiet hempty (executed_quiet (hquiet _ _ _ _ _ _ _ _ rfl))
  | transferMaintainer | deploy | deployFree | enableContractDevelopment
  | disableContractDevelopment | setCode | selfdestruct | reap | other => exact hadmin

end Emits

end Evm

/-! ### The extrinsics of the runtime -/

namespace Runtime

open Evm EvmBridge

/-- A transfer that is asked of a token: by whom, for whom, to whom and of how much, and the world
the code of the token finds. -/
structure AskedTransfer where
  sender : EvmAddress
  origin : EvmAddress
  dest : EvmAddress
  amount : ℕ
  world : World

section Asked

variable (R : Runtime) (code : Behaviour) (contract : EvmAddress)

/-- The transfer that `unreserve` asks for: out of the reserve, what is asked and there. -/
def askedByUnreserve (who : AccountId) (value : ℕ) (w : World) : Option AskedTransfer :=
  if value = 0 then none
  else do
    let address ← w.state.getEvmAddress who
    let sender := R.reserveAddress address
    let (w, reserved) ← Currencies.bridgeBalance R.env code contract sender w
    return ⟨sender, address, address, min reserved value, w⟩

/-- The transfer an operation asks of the token, if it comes to that. -/
def asked (op : TokenOp) (w : World) : Option AskedTransfer :=
  match op with
  | .transfer source dest amount origin =>
    if amount = 0 ∨ source = dest then none
    else do
      let sender ← w.state.getEvmAddress source
      let who ← origin
      let (s, originAddress) := w.state.getOrCreateEvmAddress R.env.toConfig who
      let (s, address) := s.getOrCreateEvmAddress R.env.toConfig dest
      return ⟨sender, originAddress, address, amount, { w with state := s }⟩
  | .reserve who value =>
    if value = 0 then none
    else do
      let address ← w.state.getEvmAddress who
      return ⟨address, address, R.reserveAddress address, value, w⟩
  | .unreserve who value => R.askedByUnreserve code contract who value w
  | .repatriateReserved slashed beneficiary value status =>
    if value = 0 then none
    else if slashed = beneficiary then
      match status with
      | .free => R.askedByUnreserve code contract slashed value w
      | .reserved => none
    else do
      let slashedAddress ← w.state.getEvmAddress slashed
      let (s, beneficiaryAddress) := w.state.getOrCreateEvmAddress R.env.toConfig beneficiary
      let sender := R.reserveAddress slashedAddress
      let (w, reserved) ← Currencies.bridgeBalance R.env code contract sender { w with state := s }
      let dest := match status with
        | .free => beneficiaryAddress
        | .reserved => R.reserveAddress beneficiaryAddress
      return ⟨sender, slashedAddress, dest, min reserved value, w⟩

end Asked

/-- The code of a token, run for the transfer it is asked for, neither creates contracts nor
self-destructs. -/
def QuietTransfer (code : Behaviour) (contract : EvmAddress) (t : AskedTransfer) : Prop :=
  (code ⟨contract, t.sender, 0⟩ (transferInput t.dest t.amount) t.world.state).Only
    (fun _ => false) = true

/-- What is asked of an extrinsic in the world it finds: a contract that is executed for another
pallet there neither creates contracts nor self-destructs. For a token this concerns the transfer it
is asked for; queries are views. -/
def Quiet (R : Runtime) (w : World) : Extrinsic → Prop
  | .evm (.execute _ _ _ _ _ _ isView prog) =>
    isView = true ∨ prog.Only (fun _ => false) = true
  | .evm _ => True
  | .scheduledCall _ _ => True
  | .token code contract op => ∀ t ∈ R.asked code contract op w, QuietTransfer code contract t

section Tokens

variable {R : Runtime} {E : Env} {code : Behaviour} {contract : EvmAddress} {w w' : World}

/-- The relation for calls through the bridge. -/
abbrev QuietSteps (E : Env) (w w' : World) : Prop :=
  Queues E.toConfig (fun _ => false) w.state w'.state

/-- Asking for a balance is a view of the contract. -/
theorem balanceOf_quiet {context : InvokeContext} {address : EvmAddress}
    {r : Except EvmBridge.Error ℕ} (h : balanceOf E code context address w = some (w', r)) :
    QuietSteps E w w' := by
  have hview : QuietSteps E w
      (evmExecute E code context (balanceOfInput address) gasLimit 0 true w).1 :=
    executed_quiet (.inl rfl)
  unfold balanceOf at h
  split at h
  · next heq =>
    rw [heq] at hview
    cases h
    exact hview
  · next heq =>
    rw [heq] at hview
    split at h
    · cases h
      exact hview
    · split at h
      · cases h
        exact hview
      · cases h

theorem bridgeBalance_quiet {address : EvmAddress} {balance : ℕ}
    (h : Currencies.bridgeBalance E code contract address w = some (w', balance)) :
    QuietSteps E w w' := by
  obtain ⟨⟨w₁, r⟩, hbalance, h⟩ := Option.bind_eq_some_iff.mp h
  have hquiet := balanceOf_quiet hbalance
  cases r with
  | ok b =>
    cases h
    exact hquiet
  | error e =>
    cases h
    exact hquiet

/-- A quiet transfer queues nothing. -/
theorem bridgeTransfer_quiet {sender origin dest : EvmAddress} {amount : ℕ}
    (hcode : QuietTransfer code contract ⟨sender, origin, dest, amount, w⟩) :
    QuietSteps E w (Currencies.bridgeTransfer E code contract sender origin dest amount w).1 := by
  have hrun : ∀ storageLimit, QuietSteps E w (evmExecute E code ⟨contract, sender, origin⟩
      (transferInput dest amount) gasLimit storageLimit false w).1 :=
    fun _ => executed_quiet (.inr hcode)
  unfold Currencies.bridgeTransfer EvmBridge.transfer
  simp only []
  split
  · next heq =>
    have h := hrun (if origin = 0 then 0 else 1_000)
    rw [heq] at h
    exact h
  · next heq =>
    have h := hrun (if origin = 0 then 0 else 1_000)
    rw [heq] at h
    split
    · exact h
    · split
      · exact h
      · exact h

theorem bridgeTransfer_quiet_of_eq {sender origin dest : EvmAddress} {amount : ℕ}
    {r : Except Currencies.Error Unit}
    (hcode : QuietTransfer code contract ⟨sender, origin, dest, amount, w⟩)
    (h : Currencies.bridgeTransfer E code contract sender origin dest amount w = (w', r)) :
    QuietSteps E w w' := by
  have hmoved : QuietSteps E w
      (Currencies.bridgeTransfer E code contract sender origin dest amount w).1 :=
    bridgeTransfer_quiet hcode
  rw [h] at hmoved
  exact hmoved

variable {who : AccountId}

/-- Linking an account announces nothing. -/
theorem getOrCreateEvmAddress_quiet {C : Evm.Config} {A : Request → Bool} {s s' : State}
    {address : EvmAddress} (h : s.getOrCreateEvmAddress C who = (s', address)) :
    Queues C A s s' := by
  obtain rfl := congrArg Prod.fst h
  exact .of_eq rfl rfl rfl

/-- A transfer links both accounts and then asks the contract. -/
theorem transfer_quiet {source dest : AccountId} {amount : ℕ} {origin : Option AccountId}
    (hcode : ∀ t ∈ R.asked code contract (.transfer source dest amount origin) w,
      QuietTransfer code contract t) :
    QuietSteps R.env w
      (Currencies.transfer R.env code contract source dest amount origin w).1 := by
  unfold Currencies.transfer
  simp only [asked] at hcode
  split
  · exact .refl _
  · next hdo =>
    rw [if_neg hdo] at hcode
    split
    · exact .refl _
    · next sender hsender =>
      rw [hsender] at hcode
      split
      · exact .refl _
      · next who =>
        rcases horigin : w.state.getOrCreateEvmAddress R.env.toConfig who with ⟨s₁, originAddress⟩
        rcases hdest : s₁.getOrCreateEvmAddress R.env.toConfig dest with ⟨s₂, address⟩
        simp only [hdest]
        have hquiet := hcode _ rfl
        simp only [horigin, hdest] at hquiet
        -- the two accounts are linked first
        refine (getOrCreateEvmAddress_quiet horigin).trans ?_
        refine (getOrCreateEvmAddress_quiet hdest).trans ?_
        exact bridgeTransfer_quiet hquiet

theorem reserve_quiet {value : ℕ}
    (hcode : ∀ t ∈ R.asked code contract (.reserve who value) w, QuietTransfer code contract t) :
    QuietSteps R.env w
      (Currencies.reserve R.env R.reserveAddress code contract who value w).1 := by
  unfold Currencies.reserve
  simp only [asked] at hcode
  split
  · exact .refl _
  · next hdo =>
    rw [if_neg hdo] at hcode
    split
    · exact .refl _
    · next address haddress =>
      rw [haddress] at hcode
      exact bridgeTransfer_quiet (hcode _ rfl)

theorem unreserve_quiet {value rest : ℕ}
    (hcode : ∀ t ∈ R.askedByUnreserve code contract who value w, QuietTransfer code contract t)
    (h : Currencies.unreserve R.env R.reserveAddress code contract who value w = some (w', rest)) :
    QuietSteps R.env w w' := by
  unfold Currencies.unreserve at h
  unfold askedByUnreserve at hcode
  split at h
  · cases h
    exact .refl _
  · next hdo =>
    rw [if_neg hdo] at hcode
    split at h
    · cases h
      exact .refl _
    · next address haddress =>
      obtain ⟨⟨w₁, reserved⟩, hbalance, h⟩ := Option.bind_eq_some_iff.mp h
      -- the transfer is asked for in the world that the query leaves
      rw [haddress] at hcode
      have hquiet : QuietTransfer code contract
          ⟨R.reserveAddress address, address, address, min reserved value, w₁⟩ :=
        hcode _ (Option.bind_eq_some_iff.mpr
          ⟨address, rfl, Option.bind_eq_some_iff.mpr ⟨_, hbalance, rfl⟩⟩)
      simp only [] at h
      split at h
      · next heq =>
        cases h
        exact (bridgeBalance_quiet hbalance).trans (bridgeTransfer_quiet_of_eq hquiet heq)
      · next heq =>
        cases h
        exact (bridgeBalance_quiet hbalance).trans (bridgeTransfer_quiet_of_eq hquiet heq)

theorem reservedBalance_quiet {reserveAddress : EvmAddress → EvmAddress} {balance : ℕ}
    (h : Currencies.reservedBalance E reserveAddress code contract who w = some (w', balance)) :
    QuietSteps E w w' := by
  unfold Currencies.reservedBalance at h
  split at h
  · cases h
    exact .refl _
  · exact bridgeBalance_quiet h

theorem repatriateReserved_quiet {slashed beneficiary : AccountId} {value : ℕ}
    {status : Currencies.BalanceStatus} {r : Except Currencies.Error ℕ}
    (hcode : ∀ t ∈ R.asked code contract (.repatriateReserved slashed beneficiary value status) w,
      QuietTransfer code contract t)
    (h : Currencies.repatriateReserved R.env R.reserveAddress code contract slashed beneficiary
      value status w = some (w', r)) : QuietSteps R.env w w' := by
  unfold Currencies.repatriateReserved at h
  simp only [asked] at hcode
  split at h
  · cases h
    exact .refl _
  · next hdo =>
    rw [if_neg hdo] at hcode
    split at h
    · next hself =>
      rw [if_pos hself] at hcode
      -- to oneself
      cases status with
      | free =>
        obtain ⟨⟨w₁, rest⟩, hrest, h⟩ := Option.bind_eq_some_iff.mp h
        cases h
        exact unreserve_quiet hcode hrest
      | reserved =>
        obtain ⟨⟨w₁, reserved⟩, hreserved, h⟩ := Option.bind_eq_some_iff.mp h
        cases h
        exact reservedBalance_quiet hreserved
    · next hother =>
      rw [if_neg hother] at hcode
      split at h
      · cases h
        exact .refl _
      · next address haddress =>
        obtain ⟨⟨w₁, reserved⟩, hbalance, h⟩ := Option.bind_eq_some_iff.mp h
        have hmapped : QuietSteps R.env w
            { w with state := (w.state.getOrCreateEvmAddress R.env.toConfig beneficiary).1 } :=
          .of_eq rfl rfl rfl
        have hasked : QuietSteps R.env w w₁ := hmapped.trans (bridgeBalance_quiet hbalance)
        -- the transfer is asked for in the world that the query leaves
        rw [haddress] at hcode
        have hquiet := hcode _ (Option.bind_eq_some_iff.mpr
          ⟨address, rfl, Option.bind_eq_some_iff.mpr ⟨_, hbalance, rfl⟩⟩)
        simp only [] at h
        split at h
        · next heq =>
          cases h
          exact hasked.trans (bridgeTransfer_quiet_of_eq hquiet heq)
        · next heq =>
          cases h
          exact hasked.trans (bridgeTransfer_quiet_of_eq hquiet heq)

end Tokens

section Step

variable {R : Runtime} {w : World}

/-- What fails is undone, and then nothing is announced. -/
theorem orUndo_emits {ε α : Type} {x : World × Except ε α} (hempty : w.state.queuedEvents = [])
    (h : QuietSteps R.env w x.1) : Emits R.env.toConfig w.state (orUndo w x).state := by
  unfold orUndo
  split
  · exact .of_quiet hempty h
  · exact .refl hempty

/-- An operation on a token emits what its calls emit. -/
theorem tokenOp_emits {code : Behaviour} {contract : EvmAddress} {op : TokenOp}
    (hempty : w.state.queuedEvents = [])
    (hcode : ∀ t ∈ R.asked code contract op w, QuietTransfer code contract t) :
    Emits R.env.toConfig w.state (R.tokenOp code contract op w).state := by
  cases op with
  | transfer source dest amount origin =>
    exact orUndo_emits hempty (transfer_quiet hcode)
  | reserve who value => exact orUndo_emits hempty (reserve_quiet hcode)
  | unreserve who value =>
    unfold tokenOp
    simp only []
    split
    · next x hx => exact .of_quiet hempty (unreserve_quiet hcode hx)
    · exact .refl hempty
  | repatriateReserved slashed beneficiary value status =>
    unfold tokenOp
    simp only []
    split
    · next x hx => exact orUndo_emits hempty (repatriateReserved_quiet hcode hx)
    · exact .refl hempty

/-- The end of a scheduled call empties the queue. -/
theorem scheduledDone_emits {c : ScheduledCall} {who : AccountId} {payed : ℕ} {info : CallInfo}
    {s s₁ : State} (hempty : s.queuedEvents = [])
    (h : Queues R.env.toConfig Request.any s s₁) :
    Emits R.env.toConfig s (R.scheduledDone c who payed info s₁) := by
  unfold scheduledDone
  have hevent : Queues R.env.toConfig Request.any s (s₁.depositEvent
      (if info.exitReason.isSucceed then
        .executed c.source c.target info.usedGas info.usedStorage
      else .executedFailed c.source c.target info.exitReason info.output (c.gasLimit, 0))) := by
    refine h.trans (.depositEvent _ ?_)
    split <;> rfl
  refine Emits.of_processQueuedEvents (A := Request.any) hempty ?_
  split
  · exact hevent
  · exact hevent.trans (.of_eq rfl rfl rfl)

/-- A scheduled call withdraws its fee and runs as a call. -/
theorem scheduledCall_emits {c : ScheduledCall} {prog : Prog}
    (hempty : w.state.queuedEvents = []) :
    Emits R.env.toConfig w.state (R.scheduledCall c prog w).1.state := by
  unfold scheduledCall
  simp only []
  split
  · exact .refl hempty
  · next l payed _ =>
    -- the fee is withdrawn, and the call is carried out
    have hrun : Queues R.env.toConfig Request.any w.state
        (Runner.call R.env c.source c.source c.target c.value c.gasLimit c.storageLimit prog
          { w with state := { w.state with ledger := l } }).1.state :=
      Queues.trans (.of_eq rfl rfl rfl)
        ((Queues.runRule R.env Request.any).call prog.only_any)
    split
    · exact .refl hempty
    · next w' info heq =>
      rw [heq] at hrun
      exact scheduledDone_emits hempty hrun

/-- **One extrinsic** from an empty queue leaves the queue empty and has emitted what it has
caused. -/
theorem step_emits {x : Extrinsic} (hempty : w.state.queuedEvents = [])
    (hquiet : R.Quiet w x) :
    Emits R.env.toConfig w.state (R.step w x).state := by
  cases x with
  | scheduledCall c prog => exact scheduledCall_emits hempty
  | token code contract op => exact tokenOp_emits hempty hquiet
  | evm i =>
    refine Emits.step hempty ?_
    rintro sender origin target value gasLimit storageLimit isView prog rfl
    exact hquiet

end Step

/-- **The queue is empty between extrinsics**, and every creation and self-destruction is announced
in the extrinsic that caused it, exactly once and in order: in every run from an empty queue whose
extrinsics all meet the condition, each extrinsic `x` finds the queue empty, leaves it empty, and
emits the announcements of what it has added to the history. -/
theorem events_emitted_once (R : Runtime) (w₀ : World) (hempty : w₀.state.queuedEvents = [])
    (xs : List Extrinsic) (x : Extrinsic) (hquiet : Run.Along R.step R.Quiet w₀ (xs ++ [x])) :
    let w := Run.run R.step w₀ xs
    w.state.queuedEvents = [] ∧ (R.step w x).state.queuedEvents = [] ∧
      ∃ l, (R.step w x).state.announced = w.state.announced ++ l ∧
        (R.step w x).state.caused R.env.toConfig = w.state.caused R.env.toConfig ++ l := by
  intro w
  obtain ⟨hquietRun, hquietLast⟩ := (Run.along_append [x]).mp hquiet
  have hrun : w.state.queuedEvents = [] :=
    Run.invariant (fun w : World => w.state.queuedEvents = [])
      (fun w y h hy => (step_emits h hy).queue) hempty hquietRun
  have hstep := step_emits hrun hquietLast.1
  exact ⟨hrun, hstep.queue, hstep.announced⟩

/-- A creation by the account that has funds. -/
def sampleCreation : Extrinsic :=
  .evm (.create 1 [1] none 0 100_000 2_000 (.exit (.succeed .returned) []))

/-- A token that, asked for a transfer, calls itself to self-destruct and agrees. -/
def destroying : Behaviour := fun _ _ _ =>
  .call .call token 0 [] none (.selfdestruct 9) (.exit (.succeed .returned) (Scale.word 1))

/-- A token that does so for the address `9` only. It agrees to the transfers of all others. -/
def selective : Behaviour := fun context input s =>
  if context.caller = 9 then destroying context input s
  else .exit (.succeed .returned) (Scale.word 1)

/-- A state in which the account that has funds has an address too. -/
def withHolder : State :=
  { withToken with
    ledger := funds
    mapping := ⟨Finmap.singleton 5 1, Finmap.singleton 1 5⟩ }

/-- The transfer of such a token by an address it agrees with. -/
def selectiveTransfer : Extrinsic := .token selective token (.transfer 1 2 100 (some 1))

/-- A transfer that queues nothing comes first: it executes the token, which links the account `2`
and reports its run. The creation behind it is announced by its own extrinsic. -/
theorem events_emitted_once_creation :
    let w := Run.run sampleRuntime.step ⟨withHolder, []⟩ [selectiveTransfer]
    w.state.events ≠ withHolder.events ∧
      (sampleRuntime.step w sampleCreation).state.caused sampleRuntime.env.toConfig ≠ [] ∧
      w.state.queuedEvents = [] ∧ (sampleRuntime.step w sampleCreation).state.queuedEvents = [] ∧
      ∃ l, (sampleRuntime.step w sampleCreation).state.announced = w.state.announced ++ l ∧
        (sampleRuntime.step w sampleCreation).state.caused sampleRuntime.env.toConfig =
          w.state.caused sampleRuntime.env.toConfig ++ l := by
  intro w
  subst w
  have hasked : ∀ t ∈ sampleRuntime.asked selective token (.transfer 1 2 100 (some 1))
      ⟨withHolder, []⟩, t.sender = 5 := by decide +kernel
  have htransfer : sampleRuntime.Quiet ⟨withHolder, []⟩ selectiveTransfer := by
    intro t ht
    have hne : t.sender ≠ 9 := by
      rw [hasked t ht]
      decide
    rw [QuietTransfer, selective, if_neg hne]
    rfl
  have hquiet : Run.Along sampleRuntime.step sampleRuntime.Quiet ⟨withHolder, []⟩
      [selectiveTransfer, sampleCreation] := ⟨htransfer, trivial, trivial⟩
  obtain ⟨hfound, hleft, hannounced⟩ :=
    events_emitted_once sampleRuntime ⟨withHolder, []⟩ rfl [selectiveTransfer] _ hquiet
  exact ⟨by decide +kernel, by decide +kernel, hfound, hleft, hannounced⟩

/-- The transfer of the token that destroys itself. -/
def destroyingTransfer : Extrinsic := .token destroying token (.transfer 1 2 100 (some 1))

/-- A call by somebody else, of an address without code. -/
def strangersCall : Extrinsic := .evm (.call 77 78 0 21_000 0 (.exit (.succeed .stopped) []))

/-- The transfer of a token leaves the announcement of a self-destruction in the queue, and the next
extrinsic, by somebody else, emits it. -/
theorem token_transfer_leaves_event :
    withHolder.queuedEvents = [] ∧
      (sampleRuntime.step ⟨withHolder, []⟩ destroyingTransfer).state.queuedEvents =
        [.contractSelfdestructed 9 token] ∧
      (sampleRuntime.step ⟨withHolder, []⟩ destroyingTransfer).state.announced = [] ∧
      (Run.run sampleRuntime.step ⟨withHolder, []⟩
        [destroyingTransfer, strangersCall]).state.announced = [.selfdestructed token] := by
  decide +kernel

end Runtime
end Reef
