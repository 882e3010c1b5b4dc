import ReefChain.Evm.Pallet

/-!
# Invariants of the state

Most invariants of the pallet speak of the state alone. For these the induction principle for
transactions comes down to the operations on the state: an invariant that every one of them keeps
(`StateRule`) is kept by every execution (`StateRule.worldRule`), whatever is nested in it and
whatever is undone. A creation may have to meet a condition `Ok` in the state it finds; the
condition is required of the observation the creation leaves.

The operations that create no contract are kept apart (`StateOps`). A property of the form "`s` is
related to a fixed earlier state" can be an invariant of these, and the derived operations then say
how the state moves.
-/

namespace Reef
namespace Evm

open Bounded EvmAccounts

/-- If everything observed so far is as required, the invariant is kept. -/
structure Keeps (Ok : Observation → Prop) (I : State → Prop) (w w' : World) : Prop where
  trace : w.trace ⊆ w'.trace
  keeps : (∀ e ∈ w'.trace, Ok e) → I w.state → I w'.state

/-- The operations on the state that create no contract keep an invariant. -/
structure StateOps (I : State → Prop) : Prop where
  writeStorage : ∀ s address index value, I s → I (s.writeStorage address index value)
  incNonce : ∀ s address, I s → I (s.incNonce address)
  removeAccount : ∀ s address, I s → I (s.removeAccount address)
  setContractInfo : ∀ s address info info', s.contractInfo address = some info →
    info'.codeHash = info.codeHash → I s → I (s.setContractInfo address info')
  setDeveloperDeposit : ∀ s address deposit, I s → I (s.setDeveloperDeposit address deposit)
  /-- A destruction is recorded once the contract is gone. -/
  destroyed : ∀ s address, s.contractInfo address = none → I s →
    I { s with history := .destroyed address :: s.history }
  /-- What does not concern contracts. Events are only added. -/
  other : ∀ s mapping ledger events queuedEvents, s.events <+: events → I s →
    I { s with
      mapping := mapping
      ledger := ledger
      events := events
      queuedEvents := queuedEvents }

/-- All operations on the state keep an invariant, if the creations meet the condition `Ok`. -/
structure StateRule (E : Env) (Ok : Observation → Prop) (I : State → Prop) : Prop
    extends StateOps I where
  initialise : ∀ s key address maintainer code used s', Ok (.initialised s key address code) →
    I s → s.onContractInitialization E.toConfig address maintainer code used = .ok s' →
    I { s' with history := .created key :: s'.history }
  execute : ∀ s address input gas context, I s → I (E.execute address input gas context s).1
  index : ∀ s index, I s → I { s with networkContractIndex := index }

section Keeps

variable {Ok : Observation → Prop} {I : State → Prop} {w w₁ w₂ : World}

theorem Keeps.refl (w : World) : Keeps Ok I w w := ⟨fun _ h => h, fun _ h => h⟩

theorem Keeps.trans (h₁ : Keeps Ok I w w₁) (h₂ : Keeps Ok I w₁ w₂) : Keeps Ok I w w₂ :=
  ⟨fun _ h => h₂.trace (h₁.trace h),
    fun hok h => h₂.keeps hok (h₁.keeps (fun e he => hok e (h₂.trace he)) h)⟩

/-- Undoing a part of an execution leads back to a state with the invariant. -/
theorem Keeps.undo (h : Keeps Ok I w w₁) : Keeps Ok I w { w₁ with state := w.state } :=
  ⟨h.trace, fun _ hI => hI⟩

/-- A step on the state, without a condition. -/
theorem Keeps.of_state {s : State} (h : I w.state → I s) : Keeps Ok I w { w with state := s } :=
  ⟨fun _ he => he, fun _ hI => h hI⟩

/-- A step on the state that is observed. -/
theorem Keeps.of_observed {s : State} (o : Observation) (h : Ok o → I w.state → I s) :
    Keeps Ok I w ⟨s, o :: w.trace⟩ :=
  ⟨fun _ he => List.mem_cons_of_mem o he, fun hok hI => h (hok o List.mem_cons_self) hI⟩

end Keeps

/-! ### Operations derived from the basic ones -/

namespace StateOps

variable {C : Config} {I : State → Prop} (hI : StateOps I)

include hI

variable {s s' : State} {who : AccountId}

theorem setLedger (h : I s) (l : Ledger AccountId) (accounts : List AccountId) :
    I (s.setLedger C l accounts) :=
  State.setLedger_induction hI.removeAccount
    (fun s mapping h => hI.other s mapping _ _ _ List.prefix_rfl h)
    (fun s ledger h => hI.other s _ ledger _ _ List.prefix_rfl h) h l accounts

theorem onKilledAccount (h : I s) (who : AccountId) : I (s.onKilledAccount C who) :=
  State.onKilledAccount_induction hI.removeAccount
    (fun s mapping h => hI.other s mapping _ _ _ List.prefix_rfl h)
    h who

theorem moveFunds {source target : EvmAddress} {value : ℕ} (h : I s)
    (hok : s.moveFunds C source target value = .ok s') : I s' := by
  obtain ⟨l, -, rfl⟩ := State.moveFunds_eq_ok hok
  exact hI.setLedger h l _

theorem transferAll {source dest : AccountId} (h : I s)
    (hok : s.transferAll C source dest = .ok s') : I s' := by
  obtain ⟨l, -, rfl⟩ := State.transferAll_eq_ok hok
  exact hI.setLedger h l _

theorem markDelete {b : Bool} {address target : EvmAddress} (h : I s)
    (hok : s.markDelete C b address target = .ok s') : I s' := by
  obtain ⟨s₁, htransfer, rfl⟩ := State.markDelete_moved hok
  have hmoved := hI.transferAll (hI.removeAccount s address h) htransfer
  have hgone : s₁.contractInfo address = none := by
    obtain ⟨l, -, rfl⟩ := State.transferAll_eq_ok htransfer
    refine State.setLedger_contractInfo_none ?_ l _
    rw [State.removeAccount_contractInfo, if_pos rfl]
  exact hI.other { s₁ with history := .destroyed address :: s₁.history } _ _ _ _ List.prefix_rfl
    (hI.destroyed s₁ address hgone hmoved)

theorem doTransferMaintainer {contract newMaintainer : EvmAddress} (h : I s)
    (hok : s.doTransferMaintainer who contract newMaintainer = .ok s') : I s' := by
  obtain ⟨info, hinfo, rfl⟩ := State.doTransferMaintainer_eq_ok hok
  exact hI.setContractInfo s contract info _ hinfo rfl h

theorem native (houter : ∀ s o, I s → I { s with outer := o }) (h : I s) (op : NativeOp) :
    I (s.native C op) := by
  cases op with
  | setLedger l accounts => exact hI.setLedger h l accounts
  | transferMaintainer who contract newMaintainer =>
    change I (Fallible.commitOrKeep (s.doTransferMaintainer who contract newMaintainer) s)
    rcases Fallible.commitOrKeep_cases (s.doTransferMaintainer who contract newMaintainer) s with
      ⟨s', hok, heq⟩ | ⟨-, heq⟩
    · rw [heq]
      exact hI.doTransferMaintainer h hok
    · rw [heq]
      exact h
  | setOuter o => exact houter s o h

/-- Precompiles keep an invariant of the storage of the EVM. -/
theorem execute {E : Env} (houter : ∀ s o, I s → I { s with outer := o }) (h : I s)
    (address : EvmAddress) (input : Bytes) (gas : ℕ) (context : Context) :
    I (E.execute address input gas context s).1 := by
  unfold Env.execute
  split
  · exact h
  · exact h
  · -- a core precompile is a sequence of native operations
    next p _ =>
    simp only []
    generalize (E.core p input gas context s).1 = ops
    induction ops generalizing s with
    | nil => exact h
    | cons op ops ih => exact ih (hI.native houter h op)
  · exact h

theorem markDeployed {contract : EvmAddress} {maintainer : Option EvmAddress} (h : I s)
    (hok : s.markDeployed contract maintainer = .ok s') : I s' := by
  obtain ⟨info, hinfo, rfl⟩ := State.markDeployed_eq_ok hok
  exact hI.setContractInfo s contract info _ hinfo rfl h

theorem deploy {contract : EvmAddress} (h : I s) (hok : s.deploy C who contract = .ok s') :
    I s' := by
  unfold State.deploy at hok
  obtain ⟨address, -, hok⟩ := Fallible.bind_eq_ok.mp hok
  obtain ⟨l, -, hok⟩ := Fallible.bind_eq_ok.mp hok
  obtain ⟨s₁, hmark, hok⟩ := Fallible.bind_eq_ok.mp hok
  cases hok
  exact hI.other s₁ _ _ _ _ (List.prefix_append _ _)
    (hI.markDeployed (hI.setLedger h l [who]) hmark)

theorem enableContractDevelopment (h : I s) (hok : s.enableContractDevelopment C who = .ok s') :
    I s' := by
  unfold State.enableContractDevelopment at hok
  obtain ⟨l, -, hok⟩ := Fallible.bind_eq_ok.mp hok
  obtain ⟨-, -, hok⟩ := Fallible.bind_eq_ok.mp hok
  cases hok
  refine hI.other _ _ _ _ _ (List.prefix_append _ _) (hI.setDeveloperDeposit _ _ _ ?_)
  exact hI.other s _ _ _ _ List.prefix_rfl h

theorem disableContractDevelopment (h : I s) (hok : s.disableContractDevelopment who = .ok s') :
    I s' := by
  unfold State.disableContractDevelopment at hok
  obtain ⟨address, -, hok⟩ := Fallible.bind_eq_ok.mp hok
  obtain ⟨info, -, hok⟩ := Fallible.bind_eq_ok.mp hok
  obtain ⟨deposit, -, hok⟩ := Fallible.bind_eq_ok.mp hok
  cases hok
  exact hI.other (s.setDeveloperDeposit address none) _ _ _ _ (List.prefix_append _ _)
    (hI.setDeveloperDeposit s address none h)

/-- The inputs that do not execute code keep the invariant, if `set_code` and the self-destruction
of a contract do. -/
theorem admin {i : Input}
    (hset : ∀ signer contract code s₁, i = .setCode signer contract code →
      s.doSetCode C signer contract code = .ok s₁ → I s₁)
    (hdestruct : ∀ who contract caller s₁, i = .selfdestruct who contract →
      s.getEvmAddress who = some caller →
      s.doSelfdestruct C caller contract = .ok s₁ → I s₁) (h : I s) (hok : s.admin C i = .ok s') :
    I s' := by
  -- all but `set_code` and `selfdestruct` keep the invariant by the rule itself
  cases i with
  | transferMaintainer who contract newMaintainer =>
    obtain ⟨s₁, hs₁, hok⟩ := Fallible.bind_eq_ok.mp hok
    cases hok
    exact hI.other s₁ _ _ _ _ (List.prefix_append _ _) (hI.doTransferMaintainer h hs₁)
  | deploy who contract => exact hI.deploy h hok
  | deployFree contract =>
    obtain ⟨s₁, hs₁, hok⟩ := Fallible.bind_eq_ok.mp hok
    cases hok
    exact hI.other s₁ _ _ _ _ (List.prefix_append _ _) (hI.markDeployed h hs₁)
  | enableContractDevelopment who => exact hI.enableContractDevelopment h hok
  | disableContractDevelopment who => exact hI.disableContractDevelopment h hok
  | setCode signer contract code =>
    obtain ⟨s₁, hs₁, hok⟩ := Fallible.bind_eq_ok.mp hok
    cases hok
    exact hI.other s₁ _ _ _ _ (List.prefix_append _ _) (hset signer contract code s₁ rfl hs₁)
  | selfdestruct who contract =>
    obtain ⟨caller, hcaller, hok⟩ := Fallible.bind_eq_ok.mp hok
    obtain ⟨s₁, hs₁, hok⟩ := Fallible.bind_eq_ok.mp hok
    cases hok
    -- the contract is gone when the history says so
    have hremoved := hdestruct who contract caller s₁ rfl (Fallible.okOr_eq_ok.mp hcaller) hs₁
    exact hI.other { s₁ with history := .destroyed contract :: s₁.history } _ _ _ _
      (List.prefix_append _ _)
      (hI.destroyed s₁ contract
        (State.removeContract_contractInfo (State.doSelfdestruct_eq_ok hs₁).2) hremoved)
  | reap who =>
    cases hok
    exact hI.onKilledAccount h who
  | other ledger mapping =>
    cases hok
    exact hI.other s _ _ _ _ List.prefix_rfl h
  | call | create | createNetworkContract | execute =>
    cases hok
    exact h

end StateOps

namespace StateRule

variable {E : Env} {Ok : Observation → Prop} {I : State → Prop} (hI : StateRule E Ok I)

include hI

/-! ### Executions -/

variable {w : World}

theorem keeps_setStorage {b : Bool} {address : EvmAddress} {index value : H256} {c c' : Chain}
    {w' : World} {r : Except ExitError Unit}
    (h : setStorage b address index value c w = (c', w', r)) : Keeps Ok I w w' := by
  obtain ⟨s', tr'⟩ := w'
  rcases setStorage_cases h with
    ⟨-, h⟩ | ⟨rfl, ⟨-, -, -, rfl⟩ | ⟨-, -, -, rfl⟩ | ⟨-, -, rfl⟩⟩
  · rw [h]
    exact .refl w
  · exact .of_observed _ fun _ => hI.writeStorage w.state address index value
  · exact .of_observed _ fun _ => hI.writeStorage w.state address index value
  · exact .of_state (hI.writeStorage w.state address index value)

theorem keeps_initialise {key : CreateKey} {address maintainer : EvmAddress} {code : Bytes}
    {used : StorageMeter → ℕ × ℤ} {c c' : Chain} {w' : World} {r : Except ExitError Unit}
    (h : Evm.initialise E.toConfig key address maintainer code used c w = (c', w', r)) :
    Keeps Ok I w w' := by
  have hmetered : Keeps Ok I w ⟨w.state.incNonce address,
      .metered c.self.selfUsed (E.contractStorage code) :: w.trace⟩ :=
    .of_observed _ fun _ => hI.incNonce w.state address
  rcases initialise_cases h with ⟨-, ⟨rfl, -⟩ | ⟨s, u, hs, rfl⟩⟩
  · exact hmetered
  · exact hmetered.trans
      (.of_observed _ fun hok hinv => hI.initialise _ key address _ code _ s hok hinv hs)

theorem keeps_finish {origin : EvmAddress} {c : Chain} {w' : World} {above : List StorageMeter}
    {r : DispatchResult} (h : c.finish (World.host E.toConfig origin) w = (above, w', r)) :
    Keeps Ok I w w' := by
  rcases finish_world h with rfl | ⟨l, accounts, l', rfl⟩
  · exact .refl w'
  · exact .of_observed _ fun _ hinv => hI.other _ _ l' _ _ List.prefix_rfl
      (hI.setLedger hinv l accounts)

theorem keeps_incNonce (caller : EvmAddress) (w : World) :
    Keeps Ok I w { w with state := w.state.incNonce caller } :=
  .of_state (hI.incNonce w.state caller)

/-- **Executions keep the invariant.** -/
theorem worldRule : WorldRule E (Keeps Ok I) where
  refl := .refl
  trans := Keeps.trans
  undo := Keeps.undo
  setStorage := hI.keeps_setStorage
  markDelete hok := .of_state fun h => hI.markDelete h hok
  incNonce := hI.keeps_incNonce
  moveFunds hok := .of_state fun h => hI.moveFunds h hok
  dispatch _ _ _ _ _ _ w := .of_observed _ fun _ h => hI.execute w.state _ _ _ _ h
  other mapping ledger events queuedEvents w hevents :=
    .of_state fun h => hI.other w.state mapping ledger events queuedEvents hevents h
  initialise _ hran h := (hI.keeps_incNonce _ _).trans (hran.trans (hI.keeps_initialise h))
  finish := hI.keeps_finish

/-- **Inputs keep the invariant**, if `set_code` and the self-destruction of a contract do. -/
theorem step {i : Input}
    (hset : ∀ signer contract code s₁, i = .setCode signer contract code → I w.state →
      w.state.doSetCode E.toConfig signer contract code = .ok s₁ → I s₁)
    (hdestruct : ∀ who contract caller s₁, i = .selfdestruct who contract → I w.state →
      w.state.getEvmAddress who = some caller →
      w.state.doSelfdestruct E.toConfig caller contract = .ok s₁ → I s₁) :
    Keeps Ok I w (Evm.step E w i) := by
  refine hI.worldRule.step (fun s' hok => .of_state fun hinv => ?_) ?_
  · exact hI.admin (fun signer contract code s₁ hi => hset signer contract code s₁ hi hinv)
      (fun who contract caller s₁ hi => hdestruct who contract caller s₁ hi hinv) hinv hok
  · -- network contracts are created at assigned addresses
    rintro initCode value gasLimit storageLimit prog rfl
    have hrun := hI.worldRule.runRule fun hran h =>
      (hI.keeps_incNonce _ _).trans (hran.trans (hI.keeps_initialise h))
    exact hI.worldRule.createDone
      (f := fun s => { s with networkContractIndex := satAdd 64 s.networkContractIndex 1 })
      (fun w => .of_state (hI.index w.state _)) (hrun.createAtAddress prog.only_any trivial)

end StateRule

/-! ### What only the precompiles change -/

section Outer

variable {E : Env} {P : Outer → Prop}

/-- The storage the core precompiles act on besides that of the EVM is changed by them alone. -/
theorem outer_stateOps (P : Outer → Prop) : StateOps fun s => P s.outer where
  writeStorage _ _ _ _ h := h
  incNonce _ _ h := h
  removeAccount s address h := by
    obtain ⟨codes, infos, heq⟩ := s.removeAccount_eq address
    rw [heq]
    exact h
  setContractInfo s address _ info' _ _ h := by
    obtain ⟨accounts, heq⟩ := s.setContractInfo_eq address info'
    rw [heq]
    exact h
  setDeveloperDeposit _ _ _ h := h
  destroyed _ _ _ h := h
  other _ _ _ _ _ _ h := h

theorem outer_stateRule
    (hexecute : ∀ s address input gas context, P s.outer →
      P (E.execute address input gas context s).1.outer) :
    StateRule E (fun _ => True) fun s => P s.outer where
  toStateOps := outer_stateOps P
  initialise s _ address maintainer code used s' _ h hok := by
    obtain ⟨info, -, -, hcreated⟩ := State.onContractInitialization_eq_ok hok
    obtain ⟨codes, infos, heq⟩ := s.refCode_eq (E.codeHash code) code
    rw [hcreated, heq]
    exact h
  execute := hexecute
  index _ _ h := h

theorem outer_doSetCode {C : Config} {s s' : State} {signer : Option AccountId}
    {contract : EvmAddress} {code : Bytes} (hok : s.doSetCode C signer contract code = .ok s') :
    s'.outer = s.outer := by
  obtain ⟨info, -, -, ⟨-, rfl⟩ | ⟨-, -, rfl⟩⟩ := State.doSetCode_eq_ok hok
  · rfl
  · obtain ⟨codes, infos, heq⟩ := s.refCode_eq (C.codeHash code) code
    rw [heq]

theorem outer_doSelfdestruct {C : Config} {s s' : State} {caller contract : EvmAddress}
    (hok : s.doSelfdestruct C caller contract = .ok s') : s'.outer = s.outer := by
  obtain ⟨info, contractInfo, s₂, -, -, htransfer, rfl⟩ :=
    State.removeContract_eq_ok (State.doSelfdestruct_eq_ok hok).2
  have hunlink : (s.unlink contract contractInfo.codeHash).outer = s.outer := by
    obtain ⟨codes, infos, heq⟩ := State.derefCode_eq
      { s with accountStorages := Function.update s.accountStorages contract ∅ }
      contractInfo.codeHash
    unfold State.unlink
    simp only [heq]
  have hmoved : s₂.outer = s.outer :=
    (outer_stateOps (· = s.outer)).transferAll hunlink htransfer
  exact hmoved

/-- **Inputs keep an invariant of this storage**, if the precompiles do. -/
theorem outer_step
    (hexecute : ∀ s address input gas context, P s.outer →
      P (E.execute address input gas context s).1.outer)
    {w : World} (h : P w.state.outer) (i : Input) : P (Evm.step E w i).state.outer := by
  refine ((outer_stateRule hexecute).step (i := i) ?_ ?_).keeps (fun _ _ => trivial) h
  · intro signer contract code s₁ _ _ hok
    rw [outer_doSetCode hok]
    exact h
  · intro who contract caller s₁ _ _ _ hok
    rw [outer_doSelfdestruct hok]
    exact h

end Outer

/-! ### Events are only added -/

section Events

theorem events_stateOps (l : List Event) : StateOps fun s => l <+: s.events where
  writeStorage _ _ _ _ h := h
  incNonce _ _ h := h
  removeAccount s address h := by
    obtain ⟨codes, infos, heq⟩ := s.removeAccount_eq address
    rw [heq]
    exact h
  setContractInfo s address _ info' _ _ h := by
    obtain ⟨accounts, heq⟩ := s.setContractInfo_eq address info'
    rw [heq]
    exact h
  setDeveloperDeposit _ _ _ h := h
  destroyed _ _ _ h := h
  other _ _ _ _ _ hevents h := h.trans hevents

theorem events_stateRule (E : Env) (l : List Event) :
    StateRule E (fun _ => True) fun s => l <+: s.events where
  toStateOps := events_stateOps l
  initialise s _ address maintainer code used s' _ h hok := by
    obtain ⟨info, -, -, hcreated⟩ := State.onContractInitialization_eq_ok hok
    obtain ⟨codes, infos, heq⟩ := s.refCode_eq (E.codeHash code) code
    rw [hcreated, heq]
    exact h
  execute _ address input gas context h :=
    (events_stateOps l).execute (fun _ _ h => h) h address input gas context
  index _ _ h := h

/-- No call takes back an event that was deposited before it. -/
theorem events_call (E : Env) (sender origin target : EvmAddress)
    (value gasLimit storageLimit : ℕ) (prog : Prog) (w : World) :
    w.state.events <+:
      (Runner.call E sender origin target value gasLimit storageLimit prog w).1.state.events := by
  have hrun := (events_stateRule E w.state.events).worldRule.runRule_unassigned
  exact (hrun.call prog.only_any).keeps (fun _ _ => trivial) List.prefix_rfl

end Events

end Evm
end Reef
