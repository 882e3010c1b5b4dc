import ReefChain.Evm.Frames

/-!
# Top level executions

`Runner` runs a program as the root frame of a transaction: it increases the nonce of the sender,
reserves the storage limit, moves the value and executes. Nonce and trace stay when the transaction
is rolled back; the nonce goes with the extrinsic around it if that fails.

`RunRule` extends the induction principle for frames to whole transactions: with a relation `R` for
the frames and a relation `T` between worlds it is enough to look at how a root frame starts and at
the three ways it can end (`Ends`). `WorldRule` is the special case in which the relation for frames
does not look at the meters and survives the undoing of a frame.
-/

namespace Reef
namespace Evm

open Bounded

/-- `CallInfo`. -/
structure CallInfo where
  exitReason : ExitReason
  output : Bytes
  usedGas : ℕ
  usedStorage : ℤ
  deriving DecidableEq, Repr

/-- `CreateInfo`. -/
structure CreateInfo where
  exitReason : ExitReason
  address : EvmAddress
  output : Bytes
  usedGas : ℕ
  usedStorage : ℤ
  deriving DecidableEq, Repr

/-- `Handler::used_storage`. -/
def Frame.usedStorage (f : Frame) : ℤ := f.meters.self.usedStorage.bmod (2 ^ 32)

/-- `is_undeployed_contract`. -/
def State.isUndeployedContract (s : State) (address : EvmAddress) : Bool :=
  match s.contractInfo address with
  | some info => !info.deployed
  | none => false

/-- `has_permission_to_call`. -/
def State.hasPermissionToCall (s : State) (address : EvmAddress) : Bool :=
  match s.accounts.lookup address with
  | some info => info.contractInfo.isSome || info.developerDeposit.isSome
  | none => false

namespace Runner

/-- `Runner::transfer`. -/
def transfer (C : Config) (source target : EvmAddress) (value : ℕ) (s : State) :
    Except DispatchError State :=
  if value = 0 then .ok s
  else (s.moveFunds C source target value).mapError .currency

/-- Run the root frame: move the value, pay for the transaction and execute. -/
def executeRoot (E : Env) (origin source target : EvmAddress) (value gasLimit : ℕ)
    (cost : State → ℕ) (prog : Prog) (root : Chain) (w : World) :
    Except (World × DispatchError) Exit :=
  match transfer E.toConfig source target value w.state with
  | .error e => .error (w, e)
  | .ok s =>
    let w := { w with state := s }
    match (Gasometer.new gasLimit).recordTransaction (cost s) with
    | (_, .error _) => .error (w, .other "OutOfGas")
    | (g, .ok _) =>
      .ok (execute (prog.exec E origin) ⟨target, source, value⟩ false ⟨g, root⟩ w)

/-- The root frame of `Runner::call`. -/
def callBody (E : Env) (sender origin target : EvmAddress) (value gasLimit : ℕ) (prog : Prog)
    (root : Chain) (w : World) :
    Chain × World × TransactionOutcome (Except DispatchError CallInfo) :=
  let cost := fun s : State => E.transactionCost (s.codeAtAddress E.toConfig target)
  match executeRoot E origin sender target value gasLimit cost prog root w with
  | .error (w, e) => (root, w, .rollback (.error e))
  | .ok x =>
    let info : CallInfo := ⟨x.reason, x.output, x.frame.gasometer.usedGas, x.frame.usedStorage⟩
    if x.reason.isSucceed then (x.frame.meters, x.world, .commit (.ok info))
    else (x.frame.meters, x.world, .rollback (.ok info))

/-- `Runner::call`. -/
def call (E : Env) (sender origin target : EvmAddress) (value gasLimit storageLimit : ℕ)
    (prog : Prog) (w : World) : World × Except DispatchError CallInfo :=
  if w.state.isUndeployedContract target && !w.state.hasPermissionToCall sender then
    (w, .error (.module .noPermission))
  else
    let w := { w with state := w.state.incNonce sender }
    match runTransaction (World.host E.toConfig origin) target storageLimit
        (callBody E sender origin target value gasLimit prog) w with
    | (w, .ok result) => (w, result)
    | (w, .error e) => (w, .error e)

/-- The root frame of `Runner::inner_create`. -/
def createBody (E : Env) (key : CreateKey) (source address : EvmAddress) (initCode : Bytes)
    (value gasLimit : ℕ) (prog : Prog) (root : Chain) (w : World) :
    Chain × World × TransactionOutcome (Except DispatchError CreateInfo) :=
  match executeRoot E source source address value gasLimit (fun _ => E.transactionCost initCode)
      prog root w with
  | .error (w, e) => (root, w, .rollback (.error e))
  | .ok x =>
    let f := x.frame
    let info : CreateInfo := ⟨x.reason, address, [], f.gasometer.usedGas, f.usedStorage⟩
    if x.reason.isSucceed then
      match f.gasometer.recordDeposit x.output.length with
      | (_, .error e) => (f.meters, x.world, .rollback (.ok { info with exitReason := .error e }))
      | (g, .ok _) =>
        let info := { info with usedGas := g.usedGas }
        let used := fun m : StorageMeter => (g.usedGas, m.usedStorage.bmod (2 ^ 32))
        match initialise E.toConfig key address source x.output used f.meters x.world with
        | (c, w, .error e) => (c, w, .rollback (.ok { info with exitReason := .error e }))
        | (c, w, .ok _) =>
          (c, w, .commit (.ok { info with usedStorage := c.self.usedStorage.bmod (2 ^ 32) }))
    else (f.meters, x.world, .rollback (.ok { info with output := x.output }))

/-- `Runner::inner_create`, once the address is known. -/
def createAt (E : Env) (key : CreateKey) (source address : EvmAddress) (initCode : Bytes)
    (value gasLimit storageLimit : ℕ) (prog : Prog) (w : World) :
    World × Except DispatchError CreateInfo :=
  let w := { w with state := w.state.incNonce source }
  match runTransaction (World.host E.toConfig source) address storageLimit
      (createBody E key source address initCode value gasLimit prog) w with
  | (w, .ok result) => (w, result)
  | (w, .error e) => (w, .error e)

/-- `Runner::create` and, with a salt, `Runner::create2`. -/
def create (E : Env) (source : EvmAddress) (initCode : Bytes) (salt : Option H256)
    (value gasLimit storageLimit : ℕ) (prog : Prog) (w : World) :
    World × Except DispatchError CreateInfo :=
  let scheme := createScheme E.toConfig source salt initCode
  match createAddress E.toConfig scheme w.state with
  | .error _ => (w, .error (.module .conflictContractAddress))
  | .ok address =>
    createAt E (scheme.key w.state) source address initCode value gasLimit storageLimit prog w

/-- `Runner::create_at_address`. -/
def createAtAddress (E : Env) (source : EvmAddress) (initCode : Bytes) (value : ℕ)
    (address : EvmAddress) (gasLimit storageLimit : ℕ) (prog : Prog) (w : World) :
    World × Except DispatchError CreateInfo :=
  createAt E (.assigned address) source address initCode value gasLimit storageLimit prog w

end Runner

/-! ### Sequences of executions -/

/-- A top level execution. -/
inductive Execution
  /-- `Runner::call` from an extrinsic. -/
  | call (sender origin target : EvmAddress) (value gasLimit storageLimit : ℕ) (prog : Prog)
  /-- `Runner::call` through `EVM::execute`, the way other pallets call contracts. A view is always
  rolled back. -/
  | execute (sender origin target : EvmAddress) (value gasLimit storageLimit : ℕ) (isView : Bool)
      (prog : Prog)
  /-- `Runner::create` or, with a salt, `Runner::create2`. -/
  | create (source : EvmAddress) (initCode : Bytes) (salt : Option H256)
      (value gasLimit storageLimit : ℕ) (prog : Prog)
  /-- `Runner::create_at_address`. -/
  | createAtAddress (source : EvmAddress) (initCode : Bytes) (value : ℕ) (address : EvmAddress)
      (gasLimit storageLimit : ℕ) (prog : Prog)

/-- The address a contract is to be created at, if the execution assigns one. -/
def Execution.assigned : Execution → Option EvmAddress
  | .createAtAddress _ _ _ address _ _ _ => some address
  | _ => none

/-- The end of a transactional extrinsic: an error undoes it. -/
def transactional {ρ : Type} (w : World) (x : World × Except DispatchError ρ) : World :=
  match x.2 with
  | .ok _ => x.1
  | .error _ => { x.1 with state := w.state }

/-- The end of `EVM::execute`: everything but a success in execution mode is undone. -/
def executed (w : World) (sender target : EvmAddress) (isView : Bool)
    (x : World × Except DispatchError CallInfo) : World :=
  match x.2 with
  | .ok info =>
    if info.exitReason.isSucceed && !isView then
      { x.1 with
        state := x.1.state.depositEvent (.executed sender target info.usedGas info.usedStorage) }
    else { x.1 with state := w.state }
  | .error _ => { x.1 with state := w.state }

/-- Carry out a top level execution. -/
def Execution.step (E : Env) (w : World) : Execution → World
  | .call sender origin target value gasLimit storageLimit prog =>
    transactional w (Runner.call E sender origin target value gasLimit storageLimit prog w)
  | .execute sender origin target value gasLimit storageLimit isView prog =>
    executed w sender target isView
      (Runner.call E sender origin target value gasLimit storageLimit prog w)
  | .create source initCode salt value gasLimit storageLimit prog =>
    transactional w (Runner.create E source initCode salt value gasLimit storageLimit prog w)
  | .createAtAddress source initCode value address gasLimit storageLimit prog =>
    transactional w
      (Runner.createAtAddress E source initCode value address gasLimit storageLimit prog w)

/-- The chain a transaction starts with. -/
abbrev Chain.root (contract : EvmAddress) (limit : ℕ) : Chain := ⟨.new contract limit, []⟩

variable {E : Env} {origin : EvmAddress}

/-- A root frame that runs has moved the value and paid the base cost. -/
theorem Runner.executeRoot_eq_ok {source target : EvmAddress} {value gasLimit : ℕ}
    {cost : State → ℕ} {prog : Prog} {root : Chain} {w : World} {x : Exit}
    (h : Runner.executeRoot E origin source target value gasLimit cost prog root w = .ok x) :
    ∃ s g, Runner.transfer E.toConfig source target value w.state = .ok s ∧
      (Gasometer.new gasLimit).recordTransaction (cost s) = (g, .ok ()) ∧
      x = Evm.execute (prog.exec E origin) ⟨target, source, value⟩ false ⟨g, root⟩
        { w with state := s } := by
  unfold Runner.executeRoot at h
  split at h
  · cases h
  · next s htransfer =>
    simp only [] at h
    split at h
    · cases h
    · next g u hcost =>
      cases h
      exact ⟨s, g, htransfer, hcost, rfl⟩

/-- A call ends with the result of its transaction. -/
theorem Runner.call_transaction {sender target : EvmAddress} {value gasLimit storageLimit : ℕ}
    {prog : Prog} {w w' : World} {info : CallInfo}
    (h : Runner.call E sender origin target value gasLimit storageLimit prog w = (w', .ok info)) :
    runTransaction (World.host E.toConfig origin) target storageLimit
      (Runner.callBody E sender origin target value gasLimit prog)
      { w with state := w.state.incNonce sender } = (w', .ok (.ok info)) := by
  unfold Runner.call at h
  split at h
  · cases h
  · simp only [] at h
    split at h
    · next heq =>
      cases h
      exact heq
    · cases h

/-- A call ends where it began, refused, or where its transaction ends. -/
theorem Runner.call_world (E : Env) (sender origin target : EvmAddress)
    (value gasLimit storageLimit : ℕ) (prog : Prog) (w : World) :
    (Runner.call E sender origin target value gasLimit storageLimit prog w).1 = w ∨
      (Runner.call E sender origin target value gasLimit storageLimit prog w).1 =
        (runTransaction (World.host E.toConfig origin) target storageLimit
          (Runner.callBody E sender origin target value gasLimit prog)
          { w with state := w.state.incNonce sender }).1 := by
  unfold Runner.call
  split
  · exact .inl rfl
  · right
    simp only []
    split
    · next heq => rw [heq]
    · next heq => rw [heq]

/-- A creation ends where its transaction ends. -/
theorem Runner.createAt_world (E : Env) (key : CreateKey) (source address : EvmAddress)
    (initCode : Bytes) (value gasLimit storageLimit : ℕ) (prog : Prog) (w : World) :
    (Runner.createAt E key source address initCode value gasLimit storageLimit prog w).1 =
      (runTransaction (World.host E.toConfig source) address storageLimit
        (Runner.createBody E key source address initCode value gasLimit prog)
        { w with state := w.state.incNonce source }).1 := by
  unfold Runner.createAt
  simp only []
  split
  · next heq => rw [heq]
  · next heq => rw [heq]

/-- **What a call that returns has done.** The storage limit was reserved, the value moved and the
base cost paid; then the program has run. If it succeeds its meter was finished, otherwise
everything but the nonce of the sender is undone. -/
theorem Runner.call_eq_ok {sender target : EvmAddress} {value gasLimit storageLimit : ℕ}
    {prog : Prog} {w w' : World} {info : CallInfo}
    (h : Runner.call E sender origin target value gasLimit storageLimit prog w = (w', .ok info)) :
    ∃ w₁ s g,
      (World.host E.toConfig origin).reserveStorage
        { w with state := w.state.incNonce sender } storageLimit = (w₁, .ok ()) ∧
      Runner.transfer E.toConfig sender target value w₁.state = .ok s ∧
      (Gasometer.new gasLimit).recordTransaction
        (E.transactionCost (s.codeAtAddress E.toConfig target)) = (g, .ok ()) ∧
      let x := Evm.execute (prog.exec E origin) ⟨target, sender, value⟩ false
        ⟨g, .root target storageLimit⟩ { w₁ with state := s }
      info = ⟨x.reason, x.output, x.frame.gasometer.usedGas, x.frame.usedStorage⟩ ∧
      (x.reason.isSucceed = true → ∃ above,
        x.frame.meters.finish (World.host E.toConfig origin) x.world = (above, w', .ok ())) ∧
      (x.reason.isSucceed = false →
        w' = { x.world with state := w.state.incNonce sender }) := by
  obtain ⟨w₁, hreserve, hend⟩ := runTransaction_eq_ok (Runner.call_transaction h)
  -- the body was executed, for otherwise it would have answered with an error
  cases hroot : Runner.executeRoot E origin sender target value gasLimit
      (fun s => E.transactionCost (s.codeAtAddress E.toConfig target)) prog
      ⟨.new target storageLimit, []⟩ w₁ with
  | error e =>
    simp only [Runner.callBody, hroot] at hend
    rcases hend with ⟨above, hend, -⟩ | ⟨hend, -⟩
    · cases hend
    · cases hend
  | ok x =>
    obtain ⟨s, g, htransfer, hcost, hx⟩ := Runner.executeRoot_eq_ok hroot
    refine ⟨w₁, s, g, hreserve, htransfer, hcost, ?_⟩
    simp only [Runner.callBody, hroot] at hend
    have hx : Evm.execute (prog.exec E origin) ⟨target, sender, value⟩ false
        ⟨g, .root target storageLimit⟩ { w₁ with state := s } = x := hx.symm
    rw [hx]
    by_cases hsucceed : x.reason.isSucceed = true
    · rw [if_pos hsucceed] at hend
      rcases hend with ⟨above, hcommit, hfin⟩ | ⟨hrollback, -⟩
      · cases hcommit
        exact ⟨rfl, fun _ => ⟨above, hfin⟩, fun hfails => absurd hsucceed (by simp [hfails])⟩
      · cases hrollback
    · rw [if_neg hsucceed] at hend
      rcases hend with ⟨above, hcommit, -⟩ | ⟨hrollback, hundone⟩
      · cases hcommit
      · cases hrollback
        exact ⟨rfl, fun h => absurd h hsucceed, fun _ => hundone⟩

/-! ### The induction principle -/

/-- The root frame satisfies a relation for frames up to the point where its code has run. -/
theorem ExecRule.executeRoot {A : Request → Bool}
    {R S : Bool → Chain → World → Chain → World → Prop} (hR : ExecRule E origin A R S)
    (source target : EvmAddress) (value gasLimit limit : ℕ) (cost : State → ℕ) (prog : Prog)
    (hprog : prog.Only A = true) (w : World) :
    (∀ w₁ e, Runner.executeRoot E origin source target value gasLimit cost prog
        (.root target limit) w = .error (w₁, e) →
      FrameRule.Holds R false (.root target limit) w (.root target limit) w₁) ∧
    (∀ x, Runner.executeRoot E origin source target value gasLimit cost prog
        (.root target limit) w = .ok x →
      FrameRule.Holds R false (.root target limit) w x.frame.meters x.world) := by
  -- a value of zero is not moved at all
  have hmoved : ∀ s, Runner.transfer E.toConfig source target value w.state = .ok s →
      FrameRule.Holds R false (.root target limit) w (.root target limit)
        { w with state := s } := by
    intro s hs
    unfold Runner.transfer at hs
    split at hs
    · cases hs
      exact hR.holds_refl _ _ _
    · exact ⟨.refl _, hR.moveFunds _ _ _ _ _ (Fallible.mapError_eq_ok.mp hs)⟩
  unfold Runner.executeRoot
  split
  · refine ⟨fun w₁ e h => ?_, fun x h => ?_⟩
    · cases h
      exact hR.holds_refl _ _ _
    · cases h
  · next s hs =>
    simp only []
    split
    · refine ⟨fun w₁ e h => ?_, fun x h => ?_⟩
      · cases h
        exact hmoved s hs
      · cases h
    · next g u hcost =>
      -- the base cost is paid, and the code runs
      refine ⟨fun w₁ e h => ?_, fun x h => ?_⟩
      · cases h
      · cases h
        rw [execute_meters, execute_world]
        exact hR.holds_trans (hmoved s hs)
          (hR.exec prog hprog (f := ⟨g, .root target limit⟩) rfl)

/-- The relation `T` holds from `w` on, however a root frame that has come to `c` and `w'` ends. -/
structure Ends (E : Env) (origin : EvmAddress) (T : World → World → Prop) (w : World) (c : Chain)
    (w' : World) : Prop where
  commit : ∀ {above w''}, c.finish (World.host E.toConfig origin) w' = (above, w'', .ok ()) →
    T w w''
  refused : ∀ {above w'' e},
    c.finish (World.host E.toConfig origin) w' = (above, w'', .error e) →
    T w { w'' with state := w.state }
  rollback : T w { w' with state := w.state }

/-- What relations for frames and for transactions have to satisfy to hold of every transaction with
a program that makes only the requests of `A`. Contracts are created at assigned addresses only if
these are `assignable`. -/
structure RunRule (E : Env) (A : Request → Bool) (assignable : EvmAddress → Prop)
    (R : EvmAddress → Bool → Chain → World → Chain → World → Prop)
    (T : World → World → Prop) : Prop where
  frame : ∀ origin, FrameRule E origin A (R origin)
  refl : ∀ w, T w w
  /-- The nonce of the sender stays increased when the transaction is undone. -/
  undone : ∀ source {w w' : World}, T w { w' with state := w.state } →
    T w { w' with state := w.state.incNonce source }
  reserve : ∀ {origin contract limit w w'},
    (World.host E.toConfig origin).reserveStorage w limit = (w', .ok ()) →
    R origin false (.root contract limit) w (.root contract limit) w'
  assigned : ∀ {source address limit code used} {w : World} {c₁ w₁ c₂ w₂ r}, assignable address →
    (Chain.root address limit).Over c₁ →
    R source false (.root address limit) { w with state := w.state.incNonce source } c₁ w₁ →
    initialise E.toConfig (.assigned address) address source code used c₁ w₁ = (c₂, w₂, r) →
    Ends E source T w c₂ w₂
  ends : ∀ {origin contract limit w c w'}, (Chain.root contract limit).Over c →
    R origin false (.root contract limit) w c w' → Ends E origin T w c w'

namespace RunRule

variable {E : Env} {A : Request → Bool} {assignable : EvmAddress → Prop}
  {R : EvmAddress → Bool → Chain → World → Chain → World → Prop} {T : World → World → Prop}
  (hT : RunRule E A assignable R T)

include hT

variable {origin source : EvmAddress} {w : World} {value gasLimit storageLimit : ℕ} {prog : Prog}

/-- A transaction satisfies the relation, from before the nonce of its sender is increased, if it
holds however the root frame ends. -/
theorem runTransaction {ρ : Type} {contract : EvmAddress} {limit : ℕ} (source : EvmAddress)
    {body : Chain → World → Chain × World × TransactionOutcome ρ}
    (hbody : ∀ w', (World.host E.toConfig origin).reserveStorage
        { w with state := w.state.incNonce source } limit = (w', .ok ()) →
      Ends E origin T w (body (.root contract limit) w').1 (body (.root contract limit) w').2.1) :
    T w (Evm.runTransaction (World.host E.toConfig origin) contract limit body
      { w with state := w.state.incNonce source }).1 := by
  unfold Evm.runTransaction
  split
  · next w' e hreserve =>
    -- nothing has been observed when the reservation fails
    have htrace : w'.trace = w.trace := congrArg (·.1.trace) hreserve.symm
    change T w { w' with state := w.state.incNonce source }
    rw [htrace]
    exact hT.undone source (hT.refl w)
  · next w' u hreserve =>
    have hends := hbody w' hreserve
    split
    · next c w₁ r heq =>
      rw [heq] at hends
      split
      · next above w₂ v hfin => exact hends.commit hfin
      · next above w₂ e hfin => exact hT.undone source (hends.refused hfin)
    · next c w₁ r heq =>
      rw [heq] at hends
      exact hT.undone source hends.rollback

/-- The root frame satisfies the relation up to the point where its code has run. -/
theorem executeRoot (source target : EvmAddress) (value gasLimit : ℕ) {limit : ℕ} (cost : State → ℕ)
    (prog : Prog) (hprog : prog.Only A = true) {w' : World}
    (hreserve : (World.host E.toConfig origin).reserveStorage w limit = (w', .ok ())) :
    (∀ w₁ e, Runner.executeRoot E origin source target value gasLimit cost prog
        (.root target limit) w' = .error (w₁, e) →
      FrameRule.Holds (R origin) false (.root target limit) w (.root target limit) w₁) ∧
    (∀ x, Runner.executeRoot E origin source target value gasLimit cost prog
        (.root target limit) w' = .ok x →
      FrameRule.Holds (R origin) false (.root target limit) w x.frame.meters x.world) := by
  have hstart : FrameRule.Holds (R origin) false (.root target limit) w (.root target limit) w' :=
    ⟨.refl _, hT.reserve hreserve⟩
  obtain ⟨hfailed, hran⟩ := (hT.frame origin).execRule.executeRoot source target value gasLimit
    limit cost prog hprog w'
  exact ⟨fun w₁ e h => (hT.frame origin).holds_trans hstart (hfailed w₁ e h),
    fun x h => (hT.frame origin).holds_trans hstart (hran x h)⟩

/-- The root frame may be followed from before the nonce of the sender is increased. -/
theorem ends_of_holds {contract : EvmAddress} {limit : ℕ} {c : Chain} {w' : World}
    (h : FrameRule.Holds (R origin) false (.root contract limit)
      { w with state := w.state.incNonce source } c w') : Ends E origin T w c w' :=
  hT.ends h.1 ((hT.frame origin).trans ((hT.frame origin).incNonce source _ w) h.2)

/-- **Calls.** Every call satisfies the relation for transactions. -/
theorem call {sender target : EvmAddress} (hprog : prog.Only A = true) :
    T w (Runner.call E sender origin target value gasLimit storageLimit prog w).1 := by
  have hrun : T w (Evm.runTransaction (World.host E.toConfig origin) target storageLimit
      (Runner.callBody E sender origin target value gasLimit prog)
      { w with state := w.state.incNonce sender }).1 := by
    refine hT.runTransaction sender fun w' hreserve => ?_
    obtain ⟨hfailed, hran⟩ := hT.executeRoot sender target value gasLimit
      (fun s => E.transactionCost (s.codeAtAddress E.toConfig target)) prog hprog hreserve
    unfold Runner.callBody
    simp only []
    split
    · next w₁ e h => exact hT.ends_of_holds (hfailed w₁ e h)
    · next x h =>
      have hends := hT.ends_of_holds (hran x h)
      split
      · exact hends
      · exact hends
  rcases Runner.call_world E sender origin target value gasLimit storageLimit prog w with heq | heq
  · rw [heq]
    exact hT.refl w
  · rw [heq]
    exact hrun

/-- A creation satisfies the relation if its last step, the initialisation of the contract, does. -/
theorem createAt {key : CreateKey} {address : EvmAddress} {initCode : Bytes}
    (hprog : prog.Only A = true)
    (hinit : ∀ {code used c₁ w₁ c₂ w₂ r},
      FrameRule.Holds (R source) false (.root address storageLimit)
        { w with state := w.state.incNonce source } c₁ w₁ →
      initialise E.toConfig key address source code used c₁ w₁ = (c₂, w₂, r) →
      Ends E source T w c₂ w₂) :
    T w (Runner.createAt E key source address initCode value gasLimit storageLimit prog w).1 := by
  have hrun : T w (Evm.runTransaction (World.host E.toConfig source) address storageLimit
      (Runner.createBody E key source address initCode value gasLimit prog)
      { w with state := w.state.incNonce source }).1 := by
    refine hT.runTransaction source fun w' hreserve => ?_
    obtain ⟨hfailed, hran⟩ := hT.executeRoot source address value gasLimit
      (fun _ => E.transactionCost initCode) prog hprog hreserve
    unfold Runner.createBody
    split
    · next w₁ e h => exact hT.ends_of_holds (hfailed w₁ e h)
    · next x h =>
      have hx := hran x h
      simp only []
      split
      · split
        · exact hT.ends_of_holds hx
        · split
          · next hi => exact hinit hx hi
          · next hi => exact hinit hx hi
      · exact hT.ends_of_holds hx
  rw [Runner.createAt_world]
  exact hrun

/-- **Creations.** Every creation satisfies the relation for transactions. -/
theorem create {initCode : Bytes} {salt : Option H256} (hA : A .create = true)
    (hprog : prog.Only A = true) :
    T w (Runner.create E source initCode salt value gasLimit storageLimit prog w).1 := by
  unfold Runner.create
  simp only []
  split
  · exact hT.refl w
  · next address haddress =>
    refine hT.createAt hprog fun hran hi => hT.ends (hran.1.trans (initialise_over hi)) ?_
    exact (hT.frame source).initialise hA haddress rfl hran.1 hran.2 hi

/-- **Creations at assigned addresses.** -/
theorem createAtAddress {address : EvmAddress} {initCode : Bytes} (hprog : prog.Only A = true)
    (h : assignable address) :
    T w (Runner.createAtAddress E source initCode value address gasLimit storageLimit prog w).1 :=
  hT.createAt hprog fun hran hi => hT.assigned h hran.1 hran.2 hi

omit hT in
/-- Calls through `EVM::execute` satisfy the relation if undoing a transaction and depositing an
event keep it. -/
theorem executed {sender target : EvmAddress} {isView : Bool}
    {x : World × Except DispatchError CallInfo}
    (hundo : ∀ {w w'}, T w w' → T w { w' with state := w.state })
    (hevent : ∀ {w w'} e, T w w' → T w { w' with state := w'.state.depositEvent e }) (h : T w x.1) :
    T w (Evm.executed w sender target isView x) := by
  unfold Evm.executed
  split
  · split
    · exact hevent _ h
    · exact hundo h
  · exact hundo h

omit hT in
/-- **Executions.** If undoing a transaction and depositing an event keep the relation and all
requests are allowed, every top level execution that creates contracts at assignable addresses
satisfies it. -/
theorem step (hT : RunRule E Request.any assignable R T)
    (hundo : ∀ {w w'}, T w w' → T w { w' with state := w.state })
    (hevent : ∀ {w w'} e, T w w' → T w { w' with state := w'.state.depositEvent e }) (w : World)
    (x : Execution) (hx : ∀ address ∈ x.assigned, assignable address) :
    T w (x.step E w) := by
  have htransactional : ∀ {ρ : Type} {y : World × Except DispatchError ρ}, T w y.1 →
      T w (transactional w y) := by
    intro ρ y hy
    unfold transactional
    split
    · exact hy
    · exact hundo hy
  cases x with
  | call sender origin target value gasLimit storageLimit prog =>
    exact htransactional (hT.call prog.only_any)
  | execute sender origin target value gasLimit storageLimit isView prog =>
    exact RunRule.executed hundo hevent (hT.call prog.only_any)
  | create source initCode salt value gasLimit storageLimit prog =>
    exact htransactional (hT.create rfl prog.only_any)
  | createAtAddress source initCode value address gasLimit storageLimit prog =>
    exact htransactional (hT.createAtAddress prog.only_any (hx address rfl))

end RunRule

/-! ### Relations between worlds -/

/-- What a relation between worlds that does not look at the meters has to satisfy to hold of every
execution of a frame. -/
structure WorldRule (E : Env) (T : World → World → Prop) : Prop where
  refl : ∀ w, T w w
  trans : ∀ {w₁ w₂ w₃}, T w₁ w₂ → T w₂ w₃ → T w₁ w₃
  undo : ∀ {w w' : World}, T w w' → T w { w' with state := w.state }
  setStorage : ∀ {b address index value c w c' w' r},
    Evm.setStorage b address index value c w = (c', w', r) → T w w'
  markDelete : ∀ {b address target} {w : World} {s},
    w.state.markDelete E.toConfig b address target = .ok s → T w { w with state := s }
  incNonce : ∀ caller (w : World), T w { w with state := w.state.incNonce caller }
  moveFunds : ∀ {source target value} {w : World} {s},
    w.state.moveFunds E.toConfig source target value = .ok s → T w { w with state := s }
  dispatch : ∀ issuer (scheme : CallScheme) dest value input gas w,
    T w (Evm.dispatch E issuer scheme dest input gas (scheme.context issuer dest value) w).1
  /-- What does not concern contracts. Events are only added. -/
  other : ∀ mapping ledger events queuedEvents (w : World), w.state.events <+: events →
    T w { w with
      state := { w.state with
        mapping := mapping
        ledger := ledger
        events := events
        queuedEvents := queuedEvents } }
  initialise : ∀ {origin caller salt initCode address code used} {w : World} {c₁ w₁ c₂ w₂ r},
    createAddress E.toConfig (createScheme E.toConfig caller salt initCode) w.state = .ok address →
    T { w with state := w.state.incNonce caller } w₁ →
    Evm.initialise E.toConfig ((createScheme E.toConfig caller salt initCode).key w.state) address
      origin code used c₁ w₁ = (c₂, w₂, r) →
    T w w₂
  finish : ∀ {origin} {c : Chain} {w above w' r},
    c.finish (World.host E.toConfig origin) w = (above, w', r) → T w w'

namespace WorldRule

variable {E : Env} {T : World → World → Prop} (hT : WorldRule E T)

include hT

/-- The relation holds of every execution of a frame. -/
theorem frameRule (A : Request → Bool) (origin : EvmAddress) :
    FrameRule E origin A fun _ _ w _ w' => T w w' where
  refl _ _ w := hT.refl w
  trans := hT.trans
  setStorage _ _ _ _ _ _ _ h := hT.setStorage h
  log _ _ _ _ w := hT.other _ _ _ _ w (List.prefix_append _ _)
  markDelete _ _ _ _ _ h := hT.markDelete h
  incNonce caller _ w := hT.incNonce caller w
  moveFunds _ _ _ _ _ _ h := hT.moveFunds h
  dispatch _ issuer scheme dest value input gas _ w :=
    hT.dispatch issuer scheme dest value input gas w
  initialise _ _ _ _ _ _ _ _ _ _ _ _ _ _ haddress _ _ hran h := hT.initialise haddress hran h
  commit _ _ _ hran h := hT.trans hran (hT.finish h)
  refused _ _ _ hran h := hT.undo (hT.trans hran (hT.finish h))
  rollback _ _ _ hran := hT.undo hran

/-- A weaker relation `T'` holds of every transaction, if it holds when a contract has been created
at an assigned address. -/
theorem runRule_of {A : Request → Bool} {assignable : EvmAddress → Prop} {T' : World → World → Prop}
    (hle : ∀ {w w'}, T w w' → T' w w') (htrans : ∀ {w₁ w₂ w₃}, T' w₁ w₂ → T w₂ w₃ → T' w₁ w₃)
    (hundo : ∀ {w w' : World}, T' w w' → T' w { w' with state := w.state })
    (hassigned : ∀ {source address code used} {w : World} {c₁ w₁ c₂ w₂ r}, assignable address →
      T { w with state := w.state.incNonce source } w₁ →
      Evm.initialise E.toConfig (.assigned address) address source code used c₁ w₁ = (c₂, w₂, r) →
      T' w w₂) :
    RunRule E A assignable (fun _ _ _ w _ w' => T w w') T' := by
  have hends : ∀ {origin w c w'}, T' w w' → Ends E origin T' w c w' := fun h =>
    { commit := fun hfin => htrans h (hT.finish hfin)
      refused := fun hfin => hundo (htrans h (hT.finish hfin))
      rollback := hundo h }
  refine ⟨hT.frameRule A, fun w => hle (hT.refl w), fun source _ w' h => ?_, fun h => ?_,
    fun ha _ hran h => hends (hassigned ha hran h), fun _ hran => hends (hle hran)⟩
  · exact htrans h (hT.incNonce source _)
  · obtain rfl := (congrArg Prod.fst h).symm
    exact hT.other _ _ _ _ _ List.prefix_rfl

/-- The relation holds of every transaction that creates no contract at an assigned address. -/
theorem runRule_unassigned :
    RunRule E Request.any (fun _ => False) (fun _ _ _ w _ w' => T w w') T :=
  hT.runRule_of (fun h => h) hT.trans hT.undo fun h => h.elim

/-- The relation holds of every transaction. -/
theorem runRule
    (hassigned : ∀ {source address code used} {w : World} {c₁ w₁ c₂ w₂ r},
      T { w with state := w.state.incNonce source } w₁ →
      Evm.initialise E.toConfig (.assigned address) address source code used c₁ w₁ = (c₂, w₂, r) →
      T w w₂) :
    RunRule E Request.any (fun _ => True) (fun _ _ _ w _ w' => T w w') T :=
  hT.runRule_of (fun h => h) hT.trans hT.undo fun _ => hassigned

end WorldRule

/-! ### New observations -/

/-- What was observed between two worlds is of the kind `P`. -/
def Observes (P : Observation → Prop) (w w' : World) : Prop := ∀ e ∈ w'.trace, e ∈ w.trace ∨ P e

section Observes

variable {P : Observation → Prop} {w w₁ w₂ : World}

theorem Observes.of_trace_eq (h : w₁.trace = w.trace) : Observes P w w₁ := by
  intro e he
  rw [h] at he
  exact .inl he

theorem Observes.of_cons {e : Observation} (hP : P e) (h : w₁.trace = e :: w.trace) :
    Observes P w w₁ := by
  intro e' he'
  rw [h] at he'
  rcases List.mem_cons.mp he' with rfl | hold
  · exact .inr hP
  · exact .inl hold

theorem Observes.trans (h₁ : Observes P w w₁) (h₂ : Observes P w₁ w₂) : Observes P w w₂ := by
  intro e he
  rcases h₂ e he with he₁ | hP
  · exact h₁ e he₁
  · exact .inr hP

/-- Observations are not undone. -/
theorem Observes.undo (h : Observes P w w₁) (s : State) : Observes P w { w₁ with state := s } := h

end Observes

end Evm
end Reef
