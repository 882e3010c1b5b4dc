import ReefChain.Evm.Handler

/-!
# Nested frames

The two requests of a frame that run another frame, `Handler::create` and `Handler::call`, and the
execution of programs.

`FrameRule` is the induction principle for executions. A relation between the meters and the world
before and after a part of an execution holds of every execution if it is reflexive and transitive,
if every single request of a frame satisfies it, and if it is passed on from a nested frame to the
frame around it in each of the three ways a nested frame can end: committed, refused when its meter
is finished, rolled back. The relation may depend on whether the frame is static. That the frames
around the executed one wait (`Chain.Over`) need not be part of the relation: it is proved along the
way, and the rules for the end of a nested frame may use it.

Some relations hold only of programs that do not create contracts, or do not self-destruct. Whether
a program makes such a request, in its own or in a nested frame, can be read off it (`Prog.Only`),
and the principle comes with the set of requests that are allowed.
-/

namespace Reef
namespace Evm

open Bounded

/-- How a frame runs its code. -/
abbrev Exec := Context → Bool → Frame → World → Exit

/-- `Handler::execute`: failures have no output, and a fatal one uses up the gas. -/
def execute (run : Exec) (context : Context) (isStatic : Bool) (f : Frame) (w : World) : Exit :=
  let x := run context isStatic f w
  match x.reason with
  | .succeed _ => x
  | .revert => x
  | .error _ => { x with output := [] }
  | .fatal =>
    { x with frame := { x.frame with gasometer := x.frame.gasometer.fail }, output := [] }

/-! ### Creations -/

/-- The scheme of `CREATE` and `CREATE2`, with the hash of the init code. -/
def createScheme (C : Config) (caller : EvmAddress) (salt : Option H256) (initCode : Bytes) :
    CreateScheme :=
  match salt with
  | none => .legacy caller
  | some salt => .create2 caller (C.codeHash initCode) salt

/-- What a nested creation ends with. -/
abbrev CreateExit := ExitReason × Option EvmAddress × Bytes

/-- The nested frame of `Handler::create`. -/
def createBody (E : Env) (origin caller address : EvmAddress) (key : CreateKey)
    (value targetGas : ℕ) (isStatic : Bool) (run : Exec) (child : Chain) (p : Gasometer × World) :
    Chain × (Gasometer × World) × TransactionOutcome CreateExit :=
  match p.2.state.transfer E.toConfig ⟨caller, address, value⟩ with
  | .error e => (child, p, .rollback (.error e, none, []))
  | .ok s =>
    let x := execute run ⟨address, caller, value⟩ isStatic ⟨.new targetGas, child⟩
      { p.2 with state := s }
    match x.reason with
    | .revert => (x.frame.meters, (p.1, x.world), .rollback (.revert, none, x.output))
    | .error e => (x.frame.meters, (p.1, x.world), .rollback (.error e, none, []))
    | .fatal => (x.frame.meters, (p.1.fail, x.world), .rollback (.fatal, none, []))
    | .succeed reason =>
      match x.frame.gasometer.recordDeposit x.output.length with
      | (_, .error e) => (x.frame.meters, (p.1, x.world), .rollback (.error e, none, []))
      | (sub, .ok _) =>
        match p.1.giveBack sub with
        | (g, .error e) => (x.frame.meters, (g, x.world), .rollback (.error e, none, []))
        | (g, .ok _) =>
          let used := fun _ => (sub.gas, (E.contractStorage x.output : ℤ).bmod (2 ^ 32))
          match initialise E.toConfig key address origin x.output used x.frame.meters x.world with
          | (c, w, .error e) => (c, (g, w), .rollback (.error e, none, []))
          | (c, w, .ok _) => (c, (g, w), .commit (.succeed reason, some address, []))

/-- `Handler::create`, for the schemes of the opcodes. -/
def create (E : Env) (origin : EvmAddress) (isStatic : Bool) (caller : EvmAddress)
    (salt : Option H256) (value : ℕ) (initCode : Bytes) (run : Exec) (f : Frame) (w : World) :
    Exit × Option EvmAddress :=
  if isStatic then (⟨f, w, .error .outOfGas, []⟩, none)
  else
    let targetGas := E.targetGas f.gasometer none
    match f.gasometer.recordCost targetGas with
    | (g, .error e) => (⟨{ f with gasometer := g }, w, .error e, []⟩, none)
    | (g, .ok _) =>
      let scheme := createScheme E.toConfig caller salt initCode
      match createAddress E.toConfig scheme w.state with
      | .error e => (⟨{ f with gasometer := g }, w, .error e, []⟩, none)
      | .ok address =>
        let body := createBody E origin caller address (scheme.key w.state) value targetGas
          isStatic run
        let w := { w with state := w.state.incNonce caller }
        match runSubTransaction ((World.host E.toConfig origin).keep Gasometer) address body
            f.meters (g, w) with
        | (c, (g, w), .ok (reason, created, out)) => (⟨⟨g, c⟩, w, reason, out⟩, created)
        | (c, (g, w), .error e) => (⟨⟨g, c⟩, w, .error (.other e.message), []⟩, none)

/-! ### Calls -/

/-- `Precompiles::execute`, observed. -/
def dispatch (E : Env) (issuer : Context) (scheme : CallScheme) (codeAddress : EvmAddress)
    (input : Bytes) (targetGas : ℕ) (context : Context) (w : World) :
    World × Option PrecompileResult :=
  let (s, result) := E.execute codeAddress input targetGas context w.state
  (⟨s, .dispatched issuer scheme codeAddress context (route codeAddress context.caller) :: w.trace⟩,
    result)

/-- The transfer a call starts with, if it has one. -/
def transferOf (C : Config) (transfer : Option Transfer) (s : State) : Except ExitError State :=
  match transfer with
  | none => .ok s
  | some t => s.transfer C t

/-- The nested frame of `Handler::call`. -/
def callBody (E : Env) (issuer : Context) (scheme : CallScheme) (codeAddress : EvmAddress)
    (transfer : Option Transfer) (input : Bytes) (targetGas : ℕ) (isStatic : Bool)
    (context : Context) (run : Exec) (child : Chain) (p : Gasometer × World) :
    Chain × (Gasometer × World) × TransactionOutcome (ExitReason × Bytes) :=
  match transferOf E.toConfig transfer p.2.state with
  | .error e => (child, p, .rollback (.error e, []))
  | .ok s =>
    let w := { p.2 with state := s }
    match p.1.recordCost targetGas with
    | (g, .error e) => (child, (g, w), .rollback (.error e, []))
    | (g, .ok _) =>
      match dispatch E issuer scheme codeAddress input targetGas context w with
      | (w, some (.error e)) => (child, (g, w), .rollback (.error e, []))
      | (w, some (.ok (reason, out, cost))) =>
        match (Gasometer.new targetGas).recordCost cost with
        | (_, .error e) => (child, (g, w), .rollback (.error e, []))
        | (sub, .ok _) =>
          match g.giveBack sub with
          | (g, .error e) => (child, (g, w), .rollback (.error e, []))
          | (g, .ok _) => (child, (g, w), .commit (.succeed reason, out))
      | (w, none) =>
        let x := execute run context isStatic ⟨.new targetGas, child⟩ w
        match x.reason with
        | .revert => (x.frame.meters, (g, x.world), .rollback (.revert, x.output))
        | .error e => (x.frame.meters, (g, x.world), .rollback (.error e, []))
        | .fatal => (x.frame.meters, (g.fail, x.world), .rollback (.fatal, []))
        | .succeed reason =>
          match g.giveBack x.frame.gasometer with
          | (g, .error e) => (x.frame.meters, (g, x.world), .rollback (.error e, []))
          | (g, .ok _) => (x.frame.meters, (g, x.world), .commit (.succeed reason, x.output))

/-- `Handler::call`. The `issuer` and its `scheme` are only observed. -/
def call (E : Env) (origin : EvmAddress) (isStatic : Bool) (issuer : Context)
    (scheme : CallScheme) (codeAddress : EvmAddress) (transfer : Option Transfer) (input : Bytes)
    (gas : Option ℕ) (isStaticCall : Bool) (context : Context) (run : Exec) (f : Frame)
    (w : World) : Exit :=
  if isStatic ∧ transfer.isSome then ⟨f, w, .error .outOfGas, []⟩
  else
    let targetGas := E.targetGas f.gasometer gas
    let targetGas :=
      if ∃ t ∈ transfer, t.value ≠ 0 then satAdd 64 targetGas E.callStipend else targetGas
    let body := callBody E issuer scheme codeAddress transfer input targetGas
      (isStatic || isStaticCall) context run
    match runSubTransaction ((World.host E.toConfig origin).keep Gasometer) context.address body
        f.meters (f.gasometer, w) with
    | (c, (g, w), .ok (reason, out)) => ⟨⟨g, c⟩, w, reason, out⟩
    | (c, (g, w), .error e) => ⟨⟨g, c⟩, w, .error (.other e.message), []⟩

/-- The context of a call, by opcode. -/
def CallScheme.context (issuer : Context) (dest : EvmAddress) (value : ℕ) : CallScheme → Context
  | .call | .staticCall => ⟨dest, issuer.address, value⟩
  | .callCode => ⟨issuer.address, issuer.address, value⟩
  | .delegateCall => issuer

/-- The transfer of a call, by opcode. -/
def CallScheme.transfer (issuer : Context) (dest : EvmAddress) (value : ℕ) :
    CallScheme → Option Transfer
  | .call => some ⟨issuer.address, dest, value⟩
  | .callCode => some ⟨issuer.address, issuer.address, value⟩
  | .delegateCall | .staticCall => none

/-! ### Programs -/

/-- The requests of a frame to its handler, in order. -/
inductive Prog
  | exit (reason : ExitReason) (output : Bytes)
  /-- `pre_validate`: the gas an instruction costs, and the refund it earns. -/
  | cost (gas : ℕ) (refund : ℤ) (next : Prog)
  | setStorage (index value : H256) (next : Prog)
  | log (topics : List H256) (data : Bytes) (next : Prog)
  | selfdestruct (target : EvmAddress)
  /-- `CREATE`, or `CREATE2` with a salt; `init` is the program of the init code. -/
  | create (salt : Option H256) (value : ℕ) (initCode : Bytes) (init next : Prog)
  /-- A call opcode; `callee` is the program of the code at `dest`. -/
  | call (scheme : CallScheme) (dest : EvmAddress) (value : ℕ) (input : Bytes) (gas : Option ℕ)
      (callee next : Prog)

/-- Run a program in a frame. A fatal error of a nested frame ends the frame around it too; every
other outcome of a nested frame is left to the program. -/
def Prog.exec (E : Env) (origin : EvmAddress) : Prog → Exec
  | .exit reason output, _, _, f, w => ⟨f, w, reason, output⟩
  | .cost gas refund next, ctx, isStatic, f, w =>
    match f.gasometer.recordCost gas with
    | (g, .error e) => ⟨{ f with gasometer := g }, w, .error e, []⟩
    | (g, .ok _) =>
      next.exec E origin ctx isStatic { f with gasometer := (g.recordRefund refund).1 } w
  | .setStorage index value next, ctx, isStatic, f, w =>
    match Evm.setStorage isStatic ctx.address index value f.meters w with
    | (c, w, .error e) => ⟨{ f with meters := c }, w, .error e, []⟩
    | (c, w, .ok _) => next.exec E origin ctx isStatic { f with meters := c } w
  | .log topics data next, ctx, isStatic, f, w =>
    next.exec E origin ctx isStatic f { w with state := w.state.log ctx.address topics data }
  | .selfdestruct target, ctx, isStatic, f, w =>
    match w.state.markDelete E.toConfig isStatic ctx.address target with
    | .error e => ⟨f, w, .error e, []⟩
    | .ok s => ⟨f, { w with state := s }, .succeed .suicided, []⟩
  | .create salt value initCode init next, ctx, isStatic, f, w =>
    let (x, _) := Evm.create E origin isStatic ctx.address salt value initCode
      (init.exec E origin) f w
    match x.reason with
    | .fatal => x
    | _ => next.exec E origin ctx isStatic x.frame x.world
  | .call scheme dest value input gas callee next, ctx, isStatic, f, w =>
    let x := Evm.call E origin isStatic ctx scheme dest (scheme.transfer ctx dest value) input gas
      (scheme = .staticCall) (scheme.context ctx dest value) (callee.exec E origin) f w
    match x.reason with
    | .fatal => x
    | _ => next.exec E origin ctx isStatic x.frame x.world

/-- The requests that a program may be known not to make. -/
inductive Request
  | create
  | selfdestruct
  deriving DecidableEq, Repr

/-- All requests are allowed. -/
def Request.any : Request → Bool := fun _ => true

/-- The program makes only requests that are allowed, in whatever frame. -/
def Prog.Only (A : Request → Bool) : Prog → Bool
  | .exit _ _ => true
  | .cost _ _ next => next.Only A
  | .setStorage _ _ next => next.Only A
  | .log _ _ next => next.Only A
  | .selfdestruct _ => A .selfdestruct
  | .create _ _ _ init next => A .create && init.Only A && next.Only A
  | .call _ _ _ _ _ callee next => callee.Only A && next.Only A

theorem Prog.only_any (prog : Prog) : prog.Only Request.any = true := by
  induction prog with
  | exit reason output => rfl
  | cost gas refund next ih => exact ih
  | setStorage index value next ih => exact ih
  | log topics data next ih => exact ih
  | selfdestruct target => rfl
  | create salt value initCode init next ihInit ihNext =>
    rw [Prog.Only, ihInit, ihNext]
    rfl
  | call scheme dest value input gas callee next ihCallee ihNext =>
    rw [Prog.Only, ihCallee, ihNext]
    rfl

/-! ### Meters next to a kept value -/

section Keep

variable {σ γ : Type} (H : Host σ)

theorem chargeStorage_keep (contract : EvmAddress) (used refunded : ℕ) (ms : List StorageMeter)
    (g : γ) (s : σ) :
    chargeStorage (H.keep γ) contract used refunded ms (g, s) =
      let (ms, s, result) := chargeStorage H contract used refunded ms s
      (ms, (g, s), result) := by
  induction ms generalizing s with
  | nil => rfl
  | cons m ms ih =>
    simp only [chargeStorage]
    cases m.result with
    | error e => rfl
    | ok u =>
      simp only []
      rw [ih]

theorem unreserveStorage_keep (limit used refunded : ℕ) (ms : List StorageMeter) (g : γ) (s : σ) :
    unreserveStorage (H.keep γ) limit used refunded ms (g, s) =
      let (s, result) := unreserveStorage H limit used refunded ms s
      ((g, s), result) := by
  cases ms <;> rfl

/-- Finishing a meter does not touch the kept value. -/
theorem Chain.finish_keep (c : Chain) (g : γ) (s : σ) :
    c.finish (H.keep γ) (g, s) =
      let (above, s, result) := c.finish H s
      (above, (g, s), result) := by
  unfold Chain.finish
  cases c.self.result with
  | error e => rfl
  | ok u =>
    simp only []
    by_cases hlimit : c.self.withinLimit
    · rw [if_pos hlimit, if_pos hlimit, chargeStorage_keep]
      rcases chargeStorage H c.self.contract c.self.selfUsed c.self.selfRefunded c.above s with
        ⟨above, s', e | u⟩
      · rfl
      · simp only [unreserveStorage_keep]
    · rw [if_neg hlimit, if_neg hlimit]

end Keep

/-! ### Meters above a frame -/

/-- A later state `m'` of the meter `m` of a frame that waits for a nested one: only the totals may
have changed. -/
structure StorageMeter.Kept (m m' : StorageMeter) : Prop where
  contract : m'.contract = m.contract
  selfUsed : m'.selfUsed = m.selfUsed
  selfRefunded : m'.selfRefunded = m.selfRefunded

theorem StorageMeter.Kept.refl (m : StorageMeter) : m.Kept m := ⟨rfl, rfl, rfl⟩

theorem StorageMeter.Kept.trans {m₁ m₂ m₃ : StorageMeter} (h₁ : m₁.Kept m₂) (h₂ : m₂.Kept m₃) :
    m₁.Kept m₃ :=
  ⟨h₂.contract.trans h₁.contract, h₂.selfUsed.trans h₁.selfUsed,
    h₂.selfRefunded.trans h₁.selfRefunded⟩

/-- The chains before and after a part of an execution of a frame: the frame is that of the same
contract, and the frames around it wait. -/
structure Chain.Over (c c' : Chain) : Prop where
  contract : c'.self.contract = c.self.contract
  above : List.Forall₂ StorageMeter.Kept c.above c'.above

theorem keptAll_refl (ms : List StorageMeter) : List.Forall₂ StorageMeter.Kept ms ms :=
  List.forall₂_same.mpr fun m _ => .refl m

theorem keptAll_trans {ms₁ ms₂ ms₃ : List StorageMeter}
    (h₁ : List.Forall₂ StorageMeter.Kept ms₁ ms₂) (h₂ : List.Forall₂ StorageMeter.Kept ms₂ ms₃) :
    List.Forall₂ StorageMeter.Kept ms₁ ms₃ := by
  induction h₁ generalizing ms₃ with
  | nil =>
    cases h₂
    exact .nil
  | cons h _ ih =>
    cases h₂ with
    | cons h' hs' => exact .cons (h.trans h') (ih hs')

theorem Chain.Over.refl (c : Chain) : c.Over c := ⟨rfl, keptAll_refl c.above⟩

theorem Chain.Over.trans {c₁ c₂ c₃ : Chain} (h₁ : c₁.Over c₂) (h₂ : c₂.Over c₃) : c₁.Over c₃ :=
  ⟨h₂.contract.trans h₁.contract, keptAll_trans h₁.above h₂.above⟩

section Above

variable {σ : Type} {H : Host σ}

variable {s s' : σ} {r : DispatchResult}

theorem chargeStorage_kept {contract : EvmAddress} {used refunded : ℕ} {ms ms' : List StorageMeter}
    (h : chargeStorage H contract used refunded ms s = (ms', s', r)) :
    List.Forall₂ StorageMeter.Kept ms ms' := by
  induction ms generalizing s ms' s' r with
  | nil =>
    cases h
    exact .nil
  | cons m ms ih =>
    unfold chargeStorage at h
    split at h
    · cases h
      exact keptAll_refl _
    · cases h
      exact .cons ⟨rfl, rfl, rfl⟩ (ih rfl)

/-- Finishing the meter of a frame touches only the totals of the meters above it. -/
theorem Chain.finish_kept {c : Chain} {above : List StorageMeter}
    (h : c.finish H s = (above, s', r)) : List.Forall₂ StorageMeter.Kept c.above above := by
  unfold Chain.finish at h
  split at h
  · cases h
    exact keptAll_refl _
  · split at h
    · split at h
      · next hcharge =>
        cases h
        exact chargeStorage_kept hcharge
      · next hcharge =>
        cases h
        exact chargeStorage_kept hcharge
    · cases h
      exact keptAll_refl _

/-- A settlement either is stopped by a meter on its way up or reaches the host. -/
theorem chargeStorage_host {contract : EvmAddress} {used refunded : ℕ} {ms ms' : List StorageMeter}
    (h : chargeStorage H contract used refunded ms s = (ms', s', r)) :
    (s' = s ∧ ∃ e, r = .error e) ∨ H.chargeStorage s contract used refunded = (s', r) := by
  induction ms generalizing s ms' s' r with
  | nil =>
    cases h
    exact .inr rfl
  | cons m ms ih =>
    unfold chargeStorage at h
    split at h
    · next e he =>
      cases h
      exact .inl ⟨rfl, e, rfl⟩
    · cases h
      exact ih rfl

/-- What finishing a meter does to the host: nothing, a charge that is refused, or a charge that is
accepted, after which the root meter has what is left unreserved. -/
theorem Chain.finish_host {c : Chain} {above : List StorageMeter}
    (h : c.finish H s = (above, s', r)) :
    (s' = s ∧ ∃ e, r = .error e) ∨
    (∃ e, H.chargeStorage s c.self.contract c.self.selfUsed c.self.selfRefunded =
      (s', .error e) ∧ r = .error e) ∨
    ∃ s₁, H.chargeStorage s c.self.contract c.self.selfUsed c.self.selfRefunded = (s₁, .ok ()) ∧
      unreserveStorage H c.self.newLimit c.self.selfUsed c.self.selfRefunded above s₁ =
        (s', r) := by
  unfold Chain.finish at h
  split at h
  · next e he =>
    cases h
    exact .inl ⟨rfl, e, rfl⟩
  · split at h
    · split at h
      · next e hcharge =>
        -- the charge is refused, by the meter itself or by the host
        cases h
        rcases chargeStorage_host hcharge with ⟨rfl, -⟩ | hhost
        · exact .inl ⟨rfl, e, rfl⟩
        · exact .inr (.inl ⟨e, hhost, rfl⟩)
      · next s₁ u hcharge =>
        -- the charge is accepted, so the host has been asked
        cases h
        rcases chargeStorage_host hcharge with ⟨-, e, he⟩ | hhost
        · cases he
        · exact .inr (.inr ⟨s₁, hhost, rfl⟩)
    · cases h
      exact .inl ⟨rfl, _, rfl⟩

end Above

variable {c : Chain}

/-- The meter of a new frame. -/
theorem Chain.childMeter_eq_ok {child : Chain} {contract : EvmAddress}
    (h : c.childMeter contract = .ok child) :
    child = ⟨.new contract c.self.availableStorage, c.self :: c.above⟩ := by
  unfold Chain.childMeter at h
  split at h
  · cases h
    rfl
  · cases h

/-- The meter of a new frame is that of its contract. -/
theorem Chain.contract_childMeter {child : Chain} {contract : EvmAddress}
    (h : c.childMeter contract = .ok child) : child.self.contract = contract := by
  rw [Chain.childMeter_eq_ok h]
  rfl

/-- Back from a nested frame, the frame around it is where it was. -/
theorem Chain.Over.back {child : Chain} {contract : EvmAddress} {above : List StorageMeter}
    (hchild : c.childMeter contract = .ok child)
    (h : List.Forall₂ StorageMeter.Kept child.above above) : c.Over (c.back above) := by
  rw [Chain.childMeter_eq_ok hchild] at h
  cases h with
  | cons h hs => exact ⟨h.contract, hs⟩

theorem Chain.charge_over (c : Chain) (storage : ℕ) : c.Over (c.charge storage).1 := by
  refine ⟨?_, keptAll_refl _⟩
  change (c.self.charge storage).1.contract = c.self.contract
  unfold StorageMeter.charge StorageMeter.handle
  split <;> rfl

theorem Chain.refund_over (c : Chain) (storage : ℕ) : c.Over (c.refund storage).1 := by
  refine ⟨?_, keptAll_refl _⟩
  change (c.self.refund storage).1.contract = c.self.contract
  unfold StorageMeter.refund StorageMeter.handle
  split <;> rfl

theorem setStorage_over {b : Bool} {address : EvmAddress} {index value : H256} {c' : Chain}
    {w w' : World} {r : Except ExitError Unit}
    (h : setStorage b address index value c w = (c', w', r)) : c.Over c' := by
  rcases setStorage_cases h with
    ⟨rfl, -⟩ | ⟨-, ⟨-, -, rfl, -⟩ | ⟨-, -, rfl, -⟩ | ⟨-, rfl, -⟩⟩
  · exact .refl c'
  · exact c.refund_over STORAGE_SIZE
  · exact c.charge_over STORAGE_SIZE
  · exact .refl c'

theorem initialise_over {C : Config} {key : CreateKey} {address maintainer : EvmAddress}
    {code : Bytes} {used : StorageMeter → ℕ × ℤ} {c' : Chain} {w w' : World}
    {r : Except ExitError Unit}
    (h : initialise C key address maintainer code used c w = (c', w', r)) : c.Over c' := by
  rw [(initialise_cases h).1]
  exact c.charge_over (C.contractStorage code)

/-- What finishing a meter does to the world: nothing, or the settlement moves funds, and the root
unreserves what is left. -/
theorem finish_world {C : Config} {origin : EvmAddress} {w w' : World} {above : List StorageMeter}
    {r : DispatchResult} (h : c.finish (World.host C origin) w = (above, w', r)) :
    w' = w ∨ ∃ l accounts l',
      w' = ⟨{ w.state.setLedger C l accounts with ledger := l' },
        .settled w.state c.self.contract c.self.selfUsed c.self.selfRefunded :: w.trace⟩ := by
  rcases Chain.finish_host h with ⟨rfl, -⟩ | ⟨e, h₁, -⟩ | ⟨w₁, h₁, h₂⟩
  · exact .inl rfl
  · obtain rfl := congrArg Prod.fst h₁
    exact .inr ⟨_, _, _, rfl⟩
  · obtain rfl := congrArg Prod.fst h₁
    cases above with
    | nil | cons =>
      obtain rfl := congrArg Prod.fst h₂
      exact .inr ⟨_, _, _, rfl⟩

/-! ### The induction principle -/

/-- What a relation has to satisfy of the requests of a frame with the given origin, other than
creations, and of the nested frames that ask to be committed. `R isStatic c w c' w'` relates the
meters and the world before and after a part of the execution. -/
structure FrameSteps (E : Env) (origin : EvmAddress) (A : Request → Bool)
    (R : Bool → Chain → World → Chain → World → Prop) : Prop where
  refl : ∀ b c w, R b c w c w
  trans : ∀ {b c₁ w₁ c₂ w₂ c₃ w₃}, R b c₁ w₁ c₂ w₂ → R b c₂ w₂ c₃ w₃ → R b c₁ w₁ c₃ w₃
  setStorage : ∀ index value c w {c' w' r},
    Evm.setStorage false c.self.contract index value c w = (c', w', r) → R false c w c' w'
  log : ∀ b topics data c w,
    R b c w c { w with state := w.state.log c.self.contract topics data }
  markDelete : A .selfdestruct = true → ∀ target c w {s},
    w.state.markDelete E.toConfig false c.self.contract target = .ok s →
    R false c w c { w with state := s }
  incNonce : ∀ caller c w, R false c w c { w with state := w.state.incNonce caller }
  moveFunds : ∀ source target value c w {s},
    w.state.moveFunds E.toConfig source target value = .ok s → R false c w c { w with state := s }
  dispatch : ∀ b issuer (scheme : CallScheme) dest value input gas c w,
    R b c w c (Evm.dispatch E issuer scheme dest input gas (scheme.context issuer dest value) w).1
  /-- A nested frame is committed. -/
  commit : ∀ {b b' contract c w child child' w' above w''}, (b = true → b' = true) →
    c.childMeter contract = .ok child → child.Over child' → R b' child w child' w' →
    child'.finish (World.host E.toConfig origin) w' = (above, w'', .ok ()) →
    R b c w (c.back above) w''
  /-- A nested frame is undone because its meter cannot be finished. -/
  refused : ∀ {b b' contract c w child child' w' above w'' e}, (b = true → b' = true) →
    c.childMeter contract = .ok child → child.Over child' → R b' child w child' w' →
    child'.finish (World.host E.toConfig origin) w' = (above, w'', .error e) →
    R b c w (c.back above) { w'' with state := w.state }

/-- What a relation has to satisfy to hold of every execution of a frame with the given origin, by
programs that make only the requests of `A`. -/
structure FrameRule (E : Env) (origin : EvmAddress) (A : Request → Bool)
    (R : Bool → Chain → World → Chain → World → Prop) : Prop extends FrameSteps E origin A R where
  /-- The creation of a contract is looked at from the point where its address is fixed. The nonce
  of the caller is increased before the init code runs. -/
  initialise : A .create = true →
    ∀ {caller salt initCode address code used child} {w : World} {c₁ w₁ c₂ w₂ r},
    createAddress E.toConfig (createScheme E.toConfig caller salt initCode) w.state = .ok address →
    child.self.contract = address → child.Over c₁ →
    R false child { w with state := w.state.incNonce caller } c₁ w₁ →
    Evm.initialise E.toConfig ((createScheme E.toConfig caller salt initCode).key w.state) address
      origin code used c₁ w₁ = (c₂, w₂, r) →
    R false child w c₂ w₂
  /-- A nested frame asks to be rolled back. -/
  rollback : ∀ {b b' contract c w child child' w'}, (b = true → b' = true) →
    c.childMeter contract = .ok child → child.Over child' → R b' child w child' w' →
    R b c w (c.back child'.above) { w' with state := w.state }

/-- The same with a second, weaker relation `S` for frames that are going to be undone: a creation
whose contract cannot be initialised is not followed any further. -/
structure ExecRule (E : Env) (origin : EvmAddress) (A : Request → Bool)
    (R S : Bool → Chain → World → Chain → World → Prop) : Prop
    extends FrameSteps E origin A R where
  weaken : ∀ {b c w c' w'}, R b c w c' w' → S b c w c' w'
  initialise : A .create = true →
    ∀ {caller salt initCode address code used child} {w : World} {c₁ w₁ c₂ w₂},
    createAddress E.toConfig (createScheme E.toConfig caller salt initCode) w.state = .ok address →
    child.self.contract = address → child.Over c₁ →
    R false child { w with state := w.state.incNonce caller } c₁ w₁ →
    Evm.initialise E.toConfig ((createScheme E.toConfig caller salt initCode).key w.state) address
      origin code used c₁ w₁ = (c₂, w₂, .ok ()) →
    R false child w c₂ w₂
  /-- The contract of a creation could not be initialised. -/
  aborted : A .create = true →
    ∀ {caller salt initCode address code used child} {w : World} {c₁ w₁ c₂ w₂ e},
    createAddress E.toConfig (createScheme E.toConfig caller salt initCode) w.state = .ok address →
    child.self.contract = address → child.Over c₁ →
    R false child { w with state := w.state.incNonce caller } c₁ w₁ →
    Evm.initialise E.toConfig ((createScheme E.toConfig caller salt initCode).key w.state) address
      origin code used c₁ w₁ = (c₂, w₂, .error e) →
    S false child w c₂ w₂
  rollback : ∀ {b b' contract c w child child' w'}, (b = true → b' = true) →
    c.childMeter contract = .ok child → child.Over child' → S b' child w child' w' →
    R b c w (c.back child'.above) { w' with state := w.state }

/-- One relation for all frames. -/
theorem FrameRule.execRule {E : Env} {origin : EvmAddress} {A : Request → Bool}
    {R : Bool → Chain → World → Chain → World → Prop} (hR : FrameRule E origin A R) :
    ExecRule E origin A R R where
  toFrameSteps := hR.toFrameSteps
  weaken h := h
  initialise hA := hR.initialise hA
  aborted hA := hR.initialise hA
  rollback := hR.rollback

@[simp] theorem execute_meters (run : Exec) (ctx : Context) (b : Bool) (f : Frame) (w : World) :
    (execute run ctx b f w).frame.meters = (run ctx b f w).frame.meters := by
  unfold execute
  simp only []
  split <;> rfl

@[simp] theorem execute_world (run : Exec) (ctx : Context) (b : Bool) (f : Frame) (w : World) :
    (execute run ctx b f w).world = (run ctx b f w).world := by
  unfold execute
  simp only []
  split <;> rfl

/-- A relation between the meters and the world, where the frames around the executed one wait. -/
def FrameRule.Holds (R : Bool → Chain → World → Chain → World → Prop) (b : Bool) (c : Chain)
    (w : World) (c' : Chain) (w' : World) : Prop :=
  c.Over c' ∧ R b c w c' w'

namespace ExecRule

open FrameRule (Holds)

variable {E : Env} {origin : EvmAddress} {A : Request → Bool}
  {R S : Bool → Chain → World → Chain → World → Prop} (hR : ExecRule E origin A R S)

include hR

theorem holds_refl (b : Bool) (c : Chain) (w : World) : Holds R b c w c w :=
  ⟨.refl c, hR.refl b c w⟩

variable {b : Bool} {w : World} {value : ℕ} {run : Exec}

theorem holds_trans {c₁ c₂ c₃ : Chain} {w₁ w₂ w₃ : World} (h₁ : Holds R b c₁ w₁ c₂ w₂)
    (h₂ : Holds R b c₂ w₂ c₃ w₃) : Holds R b c₁ w₁ c₃ w₃ :=
  ⟨h₁.1.trans h₂.1, hR.trans h₁.2 h₂.2⟩

/-- What is known of a frame whatever it asks for is known of it if it is going to be undone. -/
theorem either {c c' : Chain} {w' : World} (h : Holds R b c w c' w') {p : Prop} :
    (p → Holds R b c w c' w') ∧ Holds S b c w c' w' :=
  ⟨fun _ => h, h.1, hR.weaken h.2⟩

/-- A nested frame passes the relation on to the frame around it. It may be followed from a world
`w₀` before the one the frame is started in, if undoing the frame can be too. -/
theorem sub {b' : Bool} (hb : b = true → b' = true) {ρ : Type} {contract : EvmAddress}
    {body : Chain → Gasometer × World → Chain × (Gasometer × World) × TransactionOutcome ρ}
    {c : Chain} {g : Gasometer} {w₀ : World} (hstart : Holds R b c w₀ c w)
    (hundo : ∀ {c' : Chain} {w' : World}, Holds R b c w₀ c' { w' with state := w₀.state } →
      Holds R b c w₀ c' { w' with state := w.state })
    (hbody : ∀ child, c.childMeter contract = .ok child →
      ((∃ r, (body child (g, w)).2.2 = .commit r) →
        Holds R b' child w₀ (body child (g, w)).1 (body child (g, w)).2.1.2) ∧
      Holds S b' child w₀ (body child (g, w)).1 (body child (g, w)).2.1.2) {c' : Chain}
    {g' : Gasometer} {w' : World} {r : Except DispatchError ρ}
    (h : runSubTransaction ((World.host E.toConfig origin).keep Gasometer) contract body c (g, w) =
      (c', (g', w'), r)) : Holds R b c w₀ c' w' := by
  unfold runSubTransaction at h
  split at h
  · cases h
    exact hstart
  · next child hchild =>
    obtain ⟨hcommit, hundone⟩ := hbody child hchild
    split at h
    · next child' p r' heq =>
      obtain ⟨g₁, w₁⟩ := p
      rw [heq] at hcommit
      have hrun := hcommit ⟨r', rfl⟩
      rw [Chain.finish_keep] at h
      -- the frame asks to commit, and its meter decides
      rcases hfin : child'.finish (World.host E.toConfig origin) w₁ with ⟨above, w₂, e | u⟩
      · simp only [hfin] at h
        cases h
        exact hundo ⟨.back hchild (keptAll_trans hrun.1.above (Chain.finish_kept hfin)),
          hR.refused hb hchild hrun.1 hrun.2 hfin⟩
      · simp only [hfin] at h
        cases h
        exact ⟨.back hchild (keptAll_trans hrun.1.above (Chain.finish_kept hfin)),
          hR.commit hb hchild hrun.1 hrun.2 hfin⟩
    · next child' p r' heq =>
      obtain ⟨g₁, w₁⟩ := p
      rw [heq] at hundone
      cases h
      exact hundo ⟨.back hchild hundone.1.above, hR.rollback hb hchild hundone.1 hundone.2⟩

theorem transfer {t : Transfer} (c : Chain) (w : World) {s : State}
    (h : w.state.transfer E.toConfig t = .ok s) : Holds R false c w c { w with state := s } :=
  ⟨.refl c, hR.moveFunds _ _ _ c w (Fallible.mapError_eq_ok.mp h)⟩

/-- The nested frame of a call satisfies the relation if its code does. -/
theorem callBody {issuer : Context} {scheme : CallScheme} {dest : EvmAddress} {gas : ℕ}
    {input : Bytes} {child : Chain} {g : Gasometer}
    (htransfer : (scheme.transfer issuer dest value).isSome → b = false)
    (hrun : ∀ f w, f.meters = child →
      Holds R b child w (run (scheme.context issuer dest value) b f w).frame.meters
        (run (scheme.context issuer dest value) b f w).world) :
    Holds R b child w
      (Evm.callBody E issuer scheme dest (scheme.transfer issuer dest value) input gas b
        (scheme.context issuer dest value) run child (g, w)).1
      (Evm.callBody E issuer scheme dest (scheme.transfer issuer dest value) input gas b
        (scheme.context issuer dest value) run child (g, w)).2.1.2 := by
  unfold Evm.callBody
  split
  · exact hR.holds_refl b child w
  · next s hs =>
    -- the transfer, if there is one
    have hmoved : Holds R b child w child { w with state := s } := by
      unfold transferOf at hs
      split at hs
      · cases hs
        exact hR.holds_refl b child w
      · next t ht =>
        obtain rfl := htransfer (by rw [ht]; rfl)
        exact hR.transfer child w hs
    simp only []
    split
    · exact hmoved
    · -- the precompiles
      have hsent := hR.holds_trans hmoved
        ⟨.refl child,
          hR.dispatch b issuer scheme dest value input gas child { w with state := s }⟩
      split
      · next heq =>
        rw [heq] at hsent
        exact hsent
      · next heq =>
        rw [heq] at hsent
        split
        · exact hsent
        · split <;> exact hsent
      · next w' heq =>
        rw [heq] at hsent
        -- the code of the callee
        have hdone := hR.holds_trans hsent (hrun ⟨.new gas, child⟩ w' rfl)
        split
        · simpa using hdone
        · simpa using hdone
        · simpa using hdone
        · split
          · simpa using hdone
          · simpa using hdone

/-- The nested frame of a creation satisfies the relation if its init code does and it commits. -/
theorem createBody (hA : A .create = true) {caller address : EvmAddress} {salt : Option H256}
    {initCode : Bytes} {gas : ℕ} {child : Chain} {g : Gasometer}
    (haddress : createAddress E.toConfig (createScheme E.toConfig caller salt initCode) w.state =
      .ok address) (hchild : child.self.contract = address)
    (hrun : ∀ f w, f.meters = child →
      Holds R false child w (run ⟨address, caller, value⟩ false f w).frame.meters
        (run ⟨address, caller, value⟩ false f w).world) :
    let w₁ : World := { w with state := w.state.incNonce caller }
    let x := Evm.createBody E origin caller address
      ((createScheme E.toConfig caller salt initCode).key w.state) value gas false run child (g, w₁)
    ((∃ r, x.2.2 = .commit r) → Holds R false child w x.1 x.2.1.2) ∧
      Holds S false child w x.1 x.2.1.2 := by
  intro w₁ x
  simp only [x]
  have hinc : Holds R false child w child w₁ := ⟨.refl child, hR.incNonce caller child w⟩
  unfold Evm.createBody
  split
  · exact hR.either hinc
  · next s hs =>
    have hmoved : Holds R false child w₁ child { w₁ with state := s } := hR.transfer child w₁ hs
    have hran := hR.holds_trans hmoved (hrun ⟨.new gas, child⟩ { w₁ with state := s } rfl)
    have hdone := hR.holds_trans hinc hran
    simp only []
    split
    · refine hR.either ?_
      simpa using hdone
    · refine hR.either ?_
      simpa using hdone
    · refine hR.either ?_
      simpa using hdone
    · split
      · refine hR.either ?_
        simpa using hdone
      · split
        · refine hR.either ?_
          simpa using hdone
        · -- the contract is initialised
          split
          · next c w' e heq =>
            rw [execute_meters, execute_world] at heq
            refine ⟨fun hcommit => ?_, hran.1.trans (initialise_over heq),
              hR.aborted hA haddress hchild hran.1 hran.2 heq⟩
            obtain ⟨r, hr⟩ := hcommit
            cases hr
          · next c w' u heq =>
            rw [execute_meters, execute_world] at heq
            exact hR.either ⟨hran.1.trans (initialise_over heq),
              hR.initialise hA haddress hchild hran.1 hran.2 heq⟩

/-- `Handler::call` satisfies the relation if the code of the callee does. -/
theorem call {issuer : Context} {scheme : CallScheme} {dest : EvmAddress} {gas : Option ℕ}
    {input : Bytes} {f : Frame}
    (hrun : ∀ b f w, f.meters.self.contract = (scheme.context issuer dest value).address →
      Holds R b f.meters w (run (scheme.context issuer dest value) b f w).frame.meters
        (run (scheme.context issuer dest value) b f w).world) :
    let x := Evm.call E origin b issuer scheme dest (scheme.transfer issuer dest value) input gas
      (scheme = .staticCall) (scheme.context issuer dest value) run f w
    Holds R b f.meters w x.frame.meters x.world := by
  intro x
  simp only [x]
  unfold Evm.call
  split
  · exact hR.holds_refl b f.meters w
  · next hguard =>
    have hstatic : b = true → (b || decide (scheme = .staticCall)) = true := by
      rintro rfl
      rfl
    -- only opcodes that are not allowed in static frames move funds
    have htransfer : (scheme.transfer issuer dest value).isSome →
        (b || decide (scheme = .staticCall)) = false := by
      intro hsome
      have hb : b = false := by
        simpa [hsome] using hguard
      cases scheme with
      | call => simp [hb]
      | callCode => simp [hb]
      | delegateCall => cases hsome
      | staticCall => cases hsome
    simp only []
    -- whether the nested frame has an exit or is refused, it passes the relation on
    split
    all_goals
      rename_i heq
      refine hR.sub hstatic (hR.holds_refl b f.meters w) (fun h => h) (fun child hchild => ?_) heq
      refine hR.either (hR.callBody htransfer fun f' w' hf' => ?_)
      rw [← hf']
      refine hrun _ f' w' ?_
      rw [hf', Chain.contract_childMeter hchild]

/-- `Handler::create` satisfies the relation if the init code does. -/
theorem create (hA : A .create = true) {caller : EvmAddress} {salt : Option H256} {initCode : Bytes}
    {f : Frame}
    (hrun : ∀ address f w, f.meters.self.contract = address →
      Holds R false f.meters w (run ⟨address, caller, value⟩ false f w).frame.meters
        (run ⟨address, caller, value⟩ false f w).world) :
    let x := (Evm.create E origin b caller salt value initCode run f w).1
    Holds R b f.meters w x.frame.meters x.world := by
  intro x
  simp only [x]
  unfold Evm.create
  split
  · exact hR.holds_refl b f.meters w
  · next hguard =>
    obtain rfl : b = false := by
      simpa using hguard
    simp only []
    split
    · exact hR.holds_refl false f.meters w
    · split
      · exact hR.holds_refl false f.meters w
      · next address haddress =>
        have hinc : Holds R false f.meters w f.meters
            { w with state := w.state.incNonce caller } :=
          ⟨.refl _, hR.incNonce caller f.meters w⟩
        -- undoing the nested frame leaves the nonce increased
        have hundo : ∀ {c' : Chain} {w' : World},
            Holds R false f.meters w c' { w' with state := w.state } →
            Holds R false f.meters w c' { w' with state := w.state.incNonce caller } :=
          fun h => hR.holds_trans h ⟨.refl _, hR.incNonce caller _ _⟩
        split
        all_goals
          rename_i heq
          refine hR.sub (fun h => h) hinc hundo (fun child hchild => ?_) heq
          refine hR.createBody hA haddress (Chain.contract_childMeter hchild) fun f' w' hf' => ?_
          rw [← hf']
          refine hrun address f' w' ?_
          rw [hf', Chain.contract_childMeter hchild]

/-- **Executions.** The relation holds of every execution of a program in a frame of the contract
the program runs for, if it makes only requests that are allowed. -/
theorem exec (prog : Prog) (hprog : prog.Only A = true) {ctx : Context} {f : Frame}
    (hctx : f.meters.self.contract = ctx.address) :
    Holds R b f.meters w (prog.exec E origin ctx b f w).frame.meters
      (prog.exec E origin ctx b f w).world := by
  -- the frame may be any one in which the program runs
  induction prog generalizing ctx b f w with
  | exit reason output => exact hR.holds_refl b f.meters w
  | cost gas refund next ih =>
    unfold Prog.exec
    split
    · exact hR.holds_refl b f.meters w
    · next g u hcost => exact ih hprog (f := ⟨(g.recordRefund refund).1, f.meters⟩) hctx
  | setStorage index value next ih =>
    -- a static frame refuses the write, and nothing has happened
    unfold Prog.exec
    have hset : Holds R b f.meters w (Evm.setStorage b ctx.address index value f.meters w).1
        (Evm.setStorage b ctx.address index value f.meters w).2.1 := by
      cases b with
      | true => exact hR.holds_refl true f.meters w
      | false =>
        rw [← hctx]
        rcases hx : Evm.setStorage false f.meters.self.contract index value f.meters w with
          ⟨c', w', r⟩
        exact ⟨setStorage_over hx, hR.setStorage index value f.meters w hx⟩
    split
    · next heq =>
      rw [heq] at hset
      exact hset
    · next c w' u heq =>
      rw [heq] at hset
      -- the rest runs on the meters the write has left, which belong to the same contract
      exact hR.holds_trans hset
        (ih hprog (f := { f with meters := c }) (hset.1.contract.trans hctx))
  | log topics data next ih =>
    unfold Prog.exec
    rw [← hctx]
    refine hR.holds_trans ⟨.refl _, hR.log b topics data f.meters w⟩ ?_
    exact ih hprog hctx
  | selfdestruct target =>
    unfold Prog.exec
    split
    · exact hR.holds_refl b f.meters w
    · next s hs =>
      cases b with
      | true => cases hs
      | false =>
        rw [← hctx] at hs
        exact ⟨.refl _, hR.markDelete hprog target f.meters w hs⟩
  | create salt value initCode init next ihInit ihNext =>
    -- the constructor is an execution of its own, in any frame of the new contract
    unfold Prog.Only at hprog
    simp only [Bool.and_eq_true] at hprog
    obtain ⟨⟨hA, hinit⟩, hnext⟩ := hprog
    have hcreate : Holds R b f.meters w
        (Evm.create E origin b ctx.address salt value initCode
          (init.exec E origin) f w).1.frame.meters
        (Evm.create E origin b ctx.address salt value initCode
          (init.exec E origin) f w).1.world :=
      hR.create hA fun address f' w' hf' => ihInit hinit hf'
    unfold Prog.exec
    simp only []
    split
    · exact hcreate
    · exact hR.holds_trans hcreate (ihNext hnext (hcreate.1.contract.trans hctx))
  | call scheme dest value input gas callee next ihCallee ihNext =>
    -- so is the callee; the context decides for which contract it runs
    unfold Prog.Only at hprog
    rw [Bool.and_eq_true] at hprog
    obtain ⟨hcallee, hnext⟩ := hprog
    have hcall : Holds R b f.meters w
        (Evm.call E origin b ctx scheme dest (scheme.transfer ctx dest value) input gas
          (scheme = .staticCall) (scheme.context ctx dest value)
          (callee.exec E origin) f w).frame.meters
        (Evm.call E origin b ctx scheme dest (scheme.transfer ctx dest value) input gas
          (scheme = .staticCall) (scheme.context ctx dest value)
          (callee.exec E origin) f w).world :=
      hR.call fun b' f' w' hf' => ihCallee hcallee hf'
    unfold Prog.exec
    simp only []
    split
    · exact hcall
    · exact hR.holds_trans hcall (ihNext hnext (hcall.1.contract.trans hctx))

end ExecRule

namespace FrameRule

variable {E : Env} {origin : EvmAddress} {A : Request → Bool}
  {R : Bool → Chain → World → Chain → World → Prop} (hR : FrameRule E origin A R)

include hR

theorem holds_trans {b : Bool} {c₁ c₂ c₃ : Chain} {w₁ w₂ w₃ : World}
    (h₁ : Holds R b c₁ w₁ c₂ w₂) (h₂ : Holds R b c₂ w₂ c₃ w₃) : Holds R b c₁ w₁ c₃ w₃ :=
  hR.execRule.holds_trans h₁ h₂

/-- **Executions.** The relation holds of every execution of a program in a frame of the contract
the program runs for, if it makes only requests that are allowed. -/
theorem exec (prog : Prog) (hprog : prog.Only A = true) {ctx : Context} {b : Bool} {f : Frame}
    {w : World} (hctx : f.meters.self.contract = ctx.address) :
    Holds R b f.meters w (prog.exec E origin ctx b f w).frame.meters
      (prog.exec E origin ctx b f w).world :=
  hR.execRule.exec prog hprog hctx

end FrameRule

end Evm
end Reef
