import ReefChain.Evm.Frames

/-!
# Gas of nested frames

A frame that runs another frame records the gas it forwards as a cost of its own (`record_cost`),
and the nested frame gives back what it has left (`record_stipend`). Two questions are answered
here.

**Can the gas be forwarded?** It is bounded by 63/64 of what the frame has left, so a creation
always can. A call that moves funds adds a stipend after the bound was taken. The sum can be more
than there is, and then the frame fails with all its gas before the callee runs
(`forwarding_affordable_iff`).

**What does the frame lose?** `Child` is what ran in the nested frame, `callee` and `initRun` follow
the source up to its end. The gas is given back on success only. A frame that reverts keeps none of
its gas, although a revert is meant to; a creation that is refused after its init code has returned
has already given its gas back (`nested_gas_conserved_iff`).

That a nested frame cannot give back more than it was given is an invariant of executions: the limit
of a gasometer never changes (`exec_limit`).
-/

namespace Reef
namespace Evm

open Bounded

/-! ### Gasometers -/

namespace Gasometer

variable {g g' : Gasometer} {cost : ℕ}

theorem gas_le_limit (g : Gasometer) : g.gas ≤ g.limit := by
  unfold gas
  split
  · exact Nat.zero_le _
  · exact Nat.sub_le _ _

@[simp] theorem fail_gas (g : Gasometer) : g.fail.gas = 0 := rfl

/-- A gasometer that has not failed and is within its limit. -/
structure Running (g : Gasometer) : Prop where
  failed : g.failed = false
  used_le : g.used ≤ g.limit

theorem running_new (limit : ℕ) : (new limit).Running := ⟨rfl, Nat.zero_le _⟩

/-- What `record_cost` does: it fails the gasometer, or counts the cost. -/
theorem recordCost_cases (g : Gasometer) (cost : ℕ) :
    g.recordCost cost = (g.fail, .error .outOfGas) ∨
    (g.Running ∧ g.used + cost ≤ g.limit ∧
      g.recordCost cost = ({ g with used := g.used + cost }, .ok ())) := by
  unfold recordCost
  split
  · exact .inl rfl
  · next h =>
    obtain ⟨hfailed, hlimit⟩ := not_or.mp h
    have hroom : g.used + cost ≤ g.limit := not_lt.mp hlimit
    have hfailed : g.failed = false := by simpa using hfailed
    exact .inr ⟨⟨hfailed, (Nat.le_add_right _ _).trans hroom⟩, hroom, rfl⟩

theorem recordCost_error {e : ExitError} (h : g.recordCost cost = (g', .error e)) :
    g' = g.fail := by
  rcases g.recordCost_cases cost with hfail | ⟨-, -, hok⟩
  · rw [hfail] at h
    cases h
    rfl
  · rw [hok] at h
    cases h

theorem Running.gas_eq (h : g.Running) : g.gas = g.limit - g.used := by
  unfold gas
  rw [h.failed]
  rfl

/-- A running gasometer can pay what it has left. -/
theorem Running.recordCost_ok_iff (h : g.Running) :
    (g.recordCost cost).2 = .ok () ↔ cost ≤ g.gas := by
  have hused := h.used_le
  rw [h.gas_eq]
  unfold recordCost
  rw [h.failed]
  split
  · next hover =>
    have hover : g.limit < g.used + cost := by simpa using hover
    exact iff_of_false (by simp) (by omega)
  · next hroom =>
    have hroom : ¬g.limit < g.used + cost := by simpa using hroom
    exact iff_of_true rfl (by omega)

/-- A cost that was recorded. -/
structure Paid (g : Gasometer) (cost : ℕ) (g' : Gasometer) : Prop where
  running : g'.Running
  cost_le : cost ≤ g.gas
  used_ge : cost ≤ g'.used
  gas_eq : g'.gas = g.gas - cost
  limit_eq : g'.limit = g.limit

theorem paid_of_recordCost {u : Unit} (h : g.recordCost cost = (g', .ok u)) :
    g.Paid cost g' := by
  rcases g.recordCost_cases cost with hfail | ⟨hrun, hroom, hok⟩
  · rw [hfail] at h
    cases h
  · obtain rfl : _ = g' := congrArg Prod.fst (hok.symm.trans h)
    have hrun' : Running { g with used := g.used + cost } := ⟨hrun.failed, hroom⟩
    refine ⟨hrun', ?_, Nat.le_add_left _ _, ?_, rfl⟩
    · rw [hrun.gas_eq]
      omega
    · rw [hrun.gas_eq, hrun'.gas_eq]
      exact (Nat.sub_sub _ _ _).symm

/-- **Giving back.** What a nested frame has left of the gas it was given is given back exactly. -/
theorem Paid.giveBack (h : g.Paid cost g') {sub : Gasometer} (hsub : sub.gas ≤ cost) :
    ∃ g'', g'.giveBack sub = (g'', .ok ()) ∧ g''.gas = g.gas - (cost - sub.gas) ∧
      g''.limit = g.limit := by
  have hfailed := h.running.failed
  have hgive : g'.giveBack sub =
      ({ g' with used := g'.used - sub.gas, refunded := g'.refunded + sub.refundedGas },
        .ok ()) := by
    simp [Gasometer.giveBack, recordStipend, recordRefund, hfailed]
  refine ⟨_, hgive, ?_, h.limit_eq⟩
  have hgas := h.gas_eq
  rw [h.running.gas_eq] at hgas
  have hused := h.used_ge
  have hcost := h.cost_le
  have hlimit := h.running.used_le
  simp only [gas, hfailed]
  change g'.limit - (g'.used - sub.gas) = g.gas - (cost - sub.gas)
  omega

theorem recordCost_limit (g : Gasometer) (cost : ℕ) : (g.recordCost cost).1.limit = g.limit := by
  rcases g.recordCost_cases cost with h | ⟨-, -, h⟩
  · rw [h]
    rfl
  · rw [h]

theorem recordRefund_limit (g : Gasometer) (refund : ℤ) :
    (g.recordRefund refund).1.limit = g.limit := by
  unfold recordRefund
  split <;> rfl

end Gasometer

/-! ### Forwarding gas -/

/-- The gas `Handler::call` records for the nested frame. -/
def Env.callGas (E : Env) (g : Gasometer) (gas : Option ℕ) (transfer : Option Transfer) : ℕ :=
  if ∃ t ∈ transfer, t.value ≠ 0 then satAdd 64 (E.targetGas g gas) E.callStipend
  else E.targetGas g gas

theorem l64_le (gas : ℕ) : l64 gas ≤ gas := Nat.sub_le _ _

theorem Env.targetGas_le (E : Env) (g : Gasometer) (gas : Option ℕ) :
    E.targetGas g gas ≤ g.gas := by
  unfold Env.targetGas
  simp only []
  refine (Nat.min_le_right _ _).trans ?_
  split
  · exact l64_le g.gas
  · exact le_rfl

/-- **Forwarding gas is affordable**, for a creation and for a call, if and only if the call moves
no funds, or what is asked for, at most 63/64 of the gas `g` of the frame, and the stipend are
together at most `g` (or the sum saturates at `g`). -/
theorem forwarding_affordable_iff (E : Env) (hl64 : E.callL64AfterGas = true) (g : Gasometer)
    (hrunning : g.Running) (hgas : g.gas < 2 ^ 64) (request : Option ℕ)
    (transfer : Option Transfer) :
    ((E.callGas g request transfer ≤ g.gas ∧
        (g.recordCost (E.callGas g request transfer)).2 = .ok ()) ∧
      E.targetGas g request ≤ g.gas ∧ (g.recordCost (E.targetGas g request)).2 = .ok ()) ↔
    (∀ t ∈ transfer, t.value = 0) ∨
      min (request.getD (l64 g.gas)) (l64 g.gas) + E.callStipend ≤ g.gas ∨
      g.gas = maxValue 64 := by
  have htarget : E.targetGas g request = min (request.getD (l64 g.gas)) (l64 g.gas) := by
    unfold Env.targetGas
    rw [hl64]
    rfl
  have hcreate := E.targetGas_le g request
  rw [hrunning.recordCost_ok_iff, hrunning.recordCost_ok_iff, and_self, and_self,
    and_iff_left hcreate]
  unfold Env.callGas
  split
  · next hvalue =>
    -- the stipend comes on top
    have hmoves : ¬∀ t ∈ transfer, t.value = 0 := by
      obtain ⟨t, ht, hne⟩ := hvalue
      exact fun h => hne (h t ht)
    rw [← htarget, or_iff_right hmoves]
    have hmax : g.gas ≤ maxValue 64 := lt_two_pow_iff.mp hgas
    unfold satAdd
    rw [min_le_iff]
    exact or_congr_right ⟨fun h => le_antisymm hmax h, fun h => h.ge⟩
  · next hvalue =>
    refine iff_of_true hcreate (.inl fun t ht => ?_)
    by_contra hne
    exact hvalue ⟨t, ht, hne⟩

/-- A frame with 10 000 units of gas forwards 4 000 of them with a value. -/
theorem forwarding_affordable_request :
    (sampleEnv.callGas (.new 10_000) (some 4_000) (some ⟨7, 9, 1⟩) ≤ 10_000 ∧
      ((Gasometer.new 10_000).recordCost
        (sampleEnv.callGas (.new 10_000) (some 4_000) (some ⟨7, 9, 1⟩))).2 = .ok ()) := by
  exact ((forwarding_affordable_iff sampleEnv rfl (.new 10_000) (Gasometer.running_new _)
    (by decide) (some 4_000) (some ⟨7, 9, 1⟩)).mpr (.inr (.inl (by decide)))).1

/-- A state in which everybody has funds. -/
def fundedState : State := { State.empty with ledger := .ofFree fun _ => 100 * REEF }

/-- A frame with 10 000 units of gas calls with a value and asks for no limit: the 9 844 units the
rule leaves it to forward and the stipend are more than it has. It fails before the callee runs and
all its gas is lost. -/
theorem stipend_not_affordable :
    let x := call sampleEnv 5 false ⟨7, 5, 0⟩ .call 9 (some ⟨7, 9, 1⟩) [] none false ⟨9, 7, 1⟩
      ((Prog.exit (.succeed .stopped) []).exec sampleEnv 5)
      ⟨.new 10_000, ⟨.new 7 0, []⟩⟩ ⟨fundedState, []⟩
    sampleEnv.callGas (.new 10_000) none (some ⟨7, 9, 1⟩) = 12_144 ∧
      x.reason = .error .outOfGas ∧ x.frame.gasometer.gas = 0 ∧ x.world.trace.isEmpty = true := by
  decide +kernel

/-! ### What runs in a nested frame -/

/-- A nested frame that has run: how it has ended, and its gasometer. -/
structure Child where
  reason : ExitReason
  gasometer : Gasometer

/-- The callee of a call in the frame of `child`, if it comes to run. A precompile that answers uses
the cost it names. -/
def callee (E : Env) (issuer : Context) (scheme : CallScheme) (codeAddress : EvmAddress)
    (transfer : Option Transfer) (input : Bytes) (targetGas : ℕ) (isStatic : Bool)
    (context : Context) (run : Exec) (child : Chain) (g : Gasometer) (w : World) : Option Child :=
  match transferOf E.toConfig transfer w.state with
  | .error _ => none
  | .ok s =>
    match (g.recordCost targetGas).2 with
    | .error _ => none
    | .ok _ =>
      match dispatch E issuer scheme codeAddress input targetGas context { w with state := s } with
      | (_, some (.error e)) => some ⟨.error e, .new targetGas⟩
      | (_, some (.ok (reason, _, cost))) =>
        match (Gasometer.new targetGas).recordCost cost with
        | (sub, .error e) => some ⟨.error e, sub⟩
        | (sub, .ok _) => some ⟨.succeed reason, sub⟩
      | (w, none) =>
        let x := execute run context isStatic ⟨.new targetGas, child⟩ w
        some ⟨x.reason, x.frame.gasometer⟩

/-- The init code of a creation in the frame of `child`, if it comes to run. The code it returns is
deposited with the gas it has left. -/
def initRun (E : Env) (caller address : EvmAddress) (value targetGas : ℕ) (isStatic : Bool)
    (run : Exec) (child : Chain) (w : World) : Option Child :=
  match w.state.transfer E.toConfig ⟨caller, address, value⟩ with
  | .error _ => none
  | .ok s =>
    let x := execute run ⟨address, caller, value⟩ isStatic ⟨.new targetGas, child⟩
      { w with state := s }
    match x.reason with
    | .succeed r => some ⟨.succeed r, (x.frame.gasometer.recordDeposit x.output.length).1⟩
    | reason => some ⟨reason, x.frame.gasometer⟩

/-- **The law.** A frame with `before` units of gas has forwarded `target` of them to a nested frame
and has `after` left. It never gains gas. If the nested frame ended regularly the frame has lost
what it consumed, and if it failed or what it did was rejected the frame has lost all it has
forwarded. -/
def GasConserved (before target after : ℕ) (rejected : Bool) (child : Option Child) : Prop :=
  after ≤ before ∧ ∀ c ∈ child,
    match c.reason with
    | .succeed _ =>
      after = if rejected then before - target else before - (target - c.gasometer.gas)
    | .revert => after = before - (target - c.gasometer.gas)
    | .error _ => after = before - target
    | .fatal => True

/-- What the code does: only a nested frame that succeeds gives gas back, and a fatal one takes the
gas of the frame around it too. -/
def Settles (g : Gasometer) (target : ℕ) (child : Option Child) (g' : Gasometer) : Prop :=
  g'.gas ≤ g.gas ∧ ∀ c ∈ child, target ≤ g.gas ∧ c.gasometer.gas ≤ target ∧
    match c.reason with
    | .succeed _ => g'.gas = g.gas - (target - c.gasometer.gas)
    | .revert => g'.gas = g.gas - target
    | .error _ => g'.gas = g.gas - target
    | .fatal => True

/-- The law holds exactly if a nested frame that reverts, or is rejected after it has succeeded, has
no gas left. -/
theorem Settles.conserved_iff {g g' : Gasometer} {target : ℕ} {child : Option Child}
    (h : Settles g target child g') (rejected : Bool) :
    GasConserved g.gas target g'.gas rejected child ↔
      ∀ c ∈ child, (c.reason = .revert ∨ (c.reason.isSucceed = true ∧ rejected = true)) →
        c.gasometer.gas = 0 := by
  unfold GasConserved
  rw [and_iff_right h.1]
  refine forall₂_congr fun c hc => ?_
  obtain ⟨htarget, hleft, hgas⟩ := h.2 c hc
  -- by how the nested frame has ended: success, revert, error, fatal error
  rcases hreason : c.reason with r | - | e | -
  · -- what is left is returned, unless the caller rejects the result
    rw [hreason] at hgas
    simp only [] at hgas ⊢
    cases rejected with
    | false => simp [hgas]
    | true =>
      simp only [hgas, if_true, ExitReason.isSucceed, and_self, or_true, forall_const]
      omega
  · rw [hreason] at hgas
    simp only [] at hgas ⊢
    simp only [hgas, true_or, forall_const]
    omega
  · rw [hreason] at hgas
    simp only [] at hgas ⊢
    simp [hgas, ExitReason.isSucceed]
  · simp [ExitReason.isSucceed]

/-! ### The limit of a gasometer -/

section Limit

variable {E : Env} {origin : EvmAddress}

/-- The gasometer of a frame after a nested frame is the one the body of the nested frame leaves. -/
theorem runSub_gasometer (E : Env) (origin : EvmAddress) {ρ : Type} (contract : EvmAddress)
    (body : Chain → Gasometer × World → Chain × (Gasometer × World) × TransactionOutcome ρ)
    (c : Chain) (g : Gasometer) (w : World) :
    (runSubTransaction ((World.host E.toConfig origin).keep Gasometer) contract body c
        (g, w)).2.1.1 =
      match c.childMeter contract with
      | .error _ => g
      | .ok child => (body child (g, w)).2.1.1 := by
  unfold runSubTransaction
  cases c.childMeter contract with
  | error e => rfl
  | ok child =>
    simp only []
    split
    · next child' p r heq =>
      obtain ⟨g₁, w₁⟩ := p
      rw [Chain.finish_keep, heq]
      rcases child'.finish (World.host E.toConfig origin) w₁ with ⟨above, w₂, e | u⟩
      · rfl
      · rfl
    · next heq =>
      rw [heq]
      rfl

/-- Running code keeps the limit of the gasometer. -/
def KeepsLimit (run : Exec) : Prop :=
  ∀ ctx b f w, (run ctx b f w).frame.gasometer.limit = f.gasometer.limit

theorem KeepsLimit.execute {run : Exec} (hrun : KeepsLimit run) (ctx : Context) (b : Bool)
    (f : Frame) (w : World) :
    (execute run ctx b f w).frame.gasometer.limit = f.gasometer.limit := by
  have hlimit := hrun ctx b f w
  unfold Evm.execute
  simp only []
  split <;> exact hlimit

/-- A nested frame has at most the gas it was given. -/
theorem KeepsLimit.gas_le {run : Exec} (hrun : KeepsLimit run) (ctx : Context) (b : Bool)
    (target : ℕ) (child : Chain) (w : World) :
    (Evm.execute run ctx b ⟨.new target, child⟩ w).frame.gasometer.gas ≤ target :=
  (Gasometer.gas_le_limit _).trans (hrun.execute ctx b ⟨.new target, child⟩ w).le

variable {run : Exec} {child : Chain} {g g₁ : Gasometer} {w : World} {targetGas : ℕ}
  {isStatic : Bool}

variable {c : Child} {issuer context : Context} {scheme : CallScheme}
  {codeAddress caller : EvmAddress} {transfer : Option Transfer} {input : Bytes} {value : ℕ}
  {f : Frame}

/-- A nested frame that gives nothing back. -/
theorem settles_of_paid (h : g.Paid targetGas g₁) (hleft : c.gasometer.gas ≤ targetGas)
    (hreason : c.reason.isSucceed = true → c.gasometer.gas = 0) :
    Settles g targetGas (some c) g₁ := by
  refine ⟨h.gas_eq.le.trans (Nat.sub_le _ _), ?_⟩
  rintro c' ⟨⟩
  refine ⟨h.cost_le, hleft, ?_⟩
  rcases hr : c.reason with r | - | e | -
  · rw [hreason (by rw [hr]; rfl)]
    exact h.gas_eq
  · exact h.gas_eq
  · exact h.gas_eq
  · trivial

/-- A nested frame that takes all the gas with it. -/
theorem settles_fatal (h : g.Paid targetGas g₁) (hleft : c.gasometer.gas ≤ targetGas)
    (hreason : c.reason = .fatal) : Settles g targetGas (some c) g₁.fail := by
  refine ⟨Nat.zero_le _, ?_⟩
  rintro c' ⟨⟩
  refine ⟨h.cost_le, hleft, ?_⟩
  rw [hreason]
  trivial

/-- A nested frame that has given back what it had left. -/
theorem settles_of_giveBack (h : g.Paid targetGas g₁) {g₂ : Gasometer} {e : Except ExitError Unit}
    (hleft : c.gasometer.gas ≤ targetGas) (hreason : c.reason.isSucceed = true)
    (hgive : g₁.giveBack c.gasometer = (g₂, e)) :
    e = .ok () ∧ g₂.limit = g.limit ∧ Settles g targetGas (some c) g₂ := by
  obtain ⟨g', hback, hgas, hlimit⟩ := h.giveBack hleft
  obtain ⟨rfl, rfl⟩ : g₂ = g' ∧ e = .ok () := by
    rw [hback] at hgive
    cases hgive
    exact ⟨rfl, rfl⟩
  refine ⟨rfl, hlimit, hgas.le.trans (Nat.sub_le _ _), ?_⟩
  rintro c' ⟨⟩
  refine ⟨h.cost_le, hleft, ?_⟩
  rcases hr : c.reason with r | - | e | -
  · exact hgas
  all_goals
    rw [hr] at hreason
    cases hreason

/-- **Calls.** What the nested frame of a call does to the gas of the frame around it. -/
theorem callBody_settles (hrun : KeepsLimit run) :
    let x := callBody E issuer scheme codeAddress transfer input targetGas isStatic context run
      child (g, w)
    x.2.1.1.limit = g.limit ∧
      Settles g targetGas (callee E issuer scheme codeAddress transfer input targetGas isStatic
        context run child g w) x.2.1.1 := by
  intro x
  simp only [x]
  have hnone : ∀ g' : Gasometer, g'.gas ≤ g.gas → Settles g targetGas none g' := fun g' h =>
    ⟨h, fun c hc => by cases hc⟩
  unfold callBody callee
  cases htransfer : transferOf E.toConfig transfer w.state with
  | error e => exact ⟨rfl, hnone g le_rfl⟩
  | ok s =>
    simp only []
    rcases hcost : g.recordCost targetGas with ⟨g₁, e | u⟩
    · -- the gas cannot be forwarded
      rw [Gasometer.recordCost_error hcost]
      exact ⟨rfl, hnone _ (Nat.zero_le _)⟩
    · have hpaid := Gasometer.paid_of_recordCost hcost
      simp only []
      rcases dispatch E issuer scheme codeAddress input targetGas context { w with state := s }
        with ⟨w₁, - | e | ⟨reason, out, cost⟩⟩
      · -- the code of the callee
        simp only []
        have hleft := hrun.gas_le context isStatic targetGas child w₁
        generalize execute run context isStatic ⟨.new targetGas, child⟩ w₁ = x at hleft
        rcases hreason : x.reason with r | - | e | -
        · simp only []
          rcases hgive : g₁.giveBack x.frame.gasometer with ⟨g₂, e⟩
          obtain ⟨rfl, hdone⟩ := settles_of_giveBack hpaid (c := ⟨.succeed r, x.frame.gasometer⟩)
            hleft rfl hgive
          exact hdone
        · exact ⟨hpaid.limit_eq, settles_of_paid hpaid hleft (fun h => by cases h)⟩
        · exact ⟨hpaid.limit_eq, settles_of_paid hpaid hleft (fun h => by cases h)⟩
        · exact ⟨hpaid.limit_eq, settles_fatal hpaid hleft rfl⟩
      · -- a precompile that fails
        exact ⟨hpaid.limit_eq, settles_of_paid hpaid (Nat.sub_le _ _) (fun h => by cases h)⟩
      · -- a precompile that answers, and whose cost is paid by the nested frame
        simp only []
        have hlimit := (Gasometer.new targetGas).recordCost_limit cost
        rcases hsub : (Gasometer.new targetGas).recordCost cost with ⟨sub, e | u⟩
        · rw [hsub] at hlimit
          exact ⟨hpaid.limit_eq, settles_of_paid hpaid (sub.gas_le_limit.trans hlimit.le)
            (fun h => by cases h)⟩
        · rw [hsub] at hlimit
          simp only []
          rcases hgive : g₁.giveBack sub with ⟨g₂, e⟩
          obtain ⟨rfl, hdone⟩ := settles_of_giveBack hpaid (c := ⟨.succeed reason, sub⟩)
            (sub.gas_le_limit.trans hlimit.le) rfl hgive
          exact hdone

/-- **Creations.** What the nested frame of a creation does to the gas of the frame around it, which
has already recorded what it forwards. Once the deposit of the code is paid the gas is given back,
whether or not the contract is created in the end. -/
theorem createBody_settles (hrun : KeepsLimit run) (hpaid : g.Paid targetGas g₁)
    {address : EvmAddress} {key : CreateKey} :
    let x := createBody E origin caller address key value targetGas isStatic run child (g₁, w)
    x.2.1.1.limit = g.limit ∧
      Settles g targetGas (initRun E caller address value targetGas isStatic run child w)
        x.2.1.1 := by
  intro x
  simp only [x]
  unfold createBody initRun
  cases htransfer : w.state.transfer E.toConfig ⟨caller, address, value⟩ with
  | error e =>
    exact ⟨hpaid.limit_eq, hpaid.gas_eq.le.trans (Nat.sub_le _ _), fun c hc => by cases hc⟩
  | ok s =>
    simp only []
    have hleft := hrun.gas_le ⟨address, caller, value⟩ isStatic targetGas child
      { w with state := s }
    have hlimit := hrun.execute ⟨address, caller, value⟩ isStatic ⟨.new targetGas, child⟩
      { w with state := s }
    generalize execute run ⟨address, caller, value⟩ isStatic ⟨.new targetGas, child⟩
      { w with state := s } = x at hleft hlimit
    rcases hreason : x.reason with r | - | e | -
    · simp only []
      have hdeposit := x.frame.gasometer.recordCost_limit (200 * x.output.length)
      rcases hsub : x.frame.gasometer.recordDeposit x.output.length with ⟨sub, e | u⟩
      · -- the code is too long for the gas that is left, which is lost
        have hfail : sub.gas = 0 := by
          rw [Gasometer.recordCost_error hsub, Gasometer.fail_gas]
        exact ⟨hpaid.limit_eq, settles_of_paid hpaid (hfail.le.trans (Nat.zero_le _))
          (fun _ => hfail)⟩
      · simp only []
        have hsublimit : sub.limit = targetGas := by
          have hsub : x.frame.gasometer.recordCost (200 * x.output.length) = (sub, .ok u) := hsub
          rw [hsub] at hdeposit
          exact hdeposit.trans hlimit
        rcases hgive : g₁.giveBack sub with ⟨g₂, e⟩
        obtain ⟨rfl, hdone⟩ := settles_of_giveBack hpaid (c := ⟨.succeed r, sub⟩)
          (sub.gas_le_limit.trans hsublimit.le) rfl hgive
        simp only []
        -- the gas is given back before the contract is initialised
        split
        · exact hdone
        · exact hdone
    · exact ⟨hpaid.limit_eq, settles_of_paid hpaid hleft (fun h => by cases h)⟩
    · exact ⟨hpaid.limit_eq, settles_of_paid hpaid hleft (fun h => by cases h)⟩
    · exact ⟨hpaid.limit_eq, settles_fatal hpaid hleft rfl⟩

/-- The callee of `Handler::call`, if it comes to run. -/
def calleeOf (E : Env) (isStatic : Bool) (issuer : Context) (scheme : CallScheme)
    (codeAddress : EvmAddress) (transfer : Option Transfer) (input : Bytes) (gas : Option ℕ)
    (isStaticCall : Bool) (context : Context) (run : Exec) (f : Frame) (w : World) :
    Option Child :=
  if isStatic ∧ transfer.isSome then none
  else
    match f.meters.childMeter context.address with
    | .error _ => none
    | .ok child =>
      callee E issuer scheme codeAddress transfer input (E.callGas f.gasometer gas transfer)
        (isStatic || isStaticCall) context run child f.gasometer w

/-- The init code of `Handler::create`, if it comes to run. -/
def initRunOf (E : Env) (isStatic : Bool) (caller : EvmAddress) (salt : Option H256) (value : ℕ)
    (initCode : Bytes) (run : Exec) (f : Frame) (w : World) : Option Child :=
  if isStatic then none
  else
    match (f.gasometer.recordCost (E.targetGas f.gasometer none)).2 with
    | .error _ => none
    | .ok _ =>
      match createAddress E.toConfig (createScheme E.toConfig caller salt initCode) w.state with
      | .error _ => none
      | .ok address =>
        match f.meters.childMeter address with
        | .error _ => none
        | .ok child =>
          initRun E caller address value (E.targetGas f.gasometer none) isStatic run child
            { w with state := w.state.incNonce caller }

/-- The gasometer after a call is what the body of the nested frame leaves. -/
theorem call_gasometer {gas : Option ℕ} {isStaticCall : Bool}
    (hguard : ¬(isStatic = true ∧ transfer.isSome = true)) :
    (call E origin isStatic issuer scheme codeAddress transfer input gas isStaticCall context run f
        w).frame.gasometer =
      match f.meters.childMeter context.address with
      | .error _ => f.gasometer
      | .ok child =>
        (callBody E issuer scheme codeAddress transfer input (E.callGas f.gasometer gas transfer)
          (isStatic || isStaticCall) context run child (f.gasometer, w)).2.1.1 := by
  refine Eq.trans ?_ (runSub_gasometer E origin context.address
    (callBody E issuer scheme codeAddress transfer input (E.callGas f.gasometer gas transfer)
      (isStatic || isStaticCall) context run) f.meters f.gasometer w)
  unfold call
  rw [if_neg hguard]
  simp only []
  split
  · next heq => exact (congrArg (fun x => x.2.1.1) heq).symm
  · next heq => exact (congrArg (fun x => x.2.1.1) heq).symm

/-- The gasometer after a creation is what the body of the nested frame leaves, or what is left
after the gas was forwarded. -/
theorem create_gasometer {salt : Option H256} {initCode : Bytes} {u : Unit}
    (hpaid : f.gasometer.recordCost (E.targetGas f.gasometer none) = (g₁, .ok u)) :
    (create E origin false caller salt value initCode run f w).1.frame.gasometer =
      match createAddress E.toConfig (createScheme E.toConfig caller salt initCode) w.state with
      | .error _ => g₁
      | .ok address =>
        match f.meters.childMeter address with
        | .error _ => g₁
        | .ok child =>
          (createBody E origin caller address
            ((createScheme E.toConfig caller salt initCode).key w.state) value
            (E.targetGas f.gasometer none) false run child
            (g₁, { w with state := w.state.incNonce caller })).2.1.1 := by
  unfold create
  rw [if_neg Bool.false_ne_true]
  simp only [hpaid]
  cases createAddress E.toConfig (createScheme E.toConfig caller salt initCode) w.state with
  | error e => rfl
  | ok address =>
    simp only []
    refine Eq.trans ?_ (runSub_gasometer E origin address
      (createBody E origin caller address
        ((createScheme E.toConfig caller salt initCode).key w.state) value
        (E.targetGas f.gasometer none) false run) f.meters g₁
      { w with state := w.state.incNonce caller })
    split
    · next heq => exact (congrArg (fun x => x.2.1.1) heq).symm
    · next heq => exact (congrArg (fun x => x.2.1.1) heq).symm

theorem call_settles (hrun : KeepsLimit run) {gas : Option ℕ} {isStaticCall : Bool} :
    let x := call E origin isStatic issuer scheme codeAddress transfer input gas isStaticCall
      context run f w
    x.frame.gasometer.limit = f.gasometer.limit ∧
      Settles f.gasometer (E.callGas f.gasometer gas transfer)
        (calleeOf E isStatic issuer scheme codeAddress transfer input gas isStaticCall context run
          f w) x.frame.gasometer := by
  intro x
  simp only [x]
  by_cases hguard : isStatic = true ∧ transfer.isSome = true
  · unfold call calleeOf
    rw [if_pos hguard, if_pos hguard]
    exact ⟨rfl, le_rfl, fun c hc => by cases hc⟩
  · rw [call_gasometer hguard, calleeOf, if_neg hguard]
    cases f.meters.childMeter context.address with
    | error e => exact ⟨rfl, le_rfl, fun c hc => by cases hc⟩
    | ok child => exact callBody_settles hrun

theorem create_settles (hrun : KeepsLimit run) {salt : Option H256} {initCode : Bytes} :
    let x := (create E origin isStatic caller salt value initCode run f w).1
    x.frame.gasometer.limit = f.gasometer.limit ∧
      Settles f.gasometer (E.targetGas f.gasometer none)
        (initRunOf E isStatic caller salt value initCode run f w) x.frame.gasometer := by
  intro x
  simp only [x]
  cases isStatic with
  | true => exact ⟨rfl, le_rfl, fun c hc => by cases hc⟩
  | false =>
    rcases hcost : f.gasometer.recordCost (E.targetGas f.gasometer none) with ⟨g₁, e | u⟩
    · -- the gas cannot be forwarded because the gasometer has failed before
      unfold create initRunOf
      simp only [Bool.false_eq_true, if_false, hcost]
      rw [Gasometer.recordCost_error hcost]
      exact ⟨rfl, Nat.zero_le _, fun c hc => by cases hc⟩
    · have hpaid := Gasometer.paid_of_recordCost hcost
      have hlost : Settles f.gasometer (E.targetGas f.gasometer none) none g₁ :=
        ⟨hpaid.gas_eq.le.trans (Nat.sub_le _ _), fun c hc => by cases hc⟩
      rw [create_gasometer hcost, initRunOf, if_neg Bool.false_ne_true, hcost]
      simp only []
      cases createAddress E.toConfig (createScheme E.toConfig caller salt initCode) w.state with
      | error e => exact ⟨hpaid.limit_eq, hlost⟩
      | ok address =>
        simp only []
        cases f.meters.childMeter address with
        | error e => exact ⟨hpaid.limit_eq, hlost⟩
        | ok child => exact createBody_settles hrun hpaid

/-- **The limit of a gasometer never changes** while a program runs. -/
theorem exec_limit (prog : Prog) : KeepsLimit (prog.exec E origin) := by
  induction prog with
  | exit reason output => intro ctx b f w; rfl
  | cost gas refund next ih =>
    intro ctx b f w
    unfold Prog.exec
    have hcost := f.gasometer.recordCost_limit gas
    split
    · next heq =>
      rw [heq] at hcost
      exact hcost
    · next g u heq =>
      rw [heq] at hcost
      rw [ih ctx b _ w]
      exact (g.recordRefund_limit refund).trans hcost
  | setStorage index value next ih =>
    intro ctx b f w
    unfold Prog.exec
    split
    · rfl
    · exact ih ctx b _ _
  | log topics data next ih => intro ctx b f w; exact ih ctx b f _
  | selfdestruct target =>
    intro ctx b f w
    unfold Prog.exec
    split <;> rfl
  | create salt value initCode init next ihInit ihNext =>
    -- a nested frame has a gasometer of its own, and is settled with that of the parent
    intro ctx b f w
    have hcreate : (Evm.create E origin b ctx.address salt value initCode
        (init.exec E origin) f w).1.frame.gasometer.limit = f.gasometer.limit :=
      (create_settles ihInit).1
    unfold Prog.exec
    simp only []
    split
    · exact hcreate
    · rw [ihNext]
      exact hcreate
  | call scheme dest value input gas callee next ihCallee ihNext =>
    intro ctx b f w
    unfold Prog.exec
    simp only []
    split
    · exact (call_settles ihCallee).1
    · rw [ihNext]
      exact (call_settles ihCallee).1

end Limit

/-! ### The law for nested frames -/

/-- **Gas of nested frames.** A nested call obeys the law if and only if a callee that reverts has
no gas left, a nested creation if and only if moreover init code that succeeds without the contract
being created in the end has none left. -/
theorem nested_gas_conserved_iff (E : Env) (origin : EvmAddress) (isStatic : Bool) (prog : Prog)
    (f : Frame) (w : World) :
    (∀ issuer scheme codeAddress transfer input gas isStaticCall context,
      let x := call E origin isStatic issuer scheme codeAddress transfer input gas isStaticCall
        context (prog.exec E origin) f w
      let child := calleeOf E isStatic issuer scheme codeAddress transfer input gas isStaticCall
        context (prog.exec E origin) f w
      GasConserved f.gasometer.gas (E.callGas f.gasometer gas transfer) x.frame.gasometer.gas false
          child ↔
        ∀ c ∈ child, c.reason = .revert → c.gasometer.gas = 0) ∧
    ∀ caller salt value initCode,
      let x := create E origin isStatic caller salt value initCode (prog.exec E origin) f w
      let child := initRunOf E isStatic caller salt value initCode (prog.exec E origin) f w
      GasConserved f.gasometer.gas (E.targetGas f.gasometer none) x.1.frame.gasometer.gas
          x.2.isNone child ↔
        ∀ c ∈ child, c.reason = .revert ∨ (c.reason.isSucceed = true ∧ x.2.isNone = true) →
          c.gasometer.gas = 0 := by
  have hrun : KeepsLimit (prog.exec E origin) := exec_limit prog
  constructor
  · intro issuer scheme codeAddress transfer input gas isStaticCall context x child
    have hsettles : Settles f.gasometer (E.callGas f.gasometer gas transfer) child
        x.frame.gasometer := (call_settles hrun).2
    rw [hsettles.conserved_iff]
    simp only [Bool.false_eq_true, and_false, or_false]
  · intro caller salt value initCode x child
    have hsettles : Settles f.gasometer (E.targetGas f.gasometer none) child
        x.1.frame.gasometer := (create_settles hrun).2
    exact hsettles.conserved_iff _

/-- A callee that reverts at once costs the frame all of the 50 000 units it has forwarded; init
code that returns nothing costs it nothing, although the contract is not created because there is no
storage left for it. -/
theorem revert_keeps_no_gas :
    let f : Frame := ⟨.new 100_000, ⟨.new 7 0, []⟩⟩
    let x := call sampleEnv 5 false ⟨7, 5, 0⟩ .call 9 none [] (some 50_000) false ⟨9, 7, 0⟩
      ((Prog.exit .revert []).exec sampleEnv 5) f ⟨.empty, []⟩
    let y := create sampleEnv 5 false 7 none 0 [1]
      ((Prog.exit (.succeed .returned) []).exec sampleEnv 5) f ⟨.empty, []⟩
    x.reason = .revert ∧ x.frame.gasometer.gas = 50_000 ∧
      y.2 = none ∧ y.1.frame.gasometer.gas = 100_000 := by
  decide +kernel

end Evm
end Reef
