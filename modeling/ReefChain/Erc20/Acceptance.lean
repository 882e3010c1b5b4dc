import ReefChain.Evm.Reaping
import ReefChain.EvmBridge

/-!
# When a contract accepts a call of the bridge

The bridge calls a contract with a gas limit and a storage limit, and the origin of the call puts up
the deposit for the storage. Whether such a call comes through is a matter of the state before it
and of the code of the contract (`Accepted`): the contract may be called, the origin has the deposit
(`Affords`), the code returns or stops, and the storage it has used is within the limit and can be
charged to the origin (`Chargeable`). `evmExecute_iff` says that these are all the conditions there
are.

What a contract is asked to do rarely touches the native balances. For such a call the last
condition is a matter of funds alone: it is enough that the origin has more than the deposit and the
minimum balance of an account (`Frugal.accepted`).
-/

namespace Reef

namespace Ledger

variable {α : Type} [DecidableEq α] {l : Ledger α} {a : α} {v : ℕ}

/-- What can be reserved: less than the free balance, or all of it if something else provides for
the account. -/
theorem exists_reserve_iff :
    (∃ l', l.reserve a v = .ok l') ↔
      v = 0 ∨ v < l.free a ∨ v = l.free a ∧ l.provided a = true := by
  simp only [reserve_eq_ok, exists_and_left, exists_eq, and_true, Sustains]
  cases l.provided a <;> simp <;> omega

/-- A transfer that leaves something succeeds. -/
theorem transfer_of_lt (h : v < l.free a) (b : α) : ∃ l', l.transfer a b v = .ok l' := by
  unfold transfer
  split_ifs with hnone hlow hsustains
  · exact ⟨_, rfl⟩
  · exact absurd h hlow.not_gt
  · exact ⟨_, rfl⟩
  · exact absurd (.inl (Nat.sub_pos_of_lt h)) hsustains

end Ledger

namespace Evm

section Deposits

variable {α : Type} [DecidableEq α] {D : DepositConfig α} {origin : EvmAddress} {l : Ledger α}

/-- The origin can put up the deposit for a storage limit: it has more than that, or just that and
something else that provides for its account. -/
def DepositConfig.Affords (D : DepositConfig α) (origin : EvmAddress) (l : Ledger α)
    (limit : ℕ) : Prop :=
  limit = 0 ∨ D.deposit limit = 0 ∨ D.deposit limit < l.free (D.getAccountId origin) ∨
    D.deposit limit = l.free (D.getAccountId origin) ∧ l.provided (D.getAccountId origin) = true

/-- What a frame of `contract` has used and freed can be charged to the origin: it has freed as much
as it has used, or the origin can pay the deposit with the minimum balance on top, and the account
of the contract can reserve it. -/
def DepositConfig.Chargeable (D : DepositConfig α) (origin : EvmAddress) (l : Ledger α)
    (contract : EvmAddress) (used refunded : ℕ) : Prop :=
  used ≤ refunded ∨ ∃ l₁ l₂,
    (l.unreserve (D.getAccountId origin) (D.deposit (used - refunded))).1.transfer
      (D.getAccountId origin) (D.getAccountId contract)
      (Bounded.satAdd balanceBits (D.deposit (used - refunded)) D.minimumBalance) = .ok l₁ ∧
    l₁.reserve (D.getAccountId contract) (D.deposit (used - refunded)) = .ok l₂

/-- The deposit is put up iff the origin affords it. -/
theorem DepositConfig.reserveStorage_ok_iff {limit : ℕ} :
    (D.reserveStorage origin l limit).2 = .ok () ↔ D.Affords origin l limit := by
  unfold reserveStorage Affords
  split
  · next hlimit => simp [hlimit]
  · next hlimit =>
    rw [← Ledger.exists_reserve_iff]
    cases l.reserve (D.getAccountId origin) (D.deposit limit) with
    | ok l' => simp
    | error e => simp [hlimit]

/-- A charge is accepted iff the storage is chargeable. -/
theorem DepositConfig.chargeStorage_ok_iff {contract : EvmAddress} {used refunded : ℕ} :
    (D.chargeStorage origin l contract used refunded).2 = .ok () ↔
      D.Chargeable origin l contract used refunded := by
  unfold chargeStorage Chargeable
  simp only []
  split_ifs with hsame hused
  · exact iff_of_true rfl (.inl hsame.le)
  · -- a net use: both operations on the ledger have to succeed
    have hnot : ¬used ≤ refunded := Nat.not_le.mpr hused
    simp only [hnot, false_or]
    generalize (l.unreserve (D.getAccountId origin) (D.deposit (used - refunded))).1 = l₀
    cases l₀.transfer (D.getAccountId origin) (D.getAccountId contract)
        (Bounded.satAdd balanceBits (D.deposit (used - refunded)) D.minimumBalance) with
    | error e => simp
    | ok l₁ =>
      cases hreserve : l₁.reserve (D.getAccountId contract) (D.deposit (used - refunded)) with
      | error e => simp [hreserve]
      | ok l₂ => simp [hreserve]
  · exact iff_of_true rfl (.inl (Nat.le_of_not_lt hused))

/-! ### Charging an origin that has funds -/

omit [DecidableEq α] in
/-- More storage, a larger deposit. -/
theorem DepositConfig.deposit_mono {a b : ℕ} (h : a ≤ b) : D.deposit a ≤ D.deposit b :=
  min_le_min_right _ (Nat.mul_le_mul_left _ h)

omit [DecidableEq α] in
/-- The deposit of a storage limit that is not the largest one is not the largest balance. -/
theorem DepositConfig.deposit_lt {storage : ℕ} (h : storage < Bounded.maxValue storageBits) :
    D.deposit storage = 0 ∨ D.deposit storage < Bounded.maxValue balanceBits := by
  rcases Nat.eq_zero_or_pos D.storageDepositPerByte with hfree | hpaid
  · left
    unfold deposit Bounded.satMul
    rw [hfree, Nat.zero_mul, Nat.zero_min]
  · right
    refine (min_le_left _ _).trans_lt (lt_of_lt_of_le ?_ D.deposit_le)
    exact Nat.mul_lt_mul_of_pos_left h hpaid

section Funds

variable {contract : EvmAddress} {limit used refunded : ℕ}
  (hfunds : D.deposit limit + D.minimumBalance < l.free (D.getAccountId origin))

include hfunds

/-- The deposit is put up. -/
theorem DepositConfig.reserveStorage_of_funds :
    (D.reserveStorage origin l limit).1 =
      { l with
        free := Function.update l.free (D.getAccountId origin)
          (l.free (D.getAccountId origin) - D.deposit limit)
        reserved := Function.update l.reserved (D.getAccountId origin)
          (l.reserved (D.getAccountId origin) + D.deposit limit) } := by
  unfold reserveStorage
  split
  · next hzero =>
    have hnone : D.deposit limit = 0 := by
      rw [hzero]
      unfold deposit Bounded.satMul
      rw [Nat.mul_zero, Nat.zero_min]
    rw [hnone, Nat.sub_zero, Nat.add_zero, Function.update_eq_self, Function.update_eq_self]
  · rw [Ledger.reserve_of_lt (by omega)]

variable (hapart : D.getAccountId origin ≠ D.getAccountId contract) (hown : used ≤ refunded + limit)

include hapart hown

/-- An origin that has more than the deposit of the limit and a minimum balance can be charged for
the storage of a frame: it pays with the deposit, and keeps a provider. -/
theorem DepositConfig.chargeable_of_funds (hlimit : limit < Bounded.maxValue storageBits)
    (hminimum : 0 < D.minimumBalance) :
    D.Chargeable origin (D.reserveStorage origin l limit).1 contract used refunded := by
  by_cases hnet : used ≤ refunded
  · exact .inl hnet
  · right
    have hle : D.deposit (used - refunded) ≤ D.deposit limit := deposit_mono (by omega)
    have hsmall := D.deposit_lt (lt_of_le_of_lt (Nat.sub_le_iff_le_add'.mpr hown) hlimit)
    have hv := Bounded.satAdd_le_add balanceBits (D.deposit (used - refunded)) D.minimumBalance
    have hv' : D.deposit (used - refunded) = 0 ∨ D.deposit (used - refunded) <
        Bounded.satAdd balanceBits (D.deposit (used - refunded)) D.minimumBalance := by
      unfold Bounded.satAdd
      omega
    -- the deposit for what was used is released to the origin, which can pay it then
    obtain ⟨l₁, htransfer⟩ := Ledger.transfer_of_lt (l := ((D.reserveStorage origin l
      limit).1.unreserve (D.getAccountId origin) (D.deposit (used - refunded))).1)
      (a := D.getAccountId origin) (v := Bounded.satAdd balanceBits (D.deposit (used - refunded))
      D.minimumBalance) (by
        rw [reserveStorage_of_funds hfunds]
        simp only [Ledger.unreserve, Function.update_self]
        omega) (D.getAccountId contract)
    have hpaid : Bounded.satAdd balanceBits (D.deposit (used - refunded)) D.minimumBalance ≤
        l₁.free (D.getAccountId contract) := by
      rw [Ledger.transfer_free htransfer, if_neg hapart, if_neg (Ne.symm hapart), if_pos rfl]
      exact Nat.le_add_left _ _
    obtain ⟨l₂, hreserve⟩ := Ledger.exists_reserve_iff.mpr
      (hv'.imp id fun h => .inl (h.trans_le hpaid))
    exact ⟨l₁, l₂, htransfer, hreserve⟩

end Funds

end Deposits

/-! ### The root frame of a call -/

/-- The world in which the root frame of a call starts: the nonce of the sender is counted, and the
deposit for the storage limit is put up. -/
def Runner.started (C : Config) (sender origin : EvmAddress) (limit : ℕ) (w : World) : World :=
  ((World.host C origin).reserveStorage { w with state := w.state.incNonce sender } limit).1

/-- How the code of a contract ends that is called without a value. -/
def Runner.ran (E : Env) (sender origin target : EvmAddress) (gasLimit limit : ℕ) (prog : Prog)
    (w : World) : Exit :=
  let start := started E.toConfig sender origin limit w
  let cost := E.transactionCost (start.state.codeAtAddress E.toConfig target)
  execute (prog.exec E origin) ⟨target, sender, 0⟩ false
    ⟨((Gasometer.new gasLimit).recordTransaction cost).1, .root target limit⟩ start

section Root

variable {E : Env} {sender origin target : EvmAddress} {gasLimit limit : ℕ} {prog : Prog}
  {w : World}

/-- The root frame is that of the contract that is called, with no meter above its own. -/
theorem Runner.ran_over :
    (Chain.root target limit).Over
      (Runner.ran E sender origin target gasLimit limit prog w).frame.meters := by
  have hrule : FrameRule E origin Request.any fun _ _ _ _ _ => True := by
    refine ⟨?_, ?_, ?_⟩
    · constructor <;> intros <;> trivial
    · intros
      trivial
    · intros
      trivial
  have hframe : ∀ (f : Frame) (w : World), f.meters = .root target limit →
      f.meters.Over (prog.exec E origin ⟨target, sender, 0⟩ false f w).frame.meters :=
    fun f w hf => (hrule.exec prog prog.only_any (congrArg (·.self.contract) hf)).1
  unfold Runner.ran
  simp only [execute_meters]
  exact hframe ⟨_, .root target limit⟩ _ rfl

/-- What the storage of a root frame is charged to the origin for, and when this succeeds: the meter
is within its limit and the host accepts the charge. Nothing else can be refused, for what is left
of the deposit is released without a check. -/
theorem Chain.finish_root_iff {C : Config} {c : Chain} (hroot : c.above = []) :
    (∃ above w', c.finish (World.host C origin) w = (above, w', .ok ())) ↔
      (c.self.result = .ok () ∧ c.self.withinLimit = true) ∧
        (w.state.deposits C).Chargeable origin w.state.ledger c.self.contract c.self.selfUsed
          c.self.selfRefunded := by
  rw [← DepositConfig.chargeStorage_ok_iff]
  -- the host charges what the ledger lets it charge
  have hcharge : ∀ r, ((w.state.deposits C).chargeStorage origin w.state.ledger c.self.contract
      c.self.selfUsed c.self.selfRefunded).2 = r →
      ((World.host C origin).chargeStorage w c.self.contract c.self.selfUsed
        c.self.selfRefunded).2 = r := fun r h => h
  unfold Chain.finish
  cases hresult : c.self.result with
  | error e => simp
  | ok u =>
    by_cases hlimit : c.self.withinLimit = true
    · simp only [hroot, hlimit, if_true, chargeStorage, unreserveStorage]
      cases hhost : ((w.state.deposits C).chargeStorage origin w.state.ledger c.self.contract
          c.self.selfUsed c.self.selfRefunded).2 with
      | error e =>
        rw [hcharge _ hhost]
        simp
      | ok u =>
        rw [hcharge _ hhost]
        -- releasing the rest of the deposit does not fail
        have hrelease : ∀ w₁ : World, ((World.host C origin).unreserveStorage w₁ c.self.newLimit
            c.self.selfUsed c.self.selfRefunded).2 = .ok () := by
          intro w₁
          simp only [World.host, DepositConfig.unreserveStorage]
          split <;> rfl
        refine iff_of_true ⟨_, _, Prod.ext rfl (Prod.ext rfl (hrelease _))⟩
          ⟨⟨trivial, trivial⟩, rfl⟩
    · simp [hlimit]

end Root

end Evm

namespace EvmBridge

open Evm Scale

/-- How the code of a contract ends that is called through the bridge. -/
def frameOf (E : Env) (code : Behaviour) (context : InvokeContext) (input : Bytes) (limit : ℕ)
    (w : World) : Exit :=
  Runner.ran E context.sender context.origin context.contract gasLimit limit
    (code ⟨context.contract, context.sender, 0⟩ input w.state) w

/-- The contract accepts a call of the bridge in the world `w`. -/
structure Accepted (E : Env) (code : Behaviour) (context : InvokeContext) (input : Bytes)
    (limit : ℕ) (w : World) : Prop where
  /-- A contract that is not deployed may be called by developers and contracts only. -/
  permitted : w.state.isUndeployedContract context.contract = true →
    w.state.hasPermissionToCall context.sender = true
  /-- The origin can put up the deposit for the storage limit. -/
  affords : (w.state.deposits E.toConfig).Affords context.origin w.state.ledger limit
  /-- The base cost of the call is within the gas limit. -/
  gas : E.transactionCost ((Runner.started E.toConfig context.sender context.origin limit
    w).state.codeAtAddress E.toConfig context.contract) ≤ gasLimit
  /-- The code does not revert, fail or destroy the contract. -/
  returns : (frameOf E code context input limit w).reason = .succeed .returned ∨
    (frameOf E code context input limit w).reason = .succeed .stopped
  /-- It uses no more storage than the limit allows. -/
  within : (frameOf E code context input limit w).frame.meters.self.result = .ok () ∧
    (frameOf E code context input limit w).frame.meters.self.withinLimit = true
  /-- The storage it has used can be charged to the origin. -/
  chargeable : ((frameOf E code context input limit w).world.state.deposits
    E.toConfig).Chargeable context.origin (frameOf E code context input limit w).world.state.ledger
      context.contract (frameOf E code context input limit w).frame.meters.self.selfUsed
      (frameOf E code context input limit w).frame.meters.self.selfRefunded

/-- The bridge takes only a return or a stop for a success. -/
theorem handleExitReason_eq_ok {reason : ExitReason} :
    handleExitReason reason = .ok () ↔
      reason = .succeed .returned ∨ reason = .succeed .stopped := by
  cases reason with
  | succeed r => cases r <;> simp [handleExitReason]
  | revert => simp [handleExitReason]
  | error e => simp [handleExitReason]
  | fatal => simp [handleExitReason]

section Calls

variable {E : Env} {code : Behaviour} {context : InvokeContext} {input : Bytes} {limit : ℕ}
  {w : World}

/-- The deposit is put up when the root frame starts. -/
theorem reserveStorage_of_affords
    (h : (w.state.deposits E.toConfig).Affords context.origin w.state.ledger limit) :
    (World.host E.toConfig context.origin).reserveStorage
        { w with state := w.state.incNonce context.sender } limit =
      (Runner.started E.toConfig context.sender context.origin limit w, .ok ()) :=
  Prod.ext rfl (DepositConfig.reserveStorage_ok_iff.mpr h)

/-- The base cost of a call that is within the gas limit. -/
theorem recordTransaction_of_le {cost : ℕ} (h : cost ≤ gasLimit) :
    ((Gasometer.new gasLimit).recordTransaction cost).2 = .ok () := by
  unfold Gasometer.recordTransaction
  rw [if_neg]
  exact Nat.not_lt.mpr h

/-- When the storage of the frame can be settled. -/
theorem finish_frameOf_iff :
    (∃ above w', (frameOf E code context input limit w).frame.meters.finish
      (World.host E.toConfig context.origin) (frameOf E code context input limit w).world =
        (above, w', .ok ())) ↔
      ((frameOf E code context input limit w).frame.meters.self.result = .ok () ∧
        (frameOf E code context input limit w).frame.meters.self.withinLimit = true) ∧
      ((frameOf E code context input limit w).world.state.deposits E.toConfig).Chargeable
        context.origin (frameOf E code context input limit w).world.state.ledger context.contract
        (frameOf E code context input limit w).frame.meters.self.selfUsed
        (frameOf E code context input limit w).frame.meters.self.selfRefunded := by
  have hover : (Chain.root context.contract limit).Over
      (frameOf E code context input limit w).frame.meters := Runner.ran_over
  have hcontract : (frameOf E code context input limit w).frame.meters.self.contract =
      context.contract := hover.contract
  rw [Chain.finish_root_iff (List.forall₂_nil_left_iff.mp hover.above), hcontract]

/-- A call that the contract accepts returns, and with the reason the code has ended with. -/
theorem Accepted.call (h : Accepted E code context input limit w) :
    ∃ w' info, Runner.call E context.sender context.origin context.contract 0 gasLimit limit
        (code ⟨context.contract, context.sender, 0⟩ input w.state) w = (w', .ok info) ∧
      info.exitReason = (frameOf E code context input limit w).reason := by
  have hallowed : ¬(w.state.isUndeployedContract context.contract &&
      !w.state.hasPermissionToCall context.sender) = true := by
    simpa using h.permitted
  -- the root frame runs, as the base cost is paid
  have hroot : Runner.executeRoot E context.origin context.sender context.contract 0 gasLimit
      (fun s => E.transactionCost (s.codeAtAddress E.toConfig context.contract))
      (code ⟨context.contract, context.sender, 0⟩ input w.state) (.root context.contract limit)
      (Runner.started E.toConfig context.sender context.origin limit w) =
      .ok (frameOf E code context input limit w) := by
    have hpaid := recordTransaction_of_le h.gas
    unfold Runner.executeRoot Runner.transfer
    simp only [if_true]
    split
    · next heq =>
      rw [heq] at hpaid
      cases hpaid
    · next g u heq =>
      unfold frameOf Runner.ran
      simp only [heq]
  have hsucceed : (frameOf E code context input limit w).reason.isSucceed = true := by
    rcases h.returns with hr | hr <;> rw [hr] <;> rfl
  obtain ⟨above, w', hfin⟩ := finish_frameOf_iff.mpr ⟨h.within, h.chargeable⟩
  have hbody : Runner.callBody E context.sender context.origin context.contract 0 gasLimit
      (code ⟨context.contract, context.sender, 0⟩ input w.state) (.root context.contract limit)
      (Runner.started E.toConfig context.sender context.origin limit w) =
      ((frameOf E code context input limit w).frame.meters,
        (frameOf E code context input limit w).world,
        .commit (.ok ⟨(frameOf E code context input limit w).reason,
          (frameOf E code context input limit w).output,
          (frameOf E code context input limit w).frame.gasometer.usedGas,
          (frameOf E code context input limit w).frame.usedStorage⟩)) := by
    unfold Runner.callBody
    simp only [hroot, hsucceed, if_true]
  unfold Runner.call runTransaction
  rw [if_neg hallowed]
  simp only [reserveStorage_of_affords h.affords, hbody, hfin]
  exact ⟨_, _, rfl, rfl⟩

/-- **What a call that returns has done.** The deposit was put up, the base cost was paid and the
code has run; if it succeeds its storage was settled. -/
theorem call_eq_frameOf {w' : World} {info : CallInfo}
    (h : Runner.call E context.sender context.origin context.contract 0 gasLimit limit
      (code ⟨context.contract, context.sender, 0⟩ input w.state) w = (w', .ok info)) :
    (w.state.deposits E.toConfig).Affords context.origin w.state.ledger limit ∧
    E.transactionCost ((Runner.started E.toConfig context.sender context.origin limit
      w).state.codeAtAddress E.toConfig context.contract) ≤ gasLimit ∧
    info.exitReason = (frameOf E code context input limit w).reason ∧
    ((frameOf E code context input limit w).reason.isSucceed = true → ∃ above,
      (frameOf E code context input limit w).frame.meters.finish
        (World.host E.toConfig context.origin) (frameOf E code context input limit w).world =
          (above, w', .ok ())) := by
  obtain ⟨w₁, s, g, hreserve, htransfer, hcost, hinfo, hcommit, -⟩ := Runner.call_eq_ok h
  obtain rfl : Runner.started E.toConfig context.sender context.origin limit w = w₁ :=
    congrArg Prod.fst hreserve
  -- no value is moved
  obtain rfl : (Runner.started E.toConfig context.sender context.origin limit w).state = s := by
    unfold Runner.transfer at htransfer
    rw [if_pos rfl] at htransfer
    exact Except.ok.inj htransfer
  have hframe : Evm.execute ((code ⟨context.contract, context.sender, 0⟩ input w.state).exec E
      context.origin) ⟨context.contract, context.sender, 0⟩ false
      ⟨g, .root context.contract limit⟩
      (Runner.started E.toConfig context.sender context.origin limit w) =
      frameOf E code context input limit w := by
    unfold frameOf Runner.ran
    simp only [hcost]
  change info = ⟨_, _, _, _⟩ at hinfo
  simp only [hframe] at hinfo hcommit
  refine ⟨DepositConfig.reserveStorage_ok_iff.mp (congrArg Prod.snd hreserve), ?_,
    congrArg CallInfo.exitReason hinfo, hcommit⟩
  -- a base cost above the limit would have been refused
  by_contra hover
  have hrefused : (Gasometer.new gasLimit).gas < E.transactionCost ((Runner.started E.toConfig
      context.sender context.origin limit w).state.codeAtAddress E.toConfig context.contract) :=
    Nat.lt_of_not_le hover
  unfold Gasometer.recordTransaction at hcost
  rw [if_pos hrefused] at hcost
  cases hcost

/-- A call that returns and that the bridge does not refuse was accepted. -/
theorem Accepted.of_call {w' : World} {info : CallInfo}
    (h : Runner.call E context.sender context.origin context.contract 0 gasLimit limit
      (code ⟨context.contract, context.sender, 0⟩ input w.state) w = (w', .ok info))
    (hreason : handleExitReason info.exitReason = .ok ()) :
    Accepted E code context input limit w := by
  obtain ⟨haffords, hgas, hinfo, hcommit⟩ := call_eq_frameOf h
  rw [hinfo, handleExitReason_eq_ok] at hreason
  have hsucceed : (frameOf E code context input limit w).reason.isSucceed = true := by
    rcases hreason with hr | hr <;> rw [hr] <;> rfl
  obtain ⟨hwithin, hchargeable⟩ := finish_frameOf_iff.mp
    ((hcommit hsucceed).imp fun above hfin => ⟨w', hfin⟩)
  refine ⟨fun hundeployed => ?_, haffords, hgas, hreason, hwithin, hchargeable⟩
  by_contra hnot
  unfold Runner.call at h
  rw [if_pos (by simp [hundeployed, hnot])] at h
  cases h

/-- **Acceptance.** A call of the bridge comes through exactly if the contract accepts it. -/
theorem evmExecute_iff {isView : Bool} :
    (∃ w' info, evmExecute E code context input gasLimit limit isView w = (w', .ok info) ∧
      handleExitReason info.exitReason = .ok ()) ↔ Accepted E code context input limit w := by
  constructor
  · rintro ⟨w', info, hcall, hreason⟩
    have hresult := congrArg Prod.snd hcall
    exact .of_call (Prod.ext rfl hresult) hreason
  · intro h
    obtain ⟨w', info, hcall, hreason⟩ := h.call
    have hresult : (evmExecute E code context input gasLimit limit isView w).2 = .ok info :=
      congrArg Prod.snd hcall
    refine ⟨_, info, Prod.ext rfl hresult, ?_⟩
    rw [hreason, handleExitReason_eq_ok]
    exact h.returns

/-! ### Calls that leave the native balances alone -/

/-- The code leaves the native balances and the addresses of accounts alone, the contract uses no
more storage of its own than the limit, and the origin has more than the deposit of the limit and a
minimum balance. -/
structure Frugal (E : Env) (code : Behaviour) (context : InvokeContext) (input : Bytes)
    (limit : ℕ) (w : World) : Prop where
  ledger : (frameOf E code context input limit w).world.state.ledger =
    (Runner.started E.toConfig context.sender context.origin limit w).state.ledger
  mapping : (frameOf E code context input limit w).world.state.mapping = w.state.mapping
  own : (frameOf E code context input limit w).frame.meters.self.selfUsed ≤
    (frameOf E code context input limit w).frame.meters.self.selfRefunded + limit
  funds : (w.state.deposits E.toConfig).deposit limit + E.minimumBalance <
    w.state.ledger.free (w.state.getAccountId context.origin)
  apart : w.state.getAccountId context.origin ≠ w.state.getAccountId context.contract

namespace Frugal

variable (h : Frugal E code context input limit w)

include h

/-- The deposits are those of the state before the call. -/
theorem deposits : (frameOf E code context input limit w).world.state.deposits E.toConfig =
    w.state.deposits E.toConfig := by
  unfold State.deposits State.getAccountId
  rw [h.mapping]

/-- The ledger of the frame is that in which the deposit was put up. -/
theorem ledger_eq : (frameOf E code context input limit w).world.state.ledger =
    ((w.state.deposits E.toConfig).reserveStorage context.origin w.state.ledger limit).1 :=
  h.ledger

/-- **Funds suffice.** A contract accepts a call that leaves the native balances alone if it may be
called and its code returns within the limits. -/
theorem accepted (hlimit : limit < Bounded.maxValue storageBits) (hminimum : 0 < E.minimumBalance)
    (hpermitted : w.state.isUndeployedContract context.contract = true →
      w.state.hasPermissionToCall context.sender = true)
    (hgas : E.transactionCost ((Runner.started E.toConfig context.sender context.origin limit
      w).state.codeAtAddress E.toConfig context.contract) ≤ gasLimit)
    (hreturns : (frameOf E code context input limit w).reason = .succeed .returned ∨
      (frameOf E code context input limit w).reason = .succeed .stopped)
    (hwithin : (frameOf E code context input limit w).frame.meters.self.result = .ok () ∧
      (frameOf E code context input limit w).frame.meters.self.withinLimit = true) :
    Accepted E code context input limit w where
  permitted := hpermitted
  affords := .inr (.inr (.inl ((Nat.le_add_right _ _).trans_lt h.funds)))
  gas := hgas
  returns := hreturns
  within := hwithin
  chargeable := by
    rw [h.deposits, h.ledger_eq]
    exact DepositConfig.chargeable_of_funds h.funds h.apart h.own hlimit hminimum

end Frugal

/-- **Addresses.** Where accounts are not reaped, no call changes the address of an account. -/
theorem evmExecute_getEvmAddress (hhook : E.killHook = false) {isView : Bool} (who : AccountId) :
    (evmExecute E code context input gasLimit limit isView w).1.state.getEvmAddress who =
      w.state.getEvmAddress who := by
  unfold evmExecute executed
  simp only []
  rcases hcall : Runner.call E context.sender context.origin context.contract 0 gasLimit limit
      (code ⟨context.contract, context.sender, 0⟩ input w.state) w with ⟨w', e | info⟩
  · rfl
  · simp only []
    split
    · have hmapping : w'.state.mapping = w.state.mapping := by
        rw [← call_mapping hhook (w := w), hcall]
      change w'.state.mapping.getEvmAddress who = _
      rw [hmapping]
      rfl
    · rfl

end Calls

end EvmBridge
end Reef
