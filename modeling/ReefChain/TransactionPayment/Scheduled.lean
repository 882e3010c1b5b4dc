import Mathlib.Algebra.Order.Group.Abs
import ReefChain.ScheduledFees
import ReefChain.TransactionPayment.Linear

/-!
# What a scheduled call pays

A scheduled call pays for all of its gas before it runs, and gets the fee for the gas it has not
used back afterwards. The two fees are computed apart: each time the gas is converted to a weight,
the weight is capped at that of a block, and the fee is rounded.

The refund is never more than the charge, because every one of these steps is monotone. So
`refund_fee` does not reach its error, which it would notice after the deposit only. What is left of
the charge is the fee for the gas used up to one unit, since three roundings are involved.

A charge that was cut off at the largest balance would be left with nothing, but no such call gets
there: whoever has paid the largest balance has nothing left, as all there is has to fit a balance.

This is the build without the feature `with-ethereum-compatibility`; with it no fee is charged.
-/

namespace Reef

open Bounded Evm TransactionPayment

namespace TransactionPayment

section

variable {α : Type} [DecidableEq α] {F : Config} {l l₁ : Ledger α} {who : α} {weight payed : ℕ}

/-- Charging takes the fee, whatever part of it was reserved. -/
theorem unreserveAndChargeFee_total
    (h : unreserveAndChargeFee F l who weight = .ok (l₁, payed)) :
    payed = F.weightToFee weight ∧ l₁.total who + payed = l.total who := by
  obtain ⟨l', hwithdraw, h⟩ := Fallible.bind_eq_ok.mp h
  cases h
  refine ⟨rfl, ?_⟩
  rw [Ledger.withdraw_total (Fallible.mapError_eq_ok.mp hwithdraw), Ledger.unreserve_total]

/-- A refund within what was paid is not refused. -/
theorem refundFee_ok (h : F.weightToFee weight ≤ payed) :
    (refundFee F l who weight payed).2 = .ok () := by
  unfold refundFee
  simp only []
  split
  · rfl
  · rw [if_neg (not_lt.mpr h)]

/-- An account that exists gets its refund. -/
theorem refundFee_total (hexists : l.total who ≠ 0)
    (hfits : l.free who + F.weightToFee weight < 2 ^ balanceBits) :
    (refundFee F l who weight payed).1.total who = l.total who + F.weightToFee weight := by
  have hdeposit := Ledger.depositIntoExisting_of_lt hexists hfits
  unfold refundFee
  simp only [hdeposit]
  rw [← Ledger.depositIntoExisting_total hdeposit]
  split <;> rfl

end

end TransactionPayment

namespace Runtime

/-- A scheduled call that is carried out: `payed` is charged, which leaves the ledger `l`, and the
code of the target runs from there to `w'`. -/
structure CarriedOut (R : Runtime) (c : ScheduledCall) (prog : Prog) (w : World)
    (l : Ledger AccountId) (payed : ℕ) (w' : World) (info : CallInfo) : Prop where
  charged : unreserveAndChargeFee R.fees w.state.ledger (w.state.getAccountId c.source)
    (gasToWeight c.gasLimit) = .ok (l, payed)
  ran : Runner.call R.env c.source c.source c.target c.value c.gasLimit c.storageLimit prog
    { w with state := { w.state with ledger := l } } = (w', .ok info)

variable {R : Runtime} {c : ScheduledCall} {prog : Prog} {w w' : World} {l : Ledger AccountId}
  {payed : ℕ} {info : CallInfo} {who : AccountId} {s : State}

theorem CarriedOut.result (h : CarriedOut R c prog w l payed w' info) :
    R.scheduledCall c prog w =
      ({ w' with
        state := R.scheduledDone c (w.state.getAccountId c.source) payed info w'.state },
      .ok ()) := by
  unfold scheduledCall
  simp only [h.charged, h.ran]

/-- Of all that is done at the end of a call, only the refund is money. -/
theorem scheduledDone_ledger : (R.scheduledDone c who payed info s).ledger =
    if c.gasLimit - info.usedGas = 0 then s.ledger
    else (refundFee R.fees s.ledger who (gasToWeight (c.gasLimit - info.usedGas)) payed).1 := by
  unfold scheduledDone
  simp only []
  split <;> rfl

variable {P : LinearFee} {existentialDeposit : ℕ}

/-- An account that exists gets the fee for the gas that is left, be it nothing. -/
theorem scheduledDone_total (hlinear : R.fees = P.config existentialDeposit)
    (hexists : s.ledger.total who ≠ 0)
    (hfits : s.ledger.free who + R.fees.gasFee (c.gasLimit - info.usedGas) < 2 ^ balanceBits) :
    (R.scheduledDone c who payed info s).ledger.total who =
      s.ledger.total who + R.fees.gasFee (c.gasLimit - info.usedGas) := by
  rw [scheduledDone_ledger]
  split
  · next hnone => rw [hnone, hlinear, LinearFee.gasFee_zero, Nat.add_zero]
  · exact refundFee_total hexists hfits

/-- **Scheduled calls pay for the gas they use.** The refund is within the charge, so it is never
refused. If the weight of the gas limit fits a block, an account that still exists after the call
has paid the fee for the gas used up to one unit. What it holds and what it has paid fit a balance
together, because both are part of the total issuance. -/
theorem scheduled_call_pays_for_gas (R : Runtime) (P : LinearFee) (existentialDeposit : ℕ)
    (hlinear : R.fees = P.config existentialDeposit) :
    (∀ gasLimit usedGas, usedGas ≤ gasLimit →
      R.fees.gasFee (gasLimit - usedGas) ≤ R.fees.gasFee gasLimit ∧
      ∀ (l : Ledger AccountId) (who : AccountId),
        (refundFee R.fees l who (gasToWeight (gasLimit - usedGas))
          (R.fees.gasFee gasLimit)).2 = .ok ()) ∧
    ∀ (c : ScheduledCall) (prog : Prog) (w : World) (l : Ledger AccountId) (payed : ℕ)
      (w' : World) (info : CallInfo), CarriedOut R c prog w l payed w' info →
      info.usedGas ≤ c.gasLimit → gasToWeight c.gasLimit ≤ MAXIMUM_BLOCK_WEIGHT →
      let who := w.state.getAccountId c.source
      w'.state.ledger.total who ≠ 0 → w'.state.ledger.total who + payed < 2 ^ balanceBits →
      let done := (R.scheduledCall c prog w).1
      |netPayment w.state.ledger l w'.state.ledger done.state.ledger who -
        R.fees.gasFee info.usedGas| ≤ 1 := by
  have hmono : ∀ gasLimit usedGas,
      R.fees.gasFee (gasLimit - usedGas) ≤ R.fees.gasFee gasLimit := by
    intro gasLimit usedGas
    rw [hlinear]
    exact LinearFee.gasFee_mono (Nat.sub_le _ _)
  refine ⟨fun gasLimit usedGas _ => ⟨hmono _ _, fun l who => refundFee_ok (hmono _ _)⟩, ?_⟩
  intro c prog w l payed w' info hcarried hused hblock who hexists hissuance done
  obtain ⟨hpayed, htaken⟩ := unreserveAndChargeFee_total hcarried.charged
  have hpayed : payed = R.fees.gasFee c.gasLimit := hpayed
  have hless := hmono c.gasLimit info.usedGas
  have hfree : w'.state.ledger.free who ≤ w'.state.ledger.total who := Nat.le_add_right _ _
  have hgiven : done.state.ledger.total who =
      w'.state.ledger.total who + R.fees.gasFee (c.gasLimit - info.usedGas) := by
    have hdone : done = { w' with state := R.scheduledDone c who payed info w'.state } :=
      congrArg Prod.fst hcarried.result
    rw [hdone]
    exact scheduledDone_total hlinear hexists (by omega)
  -- the account exists besides what it has paid, which is thus not the largest balance
  have hcut : R.fees.gasFee c.gasLimit < maxValue balanceBits := by
    unfold maxValue
    omega
  have hclose : R.fees.gasFee c.gasLimit ≤
        R.fees.gasFee (c.gasLimit - info.usedGas) + R.fees.gasFee info.usedGas + 1 ∧
      R.fees.gasFee (c.gasLimit - info.usedGas) + R.fees.gasFee info.usedGas ≤
        R.fees.gasFee c.gasLimit + 1 := by
    rw [hlinear] at hcut ⊢
    exact LinearFee.gasFee_sub_close hused hblock hcut
  have htaken : l.total who + payed = w.state.ledger.total who := htaken
  unfold netPayment
  rw [abs_le]
  omega

/-- A call with more gas than it uses. -/
def generousCall : ScheduledCall := ⟨5, 8, [], 0, 100_000, 0⟩

/-- The charge for it. -/
def generousCharge : Except InvalidTransaction (Ledger AccountId × ℕ) :=
  unreserveAndChargeFee sampleRuntime.fees scheduling.ledger (scheduling.getAccountId 5)
    (gasToWeight generousCall.gasLimit)

/-- The ledger once it is paid. -/
def generousCharged : Ledger AccountId := (generousCharge.map Prod.fst).toOption.getD funds

/-- The run of its target, which stops at once. -/
def generousRun : World × Except Evm.DispatchError CallInfo :=
  Runner.call sampleRuntime.env 5 5 8 0 generousCall.gasLimit 0 (.exit (.succeed .stopped) [])
    ⟨{ scheduling with ledger := generousCharged }, []⟩

theorem generousCall_carriedOut :
    CarriedOut sampleRuntime generousCall (.exit (.succeed .stopped) []) ⟨scheduling, []⟩
      generousCharged 8_142_143_735_977_419 generousRun.1 ⟨.succeed .stopped, [], 21_000, 0⟩ := by
  have hran : generousRun.2 = .ok ⟨.succeed .stopped, [], 21_000, 0⟩ := by decide +kernel
  have hpayed : (generousCharge.map Prod.snd).toOption = some 8_142_143_735_977_419 := by
    decide +kernel
  refine ⟨?_, Prod.ext rfl hran⟩
  change generousCharge = _
  unfold generousCharged
  cases hcharge : generousCharge with
  | error e =>
    rw [hcharge] at hpayed
    cases hpayed
  | ok x =>
    rw [hcharge] at hpayed
    exact congrArg (fun payed => Except.ok (x.1, payed)) (Option.some.inj hpayed)

/-- It pays for the gas of a call that does nothing. -/
theorem scheduled_call_pays_generous :
    |netPayment scheduling.ledger generousCharged generousRun.1.state.ledger
        (sampleRuntime.scheduledCall generousCall (.exit (.succeed .stopped) [])
          ⟨scheduling, []⟩).1.state.ledger (scheduling.getAccountId 5) -
      sampleRuntime.fees.gasFee 21_000| ≤ 1 := by
  have hexists : generousRun.1.state.ledger.total (scheduling.getAccountId 5) ≠ 0 := by
    decide +kernel
  have hissuance : generousRun.1.state.ledger.total (scheduling.getAccountId 5) +
      8_142_143_735_977_419 < 2 ^ balanceBits := by
    decide +kernel
  have hused : 21_000 ≤ generousCall.gasLimit := by decide +kernel
  have hblock : gasToWeight generousCall.gasLimit ≤ MAXIMUM_BLOCK_WEIGHT := by decide +kernel
  have hpays :=
    (scheduled_call_pays_for_gas sampleRuntime (LinearFee.runtime EXTRINSIC_BASE_WEIGHT) 1 rfl).2
  have hclose := hpays generousCall _ _ _ _ _ _ generousCall_carriedOut hused hblock
  exact hclose hexists hissuance

end Runtime

end Reef
