import ReefChain.TransactionPayment.Linear

/-!
# The fee of an extrinsic

An extrinsic pays before it is dispatched, for the weight it declares. It can report afterwards that
it took less, or that it pays nothing, and the difference is refunded (`ChargeTransactionPayment`).

The fee is composed of a base fee, a fee for the length, a fee for the weight that is adjusted by a
multiplier, and a tip. All of it is saturating arithmetic, and each step is monotone, so that the
fee after the dispatch is at most the one before, at every weight and multiplier
(`computeActualFee_le`). The refund is thus within what was paid, and the fee in the event is the
one that was paid in the end.

The fees that are collected are burned (`OnTransactionPayment = ()`).
-/

namespace Reef
namespace TransactionPayment

open Bounded

/-! ### What the framework says about a dispatch -/

/-- `Weight`. -/
structure Weight where
  refTime : ℕ
  proofSize : ℕ
  deriving DecidableEq, Repr

/-- `Weight::min`, component by component. -/
def Weight.min (a b : Weight) : Weight :=
  ⟨Nat.min a.refTime b.refTime, Nat.min a.proofSize b.proofSize⟩

/-- `DispatchClass`. -/
inductive DispatchClass
  | normal
  | operational
  | mandatory
  deriving DecidableEq, Repr

/-- `Pays`. -/
inductive Pays
  | yes
  | no
  deriving DecidableEq, Repr

/-- `DispatchInfo`: what a call declares. -/
structure DispatchInfo where
  weight : Weight
  dispatchClass : DispatchClass
  paysFee : Pays
  deriving DecidableEq, Repr

/-- `PostDispatchInfo`: what it reports afterwards. -/
structure PostDispatchInfo where
  actualWeight : Option Weight
  paysFee : Pays
  deriving DecidableEq, Repr

/-- `PostDispatchInfo::calc_actual_weight`. -/
def PostDispatchInfo.calcActualWeight (post : PostDispatchInfo) (info : DispatchInfo) : Weight :=
  match post.actualWeight with
  | some actual => actual.min info.weight
  | none => info.weight

/-- `PostDispatchInfo::pays_fee`. -/
def PostDispatchInfo.pays (post : PostDispatchInfo) (info : DispatchInfo) : Pays :=
  if info.paysFee = .yes ∧ post.paysFee = .yes then .yes else .no

/-- `InclusionFee`. -/
structure InclusionFee where
  baseFee : ℕ
  lenFee : ℕ
  adjustedWeightFee : ℕ
  deriving DecidableEq, Repr

/-- `InclusionFee::inclusion_fee`. -/
def InclusionFee.inclusionFee (fee : InclusionFee) : ℕ :=
  satAdd balanceBits (satAdd balanceBits fee.baseFee fee.lenFee) fee.adjustedWeightFee

/-- `FeeDetails`. -/
structure FeeDetails where
  inclusionFee : Option InclusionFee
  tip : ℕ
  deriving DecidableEq, Repr

/-- `FeeDetails::final_fee`. -/
def FeeDetails.finalFee (details : FeeDetails) : ℕ :=
  satAdd balanceBits ((details.inclusionFee.map InclusionFee.inclusionFee).getD 0) details.tip

/-! ### The pallet -/

/-- What the fee of an extrinsic depends on. A heavier extrinsic is not cheaper. -/
structure ChargeConfig extends Config where
  transactionByteFee : ℕ
  /-- `base_extrinsic` of `BlockWeights`. -/
  baseExtrinsic : DispatchClass → Weight
  charge_mono : ∀ a b, a ≤ b → charge a ≤ charge b

/-- The runtime, where `baseWeight` is the time in `ExtrinsicBaseWeight`. -/
def LinearFee.chargeConfig (P : LinearFee) (existentialDeposit baseWeight : ℕ) : ChargeConfig where
  toConfig := P.config existentialDeposit
  transactionByteFee := 10 * MILLI_REEF
  baseExtrinsic _ := ⟨baseWeight, 0⟩
  charge_mono _ _ := P.weightToFee_mono

/-- `Event::TransactionFeePaid`. -/
structure TransactionFeePaid (α : Type) where
  who : α
  actualFee : ℕ
  actualTip : ℕ
  deriving DecidableEq, Repr

/-- What `pre_dispatch` hands to `post_dispatch`. -/
structure Pre (α : Type) where
  tip : ℕ
  who : α
  /-- The imbalance. -/
  payed : Option ℕ
  fee : ℕ

section

variable {α : Type} [DecidableEq α] (F : ChargeConfig) (multiplier : FixedU128) (l : Ledger α)

/-- `compute_fee_raw`. -/
def computeFeeRaw (len : ℕ) (weight : Weight) (tip : ℕ) (paysFee : Pays)
    (dispatchClass : DispatchClass) : FeeDetails :=
  match paysFee with
  | .yes =>
    let fixedLenFee := satMul balanceBits F.transactionByteFee len
    let unadjustedWeightFee := F.weightToFee weight.refTime
    let adjustedWeightFee := multiplier.saturatingMulInt unadjustedWeightFee
    let baseFee := F.weightToFee (F.baseExtrinsic dispatchClass).refTime
    ⟨some ⟨baseFee, fixedLenFee, adjustedWeightFee⟩, tip⟩
  | .no => ⟨none, tip⟩

/-- `compute_fee`. -/
def computeFee (len : ℕ) (info : DispatchInfo) (tip : ℕ) : ℕ :=
  (computeFeeRaw F multiplier len info.weight tip info.paysFee info.dispatchClass).finalFee

/-- `compute_actual_fee`. -/
def computeActualFee (len : ℕ) (info : DispatchInfo) (post : PostDispatchInfo) (tip : ℕ) : ℕ :=
  (computeFeeRaw F multiplier len (post.calcActualWeight info) tip (post.pays info)
    info.dispatchClass).finalFee

/-- `withdraw_fee`. The length is cut off to 32 bits. -/
def withdrawFee (tip : ℕ) (who : α) (info : DispatchInfo) (len : ℕ) :
    Except InvalidTransaction (Ledger α × ℕ) := do
  let fee := computeFee F multiplier (len % 2 ^ 32) info tip
  let l ← (l.withdraw F.existentialDeposit who fee).mapError fun _ => .payment
  return (l, fee)

/-- `pre_dispatch` of an extrinsic with the given tip. -/
def preDispatch (tip : ℕ) (who : α) (info : DispatchInfo) (len : ℕ) :
    Except InvalidTransaction (Ledger α × Pre α) := do
  let (l, fee) ← withdrawFee F multiplier l tip who info len
  return (l, ⟨tip, who, some fee, fee⟩)

/-- `post_dispatch`. The ledger, the events and the result are returned. A refund above what was
paid is an error, but it has been deposited then. -/
def postDispatch (pre : Option (Pre α)) (info : DispatchInfo) (post : PostDispatchInfo) (len : ℕ) :
    Ledger α × List (TransactionFeePaid α) × Except InvalidTransaction Unit :=
  match pre with
  | some ⟨tip, who, some payed, fee⟩ =>
    let actualFee := computeActualFee F multiplier (len % 2 ^ 32) info post tip
    let refund := fee - actualFee
    match l.depositIntoExisting who refund with
    | .error _ => (l, [⟨who, actualFee, tip⟩], .ok ())
    | .ok l =>
      if payed < refund then (l, [], .error .payment) else (l, [⟨who, actualFee, tip⟩], .ok ())
  | _ => (l, [], .ok ())

end

/-! ### The fee afterwards -/

/-- A weight that was reported is at most the one that was declared. -/
theorem PostDispatchInfo.calcActualWeight_le (post : PostDispatchInfo) (info : DispatchInfo) :
    (post.calcActualWeight info).refTime ≤ info.weight.refTime := by
  unfold calcActualWeight
  split
  · exact Nat.min_le_right _ _
  · exact le_rfl

theorem Config.weightToFee_mono {F : Config} (hmono : ∀ a b, a ≤ b → F.charge a ≤ F.charge b)
    {a b : ℕ} (h : a ≤ b) : F.weightToFee a ≤ F.weightToFee b :=
  hmono _ _ (min_le_min_right _ h)

section

variable {α : Type} [DecidableEq α] {F : ChargeConfig} {multiplier : FixedU128}
  {l l₁ : Ledger α} {who : α} {tip len : ℕ} {info : DispatchInfo} {post : PostDispatchInfo}
  {pre : Pre α}

/-- The inclusion fee grows with the weight. -/
theorem finalFee_computeFeeRaw_mono {a b : Weight} {paysFee : Pays} {dispatchClass : DispatchClass}
    (h : a.refTime ≤ b.refTime) :
    (computeFeeRaw F multiplier len a tip paysFee dispatchClass).finalFee ≤
      (computeFeeRaw F multiplier len b tip paysFee dispatchClass).finalFee := by
  have hweight : multiplier.saturatingMulInt (F.weightToFee a.refTime) ≤
      multiplier.saturatingMulInt (F.weightToFee b.refTime) :=
    multiplier.saturatingMulInt_mono (Config.weightToFee_mono F.charge_mono h)
  cases paysFee with
  | yes => exact satAdd_mono (satAdd_mono le_rfl hweight) le_rfl
  | no => exact le_rfl

/-- Without an inclusion fee, it is the tip that is left. -/
theorem finalFee_computeFeeRaw_no {a b : Weight} {paysFee : Pays} {dispatchClass : DispatchClass} :
    (computeFeeRaw F multiplier len a tip .no dispatchClass).finalFee ≤
      (computeFeeRaw F multiplier len b tip paysFee dispatchClass).finalFee :=
  satAdd_mono (Nat.zero_le _) (by cases paysFee <;> exact le_rfl)

/-- **Less is due afterwards.** -/
theorem computeActualFee_le (F : ChargeConfig) (multiplier : FixedU128) (len : ℕ)
    (info : DispatchInfo) (post : PostDispatchInfo) (tip : ℕ) :
    computeActualFee F multiplier len info post tip ≤ computeFee F multiplier len info tip := by
  unfold computeActualFee computeFee PostDispatchInfo.pays
  split
  · next hpays =>
    rw [hpays.1]
    exact finalFee_computeFeeRaw_mono (post.calcActualWeight_le info)
  · exact finalFee_computeFeeRaw_no

/-! ### The two halves of a payment -/

/-- `pre_dispatch` takes the fee and keeps a note of it. -/
theorem preDispatch_eq_ok (h : preDispatch F multiplier l tip who info len = .ok (l₁, pre)) :
    let fee := computeFee F multiplier (len % 2 ^ 32) info tip
    pre = ⟨tip, who, some fee, fee⟩ ∧ l₁.total who + fee = l.total who := by
  obtain ⟨⟨l', fee⟩, hfee, h⟩ := Fallible.bind_eq_ok.mp h
  cases h
  obtain ⟨l', hwithdraw, hfee⟩ := Fallible.bind_eq_ok.mp hfee
  cases hfee
  exact ⟨rfl, Ledger.withdraw_total (Fallible.mapError_eq_ok.mp hwithdraw)⟩

/-- With such a note, `post_dispatch` does not get to its error: the refund is a part of the fee. -/
theorem postDispatch_result (F : ChargeConfig) (multiplier : FixedU128) (l : Ledger α) (tip : ℕ)
    (who : α) (info : DispatchInfo) (post : PostDispatchInfo) (len fee : ℕ) :
    (postDispatch F multiplier l (some ⟨tip, who, some fee, fee⟩) info post len).2.2 = .ok () := by
  unfold postDispatch
  simp only []
  split
  · rfl
  · rw [if_neg (not_lt.mpr (Nat.sub_le _ _))]

/-- If the sender takes the refund, the event says what is left of the fee. -/
theorem postDispatch_refunded {fee : ℕ}
    (h : l.depositIntoExisting who
      (fee - computeActualFee F multiplier (len % 2 ^ 32) info post tip) = .ok l₁) :
    postDispatch F multiplier l (some ⟨tip, who, some fee, fee⟩) info post len =
      (l₁, [⟨who, computeActualFee F multiplier (len % 2 ^ 32) info post tip, tip⟩], .ok ()) := by
  unfold postDispatch
  simp only [h]
  rw [if_neg (not_lt.mpr (Nat.sub_le _ _))]

end

/-- **The refund is within the prepayment, and the reported fee is the fee paid.** The fee after the
dispatch is at most the one before. So `post_dispatch` does not fail, whatever the dispatch has done
to the ledger. If the sender still exists, the sender has paid the fee in the event; what the sender
holds and has paid fit a balance together, because both are part of the total issuance. -/
theorem reported_fee_is_paid {α : Type} [DecidableEq α] (F : ChargeConfig) (multiplier : FixedU128)
    (info : DispatchInfo) (post : PostDispatchInfo) (tip : ℕ) :
    (∀ len, computeActualFee F multiplier len info post tip ≤
      computeFee F multiplier len info tip) ∧
    ∀ (len : ℕ) (l l₁ : Ledger α) (who : α) (pre : Pre α),
      preDispatch F multiplier l tip who info len = .ok (l₁, pre) →
      ∀ l₂ : Ledger α,
        let settled := postDispatch F multiplier l₂ (some pre) info post len
        settled.2.2 = .ok () ∧
        (l₂.total who ≠ 0 → l₂.total who + pre.fee < 2 ^ balanceBits →
          ∃ event, settled.2.1 = [event] ∧ event.who = who ∧
            netPayment l l₁ l₂ settled.1 who = event.actualFee) := by
  refine ⟨fun len => computeActualFee_le F multiplier len info post tip, ?_⟩
  intro len l l₁ who pre hpre l₂ settled
  obtain ⟨rfl, htaken⟩ := preDispatch_eq_ok hpre
  refine ⟨postDispatch_result .., ?_⟩
  intro hexists hissuance
  have hissuance : l₂.total who + computeFee F multiplier (len % 2 ^ 32) info tip <
    2 ^ balanceBits := hissuance
  have hle := computeActualFee_le F multiplier (len % 2 ^ 32) info post tip
  have hfree : l₂.free who ≤ l₂.total who := Nat.le_add_right _ _
  -- the refund overflows neither the free balance nor the total, so all of it is deposited
  have hdeposit := Ledger.depositIntoExisting_of_lt (v := computeFee F multiplier (len % 2 ^ 32)
    info tip - computeActualFee F multiplier (len % 2 ^ 32) info post tip) hexists (by omega)
  have hgiven := Ledger.depositIntoExisting_total hdeposit
  have hsettled : settled = _ := postDispatch_refunded hdeposit
  rw [hsettled]
  refine ⟨_, rfl, rfl, ?_⟩
  change netPayment l l₁ l₂ _ who =
    (computeActualFee F multiplier (len % 2 ^ 32) info post tip : ℤ)
  unfold netPayment
  rw [hgiven]
  omega

/-- The fees of the runtime. -/
def runtimeCharge : ChargeConfig :=
  (LinearFee.runtime EXTRINSIC_BASE_WEIGHT).chargeConfig 1 EXTRINSIC_BASE_WEIGHT

/-- What an extrinsic declares. -/
def declared : DispatchInfo := ⟨⟨1_000_000, 0⟩, .normal, .yes⟩

/-- It reports half of that. -/
def reported : PostDispatchInfo := ⟨some ⟨500_000, 0⟩, .yes⟩

/-- Two accounts with ten tokens each. -/
def wealthy : Ledger Bool := .ofFree fun _ => 10 * REEF

/-- The payment in advance. -/
def advance : Except InvalidTransaction (Ledger Bool × Pre Bool) :=
  preDispatch runtimeCharge ⟨FixedU128.DIV⟩ wealthy 5 true declared 100

/-- If nothing happens in between, the sender has paid what the event says. -/
theorem reported_fee_is_paid_half : ∃ l₁ pre event, advance = .ok (l₁, pre) ∧
    (postDispatch runtimeCharge ⟨FixedU128.DIV⟩ l₁ (some pre) declared reported 100).2.1 =
      [event] ∧
    netPayment wealthy l₁ l₁
      (postDispatch runtimeCharge ⟨FixedU128.DIV⟩ l₁ (some pre) declared reported 100).1 true =
        event.actualFee := by
  have hfee : computeFee runtimeCharge ⟨FixedU128.DIV⟩ (100 % 2 ^ 32) declared 5 =
      1_001_009_046_826_373_313 := by
    decide +kernel
  cases hadvance : advance with
  | error e =>
    have hok : advance.toOption.isSome := by decide +kernel
    rw [hadvance] at hok
    cases hok
  | ok x =>
    obtain ⟨l₁, pre⟩ := x
    obtain ⟨hpre, htaken⟩ := preDispatch_eq_ok hadvance
    simp only [hfee] at hpre htaken
    have hheld : wealthy.total true = 10 * REEF := by decide +kernel
    have hleft : l₁.total true = 8_998_990_953_173_626_687 := by
      rw [hheld] at htaken
      unfold REEF at htaken
      omega
    have hpaid := (reported_fee_is_paid runtimeCharge ⟨FixedU128.DIV⟩ declared reported 5).2 100
      wealthy l₁ true pre hadvance l₁
    obtain ⟨event, hevents, -, hnet⟩ := hpaid.2 (by rw [hleft]; decide)
      (by rw [hleft, hpre]; decide +kernel)
    exact ⟨l₁, pre, event, rfl, hevents, hnet⟩

end TransactionPayment
end Reef
