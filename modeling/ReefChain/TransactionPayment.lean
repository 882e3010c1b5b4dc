import ReefChain.Ledger

/-!
# Transaction fees

The part of the pallet `transaction-payment` the scheduler of EVM calls uses. The fee of a scheduled
call is reserved when it is scheduled; when it is due, the fee is released and withdrawn, and the
part for the gas that was not used is given back. The collected fees are burned
(`OnTransactionPayment = ()`).

Fees can be paid in the native currency only: exchanging other currencies is disabled in the source,
so `ensure_can_charge_fee` reads balances and changes nothing.
-/

namespace Reef
namespace TransactionPayment

open Bounded

/-- `RATIO`. -/
def RATIO : ℕ := 9000

/-- `GasToWeight::convert`. -/
def gasToWeight (gas : ℕ) : ℕ := satMul 64 gas RATIO

/-- `InvalidTransaction`, of which only `Payment` occurs. -/
inductive InvalidTransaction
  | payment
  deriving DecidableEq, Repr

/-- What the pallet is configured with. Fees are balances. -/
structure Config where
  maxBlock : ℕ
  /-- `WeightToFee`. -/
  charge : ℕ → ℕ
  existentialDeposit : ℕ
  charge_lt : ∀ weight, charge weight < 2 ^ balanceBits

variable {α : Type} [DecidableEq α] (F : Config) (l : Ledger α) (who : α)

/-- `weight_to_fee`. -/
def Config.weightToFee (weight : ℕ) : ℕ := F.charge (min weight F.maxBlock)

/-- The fee for an amount of gas. -/
def Config.gasFee (gas : ℕ) : ℕ := F.weightToFee (gasToWeight gas)

theorem Config.gasFee_lt (gas : ℕ) : F.gasFee gas < 2 ^ balanceBits := F.charge_lt _

/-- `reserve_fee`. -/
def reserveFee (weight : ℕ) : Except CurrencyError (Ledger α × ℕ) := do
  let fee := F.weightToFee weight
  let l ← l.reserve who fee
  return (l, fee)

/-- `unreserve_fee`. -/
def unreserveFee (fee : ℕ) : Ledger α := (l.unreserve who fee).1

/-- `unreserve_and_charge_fee`. The fee that was paid is returned. -/
def unreserveAndChargeFee (weight : ℕ) : Except InvalidTransaction (Ledger α × ℕ) := do
  let fee := F.weightToFee weight
  let l ← ((l.unreserve who fee).1.withdraw F.existentialDeposit who fee).mapError
    fun _ => .payment
  return (l, fee)

/-- `refund_fee`. A refund above what was paid is an error, but it has been deposited then. -/
def refundFee (weight payed : ℕ) : Ledger α × Except InvalidTransaction Unit :=
  let refund := F.weightToFee weight
  match l.depositIntoExisting who refund with
  | .error _ => (l, .ok ())
  | .ok l => if payed < refund then (l, .error .payment) else (l, .ok ())

/-- What an account pays: what the charge, from `l` to `l₁`, takes less what the refund, from `l₂`
to `l₃`, gives. -/
def netPayment (l l₁ l₂ l₃ : Ledger α) (who : α) : ℤ :=
  ((l.total who : ℤ) - l₁.total who) - ((l₃.total who : ℤ) - l₂.total who)

end TransactionPayment
end Reef
