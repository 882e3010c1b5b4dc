import ReefChain.TransactionPayment

/-!
# Linear fees

The runtime charges a fee that is linear in the weight: the polynomial `WeightToFee` has one
coefficient, an integer and a fraction in parts per billion. The framework evaluates it in
saturating arithmetic, and rounds the product with the fraction to the nearest integer.

Every step of the evaluation is monotone (`weightToFee_mono`), and it stops at the largest balance
(`weightToFee_eq`). Below that, the fee of a sum is the sum of the fees up to one unit
(`exactFee_add_close`).
-/

namespace Reef
namespace TransactionPayment

open Bounded

/-- `WEIGHT_REF_TIME_PER_SECOND`. -/
def WEIGHT_REF_TIME_PER_SECOND : ℕ := 1_000_000_000_000

/-- The time in `MAXIMUM_BLOCK_WEIGHT`. -/
def MAXIMUM_BLOCK_WEIGHT : ℕ := 2 * WEIGHT_REF_TIME_PER_SECOND

/-- The time in `ExtrinsicBaseWeight` of the framework, in picoseconds. The comment beside its use
in the runtime gives an older value. -/
def EXTRINSIC_BASE_WEIGHT : ℕ := 110_536_000

/-- A `WeightToFeePolynomial` with one coefficient, of degree one and not negative. -/
structure LinearFee where
  coeffInteger : ℕ
  coeffFrac : Perbill

namespace LinearFee

variable (P : LinearFee)

/-- `weight_to_fee` of the framework, for one coefficient. -/
def weightToFee (time : ℕ) : ℕ :=
  let frac := P.coeffFrac.mul time
  let integer := satMul balanceBits P.coeffInteger time
  satAdd balanceBits (satAdd balanceBits 0 frac) integer

/-- The polynomial of the runtime, where `baseWeight` is the time in `ExtrinsicBaseWeight`. -/
def runtime (baseWeight : ℕ) : LinearFee where
  coeffInteger := MILLI_REEF / baseWeight
  coeffFrac := .fromRational (MILLI_REEF % baseWeight) baseWeight

/-- The fee without saturation. -/
def exactFee (time : ℕ) : ℕ := P.coeffFrac.mul time + P.coeffInteger * time

/-- The fee is exact, as far as it fits a balance. -/
theorem weightToFee_eq (time : ℕ) :
    P.weightToFee time = min (P.exactFee time) (maxValue balanceBits) := by
  unfold weightToFee exactFee satAdd satMul
  simp only []
  omega

theorem weightToFee_lt (time : ℕ) : P.weightToFee time < 2 ^ balanceBits :=
  (satAdd_le_maxValue _ _ _).trans_lt (maxValue_lt _)

theorem exactFee_mono {a b : ℕ} (h : a ≤ b) : P.exactFee a ≤ P.exactFee b :=
  Nat.add_le_add (P.coeffFrac.mul_mono h) (Nat.mul_le_mul_left _ h)

theorem weightToFee_mono {a b : ℕ} (h : a ≤ b) : P.weightToFee a ≤ P.weightToFee b := by
  rw [weightToFee_eq, weightToFee_eq]
  exact min_le_min_right _ (P.exactFee_mono h)

theorem weightToFee_zero : P.weightToFee 0 = 0 := by
  have hfrac : P.coeffFrac.mul 0 = 0 := by
    unfold Perbill.mul Perbill.accuracy
    rw [Nat.mul_zero]
  rw [weightToFee_eq, exactFee, hfrac, Nat.mul_zero]
  exact Nat.zero_min _

/-- **Rounding.** The fee of a sum is the sum of the fees up to one unit. -/
theorem exactFee_add_close (a b : ℕ) :
    P.exactFee (a + b) ≤ P.exactFee a + P.exactFee b + 1 ∧
      P.exactFee a + P.exactFee b ≤ P.exactFee (a + b) + 1 := by
  have hround := P.coeffFrac.mul_add_close a b
  have hlinear : P.coeffInteger * (a + b) = P.coeffInteger * a + P.coeffInteger * b :=
    Nat.mul_add _ _ _
  unfold exactFee
  omega

/-- The pallet with a linear fee and the block weight of the runtime. -/
def config (existentialDeposit : ℕ) : Config where
  maxBlock := MAXIMUM_BLOCK_WEIGHT
  charge := P.weightToFee
  existentialDeposit := existentialDeposit
  charge_lt := P.weightToFee_lt

/-! ### The fee for an amount of gas -/

variable {P} {existentialDeposit gas gasLimit usedGas : ℕ}

/-- Gas whose weight fits a block is not saturated. -/
theorem gasToWeight_of_le (h : gasToWeight gas ≤ MAXIMUM_BLOCK_WEIGHT) :
    gasToWeight gas = gas * RATIO := by
  have hmax : MAXIMUM_BLOCK_WEIGHT < maxValue 64 := by decide
  unfold gasToWeight satMul at h ⊢
  omega

/-- More gas costs more. -/
theorem gasFee_mono {a b : ℕ} (h : a ≤ b) :
    (P.config existentialDeposit).gasFee a ≤ (P.config existentialDeposit).gasFee b :=
  P.weightToFee_mono (min_le_min_right _ (satMul_mono_left h))

theorem gasFee_zero : (P.config existentialDeposit).gasFee 0 = 0 := P.weightToFee_zero

/-- The fee of gas whose weight fits a block. -/
theorem gasFee_eq (h : gasToWeight gas ≤ MAXIMUM_BLOCK_WEIGHT) :
    (P.config existentialDeposit).gasFee gas =
      min (P.exactFee (gas * RATIO)) (maxValue balanceBits) := by
  change P.weightToFee (min (gasToWeight gas) MAXIMUM_BLOCK_WEIGHT) = _
  rw [min_eq_left h, weightToFee_eq, gasToWeight_of_le h]

/-- **The fee of a part.** A fee less the fee for the gas that was not used is the fee for the gas
that was, up to one unit. The weight has to fit a block, and the fee must not be the largest
balance: then it may have been cut off. -/
theorem gasFee_sub_close (hused : usedGas ≤ gasLimit)
    (hblock : gasToWeight gasLimit ≤ MAXIMUM_BLOCK_WEIGHT)
    (hfits : (P.config existentialDeposit).gasFee gasLimit < maxValue balanceBits) :
    let F := P.config existentialDeposit
    F.gasFee gasLimit ≤ F.gasFee (gasLimit - usedGas) + F.gasFee usedGas + 1 ∧
      F.gasFee (gasLimit - usedGas) + F.gasFee usedGas ≤ F.gasFee gasLimit + 1 := by
  intro F
  -- a part of the gas fits as well
  have hpart : ∀ gas, gas ≤ gasLimit → F.gasFee gas = P.exactFee (gas * RATIO) := by
    intro gas hle
    have hfee : F.gasFee gas = min (P.exactFee (gas * RATIO)) (maxValue balanceBits) :=
      gasFee_eq ((satMul_mono_left hle).trans hblock)
    have hmono : F.gasFee gas ≤ F.gasFee gasLimit := gasFee_mono hle
    have hcut : F.gasFee gasLimit < maxValue balanceBits := hfits
    omega
  have hsum : gasLimit * RATIO = (gasLimit - usedGas) * RATIO + usedGas * RATIO := by
    rw [← Nat.add_mul, Nat.sub_add_cancel hused]
  rw [hpart gasLimit le_rfl, hpart _ (Nat.sub_le _ _), hpart usedGas hused, hsum]
  exact P.exactFee_add_close _ _

end LinearFee

end TransactionPayment
end Reef
