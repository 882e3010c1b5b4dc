import ReefChain.Lib.Run
import ReefChain.TransactionPayment.Charge

/-!
# The fee multiplier

The fee for the weight of an extrinsic is adjusted by a multiplier, which is updated at the end of
every block: it rises if the extrinsics of the block were heavier than the target, and falls if they
were lighter (`TargetedFeeAdjustment`). With `d` the distance of the weight from the target, as a
part of the largest weight, and `v` the variability, the multiplier is changed by the factor
`1 ± v * d + (v * d) ^ 2 / 2`.

All of this is computed in fixed-point numbers of 18 places whose products are rounded down. The
numbers are small, and a product that is rounded to zero would leave the multiplier where it is, for
ever if the blocks stay as they are. Whether that happens is settled in different ways for the two
directions.

* **Upwards** the rise grows with the weight and with the multiplier, since each operation is
  monotone. It is therefore enough to look at the smallest multiplier and at one weight
  (`lt_convert_of_integrityTest`), and this is just what the pallet's `integrity_test` does.
* **Downwards** the quadratic term is subtracted, so the fall need not grow with the distance, and
  no test looks at it. For the constants of the runtime the linear term outweighs the quadratic one
  by far (`runtime_convert_lt`).

The results on single blocks carry over to any number of them: heavy blocks raise the multiplier
until nothing is larger (`run_of_heavy`), and light blocks lower it to the minimum
(`runtime_run_of_light`).
-/

namespace Reef

namespace Perquintill

/-- `Perquintill * Weight`, component by component. -/
def mulWeight (r : Perquintill) (w : TransactionPayment.Weight) : TransactionPayment.Weight :=
  ⟨r.mul w.refTime, r.mul w.proofSize⟩

/-- A part is not more than the whole. -/
theorem mul_le (r : Perquintill) (b : ℕ) : r.mul b ≤ b := by
  have hparts : r.parts * b ≤ accuracy * b := Nat.mul_le_mul_right b r.parts_le
  have hround : 2 * (r.parts * b) + (accuracy - 1) < (b + 1) * (2 * accuracy) := by
    have hexpand : (b + 1) * (2 * accuracy) = 2 * (accuracy * b) + 2 * accuracy := by ring
    rw [hexpand]
    unfold accuracy at *
    omega
  exact Nat.lt_succ_iff.mp ((Nat.div_lt_iff_lt_mul (by decide)).mpr hround)

end Perquintill

namespace TransactionPayment

open Bounded

/-! ### The adjustment -/

/-- `Multiplier`. -/
abbrev Multiplier := FixedU128

/-- `BlockWeights`, as far as the adjustment reads it. -/
structure BlockWeights where
  maxBlock : Weight
  maxTotal : DispatchClass → Option Weight

/-- `ConsumedWeight`: the weight of the extrinsics of a block, by their class. -/
abbrev ConsumedWeight := DispatchClass → Weight

/-- `TargetedFeeAdjustment<T, S, V, M>`. -/
structure TargetedFeeAdjustment where
  blockWeights : BlockWeights
  target : Perquintill
  variability : Multiplier
  minMultiplier : Multiplier

namespace TargetedFeeAdjustment

section Convert

variable (A : TargetedFeeAdjustment) (block : ConsumedWeight)

/-- The largest weight of the normal class. -/
def normalMaxWeight : Weight := (A.blockWeights.maxTotal .normal).getD A.blockWeights.maxBlock

/-- The weight aimed at. -/
def targetWeight : ℕ := A.target.mul A.normalMaxWeight.refTime

/-- The weight of the normal extrinsics of a block, at most the largest one. -/
def blockWeight : ℕ := ((block .normal).min A.normalMaxWeight).refTime

/-- The distance from the target, as a part of the largest weight. -/
def diff : Multiplier :=
  let diffAbs := max (A.blockWeight block) A.targetWeight - min (A.blockWeight block) A.targetWeight
  .saturatingFromRational diffAbs (max A.normalMaxWeight.refTime 1)

/-- The linear term. -/
def firstTerm : Multiplier := A.variability.saturatingMul (A.diff block)

/-- The coefficient of the quadratic term. -/
def vSquared2 : Multiplier :=
  (A.variability.saturatingMul A.variability).div (.saturatingFromInteger 2)

/-- The quadratic term. -/
def secondTerm : Multiplier :=
  A.vSquared2.saturatingMul ((A.diff block).saturatingMul (A.diff block))

/-- What a heavy block adds. -/
def excess (previous : Multiplier) : Multiplier :=
  ((A.firstTerm block).saturatingAdd (A.secondTerm block)).saturatingMul previous

/-- What a light block takes away. -/
def negative (previous : Multiplier) : Multiplier :=
  ((A.firstTerm block).saturatingSub (A.secondTerm block)).saturatingMul previous

/-- `TargetedFeeAdjustment::convert`, at the end of a block. -/
def convert (previous : Multiplier) : Multiplier :=
  let previous := max previous A.minMultiplier
  if A.targetWeight ≤ A.blockWeight block then
    max (previous.saturatingAdd (A.excess block previous)) A.minMultiplier
  else
    max (previous.saturatingSub (A.negative block previous)) A.minMultiplier

/-- A block with extrinsics of the normal class only (`set_block_consumed_resources`). -/
def consumed (w : Weight) : ConsumedWeight
  | .normal => w
  | _ => ⟨0, 0⟩

/-- `integrity_test`. It has no result if an assertion fails, an `unwrap` finds nothing or the
addition overflows. -/
def integrityTest : Option Unit := do
  let largest ← FixedU128.checkedFromInteger A.blockWeights.maxBlock.refTime
  guard (largest ≤ .maxValue)
  let maxTotal ← A.blockWeights.maxTotal .normal
  let target := A.target.mulWeight maxTotal
  let addition : Weight := ⟨target.refTime / 100, target.proofSize / 100⟩
  if addition = ⟨0, 0⟩ then return ()
  else
    let refTime ← checkedAdd 64 target.refTime addition.refTime
    let proofSize ← checkedAdd 64 target.proofSize addition.proofSize
    guard (A.minMultiplier < A.convert (consumed ⟨refTime, proofSize⟩) A.minMultiplier)

end Convert

/-! ### Single blocks -/

variable {A : TargetedFeeAdjustment} {block heavier : ConsumedWeight} {previous next : Multiplier}

/-- **No undershooting.** -/
theorem minMultiplier_le_convert (A : TargetedFeeAdjustment) (block : ConsumedWeight)
    (previous : Multiplier) : A.minMultiplier ≤ A.convert block previous := by
  unfold convert
  by_cases hblock : A.targetWeight ≤ A.blockWeight block
  · simp only [if_pos hblock]
    exact le_max_right _ _
  · simp only [if_neg hblock]
    exact le_max_right _ _

/-- The target can be reached. -/
theorem targetWeight_le (A : TargetedFeeAdjustment) :
    A.targetWeight ≤ A.normalMaxWeight.refTime := A.target.mul_le _

theorem blockWeight_eq (A : TargetedFeeAdjustment) (block : ConsumedWeight) :
    A.blockWeight block = min (block .normal).refTime A.normalMaxWeight.refTime := rfl

/-- A block above the target raises the multiplier iff what it adds does not vanish, and there is
something larger. -/
theorem lt_convert_iff (hblock : A.targetWeight ≤ A.blockWeight block)
    (hmin : A.minMultiplier ≤ previous) (hmax : previous ≤ .maxValue) :
    previous < A.convert block previous ↔
      previous < .maxValue ∧ 0 < (A.excess block previous).inner := by
  unfold convert
  simp only [max_eq_left hmin, if_pos hblock]
  rw [lt_max_iff, FixedU128.lt_saturatingAdd_iff hmax, or_iff_left hmin.not_gt]

/-- A block below the target lowers the multiplier iff what it takes away does not vanish, and the
multiplier is not the minimum. -/
theorem convert_lt_iff (hblock : A.blockWeight block < A.targetWeight)
    (hmin : A.minMultiplier ≤ previous) :
    A.convert block previous < previous ↔
      A.minMultiplier < previous ∧ 0 < (A.negative block previous).inner := by
  unfold convert
  simp only [max_eq_left hmin, if_neg hblock.not_ge]
  rw [max_lt_iff, FixedU128.lt_def, FixedU128.lt_def]
  change previous.inner - (A.negative block previous).inner < previous.inner ∧ _ ↔ _
  omega

/-- A block above the target does not lower the multiplier, except to the largest number. -/
theorem le_convert {m : Multiplier} (hblock : A.targetWeight ≤ A.blockWeight block)
    (hmin : A.minMultiplier ≤ previous) (hprevious : m ≤ previous) (hmax : m ≤ .maxValue) :
    m ≤ A.convert block previous := by
  unfold convert
  simp only [max_eq_left hmin, if_pos hblock]
  apply le_max_of_le_left
  have hsum : m.inner ≤ previous.inner + (A.excess block previous).inner :=
    le_add_of_le_left hprevious
  exact le_min hsum hmax

/-- A block below the target does not raise it. -/
theorem convert_le (hblock : A.blockWeight block < A.targetWeight)
    (hmin : A.minMultiplier ≤ previous) : A.convert block previous ≤ previous := by
  unfold convert
  simp only [max_eq_left hmin, if_neg hblock.not_ge]
  exact max_le (Nat.sub_le previous.inner _) hmin

/-- Above the target, a heavier block is further away. -/
theorem diff_mono (hblock : A.targetWeight ≤ A.blockWeight block)
    (hheavier : A.blockWeight block ≤ A.blockWeight heavier) : A.diff block ≤ A.diff heavier := by
  refine FixedU128.saturatingFromRational_mono _ ?_
  rw [max_eq_left hblock, min_eq_right hblock, max_eq_left (hblock.trans hheavier),
    min_eq_right (hblock.trans hheavier)]
  exact Nat.sub_le_sub_right hheavier _

/-- **What is added grows** with the weight of the block and with the multiplier. -/
theorem excess_mono (hblock : A.targetWeight ≤ A.blockWeight block)
    (hheavier : A.blockWeight block ≤ A.blockWeight heavier) (hnext : previous ≤ next) :
    A.excess block previous ≤ A.excess heavier next := by
  have hdiff := diff_mono hblock hheavier
  have hfirst : A.firstTerm block ≤ A.firstTerm heavier :=
    FixedU128.saturatingMul_mono le_rfl hdiff
  have hsecond : A.secondTerm block ≤ A.secondTerm heavier :=
    FixedU128.saturatingMul_mono le_rfl (FixedU128.saturatingMul_mono hdiff hdiff)
  exact FixedU128.saturatingMul_mono (FixedU128.saturatingAdd_mono hfirst hsecond) hnext

/-! ### One point is enough, upwards -/

/-- What the test has looked at: the smallest multiplier, one percent above the target. -/
theorem integrityTest_eq_some (htest : A.integrityTest = some ()) (htarget : 100 ≤ A.targetWeight) :
    ∃ w : Weight, w.refTime = A.targetWeight + A.targetWeight / 100 ∧
      A.minMultiplier < A.convert (consumed w) A.minMultiplier := by
  unfold integrityTest at htest
  simp only [Option.bind_eq_bind, Option.bind_eq_some_iff] at htest
  obtain ⟨largest, -, -, -, maxTotal, hmaxTotal, htest⟩ := htest
  have hmax : A.normalMaxWeight = maxTotal := by
    rw [normalMaxWeight, hmaxTotal, Option.getD_some]
  have hrefTime : (A.target.mulWeight maxTotal).refTime = A.targetWeight := by
    rw [targetWeight, hmax]
    rfl
  split at htest
  · -- the test gives up where one percent of the target is nothing
    next hzero =>
    have hpercent : A.targetWeight / 100 = 0 := by
      rw [← hrefTime]
      exact congrArg Weight.refTime hzero
    omega
  · obtain ⟨refTime, hsum, proofSize, -, hassert⟩ := by
      simpa only [Option.bind_eq_some_iff] using htest
    obtain ⟨-, rfl⟩ := checkedAdd_eq_some.mp hsum
    refine ⟨⟨_, proofSize⟩, ?_, (Option.guard_eq_some' ()).mp hassert⟩
    rw [hrefTime]

/-- **The integrity test suffices.** If the multiplier rises from the minimum after a block one
percent above the target, then it rises from everywhere after every block that is at least as
heavy. -/
theorem lt_convert_of_integrityTest (htest : A.integrityTest = some ())
    (htarget : 100 ≤ A.targetWeight) (hmin : A.minMultiplier ≤ previous)
    (hmax : previous < .maxValue)
    (hblock : A.targetWeight + A.targetWeight / 100 ≤ (block .normal).refTime) :
    previous < A.convert block previous := by
  obtain ⟨w, hw, hrises⟩ := integrityTest_eq_some htest htarget
  have hreach := A.targetWeight_le
  have htested : A.blockWeight (consumed w) = min w.refTime A.normalMaxWeight.refTime := rfl
  have habove : A.targetWeight ≤ A.blockWeight (consumed w) := by
    rw [htested]
    omega
  have hheavier : A.blockWeight (consumed w) ≤ A.blockWeight block := by
    rw [htested, blockWeight_eq, hw]
    exact min_le_min_right _ hblock
  have hpoint : 0 < (A.excess (consumed w) A.minMultiplier).inner :=
    ((lt_convert_iff habove le_rfl (hmin.trans hmax.le)).mp hrises).2
  refine (lt_convert_iff (habove.trans hheavier) hmin hmax.le).mpr ⟨hmax, ?_⟩
  exact hpoint.trans_le (excess_mono habove hheavier hmin)

end TargetedFeeAdjustment

/-! ### The runtime -/

/-- `NORMAL_DISPATCH_RATIO`. -/
def NORMAL_DISPATCH_RATIO : Perbill := .fromPercent 75

/-- `RuntimeBlockWeights`. The largest weight of a block is the largest of those of the classes. -/
def RuntimeBlockWeights : BlockWeights where
  maxBlock := ⟨MAXIMUM_BLOCK_WEIGHT, maxValue 64⟩
  maxTotal
    | .normal =>
      let normal := NORMAL_DISPATCH_RATIO
      some ⟨normal.mul MAXIMUM_BLOCK_WEIGHT, normal.mul (maxValue 64)⟩
    | .operational => some ⟨MAXIMUM_BLOCK_WEIGHT, maxValue 64⟩
    | .mandatory => none

namespace TargetedFeeAdjustment

/-- `FeeMultiplierUpdate` of the runtime, with `TargetBlockFullness`, `AdjustmentVariable` and
`MinimumMultiplier`. -/
def runtime : TargetedFeeAdjustment where
  blockWeights := RuntimeBlockWeights
  target := .fromPercent 25
  variability := .saturatingFromRational 1 100_000
  minMultiplier := .saturatingFromRational 1 1_000_000_000

theorem runtime_integrityTest : runtime.integrityTest = some () := by decide +kernel

theorem runtime_normalMaxWeight : runtime.normalMaxWeight.refTime = 1_500_000_000_000 := by
  decide +kernel

theorem runtime_targetWeight : runtime.targetWeight = 375_000_000_000 := by decide +kernel

theorem runtime_minMultiplier : runtime.minMultiplier = ⟨1_000_000_000⟩ := by decide +kernel

variable {block : ConsumedWeight} {previous : Multiplier}

/-- The distance of a light block from the target, as a part of the largest weight. It is between a
four hundredth and a quarter. -/
theorem runtime_diff (hblock : 100 * (block .normal).refTime ≤ 99 * runtime.targetWeight) :
    ⟨2_500_000_000_000_000⟩ ≤ runtime.diff block ∧
      runtime.diff block ≤ ⟨250_000_000_000_000_000⟩ := by
  have hlow : FixedU128.saturatingFromRational 3_750_000_000 1_500_000_000_000 =
      ⟨2_500_000_000_000_000⟩ := by decide +kernel
  have hhigh : FixedU128.saturatingFromRational 375_000_000_000 1_500_000_000_000 =
      ⟨250_000_000_000_000_000⟩ := by decide +kernel
  have hmax := runtime_normalMaxWeight
  have htarget := runtime_targetWeight
  have hweight := runtime.blockWeight_eq block
  have hdiff : runtime.diff block = .saturatingFromRational
      (max (runtime.blockWeight block) 375_000_000_000 -
        min (runtime.blockWeight block) 375_000_000_000) 1_500_000_000_000 := by
    rw [diff, hmax, htarget]
    rfl
  rw [← hlow, ← hhigh, hdiff]
  constructor
  · exact FixedU128.saturatingFromRational_mono _ (by omega)
  · exact FixedU128.saturatingFromRational_mono _ (by omega)

/-- **The linear term outweighs the quadratic one.** -/
theorem runtime_terms (hblock : 100 * (block .normal).refTime ≤ 99 * runtime.targetWeight) :
    24_000_000_000 ≤
      ((runtime.firstTerm block).saturatingSub (runtime.secondTerm block)).inner := by
  obtain ⟨hlow, hhigh⟩ := runtime_diff hblock
  have hfirst : 25_000_000_000 ≤ (runtime.firstTerm block).inner := by
    have hpoint : runtime.variability.saturatingMul ⟨2_500_000_000_000_000⟩ =
        ⟨25_000_000_000⟩ := by decide +kernel
    have hmono := FixedU128.saturatingMul_mono (le_refl runtime.variability) hlow
    rw [hpoint] at hmono
    exact hmono
  have hsecond : (runtime.secondTerm block).inner ≤ 3_125_000 := by
    have hpoint : runtime.vSquared2.saturatingMul (FixedU128.saturatingMul
        ⟨250_000_000_000_000_000⟩ ⟨250_000_000_000_000_000⟩) = ⟨3_125_000⟩ := by decide +kernel
    have hmono := FixedU128.saturatingMul_mono (le_refl runtime.vSquared2)
      (FixedU128.saturatingMul_mono hhigh hhigh)
    rw [hpoint] at hmono
    exact hmono
  change 24_000_000_000 ≤ (runtime.firstTerm block).inner - (runtime.secondTerm block).inner
  omega

/-- **Downwards.** A block at least one percent below the target lowers every multiplier above the
minimum. -/
theorem runtime_convert_lt (hmin : runtime.minMultiplier < previous)
    (hblock : 100 * (block .normal).refTime ≤ 99 * runtime.targetWeight) :
    runtime.convert block previous < previous := by
  have htarget := runtime_targetWeight
  have hweight := runtime.blockWeight_eq block
  have hbelow : runtime.blockWeight block < runtime.targetWeight := by omega
  refine (convert_lt_iff hbelow hmin.le).mpr ⟨hmin, ?_⟩
  have hterms := runtime_terms hblock
  have hprevious : 1_000_000_000 ≤ previous.inner := by
    rw [runtime_minMultiplier, FixedU128.lt_def] at hmin
    exact hmin.le
  apply FixedU128.inner_saturatingMul_pos
  calc FixedU128.DIV ≤ 24_000_000_000 * 1_000_000_000 := by decide
    _ ≤ _ := Nat.mul_le_mul hterms hprevious

/-- **Upwards.** A block at least one percent above the target raises every multiplier from the
minimum on. -/
theorem runtime_lt_convert (hmin : runtime.minMultiplier ≤ previous)
    (hmax : previous < .maxValue)
    (hblock : 101 * runtime.targetWeight ≤ 100 * (block .normal).refTime) :
    previous < runtime.convert block previous := by
  have htarget := runtime_targetWeight
  exact lt_convert_of_integrityTest runtime_integrityTest (by omega) hmin hmax (by omega)

/-- **The multiplier neither undershoots nor stalls.** After every block it is at least the minimum.
From the minimum on, a block whose normal extrinsics are at least one percent above the target
raises it, unless there is nothing larger; a block at least one percent below lowers it, unless it
is the minimum. -/
theorem fee_multiplier_follows_target (previous : Multiplier) (block : ConsumedWeight) :
    runtime.minMultiplier ≤ runtime.convert block previous ∧
    (runtime.minMultiplier ≤ previous → previous < .maxValue →
      (101 * runtime.targetWeight ≤ 100 * (block .normal).refTime →
        previous < runtime.convert block previous) ∧
      (100 * (block .normal).refTime ≤ 99 * runtime.targetWeight →
        previous ≠ runtime.minMultiplier → runtime.convert block previous < previous)) := by
  refine ⟨runtime.minMultiplier_le_convert block previous, ?_⟩
  intro hmin hmax
  constructor
  · intro hheavy
    exact runtime_lt_convert hmin hmax hheavy
  · intro hlight hne
    exact runtime_convert_lt (lt_of_le_of_ne hmin hne.symm) hlight

/-- The multiplier is twice the minimum. A block one percent above the target raises it and one
that is one percent below lowers it. -/
theorem fee_multiplier_follows_target_low :
    (⟨2_000_000_000⟩ : Multiplier) < runtime.convert (consumed ⟨378_750_000_000, 0⟩)
        ⟨2_000_000_000⟩ ∧
      runtime.convert (consumed ⟨371_250_000_000, 0⟩) ⟨2_000_000_000⟩ < ⟨2_000_000_000⟩ := by
  have hmin : runtime.minMultiplier ≤ ⟨2_000_000_000⟩ := by decide +kernel
  have hmax : (⟨2_000_000_000⟩ : Multiplier) < .maxValue := by decide +kernel
  have hne : (⟨2_000_000_000⟩ : Multiplier) ≠ runtime.minMultiplier := by decide +kernel
  constructor
  · exact ((fee_multiplier_follows_target _ _).2 hmin hmax).1 (by decide +kernel)
  · exact ((fee_multiplier_follows_target _ _).2 hmin hmax).2 (by decide +kernel) hne

/-! ### Runs of blocks -/

/-- `on_finalize`: the update of `NextFeeMultiplier`. -/
def onFinalize (A : TargetedFeeAdjustment) (multiplier : Multiplier) (block : ConsumedWeight) :
    Multiplier := A.convert block multiplier

variable {A : TargetedFeeAdjustment} {blocks : List ConsumedWeight}

/-- The multiplier does not fall below the minimum. -/
theorem minMultiplier_le_run (hmin : A.minMultiplier ≤ previous) :
    A.minMultiplier ≤ Run.run A.onFinalize previous blocks :=
  Run.invariant_of_step (A.minMultiplier ≤ ·)
    (fun previous block _ => A.minMultiplier_le_convert block previous) hmin

/-- **Heavy blocks.** If the integrity test passes, every block at least one percent above the
target raises the multiplier by at least the smallest unit, until there is nothing larger. -/
theorem run_of_heavy (htest : A.integrityTest = some ()) (htarget : 100 ≤ A.targetWeight)
    (hmin : A.minMultiplier ≤ previous)
    (hblocks : ∀ block ∈ blocks, A.targetWeight + A.targetWeight / 100 ≤ (block .normal).refTime) :
    min (previous.inner + blocks.length) (maxValue 128) ≤
      (Run.run A.onFinalize previous blocks).inner := by
  have hok : Run.Along A.onFinalize (fun _ block => A.targetWeight + A.targetWeight / 100 ≤
      (block .normal).refTime) previous blocks :=
    .of_mem fun block hblock _ => hblocks block hblock
  have hdescent : maxValue 128 - (Run.run A.onFinalize previous blocks).inner ≤
      maxValue 128 - previous.inner - blocks.length := by
    refine Run.descent (A.minMultiplier ≤ ·) (fun m => maxValue 128 - m.inner) ?_ ?_ hmin hok
    · intro m block _ _
      exact A.minMultiplier_le_convert block m
    · intro m block hm hheavy
      by_cases hlargest : m < .maxValue
      · have hrises := lt_convert_of_integrityTest htest htarget hm hlargest hheavy
        rw [FixedU128.lt_def] at hrises
        change maxValue 128 - (A.convert block m).inner ≤ _
        omega
      · -- the sum saturates, and the multiplier stays
        have hreach := A.targetWeight_le
        have habove : A.targetWeight ≤ A.blockWeight block := by
          rw [blockWeight_eq]
          omega
        have hstays : maxValue 128 ≤ (A.convert block m).inner :=
          le_convert habove hm (not_lt.mp hlargest) le_rfl
        exact (Nat.sub_eq_zero_of_le hstays).trans_le (Nat.zero_le _)
  omega

/-- **Light blocks.** Enough blocks at least one percent below the target bring the multiplier of
the runtime to the minimum. -/
theorem runtime_run_of_light (hmin : runtime.minMultiplier ≤ previous)
    (hblocks : ∀ block ∈ blocks, 100 * (block .normal).refTime ≤ 99 * runtime.targetWeight)
    (hlong : previous.inner ≤ runtime.minMultiplier.inner + blocks.length) :
    Run.run runtime.onFinalize previous blocks = runtime.minMultiplier := by
  have hok : Run.Along runtime.onFinalize (fun _ block => 100 * (block .normal).refTime ≤
      99 * runtime.targetWeight) previous blocks :=
    .of_mem fun block hblock _ => hblocks block hblock
  -- every block brings it one unit closer
  have hdescent : (Run.run runtime.onFinalize previous blocks).inner -
      runtime.minMultiplier.inner ≤
        previous.inner - runtime.minMultiplier.inner - blocks.length := by
    refine Run.descent (runtime.minMultiplier ≤ ·)
      (fun m => m.inner - runtime.minMultiplier.inner) ?_ ?_ hmin hok
    · intro m block _ _
      exact runtime.minMultiplier_le_convert block m
    · intro m block hm hlight
      change (runtime.convert block m).inner - _ ≤ m.inner - _ - 1
      rcases hm.eq_or_lt with hminimum | habove
      · -- at the minimum it stays
        have htarget := runtime_targetWeight
        have hweight := runtime.blockWeight_eq block
        have hbelow : runtime.blockWeight block < runtime.targetWeight := by omega
        have hstays := convert_le hbelow hm
        rw [← hminimum, FixedU128.le_def] at hstays
        rw [← hminimum]
        omega
      · have hfalls := runtime_convert_lt habove hlight
        rw [FixedU128.lt_def] at hfalls
        omega
  apply le_antisymm
  · rw [FixedU128.le_def]
    omega
  · exact minMultiplier_le_run hmin

end TargetedFeeAdjustment

end TransactionPayment
end Reef
