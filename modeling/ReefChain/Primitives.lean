import ReefChain.Lib.Bounded

/-!
# Primitive types and constants of the chain

Block numbers and storage counters are `u32`, gas is `u64` and balances are `u128` in the source.
They are natural numbers here; wherever the code adds or multiplies them the operation is one of
`Bounded`'s, saturating where the source says `saturating_add` and wrapping where it uses a plain
operator, which is what the release profile compiles it to.

`Perbill` is the parts-per-billion fixed point type the runtime's rates are given in, `Perquintill`
the same with 18 places. `FixedU128` has 18 places and no upper bound of one; its products and
quotients are rounded down.
-/

namespace Reef

/-- The width of `primitives::Balance` (`u128`). -/
abbrev balanceBits : ℕ := 128

/-- The width of `primitives::BlockNumber` (`u32`). -/
abbrev blockBits : ℕ := 32

/-- The width of an account's nonce (`primitives::Index`, `u32`). -/
abbrev nonceBits : ℕ := 32

/-- `sp_core::H160`, the address of an EVM account. -/
abbrev EvmAddress := BitVec 160

/-- `sp_core::H256`. -/
abbrev H256 := BitVec 256

/-- `primitives::AccountId`, an account of the chain (`AccountId32`). -/
abbrev AccountId := BitVec 256

/-- `Vec<u8>`. -/
abbrev Bytes := List UInt8

/-- `PRECOMPILE_ADDRESS_START`. -/
def PRECOMPILE_ADDRESS_START : ℕ := 0x400

/-- `PREDEPLOY_ADDRESS_START`. -/
def PREDEPLOY_ADDRESS_START : ℕ := 0x800

/-- `NETWORK_CONTRACT_START`. -/
def NETWORK_CONTRACT_START : ℕ := 0x1000

/-! ### Currencies -/

/-- `TokenSymbol`. -/
inductive TokenSymbol
  | reef
  | rusd
  deriving DecidableEq, Repr

/-- `CurrencyId`. -/
inductive CurrencyId
  | token (symbol : TokenSymbol)
  | dexShare (left right : TokenSymbol)
  | erc20 (contract : EvmAddress)
  deriving DecidableEq, Repr

/-! ### Amounts and times -/

/-- `currency::REEF`. -/
def REEF : ℕ := 1_000_000_000_000_000_000

/-- `currency::MILLI_REEF`. -/
def MILLI_REEF : ℕ := REEF / 1_000

/-- `time::SECS_PER_BLOCK`. -/
def SECS_PER_BLOCK : ℕ := 10

/-- `time::MINUTES`. -/
def MINUTES : ℕ := 60 / SECS_PER_BLOCK

/-- `time::HOURS`. -/
def HOURS : ℕ := MINUTES * 60

/-- `time::DAYS`. -/
def DAYS : ℕ := HOURS * 24

/-! ### Quotients in parts -/

/-- `sp_arithmetic::Rounding`, the two directions that are used here. -/
inductive Rounding
  | down
  | up
  deriving DecidableEq, Repr

/-- `div_rounded`: the quotient rounded. -/
def divRounded : Rounding → ℕ → ℕ → ℕ
  | .down, n, d => n / d
  | .up, n, d => (n + (d - 1)) / d

theorem divRounded_up (n d : ℕ) : divRounded .up n d = (n + (d - 1)) / d := rfl

/-- By what numerator and denominator of a quotient are divided for the denominator to be at most
the accuracy. -/
def reduction (accuracy q : ℕ) : ℕ := max (divRounded .up q accuracy) 1

/-- `PerThing::from_rational_with_rounding`: how many parts of the accuracy the quotient `p / q` is.
Numerator and denominator are reduced first, with the same rounding. -/
def rationalParts (accuracy : ℕ) (r : Rounding) (p q : ℕ) : Option ℕ :=
  if q = 0 ∨ q < p then none
  else some (divRounded r (divRounded r p (reduction accuracy q) * accuracy)
    (divRounded r q (reduction accuracy q)))

/-- A larger numerator has a larger quotient. -/
theorem divRounded_mono (r : Rounding) {a b : ℕ} (h : a ≤ b) (d : ℕ) :
    divRounded r a d ≤ divRounded r b d := by
  cases r with
  | down => exact Nat.div_le_div_right h
  | up => exact Nat.div_le_div_right (Nat.add_le_add_right h _)

/-- Nothing is rounded where the quotient is a number. -/
theorem divRounded_mul_le (r : Rounding) (a d : ℕ) : divRounded r (a * d) d ≤ a := by
  rcases Nat.eq_zero_or_pos d with rfl | hd
  · cases r <;> simp [divRounded]
  · cases r with
    | down => exact (Nat.mul_div_cancel a hd).le
    | up =>
      refine Nat.lt_succ_iff.mp ((Nat.div_lt_iff_lt_mul hd).mpr ?_)
      rw [Nat.succ_mul]
      omega

/-- Rounding up takes nothing away. -/
theorem le_divRounded_up_mul (n : ℕ) {d : ℕ} (hd : 0 < d) : n ≤ divRounded .up n d * d := by
  have h := Nat.lt_div_mul_add (a := n + (d - 1)) hd
  rw [divRounded_up]
  omega

/-- Rounding up adds less than the denominator. -/
theorem divRounded_up_mul_le (n d : ℕ) : divRounded .up n d * d ≤ n + (d - 1) :=
  Nat.div_mul_le_self _ _

/-- No quotient is more than all parts. -/
theorem rationalParts_le {accuracy : ℕ} {r : Rounding} {p q parts : ℕ}
    (h : rationalParts accuracy r p q = some parts) : parts ≤ accuracy := by
  unfold rationalParts at h
  split at h
  · cases h
  · next hq =>
    cases h
    have hreduced := divRounded_mono r (not_lt.mp (not_or.mp hq).2) (reduction accuracy q)
    refine (divRounded_mono r (Nat.mul_le_mul_right accuracy hreduced) _).trans ?_
    rw [Nat.mul_comm]
    exact divRounded_mul_le r accuracy _

/-- What is reduced is at most one more than the multiples of the accuracy in the denominator. -/
theorem reduction_sub_one {accuracy q : ℕ} (hq : 0 < q) (haccuracy : 0 < accuracy) :
    reduction accuracy q - 1 = (q - 1) / accuracy := by
  have hsum : q + (accuracy - 1) = q - 1 + accuracy := by omega
  rw [reduction, divRounded_up, hsum, Nat.add_div_right _ haccuracy,
    Nat.max_eq_left (Nat.le_add_left 1 _), Nat.succ_sub_one]

/-- **What rounding up comes to.** Since the denominator is rounded up as well, the quotient of `p`
and `q` may be too small, but not smaller than that of `p` and a slightly larger denominator. -/
theorem rationalParts_up {accuracy p q parts : ℕ} (haccuracy : 0 < accuracy)
    (h : rationalParts accuracy .up p q = some parts) :
    p * accuracy ≤ parts * (q + (q - 1) / accuracy) := by
  unfold rationalParts at h
  split at h
  · cases h
  · next hzero =>
    have hq : 0 < q := Nat.pos_of_ne_zero (not_or.mp hzero).1
    have hslack := reduction_sub_one hq haccuracy
    generalize hfactor : reduction accuracy q = factor at h hslack
    have hpos : 0 < factor := by
      rw [← hfactor]
      exact Nat.lt_of_lt_of_le Nat.one_pos (le_max_right _ _)
    have hp := le_divRounded_up_mul p hpos
    have hqup := le_divRounded_up_mul q hpos
    have hqdown := divRounded_up_mul_le q factor
    generalize divRounded .up p factor = p' at *
    generalize divRounded .up q factor = q' at *
    have hq' : 0 < q' := Nat.pos_of_mul_pos_right (hq.trans_le hqup)
    cases h
    have hparts := le_divRounded_up_mul (p' * accuracy) hq'
    generalize divRounded .up (p' * accuracy) q' = parts at *
    calc p * accuracy ≤ p' * factor * accuracy := Nat.mul_le_mul_right _ hp
      _ = p' * accuracy * factor := Nat.mul_right_comm _ _ _
      _ ≤ parts * q' * factor := Nat.mul_le_mul_right _ hparts
      _ = parts * (q' * factor) := Nat.mul_assoc _ _ _
      _ ≤ parts * (q + (q - 1) / accuracy) := by
        rw [← hslack]
        exact Nat.mul_le_mul_left _ hqdown

/-! ### Parts per billion -/

/-- `sp_arithmetic::Perbill`: a fraction with denominator `10^9`, at most one. -/
structure Perbill where
  parts : ℕ
  parts_le : parts ≤ 1_000_000_000

namespace Perbill

/-- `Perbill::ACCURACY`. -/
def accuracy : ℕ := 1_000_000_000

/-- `Perbill::from_rational`: the fraction `p / q` rounded down, one when `q < p` or `q = 0`. -/
def fromRational (p q : ℕ) : Perbill where
  parts := (rationalParts accuracy .down p q).getD accuracy
  parts_le := by
    cases h : rationalParts accuracy .down p q with
    | none => exact Nat.le_refl accuracy
    | some parts => exact rationalParts_le h

/-- `Perbill * b`: the product rounded to the nearest integer, ties downwards. -/
def mul (r : Perbill) (b : ℕ) : ℕ :=
  (2 * (r.parts * b) + (accuracy - 1)) / (2 * accuracy)

theorem mul_mono (r : Perbill) {a b : ℕ} (h : a ≤ b) : r.mul a ≤ r.mul b := by
  unfold mul
  have hmul := Nat.mul_le_mul_left r.parts h
  exact Nat.div_le_div_right (by omega)

/-- Rounding to the nearest integer adds at most one half. -/
theorem two_mul_mul_le (r : Perbill) (b : ℕ) :
    2 * (r.mul b * accuracy) ≤ 2 * (r.parts * b) + accuracy := by
  have h := Nat.div_mul_le_self (2 * (r.parts * b) + (accuracy - 1)) (2 * accuracy)
  have hmul : r.mul b * (2 * accuracy) = 2 * (r.mul b * accuracy) := by ring
  rw [← hmul]
  unfold mul accuracy at *
  omega

/-- Rounding to the nearest integer takes away at most one half. -/
theorem le_two_mul_mul (r : Perbill) (b : ℕ) :
    2 * (r.parts * b) ≤ 2 * (r.mul b * accuracy) + accuracy := by
  have h := Nat.lt_div_mul_add (a := 2 * (r.parts * b) + (accuracy - 1))
    (by decide : 0 < 2 * accuracy)
  have hmul : r.mul b * (2 * accuracy) = 2 * (r.mul b * accuracy) := by ring
  rw [← hmul]
  unfold mul accuracy at *
  omega

/-- **Rounding twice.** The product with a sum is the sum of the products up to one unit, since the
three roundings are off by one half each at most. -/
theorem mul_add_close (r : Perbill) (a b : ℕ) :
    r.mul (a + b) ≤ r.mul a + r.mul b + 1 ∧ r.mul a + r.mul b ≤ r.mul (a + b) + 1 := by
  have hsum : r.parts * (a + b) = r.parts * a + r.parts * b := Nat.mul_add _ _ _
  have hlow := r.le_two_mul_mul (a + b)
  have hhigh := r.two_mul_mul_le (a + b)
  have hlowa := r.le_two_mul_mul a
  have hhigha := r.two_mul_mul_le a
  have hlowb := r.le_two_mul_mul b
  have hhighb := r.two_mul_mul_le b
  unfold accuracy at *
  omega

/-- `Perbill::from_percent`. -/
def fromPercent (percent : ℕ) : Perbill :=
  ⟨min percent 100 * (1_000_000_000 / 100), by omega⟩

end Perbill

/-! ### Parts per quintillion -/

/-- `sp_arithmetic::Perquintill`: a fraction with denominator `10^18`, at most one. -/
structure Perquintill where
  parts : ℕ
  parts_le : parts ≤ 1_000_000_000_000_000_000

namespace Perquintill

/-- `Perquintill::ACCURACY`. -/
def accuracy : ℕ := 1_000_000_000_000_000_000

/-- `Perquintill::from_percent`. -/
def fromPercent (percent : ℕ) : Perquintill :=
  ⟨min percent 100 * (1_000_000_000_000_000_000 / 100), by omega⟩

/-- `Perquintill * b`: the product rounded to the nearest integer, ties downwards. -/
def mul (r : Perquintill) (b : ℕ) : ℕ :=
  (2 * (r.parts * b) + (accuracy - 1)) / (2 * accuracy)

end Perquintill

/-! ### Fixed-point numbers -/

/-- `sp_arithmetic::FixedU128`: a number with 18 decimal places, as a multiple of `10^-18`. -/
structure FixedU128 where
  inner : ℕ
  deriving DecidableEq, Repr

namespace FixedU128

/-- `FixedU128::DIV`. -/
def DIV : ℕ := 1_000_000_000_000_000_000

/-- `FixedU128::saturating_mul_int` with a `u128`: the product rounded down. -/
def saturatingMulInt (x : FixedU128) (n : ℕ) : ℕ := min (x.inner * n / DIV) (Bounded.maxValue 128)

theorem saturatingMulInt_mono (x : FixedU128) {a b : ℕ} (h : a ≤ b) :
    x.saturatingMulInt a ≤ x.saturatingMulInt b :=
  min_le_min_right _ (Nat.div_le_div_right (Nat.mul_le_mul_left _ h))

/-- The numbers are ordered like the multiples. -/
instance : LinearOrder FixedU128 :=
  LinearOrder.lift' inner fun _ _ h => by rwa [mk.injEq]

theorem le_def {x y : FixedU128} : x ≤ y ↔ x.inner ≤ y.inner := Iff.rfl

theorem lt_def {x y : FixedU128} : x < y ↔ x.inner < y.inner := Iff.rfl

/-- `FixedU128::max_value`. -/
def maxValue : FixedU128 := ⟨Bounded.maxValue 128⟩

/-- `FixedU128::saturating_from_rational`: the quotient rounded down. The source panics if `d` is
zero. -/
def saturatingFromRational (n d : ℕ) : FixedU128 := ⟨min (n * DIV / d) (Bounded.maxValue 128)⟩

/-- `FixedU128::saturating_from_integer`. -/
def saturatingFromInteger (n : ℕ) : FixedU128 := ⟨Bounded.satMul 128 n DIV⟩

/-- `FixedU128::checked_from_integer`. -/
def checkedFromInteger (n : ℕ) : Option FixedU128 :=
  if n * DIV < 2 ^ 128 then some ⟨n * DIV⟩ else none

/-- `FixedU128::saturating_mul`: the product rounded down. -/
def saturatingMul (x y : FixedU128) : FixedU128 :=
  ⟨min (x.inner * y.inner / DIV) (Bounded.maxValue 128)⟩

/-- `FixedU128 / FixedU128`: the quotient rounded down. The source panics if `y` is zero. -/
def div (x y : FixedU128) : FixedU128 := ⟨min (x.inner * DIV / y.inner) (Bounded.maxValue 128)⟩

/-- `FixedU128::saturating_add`. -/
def saturatingAdd (x y : FixedU128) : FixedU128 := ⟨Bounded.satAdd 128 x.inner y.inner⟩

/-- `FixedU128::saturating_sub`. -/
def saturatingSub (x y : FixedU128) : FixedU128 := ⟨x.inner - y.inner⟩

variable {x y z u : FixedU128}

theorem saturatingFromRational_mono {m n : ℕ} (d : ℕ) (h : m ≤ n) :
    saturatingFromRational m d ≤ saturatingFromRational n d :=
  min_le_min_right _ (Nat.div_le_div_right (Nat.mul_le_mul_right DIV h))

theorem saturatingMul_mono (hx : x ≤ z) (hy : y ≤ u) : x.saturatingMul y ≤ z.saturatingMul u :=
  min_le_min_right _ (Nat.div_le_div_right (Nat.mul_le_mul hx hy))

theorem saturatingAdd_mono (hx : x ≤ z) (hy : y ≤ u) : x.saturatingAdd y ≤ z.saturatingAdd u :=
  Bounded.satAdd_mono hx hy

/-- A product that reaches the smallest positive number does not vanish. -/
theorem inner_saturatingMul_pos (h : DIV ≤ x.inner * y.inner) :
    0 < (x.saturatingMul y).inner := by
  have hquot : 0 < x.inner * y.inner / DIV := Nat.div_pos h (by decide)
  exact lt_min hquot (by decide)

/-- A sum with something is larger, unless there is nothing larger. -/
theorem lt_saturatingAdd_iff (hx : x ≤ maxValue) :
    x < x.saturatingAdd y ↔ x < maxValue ∧ 0 < y.inner := by
  have hle : x.inner ≤ Bounded.maxValue 128 := hx
  change x.inner < min (x.inner + y.inner) (Bounded.maxValue 128) ↔
    x.inner < Bounded.maxValue 128 ∧ 0 < y.inner
  omega

end FixedU128

end Reef
