import ReefChain.Evm.Precompiles
import ReefChain.Lib.Scale

/-!
# The input of a core precompile

The core precompiles take their arguments in words of 32 bytes. The last byte of the first word
chooses the action; numbers and addresses stand at the end of their word.

Reading an input can fail with an error, or it can panic: a slice that is out of range aborts the
runtime. `Failure` keeps the two apart.
-/

namespace Reef
namespace Precompile

open Evm Scale

/-- Why an input cannot be read. -/
inductive Failure
  | exit (e : ExitError)
  | panic
  deriving DecidableEq, Repr

/-- Reading an input. -/
abbrev Parsed (α : Type) := Except Failure α

/-- An error with a text. -/
def invalid {α : Type} (message : String) : Parsed α := .error (.exit (.other message))

/-- `PER_PARAM_BYTES`. -/
def PER_PARAM_BYTES : ℕ := 32

/-- The width of `usize` in the runtime. -/
abbrev usizeBits : ℕ := 32

/-- `nth_param`. -/
def nthParam (input : Bytes) (n : ℕ) : Parsed Bytes :=
  let start := PER_PARAM_BYTES * n
  if start + PER_PARAM_BYTES ≤ input.length then .ok ((input.drop start).take PER_PARAM_BYTES)
  else invalid "invalid input"

/-- The number in the last `len` bytes of a parameter. -/
def natAt (len : ℕ) (input : Bytes) (index : ℕ) : Parsed ℕ := do
  let param ← nthParam input index
  return beNat (param.drop (PER_PARAM_BYTES - len))

/-- `balance_at`. -/
def balanceAt : Bytes → ℕ → Parsed ℕ := natAt 16

/-- `u64_at`. -/
def u64At : Bytes → ℕ → Parsed ℕ := natAt 8

/-- `u32_at`. -/
def u32At : Bytes → ℕ → Parsed ℕ := natAt 4

/-- `evm_address_at`. -/
def evmAddressAt (input : Bytes) (index : ℕ) : Parsed EvmAddress := do
  let n ← natAt 20 input index
  return BitVec.ofNat 160 n

/-- `account_id_at`. -/
def accountIdAt (s : State) (input : Bytes) (index : ℕ) : Parsed AccountId := do
  let address ← evmAddressAt input index
  return s.getAccountId address

/-- `action`, where `f` is `Action::try_from`. -/
def action {α : Type} (f : ℕ → Option α) (input : Bytes) : Parsed α := do
  let n ← natAt 1 input 0
  match f n with
  | some a => .ok a
  | none => invalid "invalid action"

/-- `TokenSymbol::try_from`. -/
def tokenSymbol (n : ℕ) : Option TokenSymbol :=
  if n = 0 then some .reef else if n = 1 then some .rusd else none

/-- `CurrencyId::try_from`. The currencies of contracts have no encoding. -/
def currencyId (param : Bytes) : Option CurrencyId :=
  let low := fun i => beNat ((param.drop i).take 1)
  if param.take 29 ≠ List.replicate 29 0 then none
  else if low 29 = 0 ∧ low 31 = 0 then (tokenSymbol (low 30)).map .token
  else if low 29 = 1 then
    (tokenSymbol (low 30)).bind fun left =>
      (tokenSymbol (low 31)).map fun right => .dexShare left right
  else none

/-- `currency_id_at`. -/
def currencyIdAt (input : Bytes) (index : ℕ) : Parsed CurrencyId := do
  let param ← nthParam input index
  match currencyId param with
  | some id => .ok id
  | none => invalid "invalid currency id"

/-- `bytes_at`. The end of the slice is computed in `usize` and can be before its start. -/
def bytesAt (input : Bytes) (start len : ℕ) : Parsed Bytes :=
  let stop := Bounded.wrapAdd usizeBits start len
  if stop ≤ input.length then
    if start ≤ stop then .ok ((input.drop start).take len) else .error .panic
  else invalid "invalid bytes input"

/-- Slice an input from `start` on. -/
def sliceFrom (input : Bytes) (start : ℕ) : Parsed Bytes :=
  if start ≤ input.length then .ok (input.drop start) else .error .panic

end Precompile
end Reef
