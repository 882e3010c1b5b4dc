import ReefChain.Evm.StateRule
import ReefChain.Lib.Scale

/-!
# The bridge to token contracts

The pallet `evm-bridge` lets other pallets use contracts as tokens: it calls them through
`EVM::execute` and checks what they return. Queries are views, which are always rolled back; a
transfer is executed.

What the code of a contract does is a parameter, a `Behaviour`: the program that runs when the
contract is called in some context with some input in some state.

Converting an output of more than 32 bytes to a number panics, and so does a slice that is out of
range. An extrinsic that panics is not included in a block; here it has no result (`none`).

Two results say what this makes of contracts that do not behave like tokens. A transfer that is
refused because of the answer of the contract leaves what the contract did (`transfer_atomic_iff`).
A view of a contract panics exactly if it answers a number in more than 32 bytes, or a string whose
header is not inside the answer (`views_answer_iff`). A string that is decoded is the one that is
laid out in the answer, at any offset (`decode_string_undoes_layout`).
-/

namespace Reef
namespace EvmBridge

open Evm Scale

/-- What the code of contracts does: the program for a context and an input in a state. -/
abbrev Behaviour := Context → Bytes → State → Prog

/-- `InvokeContext`. -/
structure InvokeContext where
  contract : EvmAddress
  /-- Similar to `msg.sender`. -/
  sender : EvmAddress
  /-- Similar to `tx.origin`. -/
  origin : EvmAddress
  deriving DecidableEq, Repr

/-- The context of a query. -/
def InvokeContext.query (contract : EvmAddress) : InvokeContext := ⟨contract, 0, 0⟩

/-- The errors of the pallet, and those of the EVM it passes on. -/
inductive Error
  | executionFail
  | executionRevert
  | executionFatal
  | executionError
  | invalidReturnValue
  | evm (e : Evm.DispatchError)
  deriving DecidableEq, Repr

/-- `EVM::execute` without a value, together with the information it returns. -/
def evmExecute (E : Env) (code : Behaviour) (context : InvokeContext) (input : Bytes)
    (gasLimit storageLimit : ℕ) (isView : Bool) (w : World) :
    World × Except Evm.DispatchError CallInfo :=
  let x := Runner.call E context.sender context.origin context.contract 0 gasLimit storageLimit
    (code ⟨context.contract, context.sender, 0⟩ input w.state) w
  (executed w context.sender context.contract isView x, x.2)

/-- `handle_exit_reason`. -/
def handleExitReason : ExitReason → Except EvmBridge.Error Unit
  | .succeed .returned => .ok ()
  | .succeed .stopped => .ok ()
  | .succeed .suicided => .error .executionFail
  | .revert => .error .executionRevert
  | .fatal => .error .executionFatal
  | .error _ => .error .executionError

theorem exists_of_isSucceed {reason : ExitReason} (h : reason.isSucceed = true) :
    ∃ r, reason = .succeed r := by
  cases reason with
  | succeed r => exact ⟨r, rfl⟩
  | revert => cases h
  | error e => cases h
  | fatal => cases h

/-- The bridge refuses a contract that self-destructs, although its run succeeds. -/
theorem handleExitReason_succeed (r : ExitSucceed) :
    handleExitReason (.succeed r) =
      if r = .suicided then .error .executionFail else .ok () := by
  cases r <;> rfl

theorem handleExitReason_failed {reason : ExitReason} (h : ¬reason.isSucceed = true) :
    ∃ e, handleExitReason reason = .error e := by
  cases reason with
  | succeed r => exact absurd rfl h
  | revert => exact ⟨_, rfl⟩
  | error e => exact ⟨_, rfl⟩
  | fatal => exact ⟨_, rfl⟩

/-- The gas every call of the bridge gets. -/
def gasLimit : ℕ := 2_100_000

/-- The input of `ERC20.balanceOf`. -/
def balanceOfInput (address : EvmAddress) : Bytes :=
  [0x70, 0xa0, 0x82, 0x31] ++ word address.toNat

/-- The input of `ERC20.transfer`. -/
def transferInput (dest : EvmAddress) (value : ℕ) : Bytes :=
  [0xa9, 0x05, 0x9c, 0xbb] ++ word dest.toNat ++ word value

/-! ### Views -/

/-- The views of the bridge: the output of a contract that was called to answer `input`. -/
def view (E : Env) (code : Behaviour) (context : InvokeContext) (input : Bytes) (w : World) :
    World × Except EvmBridge.Error Bytes :=
  match evmExecute E code context input gasLimit 0 true w with
  | (w, .error e) => (w, .error (.evm e))
  | (w, .ok info) =>
    match handleExitReason info.exitReason with
    | .error e => (w, .error e)
    | .ok _ => (w, .ok info.output)

/-- `U256::from` of a byte string. -/
def u256From (output : Bytes) : Option ℕ :=
  if output.length ≤ 32 then some (beNat output) else none

/-- `output[start..stop]`. -/
def slice (output : Bytes) (start stop : ℕ) : Option Bytes :=
  if start ≤ stop ∧ stop ≤ output.length then some ((output.drop start).take (stop - start))
  else none

/-- `decode_string`, where `usize` has `usizeBits` bits. The offset of the string stands in the
first word, its length in the word at the offset. -/
def decodeString (usizeBits : ℕ) (output : Bytes) : Option (Except EvmBridge.Error Bytes) :=
  if ¬(64 ≤ output.length ∧ output.length % 32 = 0) then some (.error .invalidReturnValue)
  else do
    let offset := beNat (← slice output 0 32)
    if Bounded.maxValue usizeBits < offset then return .error .invalidReturnValue
    else
      match Bounded.checkedAdd usizeBits offset 32 with
      | none => return .error .invalidReturnValue
      | some start =>
        -- only the end of the data is compared with the end of the output, and only afterwards
        let length := beNat (← slice output offset start)
        if Bounded.maxValue usizeBits < length then return .error .invalidReturnValue
        else
          match Bounded.checkedAdd usizeBits start length with
          | none => return .error .invalidReturnValue
          | some stop =>
            if output.length < stop then return .error .invalidReturnValue
            else return .ok (← slice output start stop)

/-- A view that answers a string. -/
def stringView (E : Env) (usizeBits : ℕ) (input : Bytes) (code : Behaviour)
    (context : InvokeContext) (w : World) : Option (World × Except EvmBridge.Error Bytes) :=
  match view E code context input w with
  | (w, .error e) => some (w, .error e)
  | (w, .ok output) => (decodeString usizeBits output).map fun r => (w, r)

/-- A view that answers a balance. -/
def balanceView (E : Env) (input : Bytes) (code : Behaviour) (context : InvokeContext) (w : World) :
    Option (World × Except EvmBridge.Error ℕ) :=
  match view E code context input w with
  | (w, .error e) => some (w, .error e)
  | (w, .ok output) =>
    (u256From output).map fun n => (w, .ok (min n (Bounded.maxValue balanceBits)))

/-- The input of `ERC20.name`. -/
def nameInput : Bytes := [0x06, 0xfd, 0xde, 0x03]

/-- The input of `ERC20.symbol`. -/
def symbolInput : Bytes := [0x95, 0xd8, 0x9b, 0x41]

/-- The input of `ERC20.decimals`. -/
def decimalsInput : Bytes := [0x31, 0x3c, 0xe5, 0x67]

/-- The input of `ERC20.totalSupply`. -/
def totalSupplyInput : Bytes := [0x18, 0x16, 0x0d, 0xdd]

/-- `evm_name`. -/
def evmName (E : Env) (usizeBits : ℕ) := stringView E usizeBits nameInput

/-- `symbol`. -/
def symbol (E : Env) (usizeBits : ℕ) := stringView E usizeBits symbolInput

/-- `decimals`. The length of the output is checked, and a number above 255 is 255. -/
def decimals (E : Env) (code : Behaviour) (context : InvokeContext) (w : World) :
    Option (World × Except EvmBridge.Error ℕ) :=
  match view E code context decimalsInput w with
  | (w, .error e) => some (w, .error e)
  | (w, .ok output) =>
    if output.length = 32 then
      (u256From output).map fun n => (w, .ok (min n (Bounded.maxValue 8)))
    else some (w, .error .invalidReturnValue)

/-- `total_supply`. -/
def totalSupply (E : Env) := balanceView E totalSupplyInput

/-- `balance_of`. -/
def balanceOf (E : Env) (code : Behaviour) (context : InvokeContext) (address : EvmAddress)
    (w : World) : Option (World × Except EvmBridge.Error ℕ) :=
  match evmExecute E code context (balanceOfInput address) gasLimit 0 true w with
  | (w, .error e) => some (w, .error (.evm e))
  | (w, .ok info) =>
    match handleExitReason info.exitReason with
    | .error e => some (w, .error e)
    | .ok _ =>
      if info.output.length ≤ 32 then
        some (w, .ok (min (beNat info.output) (Bounded.maxValue balanceBits)))
      else none

/-! ### When views panic -/

section Views

variable {E : Env} {usizeBits : ℕ} {input output : Bytes} {code : Behaviour}
  {context : InvokeContext} {w : World}

/-- The header of a string is inside the output, if the output has the form of a string and its
offset the range of an index. -/
def HeaderInside (usizeBits : ℕ) (output : Bytes) : Prop :=
  64 ≤ output.length → output.length % 32 = 0 →
    beNat (output.take 32) + 32 < 2 ^ usizeBits → beNat (output.take 32) + 32 ≤ output.length

theorem slice_eq_none {start stop : ℕ} :
    slice output start stop = none ↔ (start ≤ stop → output.length < stop) := by
  unfold slice
  split
  · next h => simp [h.1, h.2]
  · next h => simpa using h

/-- The end of the data is inside the output when it is sliced. -/
theorem exists_slice {start length : ℕ} (h : start + length ≤ output.length) :
    ∃ data, slice output start (start + length) = some data := by
  rw [slice, if_pos ⟨Nat.le_add_right _ _, h⟩]
  exact ⟨_, rfl⟩

/-- **Strings.** Decoding panics exactly if the header is outside the output: the data behind it is
compared with the end of the output before it is read. -/
theorem decodeString_eq_none :
    decodeString usizeBits output = none ↔ ¬HeaderInside usizeBits output := by
  unfold decodeString HeaderInside
  split
  · -- too short, or no whole number of words
    next hform =>
    refine iff_of_false (by simp) (not_not_intro fun h64 h32 => ?_)
    exact absurd ⟨h64, h32⟩ hform
  · next hform =>
    have hform : 64 ≤ output.length ∧ output.length % 32 = 0 := not_not.mp hform
    have hfirst : slice output 0 32 = some (output.take 32) := by
      rw [slice, if_pos ⟨Nat.zero_le _, by omega⟩]
      rfl
    rw [hfirst]
    simp only [Option.bind_eq_bind, Option.bind_some, hform.1, hform.2, forall_const]
    generalize beNat (output.take 32) = offset
    split
    · next hlarge =>
      have hmax : ¬offset < 2 ^ usizeBits := fun h => absurd (Bounded.lt_two_pow_iff.mp h)
        (not_le.mpr hlarge)
      exact iff_of_false (by simp) (not_not_intro fun hfits => by omega)
    · split
      · next hadd =>
        have hover := Bounded.checkedAdd_eq_none.mp hadd
        exact iff_of_false (by simp) (not_not_intro fun hfits => by omega)
      · next start hadd =>
        obtain ⟨hfits, rfl⟩ := Bounded.checkedAdd_eq_some.mp hadd
        simp only [hfits, forall_const]
        cases hheader : slice output offset (offset + 32) with
        | none =>
          have hshort := slice_eq_none.mp hheader (Nat.le_add_right _ _)
          exact iff_of_true rfl (by omega)
        | some header =>
          have hinside : offset + 32 ≤ output.length := by
            by_contra hshort
            rw [slice_eq_none.mpr fun _ => by omega] at hheader
            cases hheader
          refine iff_of_false ?_ (not_not_intro hinside)
          simp only [Option.bind_some]
          split
          · simp
          · split
            · simp
            · next stop hstop =>
              obtain ⟨-, rfl⟩ := Bounded.checkedAdd_eq_some.mp hstop
              split
              · simp
              · next hlength =>
                obtain ⟨data, hdata⟩ := exists_slice (not_lt.mp hlength)
                simp [hdata]

theorem u256From_eq_none : u256From output = none ↔ 32 < output.length := by
  unfold u256From
  split
  · next h => simpa using h
  · next h => simpa using h

/-- A view of a string panics with the decoding of what the contract has answered. -/
theorem stringView_eq_none :
    stringView E usizeBits input code context w = none ↔
      ∃ output, (view E code context input w).2 = .ok output ∧
        ¬HeaderInside usizeBits output := by
  unfold stringView
  obtain ⟨w', e | output⟩ := view E code context input w
  · simp
  · simp [decodeString_eq_none]

/-- A view of a balance panics if the contract has answered more than a word. -/
theorem balanceView_eq_none :
    balanceView E input code context w = none ↔
      ∃ output, (view E code context input w).2 = .ok output ∧ 32 < output.length := by
  unfold balanceView
  obtain ⟨w', e | output⟩ := view E code context input w
  · simp
  · simp [u256From_eq_none]

/-- The length of the answer is checked before it is converted. -/
theorem decimals_ne_none : decimals E code context w ≠ none := by
  unfold decimals
  obtain ⟨w', e | output⟩ := view E code context decimalsInput w
  · simp
  · simp only []
    split
    · next hlength => simp [u256From_eq_none, hlength]
    · simp

theorem balanceOf_eq (address : EvmAddress) :
    balanceOf E code context address w = balanceView E (balanceOfInput address) code context w := by
  unfold balanceOf balanceView view
  obtain ⟨w', e | info⟩ := evmExecute E code context (balanceOfInput address) gasLimit 0 true w
  · rfl
  · simp only []
    cases handleExitReason info.exitReason with
    | error e => rfl
    | ok u =>
      simp only [u256From]
      split <;> rfl

end Views

/-! ### Strings -/

/-- An output is a layout of the string `s`: its first word is the offset of a word with the length
of the string, behind which the string stands. -/
structure StringLayout (output s : Bytes) : Prop where
  /-- A whole number of words, and two at least. -/
  words : 64 ≤ output.length ∧ output.length % 32 = 0
  inside : beNat (output.take 32) + 32 + s.length ≤ output.length
  length : beNat ((output.drop (beNat (output.take 32))).take 32) = s.length
  data : (output.drop (beNat (output.take 32) + 32)).take s.length = s

section Strings

variable {usizeBits : ℕ} {output s : Bytes}

theorem slice_eq_some {start stop : ℕ} {data : Bytes} :
    slice output start stop = some data ↔
      start ≤ stop ∧ stop ≤ output.length ∧ (output.drop start).take (stop - start) = data := by
  unfold slice
  split
  · next h => simp [h.1, h.2]
  · next h =>
    refine iff_of_false (by simp) fun hslice => ?_
    exact h ⟨hslice.1, hslice.2.1⟩

/-- What decoding a string returns is what stands behind its length. -/
theorem decodeString_eq_ok (h : decodeString usizeBits output = some (.ok s)) :
    StringLayout output s := by
  unfold decodeString at h
  split at h
  · cases h
  · next hform =>
    obtain ⟨first, hfirst, h⟩ := Option.bind_eq_some_iff.mp h
    obtain ⟨-, -, rfl⟩ := slice_eq_some.mp hfirst
    -- every refusal is an error, so the string has passed all of the comparisons
    simp only [List.drop_zero, Nat.sub_zero] at h
    split at h
    · cases h
    · split at h
      · cases h
      · next start hadd =>
        obtain ⟨-, rfl⟩ := Bounded.checkedAdd_eq_some.mp hadd
        obtain ⟨header, hheader, h⟩ := Option.bind_eq_some_iff.mp h
        obtain ⟨-, -, rfl⟩ := slice_eq_some.mp hheader
        rw [Nat.add_sub_cancel_left] at h
        split at h
        · cases h
        · split at h
          · cases h
          · next stop hstop =>
            obtain ⟨-, rfl⟩ := Bounded.checkedAdd_eq_some.mp hstop
            split at h
            · cases h
            · obtain ⟨data, hdata, h⟩ := Option.bind_eq_some_iff.mp h
              obtain ⟨-, hinside, rfl⟩ := slice_eq_some.mp hdata
              cases h
              rw [Nat.add_sub_cancel_left]
              have hlength : ∀ n, beNat (output.take 32) + 32 + n ≤ output.length →
                  ((output.drop (beNat (output.take 32) + 32)).take n).length = n := by
                intro n hn
                rw [List.length_take, List.length_drop]
                omega
              refine ⟨not_not.mp hform, ?_, ?_, ?_⟩
              · rw [hlength _ hinside]
                exact hinside
              · rw [hlength _ hinside]
              · rw [hlength _ hinside]

/-- A string that is laid out in the output is decoded. -/
theorem StringLayout.decodes (h : StringLayout output s)
    (hlen : output.length < 2 ^ usizeBits) :
    decodeString usizeBits output = some (.ok s) := by
  obtain ⟨hwords, hinside, hlength, hdata⟩ := h
  have hfirst : slice output 0 32 = some (output.take 32) :=
    slice_eq_some.mpr ⟨Nat.zero_le _, by omega, rfl⟩
  unfold decodeString
  rw [if_neg (not_not.mpr hwords), hfirst]
  simp only [Option.bind_eq_bind, Option.bind_some]
  generalize beNat (output.take 32) = offset at hinside hlength hdata ⊢
  have hheader : slice output offset (offset + 32) = some ((output.drop offset).take 32) :=
    slice_eq_some.mpr ⟨Nat.le_add_right _ _, by omega, by rw [Nat.add_sub_cancel_left]⟩
  have hstring : slice output (offset + 32) (offset + 32 + s.length) = some s :=
    slice_eq_some.mpr ⟨Nat.le_add_right _ _, hinside, by rw [Nat.add_sub_cancel_left]; exact hdata⟩
  -- nothing overflows, because everything is inside the output
  have hstart : Bounded.checkedAdd usizeBits offset 32 = some (offset + 32) :=
    Bounded.checkedAdd_eq_some.mpr ⟨by omega, rfl⟩
  have hstop : Bounded.checkedAdd usizeBits (offset + 32) s.length =
      some (offset + 32 + s.length) :=
    Bounded.checkedAdd_eq_some.mpr ⟨by omega, rfl⟩
  have hoffset : ¬Bounded.maxValue usizeBits < offset :=
    not_lt.mpr (Bounded.lt_two_pow_iff.mp (by omega))
  have hmax : ¬Bounded.maxValue usizeBits < s.length :=
    not_lt.mpr (Bounded.lt_two_pow_iff.mp (by omega))
  simp only [hoffset, hstart, hheader, Option.bind_some, hlength, hmax, hstop, hstring, if_false,
    not_lt.mpr hinside]
  rfl

/-- The encoding of a string is a layout of it. -/
theorem stringLayout_abiString (h : s.length < 256 ^ 32) : StringLayout (abiString s) s := by
  have hoffset : beNat ((abiString s).take 32) = 32 := by
    rw [abiString, List.take_left' (length_word 32)]
    exact beNat_word (by decide)
  have hrest : (abiString s).drop 32 = word s.length ++ (s ++ padding s) :=
    List.drop_left' (length_word 32)
  have hlength := length_abiString s
  refine ⟨⟨by omega, by omega⟩, ?_, ?_, ?_⟩
  · rw [hoffset]
    omega
  · rw [hoffset, hrest, List.take_left' (length_word _), beNat_word h]
  · rw [hoffset, ← List.drop_drop, hrest, List.drop_left' (length_word _), List.take_left' rfl]

theorem decodeString_abiString (hs : (abiString s).length < 2 ^ usizeBits)
    (husize : usizeBits ≤ 256) : decodeString usizeBits (abiString s) = some (.ok s) := by
  have hlength := length_abiString s
  have hwide : 2 ^ usizeBits ≤ 2 ^ 256 := Nat.pow_le_pow_right (by decide) husize
  have hword : s.length < 256 ^ 32 := by
    have hpow : (256 : ℕ) ^ 32 = 2 ^ 256 := by norm_num
    omega
  exact (stringLayout_abiString hword).decodes hs

/-- **Strings are decoded exactly from their layouts.** The result of `decode_string` on an output
that fits the memory is `s` exactly if the output is a layout of `s`, wherever in it the string
stands. -/
theorem decode_string_undoes_layout (usizeBits : ℕ) (output s : Bytes)
    (hlen : output.length < 2 ^ usizeBits) :
    decodeString usizeBits output = some (.ok s) ↔ StringLayout output s :=
  ⟨decodeString_eq_ok, fun h => h.decodes hlen⟩

/-- The string `abc`, behind a word that is not used. -/
def farString : Bytes := word 64 ++ (word 0 ++ (word 3 ++ ([97, 98, 99] ++ padding [97, 98, 99])))

theorem decode_string_farString : decodeString 32 farString = some (.ok [97, 98, 99]) :=
  (decode_string_undoes_layout 32 farString [97, 98, 99] (by decide +kernel)).mpr
    ⟨by decide +kernel, by decide +kernel, by decide +kernel, by decide +kernel⟩

end Strings

/-- **Views.** All views of a contract answer, with a result or an error, if and only if its answers
to `name` and `symbol` have their header inside and its answers to `totalSupply` and `balanceOf` are
at most a word long. -/
theorem views_answer_iff (E : Env) (usizeBits : ℕ) (code : Behaviour) (context : InvokeContext)
    (address : EvmAddress) (w : World) :
    (evmName E usizeBits code context w ≠ none ∧ symbol E usizeBits code context w ≠ none ∧
      decimals E code context w ≠ none ∧ totalSupply E code context w ≠ none ∧
      balanceOf E code context address w ≠ none) ↔
    (∀ input ∈ [nameInput, symbolInput], ∀ output,
      (view E code context input w).2 = .ok output → HeaderInside usizeBits output) ∧
    ∀ input ∈ [totalSupplyInput, balanceOfInput address], ∀ output,
      (view E code context input w).2 = .ok output → output.length ≤ 32 := by
  -- the views come in two kinds, strings and numbers; decimals always answer
  have hstring : ∀ input, stringView E usizeBits input code context w ≠ none ↔
      ∀ output, (view E code context input w).2 = .ok output →
        HeaderInside usizeBits output := by
    intro input
    rw [Ne, stringView_eq_none]
    push Not
    rfl
  have hbalance : ∀ input, balanceView E input code context w ≠ none ↔
      ∀ output, (view E code context input w).2 = .ok output → output.length ≤ 32 := by
    intro input
    rw [Ne, balanceView_eq_none]
    push Not
    rfl
  rw [balanceOf_eq, evmName, symbol, totalSupply, hstring, hstring, hbalance, hbalance]
  have hdecimals : decimals E code context w ≠ none := decimals_ne_none
  constructor
  · rintro ⟨hname, hsymbol, -, hsupply, hof⟩
    simp only [List.forall_mem_cons, List.not_mem_nil, false_implies, implies_true, and_true]
    exact ⟨⟨hname, hsymbol⟩, hsupply, hof⟩
  · rintro ⟨hstrings, hbalances⟩
    exact ⟨hstrings _ (by simp), hstrings _ (by simp), hdecimals, hbalances _ (by simp),
      hbalances _ (by simp)⟩

/-- The answer of a contract to `name` in which the header is said to come after the last word. -/
def pastTheEnd : Behaviour := fun _ _ _ => .exit (.succeed .returned) (word 64 ++ word 0)

/-- It makes three of the views panic. -/
theorem past_the_end_panics :
    (evmName sampleEnv 32 pastTheEnd (.query 7) ⟨.empty, []⟩).isNone ∧
      (totalSupply sampleEnv pastTheEnd (.query 7) ⟨.empty, []⟩).isNone ∧
      (balanceOf sampleEnv pastTheEnd (.query 7) 8 ⟨.empty, []⟩).isNone := by
  decide +kernel

/-- A view is rolled back. -/
theorem balanceOf_state {E : Env} {code : Behaviour} {context : InvokeContext}
    {address : EvmAddress} {w w' : World} {r : Except EvmBridge.Error ℕ}
    (h : balanceOf E code context address w = some (w', r)) : w'.state = w.state := by
  -- the call is a view, so the state is as before whatever is made of its answer
  have hview : (evmExecute E code context (balanceOfInput address) gasLimit 0 true w).1.state =
      w.state := by
    unfold evmExecute executed
    simp only []
    split
    · rw [if_neg (by simp)]
    · rfl
  unfold balanceOf at h
  split at h
  · next heq =>
    rw [heq] at hview
    cases h
    exact hview
  · next heq =>
    rw [heq] at hview
    split at h
    · cases h
      exact hview
    · split at h
      · cases h
        exact hview
      · cases h

/-! ### Transfers -/

/-- `transfer`. What the contract did is not undone when its answer is refused. -/
def transfer (E : Env) (code : Behaviour) (context : InvokeContext) (dest : EvmAddress)
    (value : ℕ) (w : World) : World × Except EvmBridge.Error Unit :=
  let storageLimit := if context.origin = 0 then 0 else 1_000
  match evmExecute E code context (transferInput dest value) gasLimit storageLimit false w with
  | (w, .error e) => (w, .error (.evm e))
  | (w, .ok info) =>
    match handleExitReason info.exitReason with
    | .error e => (w, .error e)
    | .ok _ =>
      if info.output = word 1 then (w, .ok ()) else (w, .error .invalidReturnValue)

/-- The run of the contract in a transfer. -/
def transferCall (E : Env) (code : Behaviour) (context : InvokeContext) (dest : EvmAddress)
    (value : ℕ) (w : World) : World × Except Evm.DispatchError CallInfo :=
  Runner.call E context.sender context.origin context.contract 0 gasLimit
    (if context.origin = 0 then 0 else 1_000)
    (code ⟨context.contract, context.sender, 0⟩ (transferInput dest value) w.state) w

section Transfer

variable (E : Env) (code : Behaviour) (context : InvokeContext) (dest : EvmAddress) (value : ℕ)
  (w : World)

/-- No transfer takes back an event. -/
theorem transferCall_events :
    w.state.events <+: (transferCall E code context dest value w).1.state.events :=
  events_call E _ _ _ _ _ _ _ w

/-- What a transfer does: it fails and is undone with the run of the contract; or the run is
committed with an event, and the transfer fails or succeeds by what the contract has answered. -/
theorem transfer_cases :
    (∃ e, (transfer E code context dest value w).2 = .error e ∧
      (transfer E code context dest value w).1.state = w.state ∧
      ∀ info, (transferCall E code context dest value w).2 = .ok info →
        info.exitReason.isSucceed = false) ∨
    ∃ info r, (transferCall E code context dest value w).2 = .ok info ∧
      info.exitReason = .succeed r ∧
      (transfer E code context dest value w).1.state =
        (transferCall E code context dest value w).1.state.depositEvent
          (.executed context.sender context.contract info.usedGas info.usedStorage) ∧
      ((transfer E code context dest value w).2 = .ok () ↔
        r ≠ .suicided ∧ info.output = word 1) := by
  unfold transfer evmExecute transferCall executed
  simp only []
  generalize Runner.call E context.sender context.origin context.contract 0 gasLimit
    (if context.origin = 0 then 0 else 1_000)
    (code ⟨context.contract, context.sender, 0⟩ (transferInput dest value) w.state) w = x
  obtain ⟨w', e | info⟩ := x
  · exact .inl ⟨_, rfl, rfl, fun info h => by cases h⟩
  · by_cases hsucceed : info.exitReason.isSucceed
    · -- the run is committed
      obtain ⟨r, hr⟩ := exists_of_isSucceed hsucceed
      refine .inr ⟨info, r, rfl, hr, ?_⟩
      have hcommit : (info.exitReason.isSucceed && !false) = true := by rw [hsucceed]; rfl
      simp only [if_pos hcommit]
      rw [hr, handleExitReason_succeed]
      by_cases hdead : r = .suicided
      · simp [hdead]
      · by_cases hanswer : info.output = word 1
        · simp [hdead, hanswer]
        · simp [hdead, hanswer]
    · -- the run is undone, and its reason becomes the error
      obtain ⟨e, he⟩ := handleExitReason_failed hsucceed
      have hundo : ¬(info.exitReason.isSucceed && !false) = true := by simpa using hsucceed
      simp only [if_neg hundo, he]
      refine .inl ⟨e, rfl, trivial, fun info' h => ?_⟩
      cases h
      exact Bool.eq_false_iff.mpr hsucceed

/-- **Atomicity of transfers.** A transfer that fails has changed nothing, and one that succeeds is
a single run of the contract that returned or stopped with the word 1, if and only if a run of the
contract that succeeds does not self-destruct and answers the word 1. Any other answer is refused
after the run was committed. -/
theorem transfer_atomic_iff :
    ((∀ e, (transfer E code context dest value w).2 = .error e →
        (transfer E code context dest value w).1.state = w.state) ∧
      ((transfer E code context dest value w).2 = .ok () →
        ∃ info, (transferCall E code context dest value w).2 = .ok info ∧
          (info.exitReason = .succeed .returned ∨ info.exitReason = .succeed .stopped) ∧
          info.output = word 1 ∧
          (transfer E code context dest value w).1.state =
            (transferCall E code context dest value w).1.state.depositEvent
              (.executed context.sender context.contract info.usedGas info.usedStorage))) ↔
      ∀ info, (transferCall E code context dest value w).2 = .ok info →
        info.exitReason.isSucceed = true →
          info.exitReason ≠ .succeed .suicided ∧ info.output = word 1 := by
  rcases transfer_cases E code context dest value w with
    ⟨e, herror, hstate, hfailed⟩ | ⟨info, r, hcall, hr, hstate, hok⟩
  · -- nothing was committed, and both sides hold
    refine iff_of_true ⟨fun _ _ => hstate, fun h => ?_⟩ fun info hinfo hsucceed => ?_
    · rw [herror] at h
      cases h
    · rw [hfailed info hinfo] at hsucceed
      cases hsucceed
  · have hsucceed : info.exitReason.isSucceed = true := by rw [hr]; rfl
    have hanswer : (transfer E code context dest value w).2 = .ok () ↔
        info.exitReason ≠ .succeed .suicided ∧ info.output = word 1 := by
      rw [hok, hr]
      simp
    constructor
    · rintro ⟨hatomic, -⟩ info' hinfo' -
      obtain rfl : info = info' := Except.ok.inj (hcall.symm.trans hinfo')
      refine hanswer.mp ?_
      -- an error would leave the event of the run
      cases hresult : (transfer E code context dest value w).2 with
      | ok u => rfl
      | error e =>
        have hevents := congrArg State.events (hatomic e hresult)
        rw [hstate] at hevents
        have hgrow := (transferCall_events E code context dest value w).length_le
        have hlength := congrArg List.length hevents
        rw [State.depositEvent, List.length_append, List.length_singleton] at hlength
        omega
    · intro hcond
      have hresult := hanswer.mpr (hcond info hcall hsucceed)
      refine ⟨fun e he => ?_, fun _ => ⟨info, hcall, ?_, (hcond info hcall hsucceed).2, hstate⟩⟩
      · rw [hresult] at he
        cases he
      · have hdead := (hcond info hcall hsucceed).1
        rw [hr] at hdead ⊢
        cases r with
        | returned => exact .inl rfl
        | stopped => exact .inr rfl
        | suicided => exact absurd rfl hdead

end Transfer

/-- A token that overwrites a slot of its storage and answers nothing, as some tokens do. -/
def silentToken : Behaviour := fun _ _ _ => .setStorage 0 3 (.exit (.succeed .returned) [])

/-- A state in which the first slot of the contract 7 is taken, and everybody has funds. -/
def silentState : State :=
  { State.empty with
    accountStorages := fun a => if a = 7 then Finmap.singleton 0 5 else ∅
    ledger := .ofFree fun _ => 100 * REEF }

/-- The answer of such a token is refused, and its slot stays overwritten. -/
theorem silent_token_not_undone :
    (transfer sampleEnv silentToken ⟨7, 8, 8⟩ 9 10 ⟨silentState, []⟩).2 =
        .error .invalidReturnValue ∧
      silentState.storage 7 0 = 5 ∧
      (transfer sampleEnv silentToken ⟨7, 8, 8⟩ 9 10 ⟨silentState, []⟩).1.state.storage 7 0 =
        3 := by
  decide +kernel

end EvmBridge
end Reef
