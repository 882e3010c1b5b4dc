import ReefChain.EvmBridge

/-!
# Errors of the RPC

The RPC of the EVM runs calls and creations without committing them and turns the way they end into
an answer. An error has a code, a message and possibly data; the code 0 marks an execution that was
out of gas. The message of a reverted execution contains the reason, if one can be decoded from the
output.

The output is what the reverting contract has returned. `decode_revert_message` reads the length of
the reason from it, converts it to a `usize` of 64 bits, which saturates, and adds it to the start
of the reason. The sum wraps around for the lengths closest to the largest `usize`, and for all
greater ones. The end of the reason is then before its start, so it is inside the output, and
slicing the reason panics. `revert_message_decoded_iff` says that this is the only way to panic, and
that a reason that was encoded is decoded.
-/

namespace Reef
namespace Rpc

open Evm Scale Bounded EvmBridge

/-- An error of the RPC, `ErrorObject`. -/
structure RpcError where
  code : ℤ
  message : String
  data : Option String
  deriving DecidableEq, Repr

/-- What the RPC answers. A panic has no answer. -/
abbrev Reply (α : Type) := Option (Except RpcError α)

/-- `ErrorCode::InternalError`. -/
def internalError : ℤ := -32603

/-- `ErrorCode::InvalidParams`. -/
def invalidParamsError : ℤ := -32602

/-- `ErrorCode::ServerError(0)`. -/
def serverError0 : ℤ := 0

/-- `internal_err`. -/
def internalErr (message : String) : RpcError := ⟨internalError, message, none⟩

/-- `invalid_params`. -/
def invalidParams (message : String) : RpcError := ⟨invalidParamsError, message, none⟩

/-- The error of an execution that was out of gas. -/
def outOfGas : RpcError := ⟨serverError0, "out of gas", none⟩

/-! ### Reasons -/

/-- `decode_revert_message`. -/
def decodeRevertMessage (data : Bytes) : Option (Option String) :=
  let msgStart := 68
  if msgStart < data.length then do
    let messageLen := min (beNat (← slice data 36 msgStart)) (maxValue 64)
    let msgEnd := wrapAdd 64 msgStart messageLen
    if data.length < msgEnd then return none
    else
      let body ← slice data msgStart msgEnd
      -- `from_utf8`, of which only the success is of interest
      return String.fromUTF8? body.toByteArray
  else some none

/-- The length word of an output. -/
def messageLength (data : Bytes) : ℕ := beNat ((data.drop 36).take 32)

/-- The bytes of a string. -/
def utf8 (s : String) : Bytes := s.toByteArray.data.toList

/-- What a contract returns that reverts with the reason `s`: the selector of `Error(string)` and
the encoding of the reason. -/
def errorData (s : String) : Bytes := [0x08, 0xc3, 0x79, 0xa0] ++ abiString (utf8 s)

theorem slice_messageLength {data : Bytes} (h : 68 < data.length) :
    slice data 36 68 = some ((data.drop 36).take 32) :=
  slice_eq_some.mpr ⟨by decide, h.le, rfl⟩

/-- The decoding of an output that is long enough. -/
theorem decodeRevertMessage_of_lt {data : Bytes} (h : 68 < data.length) :
    decodeRevertMessage data =
      if data.length < wrapAdd 64 68 (min (messageLength data) (maxValue 64)) then some none
      else (slice data 68 (wrapAdd 64 68 (min (messageLength data) (maxValue 64)))).map
        fun body => String.fromUTF8? body.toByteArray := by
  unfold decodeRevertMessage messageLength
  simp only [if_pos h, slice_messageLength h, Option.bind_eq_bind, Option.bind_some]
  split
  · rfl
  · cases slice data 68 (wrapAdd 64 68
      (min (beNat ((data.drop 36).take 32)) (maxValue 64))) with
    | none => rfl
    | some body => rfl

/-- **Panics.** -/
theorem decodeRevertMessage_ne_none {data : Bytes} :
    decodeRevertMessage data ≠ none ↔ (68 < data.length → messageLength data < 2 ^ 64 - 68) := by
  by_cases hlong : 68 < data.length
  · rw [decodeRevertMessage_of_lt hlong]
    simp only [hlong, forall_const]
    by_cases hfits : messageLength data < 2 ^ 64 - 68
    · -- the end is computed exactly
      have hmin : min (messageLength data) (maxValue 64) = messageLength data :=
        min_eq_left (lt_two_pow_iff.mp (by omega))
      refine iff_of_true ?_ hfits
      rw [hmin, wrapAdd_of_lt (by omega)]
      split
      · exact Option.some_ne_none _
      · next hinside =>
        rw [slice_eq_some.mpr ⟨Nat.le_add_right _ _, not_lt.mp hinside, rfl⟩]
        exact Option.some_ne_none _
    · -- the end is before the start
      have hwrap : wrapAdd 64 68 (min (messageLength data) (maxValue 64)) < 68 := by
        unfold wrapAdd maxValue
        omega
      refine iff_of_false (fun h => h ?_) hfits
      rw [if_neg (by omega), slice_eq_none.mpr fun hle => absurd hle (not_le.mpr hwrap)]
      rfl
  · unfold decodeRevertMessage
    simp only [if_neg hlong]
    exact iff_of_true (Option.some_ne_none _) fun h => absurd h hlong

theorem toByteArray_utf8 (s : String) : (utf8 s).toByteArray = s.toByteArray := by
  apply ByteArray.ext
  rw [utf8, List.data_toByteArray, Array.toArray_toList]

theorem fromUTF8_utf8 (s : String) : String.fromUTF8? (utf8 s).toByteArray = some s := by
  rw [toByteArray_utf8, String.fromUTF8?, dif_pos s.isValidUTF8]
  rfl

theorem utf8_ne_nil {s : String} (h : s ≠ "") : 0 < (utf8 s).length := by
  refine Nat.pos_of_ne_zero fun hzero => h ?_
  rw [← String.toByteArray_inj, ← toByteArray_utf8, List.eq_nil_of_length_eq_zero hzero]
  rfl

/-- **Round trip.** A reason that is not empty is decoded. -/
theorem decodeRevertMessage_errorData {s : String} (hs : s ≠ "")
    (hlen : (errorData s).length < 2 ^ 64) :
    decodeRevertMessage (errorData s) = some (some s) := by
  have hpos := utf8_ne_nil hs
  have hlength : (errorData s).length = 4 + (abiString (utf8 s)).length := by
    rw [errorData, List.length_append]
    rfl
  have habi := length_abiString (utf8 s)
  have hlong : 68 < (errorData s).length := by omega
  -- past the selector and the offset stand the length, the text and the padding
  have hoffset : (errorData s).drop 36 = word (utf8 s).length ++ (utf8 s ++ padding (utf8 s)) := by
    change (abiString (utf8 s)).drop 32 = _
    exact List.drop_left' (length_word 32)
  have hmessage : messageLength (errorData s) = (utf8 s).length := by
    rw [messageLength, hoffset, List.take_left' (length_word _)]
    exact beNat_word (by omega)
  -- neither `low_u64` nor the addition to 68 loses anything of the length
  have hmin : min (utf8 s).length (maxValue 64) = (utf8 s).length :=
    min_eq_left (lt_two_pow_iff.mp (by omega))
  have hbody : slice (errorData s) 68 (68 + (utf8 s).length) = some (utf8 s) := by
    refine slice_eq_some.mpr ⟨Nat.le_add_right _ _, by omega, ?_⟩
    have hstart : (errorData s).drop 68 = utf8 s ++ padding (utf8 s) := by
      rw [← List.drop_drop (i := 32) (j := 36), hoffset, List.drop_left' (length_word _)]
    rw [hstart, Nat.add_sub_cancel_left, List.take_left' rfl]
  rw [decodeRevertMessage_of_lt hlong, hmessage, hmin, wrapAdd_of_lt (by omega),
    if_neg (by omega), hbody, Option.map_some, fromUTF8_utf8]

/-- **Reasons are decoded.** Decoding panics exactly if the output is longer than the header of a
reason and the length in it is one of the greatest; what encodes a reason is decoded to it. -/
theorem revert_message_decoded_iff (data : Bytes) :
    (decodeRevertMessage data ≠ none ↔
      (68 < data.length → messageLength data < 2 ^ 64 - 68)) ∧
    ∀ s, s ≠ "" → (errorData s).length < 2 ^ 64 →
      decodeRevertMessage (errorData s) = some (some s) :=
  ⟨decodeRevertMessage_ne_none, fun _ => decodeRevertMessage_errorData⟩

/-- An output of 69 bytes with the greatest length word. -/
def endlessReason : Bytes :=
  [0x08, 0xc3, 0x79, 0xa0] ++ (word 32 ++ (List.replicate 32 255 ++ [0]))

theorem endless_reason_panics : decodeRevertMessage endlessReason = none := by
  decide +kernel

/-! ### Failures -/

/-- A byte in two hexadecimal digits. -/
def hexByte (b : UInt8) : List Char := [Nat.digitChar (b.toNat / 16), Nat.digitChar (b.toNat % 16)]

/-- `to_hex`. -/
def toHex (data : Bytes) : String := String.ofList (data.flatMap hexByte)

/-- The message of a reverted execution. -/
def revertText : Option String → String
  | none => "VM Exception while processing transaction: execution revert"
  | some reason => "VM Exception while processing transaction: execution revert " ++ reason

/-- `error_on_execution_failure`, where `debug` prints the errors of the EVM. -/
def errorOnExecutionFailure (debug : ExitReason → String) (reason : ExitReason) (data : Bytes) :
    Reply Unit :=
  match reason with
  | .succeed _ => some (.ok ())
  | .error e =>
    if e = .outOfGas then some (.error outOfGas)
    else some (.error ⟨internalError, "execution error: " ++ debug reason, some "0x"⟩)
  | .revert => (decodeRevertMessage data).map fun reason =>
    .error ⟨internalError, revertText reason, some ("0x" ++ toHex data)⟩
  | .fatal => some (.error ⟨internalError, "execution fatal: " ++ debug reason, some "0x"⟩)

/-- Only an execution that succeeds is no failure. -/
theorem errorOnExecutionFailure_eq_ok {debug : ExitReason → String} {reason : ExitReason}
    {data : Bytes} :
    errorOnExecutionFailure debug reason data = some (.ok ()) ↔ reason.isSucceed = true := by
  cases reason with
  | succeed r => exact iff_of_true rfl rfl
  | error e =>
    refine iff_of_false (fun h => ?_) nofun
    simp only [errorOnExecutionFailure] at h
    split at h
    · cases h
    · cases h
  | revert =>
    refine iff_of_false (fun h => ?_) nofun
    obtain ⟨message, -, h⟩ := Option.map_eq_some_iff.mp h
    cases h
  | fatal => exact iff_of_false nofun nofun

theorem internalError_ne : internalError ≠ serverError0 := by decide

/-- The code 0 is that of executions out of gas. -/
theorem errorOnExecutionFailure_code {debug : ExitReason → String} {reason : ExitReason}
    {data : Bytes} {e : RpcError}
    (h : errorOnExecutionFailure debug reason data = some (.error e)) :
    e.code = serverError0 ↔ reason = .error .outOfGas := by
  cases reason with
  | succeed r => cases h
  | error err =>
    simp only [errorOnExecutionFailure] at h
    -- out of gas is the one error with a code of its own
    split at h
    · next heq =>
      cases h
      exact iff_of_true rfl (congrArg _ heq)
    · next hne =>
      cases h
      exact iff_of_false internalError_ne fun heq => hne (ExitReason.error.inj heq)
  | revert =>
    -- the message may be undecodable, the code is the same
    obtain ⟨message, -, h⟩ := Option.map_eq_some_iff.mp h
    cases h
    exact iff_of_false internalError_ne nofun
  | fatal =>
    cases h
    exact iff_of_false internalError_ne nofun

end Rpc
end Reef
