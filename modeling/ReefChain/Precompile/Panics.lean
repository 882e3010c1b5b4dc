import ReefChain.Precompile.Core

/-!
# Panics of the core precompiles

A slice that is out of range aborts the runtime, so no input may make a precompile take one. Almost
all reading is guarded: a parameter is sliced after the end of its word was compared with the length
of the input. Two reads of `ScheduleCall` are not. The first word of the input is cut off without
looking at its length, and the end of a byte string is the sum of its start and a length that is
read from the input; the sum wraps in a `usize` of 32 bits and then passes the comparison, while the
slice ends before it starts.

`precompile_panics_iff` says that these are the only panics. The answer of `ScheduleCall` is copied
into an array of a fixed size; that it fits is part of the result (`length_encode_newTask`).
-/

namespace Reef
namespace Precompile

open Evm Scale

/-! ### Reading without a panic -/

/-- No panic. -/
def Safe {α : Type} (x : Parsed α) : Prop := x ≠ .error .panic

section Safe

variable {α β : Type} {input : Bytes}

theorem safe_ok (a : α) : Safe (.ok a : Parsed α) := by
  intro h
  cases h

theorem safe_invalid (message : String) : Safe (invalid message : Parsed α) := by
  intro h
  cases h

/-- A sequence is safe if its parts are, the second one on what the first one reads. -/
theorem safe_bind {x : Parsed α} {f : α → Parsed β} (hx : Safe x) :
    Safe (x >>= f) ↔ ∀ a, x = .ok a → Safe (f a) := by
  cases x with
  | error e =>
    refine iff_of_true (fun h => hx ?_) fun a h => ?_
    · cases h
      rfl
    · cases h
  | ok a =>
    refine ⟨fun h a' ha => ?_, fun h => h a rfl⟩
    cases ha
    exact h

theorem safe_of_bind {x : Parsed α} {f : α → Parsed β} (h : Safe (x >>= f)) : Safe x := by
  rintro rfl
  exact h rfl

theorem nthParam_safe (input : Bytes) (n : ℕ) : Safe (nthParam input n) := by
  unfold nthParam
  simp only []
  split
  · exact safe_ok _
  · exact safe_invalid _

theorem natAt_safe (len : ℕ) (input : Bytes) (index : ℕ) : Safe (natAt len input index) :=
  (safe_bind (nthParam_safe input index)).mpr fun _ _ => safe_ok _

theorem evmAddressAt_safe (input : Bytes) (index : ℕ) : Safe (evmAddressAt input index) :=
  (safe_bind (natAt_safe 20 input index)).mpr fun _ _ => safe_ok _

theorem accountIdAt_safe (s : State) (input : Bytes) (index : ℕ) :
    Safe (accountIdAt s input index) :=
  (safe_bind (evmAddressAt_safe input index)).mpr fun _ _ => safe_ok _

theorem currencyIdAt_safe (input : Bytes) (index : ℕ) : Safe (currencyIdAt input index) := by
  refine (safe_bind (nthParam_safe input index)).mpr fun param _ => ?_
  cases currencyId param with
  | none => exact safe_invalid _
  | some id => exact safe_ok _

theorem action_safe (f : ℕ → Option α) (input : Bytes) : Safe (action f input) := by
  refine (safe_bind (natAt_safe 1 input 0)).mpr fun n _ => ?_
  cases f n with
  | none => exact safe_invalid _
  | some a => exact safe_ok _

/-! ### Which words are there -/

variable {index : ℕ}

/-- A parameter can be read if its word ends inside the input. -/
theorem exists_natAt (len : ℕ) (h : PER_PARAM_BYTES * (index + 1) ≤ input.length) :
    ∃ n, natAt len input index = .ok n := by
  have hparam : nthParam input index =
      .ok ((input.drop (PER_PARAM_BYTES * index)).take PER_PARAM_BYTES) := by
    unfold nthParam
    simp only []
    rw [if_pos (by rw [Nat.mul_succ] at h; exact h)]
  unfold natAt
  rw [hparam]
  exact ⟨_, rfl⟩

theorem exists_evmAddressAt (h : PER_PARAM_BYTES * (index + 1) ≤ input.length) :
    ∃ a, evmAddressAt input index = .ok a := by
  obtain ⟨n, hn⟩ := exists_natAt 20 h
  unfold evmAddressAt
  rw [hn]
  exact ⟨_, rfl⟩

/-- A number that was read is in the range of its bytes, and its word is inside the input. -/
theorem natAt_eq_ok {len n : ℕ} (hlen : len ≤ PER_PARAM_BYTES) (h : natAt len input index = .ok n) :
    n < 256 ^ len ∧ PER_PARAM_BYTES * (index + 1) ≤ input.length := by
  obtain ⟨param, hparam, hn⟩ := Fallible.bind_eq_ok.mp h
  unfold nthParam at hparam
  simp only [] at hparam
  split at hparam
  · next hinside =>
    cases hparam
    cases hn
    refine ⟨?_, by rw [Nat.mul_succ]; exact hinside⟩
    have hlength : (((input.drop (PER_PARAM_BYTES * index)).take PER_PARAM_BYTES).drop
        (PER_PARAM_BYTES - len)).length = len := by
      rw [List.length_drop, List.length_take, List.length_drop]
      omega
    have hlt := beNat_lt (((input.drop (PER_PARAM_BYTES * index)).take PER_PARAM_BYTES).drop
      (PER_PARAM_BYTES - len))
    rw [hlength] at hlt
    exact hlt
  · cases hparam

/-- **Byte strings.** If the start is inside the input, the only danger is that the end wraps. -/
theorem bytesAt_safe_iff {start len : ℕ} (hstart : start ≤ input.length)
    (hsmall : start < 2 ^ usizeBits) (hlen : len < 2 ^ usizeBits) :
    Safe (bytesAt input start len) ↔ start + len < 2 ^ usizeBits := by
  unfold bytesAt Bounded.wrapAdd
  simp only []
  by_cases hfits : start + len < 2 ^ usizeBits
  · refine iff_of_true ?_ hfits
    rw [Nat.mod_eq_of_lt hfits]
    split
    · rw [if_pos (Nat.le_add_right _ _)]
      exact safe_ok _
    · exact safe_invalid _
  · -- the end is before the start, and so inside the input
    refine iff_of_false ?_ hfits
    have hwrap : (start + len) % 2 ^ usizeBits = start + len - 2 ^ usizeBits := by
      rw [Nat.mod_eq_sub_mod (not_lt.mp hfits), Nat.mod_eq_of_lt (by omega)]
    rw [hwrap, if_pos (by omega), if_neg (by omega)]
    exact fun h => h rfl

end Safe

/-! ### The precompiles -/

theorem multiCurrency_safe (K : CoreConfig) (input : Bytes) (s : State) :
    Safe (multiCurrency K input s) := by
  refine (safe_bind (action_safe _ input)).mpr fun a _ => ?_
  refine (safe_bind (currencyIdAt_safe input 1)).mpr fun id _ => ?_
  cases a with
  | queryTotalIssuance => exact safe_ok _
  | queryBalance => exact (safe_bind (accountIdAt_safe s input 2)).mpr fun _ _ => safe_ok _
  | transfer =>
    refine (safe_bind (accountIdAt_safe s input 2)).mpr fun source _ => ?_
    refine (safe_bind (accountIdAt_safe s input 3)).mpr fun dest _ => ?_
    refine (safe_bind (natAt_safe 16 input 4)).mpr fun amount _ => ?_
    cases transferCurrency s id source dest amount with
    | error e => exact safe_ok _
    | ok ops => exact safe_ok _

theorem stateRent_safe (C : Evm.Config) (input : Bytes) (s : State) :
    Safe (stateRent C input s) := by
  refine (safe_bind (action_safe _ input)).mpr fun a _ => ?_
  cases a with
  | queryNewContractExtraBytes => exact safe_ok _
  | queryStorageDepositPerByte => exact safe_ok _
  | queryMaintainer =>
    refine (safe_bind (evmAddressAt_safe input 1)).mpr fun contract _ => ?_
    cases s.contractInfo contract with
    | none => exact safe_ok _
    | some info => exact safe_ok _
  | queryDeveloperDeposit => exact safe_ok _
  | queryDeploymentFee => exact safe_ok _
  | transferMaintainer =>
    refine (safe_bind (accountIdAt_safe s input 1)).mpr fun source _ => ?_
    refine (safe_bind (evmAddressAt_safe input 2)).mpr fun contract _ => ?_
    refine (safe_bind (evmAddressAt_safe input 3)).mpr fun newMaintainer _ => ?_
    cases s.doTransferMaintainer source contract newMaintainer with
    | error e => exact safe_ok _
    | ok s' => exact safe_ok _

/-- The parameter with the length of the byte string of an action. The string starts in the next
word. -/
def ScheduleCallAction.lengthIndex : ScheduleCallAction → ℕ
  | .schedule => 7
  | .cancel => 2
  | .reschedule => 3

/-- The input of `ScheduleCall` has a first word, and the end of the byte string it names is an
index. -/
structure Readable (input : Bytes) : Prop where
  header : PER_PARAM_BYTES ≤ input.length
  stop : ∀ a len,
    action ScheduleCallAction.tryFrom (input.drop PER_PARAM_BYTES) = .ok a →
    u32At (input.drop PER_PARAM_BYTES) a.lengthIndex = .ok len →
    PER_PARAM_BYTES * (a.lengthIndex + 1) + len < 2 ^ usizeBits

variable {input : Bytes} {a : ScheduleCallAction} {len : ℕ} {F : TransactionPayment.Config}

/-- Reading the byte string of an action. -/
theorem bytesAt_length_safe_iff (h : u32At input a.lengthIndex = .ok len) :
    Safe (bytesAt input (PER_PARAM_BYTES * (a.lengthIndex + 1)) len) ↔
      PER_PARAM_BYTES * (a.lengthIndex + 1) + len < 2 ^ usizeBits := by
  obtain ⟨hlen, hinside⟩ := natAt_eq_ok (by decide) h
  refine bytesAt_safe_iff hinside ?_ (lt_of_lt_of_eq hlen (by decide))
  cases a <;> decide

/-- All parameters before the length of the byte string can be read if the length can. -/
theorem readable_before (h : u32At input a.lengthIndex = .ok len) {index : ℕ}
    (hindex : index ≤ a.lengthIndex) : PER_PARAM_BYTES * (index + 1) ≤ input.length :=
  (Nat.mul_le_mul_left _ (Nat.succ_le_succ hindex)).trans (natAt_eq_ok (by decide) h).2

/-- If the scheduling of an action is safe, so is the reading of its byte string. -/
theorem bytesAt_safe_of_scheduleCall {s : State} (hheader : PER_PARAM_BYTES ≤ input.length)
    (h : Safe (scheduleCall F input s))
    (haction : action ScheduleCallAction.tryFrom (input.drop PER_PARAM_BYTES) = .ok a)
    (hlen : u32At (input.drop PER_PARAM_BYTES) a.lengthIndex = .ok len) :
    Safe (bytesAt (input.drop PER_PARAM_BYTES) (PER_PARAM_BYTES * (a.lengthIndex + 1)) len) := by
  have hslice : sliceFrom input PER_PARAM_BYTES = .ok (input.drop PER_PARAM_BYTES) := if_pos hheader
  unfold scheduleCall at h
  rw [hslice] at h
  generalize input.drop PER_PARAM_BYTES = rest at *
  have h := (safe_bind (action_safe _ rest)).mp h a haction
  -- the words before the length are read, since the length behind them is
  cases a with
  | schedule =>
    obtain ⟨source, hsource⟩ := exists_evmAddressAt (readable_before hlen (by decide : 1 ≤ 7))
    obtain ⟨target, htarget⟩ := exists_evmAddressAt (readable_before hlen (by decide : 2 ≤ 7))
    obtain ⟨value, hvalue⟩ := exists_natAt 16 (readable_before hlen (by decide : 3 ≤ 7))
    obtain ⟨gas, hgas⟩ := exists_natAt 8 (readable_before hlen (by decide : 4 ≤ 7))
    obtain ⟨storage, hstorage⟩ := exists_natAt 4 (readable_before hlen (by decide : 5 ≤ 7))
    obtain ⟨delay, hdelay⟩ := exists_natAt 4 (readable_before hlen (by decide : 6 ≤ 7))
    have h := (safe_bind (evmAddressAt_safe rest 1)).mp h source hsource
    have h := (safe_bind (evmAddressAt_safe rest 2)).mp h target htarget
    have h := (safe_bind (natAt_safe 16 rest 3)).mp h value hvalue
    have h := (safe_bind (natAt_safe 8 rest 4)).mp h gas hgas
    have h := (safe_bind (natAt_safe 4 rest 5)).mp h storage hstorage
    have h := (safe_bind (natAt_safe 4 rest 6)).mp h delay hdelay
    exact safe_of_bind ((safe_bind (natAt_safe 4 rest 7)).mp h len hlen)
  | cancel =>
    obtain ⟨source, hsource⟩ := exists_evmAddressAt (readable_before hlen (by decide : 1 ≤ 2))
    have h := (safe_bind (evmAddressAt_safe rest 1)).mp h source hsource
    exact safe_of_bind ((safe_bind (natAt_safe 4 rest 2)).mp h len hlen)
  | reschedule =>
    obtain ⟨source, hsource⟩ := exists_evmAddressAt (readable_before hlen (by decide : 1 ≤ 3))
    obtain ⟨delay, hdelay⟩ := exists_natAt 4 (readable_before hlen (by decide : 2 ≤ 3))
    have h := (safe_bind (evmAddressAt_safe rest 1)).mp h source hsource
    have h := (safe_bind (natAt_safe 4 rest 2)).mp h delay hdelay
    exact safe_of_bind ((safe_bind (natAt_safe 4 rest 3)).mp h len hlen)

/-- Scheduling is safe if the byte strings of its actions can be read. -/
theorem scheduleCall_safe (s : State) (h : Readable input) : Safe (scheduleCall F input s) := by
  have hslice : sliceFrom input PER_PARAM_BYTES = .ok (input.drop PER_PARAM_BYTES) :=
    if_pos h.header
  have hstop := h.stop
  unfold scheduleCall
  rw [hslice]
  generalize input.drop PER_PARAM_BYTES = rest at *
  refine (safe_bind (action_safe _ rest)).mpr fun a haction => ?_
  -- the only read that can panic is that of the bytes behind the length
  have hbytes : ∀ len, u32At rest a.lengthIndex = .ok len →
      Safe (bytesAt rest (PER_PARAM_BYTES * (a.lengthIndex + 1)) len) := fun len hlen =>
    (bytesAt_length_safe_iff hlen).mpr (hstop a len haction hlen)
  cases a with
  | schedule =>
    refine (safe_bind (evmAddressAt_safe rest 1)).mpr fun source _ => ?_
    refine (safe_bind (evmAddressAt_safe rest 2)).mpr fun target _ => ?_
    refine (safe_bind (natAt_safe 16 rest 3)).mpr fun value _ => ?_
    refine (safe_bind (natAt_safe 8 rest 4)).mpr fun gas _ => ?_
    refine (safe_bind (natAt_safe 4 rest 5)).mpr fun storage _ => ?_
    refine (safe_bind (natAt_safe 4 rest 6)).mpr fun delay _ => ?_
    refine (safe_bind (natAt_safe 4 rest 7)).mpr fun len hlen => ?_
    exact (safe_bind (hbytes len hlen)).mpr fun _ _ => safe_ok _
  | cancel =>
    refine (safe_bind (evmAddressAt_safe rest 1)).mpr fun source _ => ?_
    refine (safe_bind (natAt_safe 4 rest 2)).mpr fun len hlen => ?_
    exact (safe_bind (hbytes len hlen)).mpr fun _ _ => safe_ok _
  | reschedule =>
    refine (safe_bind (evmAddressAt_safe rest 1)).mpr fun source _ => ?_
    refine (safe_bind (natAt_safe 4 rest 2)).mpr fun delay _ => ?_
    refine (safe_bind (natAt_safe 4 rest 3)).mpr fun len hlen => ?_
    exact (safe_bind (hbytes len hlen)).mpr fun _ _ => safe_ok _

/-- The input has a first word if scheduling does not panic. -/
theorem header_of_scheduleCall_safe {s : State} (h : Safe (scheduleCall F input s)) :
    PER_PARAM_BYTES ≤ input.length := by
  by_contra hshort
  have hslice : sliceFrom input PER_PARAM_BYTES = .error .panic := if_neg hshort
  unfold scheduleCall at h
  rw [hslice] at h
  exact h rfl

/-- The name of a task fits into two words, whatever the sender and the fee. -/
theorem TaskInfo.length_encode_le (id : Fin (256 ^ 4)) (sender : EvmAddress)
    (fee : Fin (256 ^ 16)) :
    (TaskInfo.encode ⟨TaskInfo.scheduleCall, id, sender, fee⟩).length ≤ 64 := by
  have hlabel : (Codec.compactEncode TaskInfo.scheduleCall.1.length).length = 1 := by decide
  have hfee := Codec.length_compactEncode_le (k := 16) (by decide) fee.isLt
  change (((Codec.compactEncode TaskInfo.scheduleCall.1.length ++ TaskInfo.scheduleCall.1) ++
    (leBytes 4 id ++ (beBytes 20 sender.toNat ++ Codec.compactEncode fee))).length ≤ 64)
  simp only [List.length_append, length_leBytes, length_beBytes, hlabel]
  have htext : TaskInfo.scheduleCall.1.length = 12 := rfl
  omega

theorem length_encode_newTask (F : TransactionPayment.Config) (s : State) (call : ScheduledCall) :
    (newTask F s call).encode.length ≤ 64 :=
  TaskInfo.length_encode_le _ _ _

/-- **Panics of the core precompiles.** A precompile answers without a panic, and the names of tasks
fit into the answer, if and only if it is not `ScheduleCall` or its input has a first word and the
end of the byte string it names does not wrap. -/
theorem precompile_panics_iff (C : Evm.Config) (K : CoreConfig) (p : CorePrecompile)
    (input : Bytes) (s : State) :
    (run C K p input s ≠ .error .panic ∧
      ∀ call, (newTask K.fees s call).encode.length ≤ 64) ↔
    (p = .scheduleCall → Readable input) := by
  rw [and_iff_left fun call => length_encode_newTask K.fees s call]
  cases p with
  | multiCurrency => exact iff_of_true (multiCurrency_safe K input s) fun h => by cases h
  | stateRent => exact iff_of_true (stateRent_safe C input s) fun h => by cases h
  | scheduleCall =>
    constructor
    · intro h _
      have hheader := header_of_scheduleCall_safe h
      refine ⟨hheader, fun a len haction hlen => ?_⟩
      exact (bytesAt_length_safe_iff hlen).mp
        (bytesAt_safe_of_scheduleCall hheader h haction hlen)
    · intro h
      exact scheduleCall_safe s (h rfl)

/-- A panic, to be evaluated. -/
def isPanic : Parsed Answer → Bool
  | .error .panic => true
  | _ => false

/-- An empty input, and the cancellation of a task with a name of `2 ^ 32 - 1` bytes. -/
theorem schedule_call_panics :
    isPanic (run sampleEnv.toConfig sampleCore .scheduleCall [] .empty) = true ∧
      isPanic (run sampleEnv.toConfig sampleCore .scheduleCall
        (word 96 ++ word 1 ++ word 5 ++ word (2 ^ 32 - 1)) .empty) = true := by
  decide +kernel

end Precompile
end Reef
