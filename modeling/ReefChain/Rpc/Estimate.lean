import ReefChain.Evm.Runner
import ReefChain.Lib.Loop
import ReefChain.Rpc.Errors

/-!
# Estimates of gas

The RPC estimates the gas of a request by executing it with different gas limits. It starts with the
largest limit, `GAS_LIMIT`, and bisects: a limit at which the request succeeds becomes the upper end
of the interval, one at which it fails the lower end. It stops as soon as the gas used at the new
upper end is within ten percent of that used at the old one, and answers the gas that was used.
This is the build with the feature `rpc_binary_search_estimate`, which is the default.

`estimate_gas` and `estimate_resources` contain two copies of the loop. They are modelled by what a
round does (`gasStep`, `resourcesStep`) for an arbitrary function `run` that says what the request
does with a gas limit.

`Visits` describes the search without its variables: the intervals that are bisected, by the answers
at their ends. Every state of the loop is the first one, belongs to an interval that is visited or
is the last one (`reached_cases`), and every interval that is visited has its state
(`Visits.reached`). From this:

* The search ends, and the middle stays between the ends. It panics if the request uses more gas in
  the middle of an interval than at its upper end, because the difference is computed without a
  sign (`search_safe_iff`).
* The answer is the gas used at a limit, not a limit at which the request was tried. It is enough
  if the request needs no more gas than it uses, at the limits that are tried; and it is `GAS_LIMIT`
  if the request has failed with this limit (`estimate_sufficient_iff`).
* `estimate_resources` means to go on when a request is out of gas, but returns the error. It agrees
  with `estimate_gas` exactly if the request is never out of gas in the middle of an interval
  (`estimate_resources_agrees_iff`).
-/

namespace Reef
namespace Rpc

open Evm Loop

/-! ### Requests -/

/-- The largest gas limit. -/
def GAS_LIMIT : ℕ := 100_000_000

/-- The largest storage limit. -/
def STORAGE_LIMIT : ℕ := 1_000_000

/-- `CallRequest`. The `source` is the field `from` of the source, the `target` its field `to`. -/
structure CallRequest where
  source : Option EvmAddress
  target : Option EvmAddress
  gasLimit : Option ℕ
  storageLimit : Option ℕ
  value : Option ℕ
  data : Option Bytes
  deriving DecidableEq, Repr

/-- The runtime at some block, for estimates: it runs calls and creations without committing them,
extracts requests from extrinsics and computes the fees of extrinsics. The errors are their texts;
`debug` and `debugValue` print. -/
structure Client where
  call : EvmAddress → EvmAddress → Bytes → ℕ → ℕ → ℕ → Except String (Except String CallInfo)
  create : EvmAddress → Bytes → ℕ → ℕ → ℕ → Except String (Except String CreateInfo)
  estimateRequest : Bytes → Except String (Except String CallRequest)
  adjustedWeightFee : Bytes → Except RpcError ℕ
  debug : ExitReason → String
  debugValue : ℕ → String

/-- The value of a request as a balance. -/
def balanceValue (client : Client) : Option ℕ → Except RpcError ℕ
  | none => .ok 0
  | some value =>
    if value < 2 ^ balanceBits then .ok value
    else .error (invalidParams ("Invalid parameter value: " ++ client.debugValue value))

/-- The resources used by an execution that has ended for some reason. -/
def usedOnSuccess (client : Client) (reason : ExitReason) (output : Bytes) (usedGas : ℕ)
    (usedStorage : ℤ) : Reply (ℕ × ℤ) :=
  (errorOnExecutionFailure client.debug reason output).map fun
    | .error e => .error e
    | .ok _ => .ok (usedGas, usedStorage)

/-- `calculate_gas_used`: execute a request, and return the gas and the storage it has used. -/
def calculateGasUsed (client : Client) (request : CallRequest) : Reply (ℕ × ℤ) :=
  let source := request.source.getD 0
  let gasLimit := min (request.gasLimit.getD GAS_LIMIT) GAS_LIMIT
  let storageLimit := min (request.storageLimit.getD STORAGE_LIMIT) STORAGE_LIMIT
  let data := request.data.getD []
  match balanceValue client request.value with
  | .error e => some (.error e)
  | .ok value =>
    match request.target with
    | some target =>
      match client.call source target data value gasLimit storageLimit with
      | .error e => some (.error (internalErr ("runtime error: " ++ e)))
      | .ok (.error e) => some (.error (internalErr ("execution fatal: " ++ e)))
      | .ok (.ok info) =>
        usedOnSuccess client info.exitReason info.output info.usedGas info.usedStorage
    | none =>
      match client.create source data value gasLimit storageLimit with
      | .error e => some (.error (internalErr ("runtime error: " ++ e)))
      | .ok (.error e) => some (.error (internalErr ("execution fatal: " ++ e)))
      | .ok (.ok info) =>
        -- the output of a creation is not looked at
        usedOnSuccess client info.exitReason [] info.usedGas info.usedStorage

/-- What a request does with a gas limit. -/
def probe (client : Client) (request : CallRequest) (limit : ℕ) : Reply (ℕ × ℤ) :=
  calculateGasUsed client { request with gasLimit := some limit }

/-! ### The search -/

/-- The variables of the search. -/
structure Search where
  lower : ℕ
  upper : ℕ
  mid : ℕ
  best : ℕ
  changePct : ℕ
  deriving DecidableEq, Repr

/-- `threshold_pct`. -/
def thresholdPct : ℕ := 10

/-- The middle of an interval, rounded up. -/
def middle (lower upper : ℕ) : ℕ := (lower + upper + 1) / 2

/-- By how many percent `new` is below `old`. -/
def dropPct (old new : ℕ) : ℕ := 100 * (old - new) / old

namespace Search

/-- The variables in front of the loop. -/
def start : Search := ⟨21_000, GAS_LIMIT, GAS_LIMIT, GAS_LIMIT, 100⟩

/-- The request has succeeded at `mid`. The gas it has used is subtracted from the best so far, and
the subtraction panics if it is more. -/
def improve (s : Search) (usedGas : ℕ) : Option Search :=
  if s.best < usedGas then none
  else some
    { s with
      best := usedGas
      changePct := dropPct s.best usedGas
      upper := s.mid
      mid := middle s.lower s.mid }

/-- The request has failed at `mid`. -/
def raise (s : Search) : Search := { s with lower := s.mid, mid := middle s.mid s.upper }

end Search

/-- A round of the loop of `estimate_gas`. -/
def gasStep (run : ℕ → Reply (ℕ × ℤ)) (s : Search) : Turn Search (Reply ℕ) :=
  if s.changePct ≤ thresholdPct then .done (some (.ok s.best))
  else
    match run s.mid with
    | none => .done none
    | some (.ok (usedGas, _)) =>
      match s.improve usedGas with
      | none => .done none
      | some s => .next s
    | some (.error _) =>
      if s.raise.mid = s.raise.lower then .done (some (.ok s.best)) else .next s.raise

/-- A round of the loop of `estimate_resources`. The error is returned after `lower` and `mid` have
been changed, unless the loop was left. -/
def resourcesStep (run : ℕ → Reply (ℕ × ℤ)) :
    Search × ℤ → Turn (Search × ℤ) (Reply (ℕ × ℤ))
  | (s, storage) =>
    if s.changePct ≤ thresholdPct then .done (some (.ok (s.best, storage)))
    else
      match run s.mid with
      | none => .done none
      | some (.ok (usedGas, usedStorage)) =>
        match s.improve usedGas with
        | none => .done none
        | some s => .next (s, usedStorage)
      | some (.error e) =>
        if e.code = serverError0 ∧ s.raise.mid = s.raise.lower then
          .done (some (.ok (s.best, storage)))
        else .done (some (.error e))

/-- `estimate_gas`, for a number of rounds. -/
def estimateGas (client : Client) (request : CallRequest) (rounds : ℕ) : Option (Reply ℕ) :=
  runFor (gasStep (probe client request)) rounds .start

/-- `estimate_resources`, for a number of rounds: the gas, the storage and the fee. -/
def estimateResources (client : Client) (source : EvmAddress) (extrinsic : Bytes) (rounds : ℕ) :
    Option (Reply (ℕ × ℤ × ℕ)) :=
  match client.estimateRequest extrinsic with
  | .error e => some (some (.error (internalErr ("runtime error: " ++ e))))
  | .ok (.error e) => some (some (.error (internalErr ("execution fatal: " ++ e))))
  | .ok (.ok request) =>
    let run := probe client { request with source := some source }
    (runFor (resourcesStep run) rounds (.start, 0)).map fun
      | none => none
      | some (.error e) => some (.error e)
      | some (.ok (gas, storage)) =>
        match client.adjustedWeightFee extrinsic with
        | .error e => some (.error e)
        | .ok fee => some (.ok (gas, storage, fee))

/-! ### The intervals of a search -/

section Search

/-- The request succeeds with the limit, and uses the gas. -/
def Uses (run : ℕ → Reply (ℕ × ℤ)) (limit usedGas : ℕ) : Prop :=
  ∃ usedStorage, run limit = some (.ok (usedGas, usedStorage))

/-- The request succeeds with the limit. -/
def Succeeds (run : ℕ → Reply (ℕ × ℤ)) (limit : ℕ) : Prop := ∃ usedGas, Uses run limit usedGas

/-- The request fails with the limit. -/
def Fails (run : ℕ → Reply (ℕ × ℤ)) (limit : ℕ) : Prop := ∃ e, run limit = some (.error e)

/-- The gas has dropped so far that the search goes on. -/
def Drops (old new : ℕ) : Prop := thresholdPct < dropPct old new

/-- The gas has changed so little that the search ends. -/
def Settled (old new : ℕ) : Prop := new ≤ old ∧ ¬Drops old new

/-- The intervals a search bisects. -/
inductive Visits (run : ℕ → Reply (ℕ × ℤ)) : ℕ → ℕ → Prop
  | start {used : ℕ} : Uses run GAS_LIMIT used → Drops GAS_LIMIT used → Visits run 21_000 GAS_LIMIT
  | down {lower upper old new : ℕ} : Visits run lower upper → Uses run upper old →
      Uses run (middle lower upper) new → Drops old new → Visits run lower (middle lower upper)
  | up {lower upper : ℕ} : Visits run lower upper → Fails run (middle lower upper) →
      Visits run (middle lower upper) upper

/-- The search ends at the limit, where the request uses the gas. -/
def Settles (run : ℕ → Reply (ℕ × ℤ)) (limit used : ℕ) : Prop :=
  (limit = GAS_LIMIT ∧ Uses run GAS_LIMIT used ∧ Settled GAS_LIMIT used) ∨
    ∃ lower upper old, Visits run lower upper ∧ limit = middle lower upper ∧ Uses run upper old ∧
      Uses run limit used ∧ Settled old used

variable {run : ℕ → Reply (ℕ × ℤ)} {lower upper limit used old new : ℕ}

theorem Uses.unique (h : Uses run limit old) (h' : Uses run limit new) : old = new := by
  obtain ⟨_, h⟩ := h
  obtain ⟨_, h'⟩ := h'
  rw [h] at h'
  cases h'
  rfl

theorem Uses.not_fails (h : Uses run limit used) : ¬Fails run limit := by
  rintro ⟨e, he⟩
  obtain ⟨_, h⟩ := h
  rw [h] at he
  cases he

/-- A drop is a drop. -/
theorem Drops.lt (h : Drops old new) : new < old := by
  by_contra hle
  rw [Drops, dropPct, Nat.sub_eq_zero_of_le (not_lt.mp hle), Nat.mul_zero, Nat.zero_div] at h
  exact absurd h (Nat.not_lt_zero _)

theorem middle_gt (h : lower < upper) : lower < middle lower upper := by
  unfold middle
  omega

theorem middle_le (h : lower < upper) : middle lower upper ≤ upper := by
  unfold middle
  omega

theorem middle_self (n : ℕ) : middle n n = n := by
  unfold middle
  omega

/-- At the upper end of an interval the request has succeeded. The interval is not empty, because
the answer at a limit is always the same. -/
structure Interval (run : ℕ → Reply (ℕ × ℤ)) (lower upper : ℕ) : Prop where
  lt : lower < upper
  le_limit : upper ≤ GAS_LIMIT
  succeeds : Succeeds run upper

/-- A limit in the middle at which the request fails is not the upper end. -/
theorem Interval.middle_lt (h : Interval run lower upper)
    (hfails : Fails run (middle lower upper)) : middle lower upper < upper := by
  refine lt_of_le_of_ne (middle_le h.lt) fun heq => ?_
  obtain ⟨used, hused⟩ := h.succeeds
  rw [heq] at hfails
  exact hused.not_fails hfails

theorem Visits.interval (h : Visits run lower upper) : Interval run lower upper := by
  induction h with
  | start hused _ => exact ⟨by decide, le_rfl, _, hused⟩
  | down _ _ hnew _ ih => exact ⟨middle_gt ih.lt, (middle_le ih.lt).trans ih.le_limit, _, hnew⟩
  | up _ hfails ih => exact ⟨ih.middle_lt hfails, ih.le_limit, ih.succeeds⟩

/-- The middle is below the upper end if the gas drops. -/
theorem Visits.middle_lt (h : Visits run lower upper) (hold : Uses run upper old)
    (hnew : Uses run (middle lower upper) new) (hdrops : Drops old new) :
    middle lower upper < upper := by
  refine lt_of_le_of_ne (middle_le h.interval.lt) fun heq => ?_
  rw [heq] at hnew
  exact absurd (hold.unique hnew) hdrops.lt.ne'

/-! ### The states of a search -/

/-- The state in which an interval is bisected. -/
structure Search.At (run : ℕ → Reply (ℕ × ℤ)) (s : Search) : Prop where
  visits : Visits run s.lower s.upper
  mid : s.mid = middle s.lower s.upper
  best : Uses run s.upper s.best
  goes_on : thresholdPct < s.changePct

/-- The state in which the search ends: it has tried `upper` last. -/
structure Search.Final (run : ℕ → Reply (ℕ × ℤ)) (s : Search) : Prop where
  settles : Settles run s.upper s.best
  lower_lt : s.lower < s.upper
  mid : s.mid = middle s.lower s.upper
  ends : s.changePct ≤ thresholdPct

/-- The states of a search. -/
inductive Search.Reached (run : ℕ → Reply (ℕ × ℤ)) (s : Search) : Prop
  | start (h : s = .start)
  | at (h : s.At run)
  | final (h : s.Final run)

variable {s t : Search}

theorem improve_eq_some :
    s.improve used = some t ↔ used ≤ s.best ∧
      t = ⟨s.lower, s.mid, middle s.lower s.mid, used, dropPct s.best used⟩ := by
  unfold Search.improve
  split
  · next h => exact iff_of_false nofun fun hle => absurd hle.1 (not_le.mpr h)
  · next h =>
    refine ⟨fun heq => ⟨not_lt.mp h, (Option.some.inj heq).symm⟩, fun heq => ?_⟩
    rw [heq.2]

/-- What a round does that does not end the search. -/
theorem gasStep_eq_next (h : gasStep run s = .next t) :
    thresholdPct < s.changePct ∧
      ((∃ used, Uses run s.mid used ∧ used ≤ s.best ∧
          t = ⟨s.lower, s.mid, middle s.lower s.mid, used, dropPct s.best used⟩) ∨
        Fails run s.mid ∧ t = s.raise ∧ s.raise.mid ≠ s.raise.lower) := by
  unfold gasStep at h
  split at h
  · cases h
  · next hgoes =>
    -- the loop goes on, and the cases are those of the run at the middle
    refine ⟨not_le.mp hgoes, ?_⟩
    split at h
    · cases h
    · next used storage hrun =>
      split at h
      · cases h
      · next t' ht =>
        cases h
        exact .inl ⟨used, ⟨storage, hrun⟩, improve_eq_some.mp ht⟩
    · next e hrun =>
      split at h
      · cases h
      · next hne =>
        cases h
        exact .inr ⟨⟨e, hrun⟩, rfl, hne⟩

/-- A success in the middle of an interval, or at the first limit, moves the upper end there. -/
theorem Search.Reached.of_success (hused : Uses run s.mid used) (hlt : s.lower < s.mid)
    (hdown : Drops s.best used → Visits run s.lower s.mid)
    (hsettles : Settled s.best used → Settles run s.mid used) (hle : used ≤ s.best) :
    Search.Reached run ⟨s.lower, s.mid, middle s.lower s.mid, used, dropPct s.best used⟩ := by
  by_cases hdrops : Drops s.best used
  · exact .at ⟨hdown hdrops, rfl, hused, hdrops⟩
  · exact .final ⟨hsettles ⟨hle, hdrops⟩, hlt, rfl, not_lt.mp hdrops⟩

/-- **Rounds.** -/
theorem Search.Reached.step (hs : s.Reached run) (hnext : gasStep run s = .next t) :
    t.Reached run := by
  obtain ⟨hgoes, ⟨used, hused, hle, rfl⟩ | ⟨hfails, rfl, hne⟩⟩ := gasStep_eq_next hnext
  · rcases hs with rfl | hat | hfinal
    · exact .of_success hused (by decide) (.start hused)
        (fun hsettled => .inl ⟨rfl, hused, hsettled⟩) hle
    · obtain ⟨hvisits, hmid, hbest, -⟩ := hat
      refine .of_success hused (hmid ▸ middle_gt hvisits.interval.lt) (fun hdrops => ?_)
        (fun hsettled => .inr ⟨_, _, _, hvisits, hmid, hbest, hused, hsettled⟩) hle
      rw [hmid] at hused ⊢
      exact hvisits.down hbest hused hdrops
    · exact absurd hfinal.ends (not_le.mpr hgoes)
  · rcases hs with rfl | hat | hfinal
    · -- the first limit is the upper end
      exact absurd (middle_self GAS_LIMIT) hne
    · obtain ⟨hvisits, hmid, hbest, -⟩ := hat
      refine .at ⟨?_, rfl, hbest, hgoes⟩
      change Visits run s.mid s.upper
      rw [hmid] at hfails ⊢
      exact hvisits.up hfails
    · exact absurd hfinal.ends (not_le.mpr hgoes)

/-- **Every state of a search is one of these.** -/
theorem reached_cases (h : Reaches (gasStep run) .start s) : s.Reached run :=
  h.invariant (fun _ _ hs hnext => hs.step hnext) (.start rfl)

/-! ### Rounds forwards -/

theorem gasStep_of_uses (hgoes : thresholdPct < s.changePct) (hused : Uses run s.mid used)
    (hle : used ≤ s.best) :
    gasStep run s =
      .next ⟨s.lower, s.mid, middle s.lower s.mid, used, dropPct s.best used⟩ := by
  obtain ⟨storage, hrun⟩ := hused
  simp only [gasStep, if_neg (not_le.mpr hgoes), hrun, improve_eq_some.mpr ⟨hle, rfl⟩]

theorem gasStep_of_fails (hgoes : thresholdPct < s.changePct) (hfails : Fails run s.mid) :
    gasStep run s =
      if s.raise.mid = s.raise.lower then .done (some (.ok s.best)) else .next s.raise := by
  obtain ⟨e, hrun⟩ := hfails
  simp only [gasStep, if_neg (not_le.mpr hgoes), hrun]

theorem gasStep_of_final (h : s.changePct ≤ thresholdPct) :
    gasStep run s = .done (some (.ok s.best)) := if_pos h

/-- The middle moves up when an interval is raised. -/
theorem Search.At.raise_ne (h : s.At run) (hfails : Fails run s.mid) :
    s.raise.mid ≠ s.raise.lower := by
  have hlt : s.mid < s.upper := by
    rw [h.mid] at hfails ⊢
    exact h.visits.interval.middle_lt hfails
  exact (middle_gt hlt).ne'

/-- **Every interval that is visited is bisected by the loop.** -/
theorem Visits.reached (h : Visits run lower upper) :
    ∃ s, Reaches (gasStep run) .start s ∧ s.At run ∧ s.lower = lower ∧ s.upper = upper := by
  induction h with
  | start hused hdrops =>
    exact ⟨_, Reaches.refl.tail (gasStep_of_uses (by decide) hused hdrops.lt.le),
      ⟨.start hused hdrops, rfl, hused, hdrops⟩, rfl, rfl⟩
  | down hvisits hold hnew hdrops ih =>
    -- the run at the middle uses less: it becomes the upper end
    obtain ⟨s, hreaches, hat, rfl, rfl⟩ := ih
    rw [← hat.mid] at hnew ⊢
    obtain rfl := hat.best.unique hold
    refine ⟨_, hreaches.tail (gasStep_of_uses hat.goes_on hnew hdrops.lt.le),
      ⟨?_, rfl, hnew, hdrops⟩, rfl, rfl⟩
    change Visits run s.lower s.mid
    rw [hat.mid] at hnew ⊢
    exact hvisits.down hold hnew hdrops
  | up hvisits hfails ih =>
    -- the run at the middle fails: it becomes the lower end, and the best stays
    obtain ⟨s, hreaches, hat, rfl, rfl⟩ := ih
    rw [← hat.mid] at hfails ⊢
    have hnext := gasStep_of_fails hat.goes_on hfails
    rw [if_neg (hat.raise_ne hfails)] at hnext
    refine ⟨s.raise, hreaches.tail hnext, ⟨?_, rfl, hat.best, hat.goes_on⟩, rfl, rfl⟩
    change Visits run s.mid s.upper
    rw [hat.mid] at hfails ⊢
    exact hvisits.up hfails

/-! ### What the search answers -/

/-- A round that returns an estimate returns the best so far, because the gas has settled or because
there is nothing left to try. -/
theorem gasStep_eq_ok {gas : ℕ} (h : gasStep run s = .done (some (.ok gas))) :
    gas = s.best ∧ (s.changePct ≤ thresholdPct ∨
      thresholdPct < s.changePct ∧ Fails run s.mid ∧ s.raise.mid = s.raise.lower) := by
  unfold gasStep at h
  split at h
  · next hends =>
    cases h
    exact ⟨rfl, .inl hends⟩
  · next hgoes =>
    split at h
    · cases h
    · split at h <;> cases h
    · next e hrun =>
      split at h
      · next hbreak =>
        cases h
        exact ⟨rfl, .inr ⟨not_le.mp hgoes, ⟨e, hrun⟩, hbreak⟩⟩
      · cases h

/-- It is the first round, or the last. -/
theorem Search.Reached.done {gas : ℕ} (hs : s.Reached run)
    (h : gasStep run s = .done (some (.ok gas))) :
    (Fails run GAS_LIMIT ∧ gas = GAS_LIMIT) ∨ Settles run s.upper gas := by
  obtain ⟨rfl, hends | ⟨hgoes, hfails, hbreak⟩⟩ := gasStep_eq_ok h
  · rcases hs with rfl | hat | hfinal
    · exact absurd hends (by decide)
    · exact absurd hends (not_le.mpr hat.goes_on)
    · exact .inr hfinal.settles
  · rcases hs with rfl | hat | hfinal
    · exact .inl ⟨hfails, rfl⟩
    · -- in between, a failure only raises the lower end
      exact absurd hbreak (hat.raise_ne hfails)
    · exact absurd hfinal.ends (not_le.mpr hgoes)

/-- **Estimates.** The search answers the largest limit if the request fails there, and otherwise
the gas that is used where the search settles. -/
theorem ends_ok_iff {gas : ℕ} :
    Ends (gasStep run) .start (some (.ok gas)) ↔
      (Fails run GAS_LIMIT ∧ gas = GAS_LIMIT) ∨ ∃ limit, Settles run limit gas := by
  rw [ends_iff]
  constructor
  · rintro ⟨s, hreaches, hdone⟩
    exact (reached_cases hreaches).done hdone |>.imp_right fun h => ⟨_, h⟩
  · rintro (⟨hfails, rfl⟩ | ⟨limit, ⟨rfl, hused, hsettled⟩ | hmiddle⟩)
    · -- a failure in the first round closes the interval, which is the `break` of the loop
      refine ⟨.start, .refl, ?_⟩
      have hbreak : Search.start.raise.mid = Search.start.raise.lower := middle_self GAS_LIMIT
      rw [gasStep_of_fails (by decide) hfails, if_pos hbreak]
      rfl
    · -- the first round drops too little, the second is not begun
      refine ⟨_, Reaches.refl.tail (gasStep_of_uses (by decide) hused hsettled.1), ?_⟩
      exact gasStep_of_final (not_lt.mp hsettled.2)
    · -- the round that settles is the last one
      obtain ⟨lower, upper, old, hvisits, rfl, hold, hused, hsettled⟩ := hmiddle
      obtain ⟨s, hreaches, hat, rfl, rfl⟩ := hvisits.reached
      rw [← hat.mid] at hused
      obtain rfl := hat.best.unique hold
      refine ⟨_, hreaches.tail (gasStep_of_uses hat.goes_on hused hsettled.1), ?_⟩
      exact gasStep_of_final (not_lt.mp hsettled.2)

/-! ### A request to estimate -/

/-- A request that uses `gas` if it is given `needed`, and is out of gas otherwise. -/
def needing (needed gas limit : ℕ) : Reply (ℕ × ℤ) :=
  if limit < needed then some (.error outOfGas) else some (.ok (gas, 0))

variable {needed gas : ℕ}

theorem uses_needing : Uses (needing needed gas) limit used ↔ needed ≤ limit ∧ used = gas := by
  unfold Uses needing
  split
  · next h => exact iff_of_false nofun fun hle => absurd h (not_lt.mpr hle.1)
  · next h =>
    refine ⟨fun ⟨storage, hrun⟩ => ?_, fun ⟨_, heq⟩ => ⟨0, by rw [heq]⟩⟩
    cases hrun
    exact ⟨not_lt.mp h, rfl⟩

theorem succeeds_needing : Succeeds (needing needed gas) limit ↔ needed ≤ limit :=
  ⟨fun ⟨_, hused⟩ => (uses_needing.mp hused).1, fun h => ⟨gas, uses_needing.mpr ⟨h, rfl⟩⟩⟩

theorem fails_needing (h : limit < needed) : Fails (needing needed gas) limit :=
  ⟨outOfGas, if_pos h⟩

/-- It uses at most the limit if it does not use more than it needs. -/
theorem needing_within_limit (h : gas ≤ needed) (limit : ℕ) :
    (∃ used ≤ limit, Uses (needing needed gas) limit used) ∨ Fails (needing needed gas) limit := by
  rcases lt_or_ge limit needed with hlt | hle
  · exact .inr (fails_needing hlt)
  · exact .inl ⟨gas, h.trans hle, uses_needing.mpr ⟨hle, rfl⟩⟩

/-- The gas is the same at all limits. If the second limit is enough, the search settles there. -/
theorem visits_needing (hneeded : needed ≤ middle 21_000 GAS_LIMIT)
    (h : Visits (needing needed gas) lower upper) : lower = 21_000 ∧ upper = GAS_LIMIT := by
  induction h with
  | start => exact ⟨rfl, rfl⟩
  | down _ hold hnew hdrops _ =>
    rw [(uses_needing.mp hold).2, (uses_needing.mp hnew).2] at hdrops
    exact absurd hdrops.lt (lt_irrefl gas)
  | up _ hfails ih =>
    obtain ⟨rfl, rfl⟩ := ih
    exact absurd hfails (uses_needing.mpr ⟨hneeded, rfl⟩).not_fails

/-! ### Safety and termination -/

/-- The search behaves: the middle is between the ends in every round, no subtraction of the gas
used from the best so far underflows, and the search ends. -/
structure SearchSafe (run : ℕ → Reply (ℕ × ℤ)) : Prop where
  ordered : ∀ s, Reaches (gasStep run) .start s → s.lower ≤ s.mid ∧ s.mid ≤ s.upper
  exact : ∀ s used, Reaches (gasStep run) .start s → thresholdPct < s.changePct →
    Uses run s.mid used → used ≤ s.best
  ends : ∃ rounds, runFor (gasStep run) rounds .start ≠ none

theorem Search.Reached.ordered (h : s.Reached run) : s.lower ≤ s.mid ∧ s.mid ≤ s.upper := by
  rcases h with rfl | hat | hfinal
  · decide
  · have hlt := hat.visits.interval.lt
    rw [hat.mid]
    exact ⟨(middle_gt hlt).le, middle_le hlt⟩
  · rw [hfinal.mid]
    exact ⟨(middle_gt hfinal.lower_lt).le, middle_le hfinal.lower_lt⟩

/-- How much is left of a search: its interval, and the first round, which does not shorten it. -/
def Search.left (s : Search) : ℕ :=
  if s.changePct ≤ thresholdPct then 0
  else 1 + (s.upper - s.lower) + if s.mid = middle s.lower s.upper then 0 else 1

theorem Search.left_pos (h : thresholdPct < s.changePct) : 0 < s.left := by
  unfold left
  rw [if_neg (not_le.mpr h)]
  omega

theorem Search.left_of_middle (h : thresholdPct < s.changePct)
    (hmid : s.mid = middle s.lower s.upper) : s.left = 1 + (s.upper - s.lower) := by
  unfold left
  rw [if_neg (not_le.mpr h), if_pos hmid, Nat.add_zero]

theorem Search.left_final (h : s.changePct ≤ thresholdPct) : s.left = 0 := if_pos h

/-- **Every round leaves less of the search.** -/
theorem Search.Reached.left_lt (hs : s.Reached run) (hnext : gasStep run s = .next t) :
    t.left < s.left := by
  obtain ⟨hgoes, ⟨used, hused, hle, rfl⟩ | ⟨hfails, rfl, hne⟩⟩ := gasStep_eq_next hnext
  · by_cases hdrops : Drops s.best used
    · rw [Search.left_of_middle (s := ⟨_, _, _, _, dropPct s.best used⟩) hdrops rfl]
      change 1 + (s.mid - s.lower) < s.left
      rcases hs with rfl | hat | hfinal
      · decide
      · -- the upper end moves down
        have hmiddle : s.mid < s.upper := by
          rw [hat.mid] at hused ⊢
          exact hat.visits.middle_lt hat.best hused hdrops
        have hlower := hat.visits.interval.lt
        rw [Search.left_of_middle hgoes hat.mid]
        omega
      · exact absurd hfinal.ends (not_le.mpr hgoes)
    · rw [Search.left_final (s := ⟨_, _, _, _, dropPct s.best used⟩) (not_lt.mp hdrops)]
      exact Search.left_pos hgoes
  · rcases hs with rfl | hat | hfinal
    · exact absurd (middle_self GAS_LIMIT) hne
    · -- the lower end moves up
      have hlower := middle_gt hat.visits.interval.lt
      have hupper := middle_le hat.visits.interval.lt
      rw [Search.left_of_middle hgoes hat.mid,
        Search.left_of_middle (s := s.raise) hgoes rfl]
      change 1 + (s.upper - s.mid) < _
      rw [hat.mid]
      omega
    · exact absurd hfinal.ends (not_le.mpr hgoes)

/-- Whatever the request does, the search ends. -/
theorem search_ends (run : ℕ → Reply (ℕ × ℤ)) : ∃ r, Ends (gasStep run) .start r :=
  ends_of_measure Search.left (fun _ _ hs hnext => ⟨hs.step hnext, hs.left_lt hnext⟩)
    (Search.Reached.start rfl)

/-- `estimate_gas` answers every request, or panics, after some rounds. -/
theorem estimateGas_answers (client : Client) (request : CallRequest) :
    ∃ rounds reply, estimateGas client request rounds = some reply := by
  obtain ⟨reply, rounds, hends⟩ := search_ends (probe client request)
  exact ⟨rounds, reply, hends⟩

/-- In the middle of an interval that is bisected, the request never uses more gas than at its upper
end. -/
def Falls (run : ℕ → Reply (ℕ × ℤ)) : Prop :=
  ∀ lower upper old new, Visits run lower upper → Uses run upper old →
    Uses run (middle lower upper) new → new ≤ old

/-- Where the gas used falls, no round uses more than the best so far. The first one does not
either, because the best so far is then the limit itself. -/
theorem Falls.used_le_best {s : Search} (hfalls : Falls run)
    (horacle : ∀ limit, (∃ used ≤ limit, Uses run limit used) ∨ Fails run limit)
    (hreaches : Reaches (gasStep run) .start s) (hgoes : thresholdPct < s.changePct)
    (hused : Uses run s.mid used) : used ≤ s.best := by
  rcases reached_cases hreaches with rfl | hat | hfinal
  · rcases horacle GAS_LIMIT with ⟨used', hle, hused'⟩ | hfails
    · rw [hused.unique hused']
      exact hle
    · exact absurd hfails hused.not_fails
  · rw [hat.mid] at hused
    exact hfalls _ _ _ _ hat.visits hat.best hused
  · exact absurd hfinal.ends (not_le.mpr hgoes)

/-- **The search is safe exactly if the gas used falls** from the upper end of each interval to its
middle, for every request that succeeds with at most the gas it was given, or fails. -/
theorem search_safe_iff (run : ℕ → Reply (ℕ × ℤ))
    (horacle : ∀ limit, (∃ used ≤ limit, Uses run limit used) ∨ Fails run limit) :
    SearchSafe run ↔ Falls run := by
  constructor
  · intro hsafe lower upper old new hvisits hold hnew
    obtain ⟨s, hreaches, hat, rfl, rfl⟩ := hvisits.reached
    rw [← hat.mid] at hnew
    rw [← hat.best.unique hold]
    exact hsafe.exact s new hreaches hat.goes_on hnew
  · intro hfalls
    refine ⟨fun s hreaches => (reached_cases hreaches).ordered, ?_, ?_⟩
    · intro s used hreaches hgoes hused
      exact hfalls.used_le_best horacle hreaches hgoes hused
    · obtain ⟨r, rounds, hends⟩ := search_ends run
      exact ⟨rounds, by rw [hends]; exact Option.some_ne_none r⟩

theorem search_safe_needing : SearchSafe (needing 30_000 30_000) := by
  refine (search_safe_iff (needing 30_000 30_000) (needing_within_limit le_rfl)).mpr ?_
  intro lower upper old new _ hold hnew
  rw [(uses_needing.mp hold).2, (uses_needing.mp hnew).2]

/-- A request that uses more gas if it is given less. -/
def hasty (limit : ℕ) : Reply (ℕ × ℤ) :=
  if limit < 40_000 then some (.error outOfGas)
  else if limit < GAS_LIMIT then some (.ok (40_000, 0))
  else some (.ok (30_000, 0))

theorem hasty_within_limit (limit : ℕ) :
    (∃ used ≤ limit, Uses hasty limit used) ∨ Fails hasty limit := by
  unfold Uses Fails hasty
  split
  · exact .inr ⟨_, rfl⟩
  · next hle =>
    split
    · exact .inl ⟨40_000, not_lt.mp hle, 0, rfl⟩
    · next hlimit =>
      have hle : 30_000 ≤ GAS_LIMIT := by decide
      exact .inl ⟨30_000, hle.trans (not_lt.mp hlimit), 0, rfl⟩

/-- The second round subtracts 40000 from 30000. -/
theorem hasty_search_panics :
    (∀ limit, (∃ used ≤ limit, Uses hasty limit used) ∨ Fails hasty limit) ∧
      runFor (gasStep hasty) 2 .start = some none ∧ ¬SearchSafe hasty := by
  refine ⟨hasty_within_limit, by decide, fun hsafe => ?_⟩
  have hfirst : Uses hasty Search.start.mid 30_000 := ⟨0, by decide⟩
  have hreaches : Reaches (gasStep hasty) .start
      ⟨21_000, GAS_LIMIT, middle 21_000 GAS_LIMIT, 30_000, dropPct GAS_LIMIT 30_000⟩ :=
    Reaches.refl.tail (gasStep_of_uses (by decide) hfirst (by decide))
  have hle := hsafe.exact _ 40_000 hreaches (by decide) ⟨0, by decide⟩
  exact absurd hle (by decide)

/-! ### Sufficiency -/

/-- The limits at which the search tries the request: the largest one, and the middle of every
interval that is bisected. -/
def Probed (run : ℕ → Reply (ℕ × ℤ)) (limit : ℕ) : Prop :=
  limit = GAS_LIMIT ∨ ∃ lower upper, Visits run lower upper ∧ limit = middle lower upper

/-- At the limits that are tried, the request needs no more gas than it uses: where it succeeds, it
would also have succeeded with the gas it has used. -/
def Repeats (run : ℕ → Reply (ℕ × ℤ)) : Prop :=
  ∀ limit used, Probed run limit → Uses run limit used → Succeeds run used

/-- The request does not fail for being given more gas. -/
def Upward (run : ℕ → Reply (ℕ × ℤ)) : Prop :=
  ∀ limit limit', limit ≤ limit' → Succeeds run limit → Succeeds run limit'

/-- The search settles at a limit it has tried. -/
theorem Settles.probed (h : Settles run limit used) : Probed run limit ∧ Uses run limit used := by
  rcases h with ⟨rfl, hused, -⟩ | ⟨lower, upper, old, hvisits, hlimit, -, hused, -⟩
  · exact ⟨.inl rfl, hused⟩
  · exact ⟨.inr ⟨lower, upper, hvisits, hlimit⟩, hused⟩

/-- The best so far never grows. -/
theorem best_le_of_reaches {s t : Search} (h : Reaches (gasStep run) s t) : t.best ≤ s.best := by
  induction h with
  | refl => exact le_rfl
  | tail _ hnext ih =>
    obtain ⟨-, ⟨used, -, hle, rfl⟩ | ⟨-, rfl, -⟩⟩ := gasStep_eq_next hnext
    · exact hle.trans ih
    · exact ih

/-- Where the gas used falls, the search has an answer. -/
theorem Falls.ends_ok (hfalls : Falls run)
    (horacle : ∀ limit, (∃ used ≤ limit, Uses run limit used) ∨ Fails run limit) :
    ∃ gas, Ends (gasStep run) .start (some (.ok gas)) := by
  obtain ⟨r, hends⟩ := search_ends run
  obtain ⟨s, hreaches, hdone⟩ := ends_iff.mp hends
  suffices h : r = some (.ok s.best) from ⟨s.best, h ▸ hends⟩
  by_cases hgoes : thresholdPct < s.changePct
  · rcases horacle s.mid with ⟨used, -, hused⟩ | hfails
    · -- such a round goes on
      have hle := hfalls.used_le_best horacle hreaches hgoes hused
      rw [gasStep_of_uses hgoes hused hle] at hdone
      cases hdone
    · rw [gasStep_of_fails hgoes hfails] at hdone
      split at hdone
      · exact (Turn.done.inj hdone).symm
      · cases hdone
  · rw [gasStep_of_final (not_lt.mp hgoes)] at hdone
    exact (Turn.done.inj hdone).symm

/-- A limit at which the request is tried and succeeds is that of a round, after which the best so
far is the gas it has used there. -/
theorem Probed.reaches (hprobed : Probed run limit) (hused : Uses run limit used)
    (hfalls : Falls run)
    (horacle : ∀ limit, (∃ used ≤ limit, Uses run limit used) ∨ Fails run limit) :
    ∃ s, Reaches (gasStep run) .start s ∧ s.best = used := by
  obtain ⟨s, hreaches, hgoes, rfl⟩ : ∃ s : Search, Reaches (gasStep run) .start s ∧
      thresholdPct < s.changePct ∧ s.mid = limit := by
    rcases hprobed with rfl | ⟨lower, upper, hvisits, rfl⟩
    · exact ⟨.start, .refl, by decide, rfl⟩
    · obtain ⟨s, hreaches, hat, rfl, rfl⟩ := hvisits.reached
      exact ⟨s, hreaches, hat.goes_on, hat.mid⟩
  have hle := hfalls.used_le_best horacle hreaches hgoes hused
  exact ⟨_, hreaches.tail (gasStep_of_uses hgoes hused hle), rfl⟩

/-- The answer is at most the gas used at any limit that was tried. -/
theorem Probed.answer_le {gas : ℕ} (hprobed : Probed run limit) (hused : Uses run limit used)
    (hfalls : Falls run)
    (horacle : ∀ limit, (∃ used ≤ limit, Uses run limit used) ∨ Fails run limit)
    (hends : Ends (gasStep run) .start (some (.ok gas))) : gas ≤ used := by
  obtain ⟨s, hreaches, rfl⟩ := hprobed.reaches hused hfalls horacle
  -- the search ends from there as well, and its end is unique
  obtain ⟨r, hends'⟩ := ends_of_measure Search.left
    (fun _ _ hs hnext => ⟨hs.step hnext, hs.left_lt hnext⟩) (reached_cases hreaches)
  obtain rfl := hends.unique (hreaches.ends hends')
  obtain ⟨t, hlast, hdone⟩ := ends_iff.mp hends'
  rw [(gasStep_eq_ok hdone).1]
  exact best_le_of_reaches hlast

/-- **When estimates are sufficient.** They are if the request succeeds with the largest limit and
needs no more gas than it uses, at the limits that are tried. For a request to which more gas
does no harm, and for which the search is safe, they are sufficient in no other case. -/
theorem estimate_sufficient_iff (run : ℕ → Reply (ℕ × ℤ))
    (horacle : ∀ limit, (∃ used ≤ limit, Uses run limit used) ∨ Fails run limit) :
    (Succeeds run GAS_LIMIT ∧ Repeats run →
      ∀ gas, Ends (gasStep run) .start (some (.ok gas)) → Succeeds run gas) ∧
    (Upward run → Falls run →
      (∀ gas, Ends (gasStep run) .start (some (.ok gas)) → Succeeds run gas) →
      Succeeds run GAS_LIMIT ∧ Repeats run) := by
  constructor
  · rintro ⟨⟨used, hused⟩, hrepeats⟩ gas hends
    rcases ends_ok_iff.mp hends with ⟨hfails, -⟩ | ⟨limit, hsettles⟩
    · exact absurd hfails hused.not_fails
    · exact hrepeats limit gas hsettles.probed.1 hsettles.probed.2
  · intro hupward hfalls hsufficient
    refine ⟨?_, fun limit used hprobed hused => ?_⟩
    · rcases horacle GAS_LIMIT with ⟨used, -, hused⟩ | hfails
      · exact ⟨used, hused⟩
      · exact hsufficient GAS_LIMIT (ends_ok_iff.mpr (.inl ⟨hfails, rfl⟩))
    · -- the answer is enough, and the gas used at the limit is no less
      obtain ⟨gas, hends⟩ := hfalls.ends_ok horacle
      exact hupward gas used (hprobed.answer_le hused hfalls horacle hends) (hsufficient gas hends)

/-- A request that needs the 30000 gas it uses has a sufficient estimate. One that needs 40000 and
uses 30000 has not, since more gas does it no harm. -/
theorem estimate_needing_sufficient :
    (Ends (gasStep (needing 30_000 30_000)) .start (some (.ok 30_000)) ∧
      Succeeds (needing 30_000 30_000) 30_000) ∧
    ¬∀ gas, Ends (gasStep (needing 40_000 30_000)) .start (some (.ok gas)) →
      Succeeds (needing 40_000 30_000) gas := by
  have hends : Ends (gasStep (needing 30_000 30_000)) .start (some (.ok 30_000)) := ⟨3, by decide⟩
  constructor
  · refine ⟨hends, (estimate_sufficient_iff (needing 30_000 30_000)
      (needing_within_limit le_rfl)).1 ⟨succeeds_needing.mpr (by decide), ?_⟩ 30_000 hends⟩
    intro limit used _ hused
    rw [(uses_needing.mp hused).2]
    exact succeeds_needing.mpr le_rfl
  · intro hsufficient
    obtain ⟨-, hrepeats⟩ := (estimate_sufficient_iff (needing 40_000 30_000)
      (needing_within_limit (by decide))).2
      (fun _ _ hle h => succeeds_needing.mpr ((succeeds_needing.mp h).trans hle))
      (fun _ _ _ _ _ hold hnew => by rw [(uses_needing.mp hold).2, (uses_needing.mp hnew).2])
      hsufficient
    -- at the largest limit it uses 30000, with which it fails
    have hused : Uses (needing 40_000 30_000) GAS_LIMIT 30_000 :=
      uses_needing.mpr ⟨by decide, rfl⟩
    exact absurd (succeeds_needing.mp (hrepeats GAS_LIMIT 30_000 (.inl rfl) hused)) (by decide)

/-- A request that fails at all limits has an estimate, and a request that needs more gas than it
uses has one that is too low. -/
theorem insufficient_estimates :
    (Ends (gasStep (needing (GAS_LIMIT + 1) 30_000)) .start (some (.ok GAS_LIMIT)) ∧
      ∀ limit ≤ GAS_LIMIT, Fails (needing (GAS_LIMIT + 1) 30_000) limit) ∧
    Ends (gasStep (needing 40_000 30_000)) .start (some (.ok 30_000)) ∧
      Fails (needing 40_000 30_000) 30_000 := by
  refine ⟨⟨⟨1, by decide⟩, fun limit hle => ?_⟩, ⟨3, by decide⟩, ?_⟩
  · exact fails_needing (Nat.lt_succ_of_le hle)
  · exact fails_needing (by decide)

/-! ### Agreement of the two searches -/

/-- Every limit is enough for the request or leaves it out of gas. -/
def OutOfGasOnly (run : ℕ → Reply (ℕ × ℤ)) : Prop :=
  ∀ limit, Succeeds run limit ∨ ∃ e, run limit = some (.error e) ∧ e.code = serverError0

theorem OutOfGasOnly.code (h : OutOfGasOnly run) {e : RpcError} (he : run limit = some (.error e)) :
    e.code = serverError0 := by
  rcases h limit with ⟨used, hused⟩ | ⟨e', he', hcode⟩
  · exact absurd ⟨e, he⟩ hused.not_fails
  · rw [he] at he'
    cases he'
    exact hcode

variable {s : Search}

theorem resourcesStep_of_uses (storage : ℤ) (hgoes : thresholdPct < s.changePct)
    (hused : Uses run s.mid used) (hle : used ≤ s.best) :
    ∃ storage', resourcesStep run (s, storage) =
      .next (⟨s.lower, s.mid, middle s.lower s.mid, used, dropPct s.best used⟩, storage') := by
  obtain ⟨storage', hrun⟩ := hused
  refine ⟨storage', ?_⟩
  simp only [resourcesStep, if_neg (not_le.mpr hgoes), hrun, improve_eq_some.mpr ⟨hle, rfl⟩]

/-- Out of gas, the search is left or the error is returned. -/
theorem resourcesStep_of_fails (storage : ℤ) (horacle : OutOfGasOnly run)
    (hgoes : thresholdPct < s.changePct) (hfails : Fails run s.mid) :
    ∃ e, resourcesStep run (s, storage) =
      if s.raise.mid = s.raise.lower then .done (some (.ok (s.best, storage)))
      else .done (some (.error e)) := by
  obtain ⟨e, hrun⟩ := hfails
  refine ⟨e, ?_⟩
  simp only [resourcesStep, if_neg (not_le.mpr hgoes), hrun, horacle.code hrun, true_and]

/-- `estimate_resources` answers what its loop ends with, together with the fee. -/
theorem estimateResources_of_ends {client : Client} {source : EvmAddress} {extrinsic : Bytes}
    {request : CallRequest} {gas fee : ℕ} {storage : ℤ}
    (hrequest : client.estimateRequest extrinsic = .ok (.ok request))
    (hfee : client.adjustedWeightFee extrinsic = .ok fee)
    (hends : Ends (resourcesStep (probe client { request with source := some source }))
      (.start, 0) (some (.ok (gas, storage)))) :
    ∃ rounds, estimateResources client source extrinsic rounds =
      some (some (.ok (gas, storage, fee))) := by
  obtain ⟨rounds, hends⟩ := hends
  refine ⟨rounds, ?_⟩
  unfold estimateResources
  simp only [hrequest, hends, hfee, Option.map_some]

/-- Where the request is never out of gas in between, the two searches go the same way. -/
theorem resources_reaches (hsucceeds : ∀ lower upper, Visits run lower upper →
    Succeeds run (middle lower upper)) (h : Reaches (gasStep run) .start s) :
    ∃ storage, Reaches (resourcesStep run) (.start, 0) (s, storage) := by
  induction h with
  | refl => exact ⟨0, .refl⟩
  | tail hreaches hnext ih =>
    obtain ⟨storage, ih⟩ := ih
    obtain ⟨hgoes, ⟨used, hused, hle, rfl⟩ | ⟨hfails, rfl, hne⟩⟩ := gasStep_eq_next hnext
    · obtain ⟨storage', hstep⟩ := resourcesStep_of_uses storage hgoes hused hle
      exact ⟨storage', ih.tail hstep⟩
    · rcases reached_cases hreaches with rfl | hat | hfinal
      · exact absurd (middle_self GAS_LIMIT) hne
      · obtain ⟨used, hused⟩ := hsucceeds _ _ hat.visits
        rw [hat.mid] at hfails
        exact absurd hfails hused.not_fails
      · exact absurd hfinal.ends (not_le.mpr hgoes)

/-- The other search gets to every interval as well, or it has returned an error on the way. -/
theorem Visits.resources (horacle : OutOfGasOnly run) (h : Visits run lower upper) :
    (∃ s storage, Reaches (resourcesStep run) (.start, 0) (s, storage) ∧ s.At run ∧
        s.lower = lower ∧ s.upper = upper) ∨
      ∃ e, Ends (resourcesStep run) (.start, 0) (some (.error e)) := by
  induction h with
  | start hused hdrops =>
    obtain ⟨storage, hstep⟩ := resourcesStep_of_uses (s := .start) 0 (by decide) hused hdrops.lt.le
    exact .inl ⟨_, storage, Reaches.refl.tail hstep, ⟨.start hused hdrops, rfl, hused, hdrops⟩,
      rfl, rfl⟩
  | down hvisits hold hnew hdrops ih =>
    rcases ih with ⟨s, storage, hreaches, hat, rfl, rfl⟩ | herror
    · rw [← hat.mid] at hnew ⊢
      obtain rfl := hat.best.unique hold
      obtain ⟨storage', hstep⟩ := resourcesStep_of_uses storage hat.goes_on hnew hdrops.lt.le
      refine .inl ⟨_, storage', hreaches.tail hstep, ⟨?_, rfl, hnew, hdrops⟩, rfl, rfl⟩
      change Visits run s.lower s.mid
      rw [hat.mid] at hnew ⊢
      exact hvisits.down hold hnew hdrops
    · exact .inr herror
  | up hvisits hfails ih =>
    rcases ih with ⟨s, storage, hreaches, hat, rfl, rfl⟩ | herror
    · rw [← hat.mid] at hfails
      -- the failure that raises the lower end there is returned as an error here
      obtain ⟨e, hstep⟩ := resourcesStep_of_fails storage horacle hat.goes_on hfails
      rw [if_neg (hat.raise_ne hfails)] at hstep
      exact .inr ⟨e, hreaches.ends (.of_done hstep)⟩
    · exact .inr herror

/-- **The two searches agree exactly if** the request succeeds in the middle of every interval that
is bisected: for every request that succeeds or is out of gas, and that `estimate_gas` has an
estimate for, the loop of `estimate_resources` ends with the same gas. -/
theorem estimate_resources_agrees_iff (run : ℕ → Reply (ℕ × ℤ)) (horacle : OutOfGasOnly run)
    (gas : ℕ) (hgas : Ends (gasStep run) .start (some (.ok gas))) :
    (∃ storage, Ends (resourcesStep run) (.start, 0) (some (.ok (gas, storage)))) ↔
      ∀ lower upper, Visits run lower upper → Succeeds run (middle lower upper) := by
  constructor
  · rintro ⟨storage, hends⟩ lower upper hvisits
    refine (horacle (middle lower upper)).resolve_right ?_
    rintro ⟨e, hrun, -⟩
    -- the search would have returned an error by then
    obtain ⟨e', herror⟩ : ∃ e, Ends (resourcesStep run) (.start, 0) (some (.error e)) := by
      rcases hvisits.resources horacle with ⟨s, storage', hreaches, hat, rfl, rfl⟩ | herror
      · rw [← hat.mid] at hrun
        obtain ⟨e', hstep⟩ := resourcesStep_of_fails storage' horacle hat.goes_on ⟨e, hrun⟩
        rw [if_neg (hat.raise_ne ⟨e, hrun⟩)] at hstep
        exact ⟨e', hreaches.ends (.of_done hstep)⟩
      · exact herror
    cases hends.unique herror
  · intro hsucceeds
    obtain ⟨s, hreaches, hdone⟩ := ends_iff.mp hgas
    obtain ⟨storage, hresources⟩ := resources_reaches hsucceeds hreaches
    refine ⟨storage, hresources.ends (.of_done ?_)⟩
    obtain ⟨rfl, hends | ⟨hgoes, hfails, hbreak⟩⟩ := gasStep_eq_ok hdone
    · exact if_pos hends
    · obtain ⟨e, hstep⟩ := resourcesStep_of_fails storage horacle hgoes hfails
      rw [hstep, if_pos hbreak]

theorem needing_outOfGasOnly : OutOfGasOnly (needing needed gas) := by
  intro limit
  rcases lt_or_ge limit needed with hlt | hle
  · exact .inr ⟨outOfGas, if_pos hlt, rfl⟩
  · exact .inl (succeeds_needing.mpr hle)

theorem estimate_resources_agrees_needing :
    ∃ storage, Ends (resourcesStep (needing 30_000 30_000)) (.start, 0)
      (some (.ok (30_000, storage))) := by
  refine (estimate_resources_agrees_iff (needing 30_000 30_000) needing_outOfGasOnly 30_000
    ⟨3, by decide⟩).mpr ?_
  intro lower upper hvisits
  obtain ⟨rfl, rfl⟩ := visits_needing (by decide) hvisits
  exact succeeds_needing.mpr (by decide)

/-- A request that is out of gas at the second limit: one search goes on, the other one returns the
error. -/
theorem out_of_gas_is_returned :
    Ends (gasStep (needing 60_000_000 1_000_000)) .start (some (.ok 1_000_000)) ∧
      Ends (resourcesStep (needing 60_000_000 1_000_000)) (.start, 0) (some (.error outOfGas)) ∧
      ¬∃ storage, Ends (resourcesStep (needing 60_000_000 1_000_000)) (.start, 0)
        (some (.ok (1_000_000, storage))) := by
  have herror : Ends (resourcesStep (needing 60_000_000 1_000_000)) (.start, 0)
      (some (.error outOfGas)) := ⟨2, by decide⟩
  refine ⟨⟨4, by decide⟩, herror, fun ⟨storage, hends⟩ => ?_⟩
  cases hends.unique herror

end Search

end Rpc
end Reef
