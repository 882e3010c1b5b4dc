import ReefChain.Lib.Run
import ReefChain.Poc.Pallet

/-!
# The locked total and the conservation of money

`lockedAmount` is maintained incrementally: `commit` and `addFunds` add to it, `withdraw` subtracts
from it, all with saturating arithmetic. This file proves that it is at all times the sum of the
committed amounts (`LockedInv`), and derives that the tokens a commitment burns are exactly those
its withdrawal mints again, so that issuance plus the locked total changes by the rewards only.

`LockedInv` has three clauses. The sum clause is carried through every operation by the two
equations of `FiniteMap.total`, for insertions and removals; it also makes the subtraction in
`withdraw` exact, a summand being at most the sum. The cap clause makes every *stored* sum exact: a
result below the cap is below the largest balance, so nothing was cut off. It does not make every
*computed* sum exact, and that cannot be had: the sum is computed before it is compared with the
cap, so a caller may drive the addition to its limit, and is then refused.

For conservation, `Conserves s s'` says that the pallet went from `s` to `s'` minting exactly the
payouts it recorded on the way. It is reflexive and transitive, and each operation satisfies it.
-/

namespace Reef
namespace Poc

open Bounded Fallible FiniteMap

variable {α : Type} [LinearOrder α] {C : Currency α}

/-! ### The invariant -/

/-- The sum of the committed amounts. -/
def totalCommitted (m : Finmap fun _ : α => Commitment α) : ℕ := total (fun _ c => c.amount) m

/-- **The locked-total invariant.** -/
structure LockedInv (cfg : Config α) (k : Locks α) : Prop where
  /-- The counter is the sum of the committed amounts. -/
  sum : k.lockedAmount = totalCommitted k.commitments
  /-- The counter is zero or strictly below the cap. -/
  cap : k.lockedAmount = 0 ∨ k.lockedAmount < cfg.totalLockedCap
  /-- Every commitment has at least the minimum amount. -/
  min : ∀ who c, k.commitments.lookup who = some c → cfg.minLockAmount ≤ c.amount

variable {cfg : Config α} {s s' : State C} {who : α}

theorem LockedInv.genesis (cfg : Config α) (book : C.Book) :
    LockedInv cfg (genesis book : State C).locks where
  sum := rfl
  cap := .inl rfl
  min := fun who c h => by simp [Poc.genesis, State.locks] at h

/-- A committed amount is part of the locked total. -/
theorem LockedInv.amount_le (h : LockedInv cfg s.locks) {c : Commitment α}
    (hc : s.commitments.lookup who = some c) : c.amount ≤ s.lockedAmount := by
  have hsum : s.lockedAmount = totalCommitted s.commitments := h.sum
  rw [hsum]
  exact le_total (f := fun _ c => c.amount) hc

omit [LinearOrder α] in
/-- A saturating sum that passes the cap check is exact. -/
theorem satAdd_of_lt_cap {amount : ℕ}
    (h : satAdd balanceBits s.lockedAmount amount < cfg.totalLockedCap) :
    satAdd balanceBits s.lockedAmount amount = s.lockedAmount + amount :=
  satAdd_of_lt_bound h cfg.totalLockedCap_lt

/-- Rewriting a commitment to amount `c'.amount`, and the counter by the same difference, keeps
the invariant as long as the cap and the minimum are respected. -/
theorem LockedInv.rewrite {k : Locks α} (h : LockedInv cfg k) (c' : Commitment α) {locked : ℕ}
    (hlocked : locked + weightAt (fun _ c => c.amount) k.commitments who =
      k.lockedAmount + c'.amount)
    (hcap : locked = 0 ∨ locked < cfg.totalLockedCap) (hmin : cfg.minLockAmount ≤ c'.amount)
    (b : ℕ) : LockedInv cfg ⟨b, k.commitments.insert who c', locked⟩ where
  sum := by
    have hins := total_insert (fun _ c => c.amount) k.commitments who c'
    have hsum : k.lockedAmount = total (fun _ c => c.amount) k.commitments := h.sum
    change locked = total (fun _ c => c.amount) (k.commitments.insert who c')
    omega
  cap := hcap
  min := by
    intro x c hx
    rw [lookup_insert_eq] at hx
    split at hx
    · cases hx
      exact hmin
    · exact h.min x c hx

theorem LockedInv.commit {amount : ℕ} {duration : LockDuration} {candidate : α}
    (h : LockedInv cfg s.locks) (hs : commit cfg who s amount duration candidate = .ok s') :
    LockedInv cfg s'.locks := by
  obtain ⟨hnew, hmin, hcap, book, -, rfl⟩ := commit_eq_ok.mp hs
  refine h.rewrite ⟨.committed, duration, amount, candidate⟩ ?_ (.inr hcap) hmin s.block
  rw [satAdd_of_lt_cap hcap, weightAt_of_notMem (m := s.locks.commitments) hnew]
  rfl

theorem LockedInv.addFunds {amount : ℕ} (h : LockedInv cfg s.locks)
    (hs : addFunds cfg who s amount = .ok s') : LockedInv cfg s'.locks := by
  obtain ⟨c, hc, hcap, book, -, -, rfl⟩ := addFunds_eq_ok.mp hs
  have hmin := h.min who c hc
  refine h.rewrite { c with amount := c.amount + amount, state := .committed } ?_
    (.inr hcap) (Nat.le_add_right_of_le hmin) s.block
  rw [satAdd_of_lt_cap hcap, weightAt_of_lookup (m := s.locks.commitments) hc]
  change s.lockedAmount + amount + c.amount = s.lockedAmount + (c.amount + amount)
  omega

/-- Rewriting a commitment without changing its amount keeps the invariant. -/
theorem LockedInv.sameAmount {c : Commitment α} (h : LockedInv cfg s.locks)
    (c' : Commitment α) (hc : s.commitments.lookup who = some c) (hamount : c'.amount = c.amount) :
    LockedInv cfg ⟨s.block, s.commitments.insert who c', s.lockedAmount⟩ := by
  refine h.rewrite c' ?_ h.cap ?_ s.block
  · rw [weightAt_of_lookup (m := s.locks.commitments) hc, hamount]
  · rw [hamount]
    exact h.min who c hc

theorem LockedInv.withdraw (h : LockedInv cfg s.locks) (hs : withdraw who s = .ok s') :
    LockedInv cfg s'.locks := by
  obtain ⟨c, startBlock, hc, -, -, book, -, rfl⟩ := withdraw_eq_ok.mp hs
  have hle := h.amount_le hc
  constructor
  · -- the removed summand is what the counter loses
    have herase := total_erase (fun _ c => c.amount) s.commitments who
    rw [weightAt_of_lookup hc] at herase
    have hsum : s.lockedAmount = total (fun _ c => c.amount) s.commitments := h.sum
    change s.lockedAmount - c.amount = total (fun _ c => c.amount) (s.commitments.erase who)
    omega
  · have hcap : s.lockedAmount = 0 ∨ s.lockedAmount < cfg.totalLockedCap := h.cap
    change s.lockedAmount - c.amount = 0 ∨ s.lockedAmount - c.amount < cfg.totalLockedCap
    omega
  · intro x c' hx
    exact h.min x c' (lookup_erase_eq_some_iff.mp hx).2

/-- **A successful call keeps the invariant.** -/
theorem LockedInv.execute {call : Call α} (h : LockedInv cfg s.locks)
    (hs : execute cfg s who call = .ok s') : LockedInv cfg s'.locks := by
  cases call with
  | startCandidacy =>
    obtain ⟨-, -, book, -, rfl⟩ := startCandidacy_eq_ok.mp hs
    exact h
  | stopCandidacy =>
    obtain ⟨-, -, rfl⟩ := stopCandidacy_eq_ok.mp hs
    exact h
  | commit amount duration candidate => exact h.commit hs
  | addFunds amount => exact h.addFunds hs
  | unbond =>
    obtain ⟨c, hc, -, rfl⟩ := unbond_eq_ok.mp hs
    exact h.sameAmount { c with state := .unbonding s.block } hc rfl
  | withdraw => exact h.withdraw hs
  | voteCandidate candidate =>
    obtain ⟨c, hc, hlocks⟩ := voteCandidate_locks hs
    rw [hlocks]
    exact h.sameAmount { c with candidate } hc rfl

/-- **Every step keeps the invariant**: a failed call changes nothing, and neither a new block nor
another pallet touches a lock. -/
theorem LockedInv.step (h : LockedInv cfg s.locks) (i : Input C) :
    LockedInv cfg (step cfg s i).locks := by
  cases i with
  | signed who call =>
    change LockedInv cfg (commitOrKeep (Poc.execute cfg s who call) s).locks
    obtain ⟨s', hs, heq⟩ | ⟨-, heq⟩ := commitOrKeep_cases (Poc.execute cfg s who call) s
    · rw [heq]
      exact h.execute hs
    · rw [heq]
      exact h
  | nextBlock =>
    simp only [Poc.step]
    split
    · rw [onInitialize_locks]
      exact ⟨h.sum, h.cap, h.min⟩
    · exact h
  | external book => exact h

/-- The invariant holds in every state reached from genesis. -/
theorem LockedInv.run (cfg : Config α) (book : C.Book) (is : List (Input C)) :
    LockedInv cfg (Run.run (Poc.step cfg) (Poc.genesis book) is).locks :=
  Run.invariant_of_step (fun s : State C => LockedInv cfg s.locks) (fun _ i h => h.step i)
    (LockedInv.genesis cfg book)

/-! ### Exact arithmetic on the locked total -/

/-- **The locked total is exact.** In every state reached from genesis, whatever calls were made
and whichever of them failed, the locked total is the sum of the committed amounts, it is zero or
below the cap, and every commitment has the minimum amount. What an operation stores into it is the
exact sum or difference, and an addition that would pass the largest balance belongs to a call that
is refused. -/
theorem lockedAmount_exact (cfg : Config α) (book : C.Book) (is : List (Input C)) :
    let s := Run.run (step cfg) (genesis book) is
    s.lockedAmount = totalCommitted s.commitments ∧
    (s.lockedAmount = 0 ∨ s.lockedAmount < cfg.totalLockedCap) ∧
    (∀ who c, s.commitments.lookup who = some c → cfg.minLockAmount ≤ c.amount) ∧
    (∀ who amount duration candidate s', commit cfg who s amount duration candidate = .ok s' →
      s'.lockedAmount = s.lockedAmount + amount) ∧
    (∀ who amount s', addFunds cfg who s amount = .ok s' →
      s'.lockedAmount = s.lockedAmount + amount) ∧
    (∀ who s', withdraw who s = .ok s' → ∃ c, s.commitments.lookup who = some c ∧
      s'.lockedAmount + c.amount = s.lockedAmount) ∧
    (∀ who amount, 2 ^ balanceBits ≤ s.lockedAmount + amount →
      (∀ duration candidate,
        dispatch cfg s who (.commit amount duration candidate) = s) ∧
      dispatch cfg s who (.addFunds amount) = s) := by
  intro s
  have hinv : LockedInv cfg s.locks := LockedInv.run cfg book is
  refine ⟨hinv.sum, hinv.cap, hinv.min, ?_, ?_, ?_, ?_⟩
  · intro who amount duration candidate s' hs
    obtain ⟨-, -, hcap, book, -, rfl⟩ := commit_eq_ok.mp hs
    exact satAdd_of_lt_cap hcap
  · intro who amount s' hs
    obtain ⟨c, -, hcap, book, -, -, rfl⟩ := addFunds_eq_ok.mp hs
    exact satAdd_of_lt_cap hcap
  · intro who s' hs
    obtain ⟨c, startBlock, hc, -, -, book, -, rfl⟩ := withdraw_eq_ok.mp hs
    exact ⟨c, hc, Nat.sub_add_cancel (hinv.amount_le hc)⟩
  · intro who amount hover
    -- a saturated sum is the largest balance, which no cap exceeds
    have hrefused : ¬ satAdd balanceBits s.lockedAmount amount < cfg.totalLockedCap := by
      intro hcap
      have hexact := satAdd_of_lt_cap hcap
      have hlt := cfg.totalLockedCap_lt
      omega
    refine ⟨fun duration candidate => ?_, ?_⟩
    · obtain ⟨s', hs, -⟩ | ⟨-, heq⟩ :=
        commitOrKeep_cases (execute cfg s who (.commit amount duration candidate)) s
      · exact absurd (commit_eq_ok.mp hs).2.2.1 hrefused
      · exact heq
    · obtain ⟨s', hs, -⟩ | ⟨-, heq⟩ := commitOrKeep_cases (execute cfg s who (.addFunds amount)) s
      · obtain ⟨c, -, hcap, -⟩ := addFunds_eq_ok.mp hs
        exact absurd hcap hrefused
      · exact heq

/-- An offer that would reach the cap is refused as such. -/
theorem commit_overSubscribed {amount : ℕ} {duration : LockDuration} {candidate : α}
    (hnew : who ∉ s.commitments) (hmin : cfg.minLockAmount ≤ amount)
    (hcap : ¬ satAdd balanceBits s.lockedAmount amount < cfg.totalLockedCap) :
    commit cfg who s amount duration candidate = .error (.module .overSubscribed) := by
  unfold commit require
  rw [ensure_bind_of hnew, ensure_bind_of hmin, ensure_bind_of_not hcap]

/-- A ledger over `n` accounts that own two million tokens each. -/
def richBook (n : ℕ) : (Ledger.currency (Fin n) 1).Book :=
  Ledger.ofFree fun _ => 2_000_000 * REEF

/-- The addition itself can saturate. After one commitment of the minimum amount, a second account
offers the largest balance: the sum is cut off at the largest balance, and the call is refused. -/
theorem commit_addition_saturates :
    let s := Run.run (step (Config.runtime (Fin 2)))
      (genesis (richBook 2))
      [.signed 0 (.commit (100_000 * REEF) .oneYear 1)]
    satAdd balanceBits s.lockedAmount (2 ^ 128 - 1) < s.lockedAmount + (2 ^ 128 - 1) ∧
    commit (Config.runtime (Fin 2)) 1 s (2 ^ 128 - 1) .oneYear 1 =
      .error (.module .overSubscribed) := by
  refine ⟨by decide, commit_overSubscribed (by decide) (by decide) (by decide)⟩

/-! ### Conservation of money -/

/-- The sum of a list of rewards. -/
def payoutSum (payouts : List (Payout α)) : ℕ := (payouts.map Payout.amount).sum

omit [LinearOrder α] in
theorem payoutSum_append (p q : List (Payout α)) :
    payoutSum (p ++ q) = payoutSum p + payoutSum q := by
  unfold payoutSum
  rw [List.map_append, List.sum_append]

omit [LinearOrder α] in
theorem payoutSum_singleton (p : Payout α) : payoutSum [p] = p.amount := List.sum_singleton

/-- From `s` to `s'` the pallet created exactly the rewards it recorded: issuance plus the locked
total grew by their sum. -/
def Conserves (s s' : State C) : Prop :=
  ∃ payouts, s'.paid = s.paid ++ payouts ∧
    C.totalIssuance s'.book + s'.lockedAmount =
      C.totalIssuance s.book + s.lockedAmount + payoutSum payouts

omit [LinearOrder α] in
/-- Nothing was paid, and issuance and the locked total balance. -/
theorem Conserves.of_balance (hpaid : s'.paid = s.paid)
    (h : C.totalIssuance s'.book + s'.lockedAmount = C.totalIssuance s.book + s.lockedAmount) :
    Conserves s s' :=
  ⟨[], by rw [hpaid, List.append_nil], by rw [h]; rfl⟩

omit [LinearOrder α] in
theorem Conserves.refl (s : State C) : Conserves s s := .of_balance rfl rfl

omit [LinearOrder α] in
theorem Conserves.trans {s₁ s₂ s₃ : State C} (h₁₂ : Conserves s₁ s₂) (h₂₃ : Conserves s₂ s₃) :
    Conserves s₁ s₃ := by
  obtain ⟨p, hp, hbal⟩ := h₁₂
  obtain ⟨q, hq, hbal'⟩ := h₂₃
  refine ⟨p ++ q, by rw [hq, hp, List.append_assoc], ?_⟩
  have hsum := payoutSum_append p q
  omega

omit [LinearOrder α] in
/-- A reward that is deposited is recorded. -/
theorem Conserves.pay (payout : Payout α) {book : C.Book} (hpaid : s'.paid = s.paid ++ [payout])
    (hbook : s'.book = book) (hlocked : s'.lockedAmount = s.lockedAmount)
    (h : C.depositIntoExisting s.book payout.who payout.amount = .ok book) : Conserves s s' := by
  refine ⟨[payout], hpaid, ?_⟩
  have hmint := C.deposit_issuance h
  rw [hbook, hlocked, hmint, payoutSum_singleton]
  omega

omit [LinearOrder α] in
theorem Conserves.rewardWinner (era reward : ℕ) (s : State C) (winner : α) :
    Conserves s (rewardWinner era reward s winner) := by
  unfold Poc.rewardWinner
  split
  · next book hdep =>
    exact .pay ⟨era, winner, reward, true⟩ rfl rfl rfl hdep
  · exact .refl s

omit [LinearOrder α] in
/-- Paying the council, one member after the other, some deposits possibly failing. -/
theorem Conserves.rewardWinners (era reward : ℕ) (winners : List α) (s : State C) :
    Conserves s (winners.foldl (Poc.rewardWinner era reward) s) := by
  induction winners generalizing s with
  | nil => exact .refl s
  | cons w winners ih => exact (Conserves.rewardWinner era reward s w).trans (ih _)

theorem Conserves.onInitialize (n : ℕ) (s : State C) : Conserves s (onInitialize cfg n s) := by
  unfold Poc.onInitialize
  split
  · simp only [elect, seatCouncil]
    split
    · exact .of_balance rfl rfl
    · split
      · exact (Conserves.of_balance rfl rfl).trans (Conserves.rewardWinners _ _ _ _)
      · exact .of_balance rfl rfl
  · exact .refl s

theorem Conserves.voteCandidate {candidate : α}
    (hs : voteCandidate cfg who s candidate = .ok s') : Conserves s s' := by
  obtain ⟨c, hc, -, hs⟩ := voteCandidate_eq_ok.mp hs
  have hvote : Conserves s (setVote who s c candidate) := by
    unfold setVote
    split
    · exact .of_balance rfl rfl
    · exact .refl s
  refine hvote.trans ?_
  obtain ⟨-, rfl⟩ | ⟨-, book, hdep, rfl⟩ := rewardVoter_eq_ok.mp hs
  · exact .refl _
  · exact .pay ⟨_, who, _, false⟩ rfl rfl rfl hdep

/-- **A successful call conserves money.** What `commit` and `addFunds` burn is what the locked
total gains, what `withdraw` mints is what it loses. -/
theorem Conserves.execute {call : Call α} (hinv : LockedInv cfg s.locks)
    (hs : execute cfg s who call = .ok s') : Conserves s s' := by
  cases call with
  | startCandidacy =>
    obtain ⟨-, -, book, hres, rfl⟩ := startCandidacy_eq_ok.mp hs
    exact .of_balance rfl (congrArg (· + s.lockedAmount) (C.reserve_issuance hres))
  | stopCandidacy =>
    obtain ⟨-, -, rfl⟩ := stopCandidacy_eq_ok.mp hs
    exact .of_balance rfl (congrArg (· + s.lockedAmount) (C.unreserve_issuance _ _ _))
  | commit amount duration candidate =>
    obtain ⟨-, -, hcap, book, hburn, rfl⟩ := commit_eq_ok.mp hs
    have hissuance := C.withdraw_issuance hburn
    refine .of_balance rfl ?_
    change C.totalIssuance book + satAdd balanceBits s.lockedAmount amount = _
    rw [satAdd_of_lt_cap hcap]
    omega
  | addFunds amount =>
    obtain ⟨c, -, hcap, book, hburn, -, rfl⟩ := addFunds_eq_ok.mp hs
    have hissuance := C.withdraw_issuance hburn
    refine .of_balance rfl ?_
    change C.totalIssuance book + satAdd balanceBits s.lockedAmount amount = _
    rw [satAdd_of_lt_cap hcap]
    omega
  | unbond =>
    obtain ⟨c, -, -, rfl⟩ := unbond_eq_ok.mp hs
    exact .of_balance rfl rfl
  | withdraw =>
    obtain ⟨c, startBlock, hc, -, -, book, hmint, rfl⟩ := withdraw_eq_ok.mp hs
    have hissuance := C.deposit_issuance hmint
    -- the subtraction is exact because the amount is a summand of the locked total
    have hle := hinv.amount_le hc
    refine .of_balance rfl ?_
    change C.totalIssuance book + (s.lockedAmount - c.amount) = _
    omega
  | voteCandidate candidate => exact .voteCandidate hs

/-- The input is a call of this pallet or a block, not an action of another pallet. -/
def Input.isPoc : Input C → Bool
  | .external _ => false
  | _ => true

/-- **Every step of the pallet conserves money.** -/
theorem Conserves.step (hinv : LockedInv cfg s.locks) {i : Input C} (hi : i.isPoc = true) :
    Conserves s (step cfg s i) := by
  cases i with
  | signed who call =>
    change Conserves s (commitOrKeep (Poc.execute cfg s who call) s)
    obtain ⟨s', hs, heq⟩ | ⟨-, heq⟩ := commitOrKeep_cases (Poc.execute cfg s who call) s
    · rw [heq]
      exact .execute hinv hs
    · rw [heq]
      exact .refl s
  | nextBlock =>
    simp only [Poc.step]
    split
    · exact (Conserves.of_balance rfl rfl).trans (Conserves.onInitialize _ _)
    · exact .refl s
  | external book => cases hi

/-- **The pallet conserves money.** From any reachable state, over any run of calls of this pallet
and blocks, successful or failing, issuance plus the locked total grows by exactly the voter and
council rewards that were deposited. -/
theorem issuance_add_lockedAmount (cfg : Config α) (book : C.Book) (past is : List (Input C))
    (his : ∀ i ∈ is, i.isPoc = true) :
    let s := Run.run (step cfg) (genesis book) past
    let s' := Run.run (step cfg) s is
    ∃ payouts, s'.paid = s.paid ++ payouts ∧
      C.totalIssuance s'.book + s'.lockedAmount =
        C.totalIssuance s.book + s.lockedAmount + payoutSum payouts := by
  intro s s'
  -- the locked-total invariant travels along, since withdrawals are exact under it only
  have h : LockedInv cfg s'.locks ∧ Conserves s s' :=
    Run.invariant (fun t : State C => LockedInv cfg t.locks ∧ Conserves s t)
      (fun t i ht (hi : i.isPoc = true) => ⟨ht.1.step i, ht.2.trans (.step ht.1 hi)⟩)
      ⟨LockedInv.run cfg book past, .refl s⟩ (Run.Along.of_mem fun i hi _ => his i hi)
  exact h.2

/-- A commitment followed by a block is such a run. -/
theorem issuance_add_lockedAmount_commit :
    let inputs : List (Input (Ledger.currency (Fin 2) 1)) :=
      [.signed 0 (.commit (100_000 * REEF) .oneYear 1), .nextBlock]
    let s : State (Ledger.currency (Fin 2) 1) :=
      Run.run (step (Config.runtime (Fin 2))) (genesis (richBook 2)) []
    let s' := Run.run (step (Config.runtime (Fin 2))) s inputs
    (∀ i ∈ inputs, i.isPoc = true) ∧
    ∃ payouts, s'.paid = s.paid ++ payouts ∧
      (Ledger.currency (Fin 2) 1).totalIssuance s'.book + s'.lockedAmount =
        (Ledger.currency (Fin 2) 1).totalIssuance s.book + s.lockedAmount +
          payoutSum payouts := by
  intro inputs s s'
  have hpoc : ∀ i ∈ inputs, i.isPoc = true := by simp [inputs, Input.isPoc]
  exact ⟨hpoc, issuance_add_lockedAmount (Config.runtime (Fin 2)) (richBook 2) [] inputs hpoc⟩

end Poc
end Reef
