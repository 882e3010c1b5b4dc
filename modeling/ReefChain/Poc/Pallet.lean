import Mathlib.Data.Finmap
import Mathlib.Data.Finset.Sort
import Mathlib.Data.List.Sort
import ReefChain.Ledger
import ReefChain.Lib.FiniteMap

/-!
# The Proof of Commitment pallet

Accounts lock tokens for a month, a year or ten years and vote with them for candidates of a
technical council. Locked tokens are *burned*: `commit` and `addFunds` withdraw them and drop the
imbalance, the pallet records the amount in the account's commitment and in the global counter
`lockedAmount`, and `withdraw` mints the amount back once the unbonding period is over. Rewards are
minted in two places: `voteCandidate` pays the voter once per era, and the block that starts a new
era pays the elected members.

This file is the pallet's state and every operation on it, over an arbitrary `Currency`. A call
returns the new state or an error; a failed call leaves the state as it was (`dispatch`), because
each call is either a storage transaction or checks before it writes. The system as a whole is
`step`, whose inputs are signed calls, the next block, and actions of other pallets, which may
change balances but not this pallet's storage.

`State.paid` is a ghost record of the rewards deposited so far; no operation reads it.
-/

namespace Reef
namespace Poc

open Bounded Fallible

/-- The state of a commitment. -/
inductive LockState
  /-- Locked with voting power. -/
  | committed
  /-- The block at which unbonding started. -/
  | unbonding (start : ℕ)
  deriving DecidableEq, Repr

/-- The lock durations. -/
inductive LockDuration
  | oneMonth
  | oneYear
  | tenYears
  deriving DecidableEq, Repr

/-- The lock period in blocks. -/
def LockDuration.period : LockDuration → ℕ
  | .oneMonth => 30 * DAYS
  | .oneYear => 365 * DAYS
  | .tenYears => 3650 * DAYS

/-- The voting power of one locked unit. -/
def LockDuration.multiplier : LockDuration → ℕ
  | .oneMonth => 1
  | .oneYear => 10
  | .tenYears => 100

/-- The tokens one account has locked. -/
structure Commitment (α : Type) where
  state : LockState
  duration : LockDuration
  amount : ℕ
  candidate : α
  deriving DecidableEq

/-- An election era. -/
structure Era where
  index : ℕ
  start : ℕ
  deriving DecidableEq

/-- The errors of the pallet. -/
inductive Error
  | alreadyCandidate
  | notCandidate
  | cannotLeave
  | maxCandidatesReached
  | alreadyCommitted
  | commitmentNotFound
  | notCommitted
  | cannotWithdrawLocked
  | insufficientAmount
  | overSubscribed
  | noCommitmentsFound
  deriving DecidableEq, Repr

/-- What a call of this pallet fails with. -/
abbrev DispatchError := Reef.DispatchError Error

/-- The events of the pallet. -/
inductive Event (α : Type)
  | candidateAdded (who : α)
  | candidateRemoved (who : α)
  | committed (who : α) (amount : ℕ)
  | fundsAdded (who : α) (amount : ℕ)
  | unbondingStarted (who : α) (amount : ℕ)
  | bondWithdrawn (who : α) (amount : ℕ)
  | voted (who candidate : α) (power : ℕ)
  | voterRewarded (era : ℕ) (who : α) (reward : ℕ)
  | elected (era : ℕ) (winner : α) (weight : ℕ)

/-- A reward that was deposited, in the era with index `era`. -/
structure Payout (α : Type) where
  era : ℕ
  who : α
  amount : ℕ
  /-- A council reward, paid at an era change; otherwise a voter reward. -/
  council : Bool

/-- The pallet's constants, and the order in which the storage trie yields the commitments. The
constants are values of their machine types. -/
structure Config (α : Type) where
  eraDuration : ℕ
  nominatorAPY : Perbill
  councilInflation : Perbill
  candidacyDeposit : ℕ
  minLockAmount : ℕ
  totalLockedCap : ℕ
  maxCandidates : ℕ
  maxMembers : ℕ
  /-- `Commitments::iter`: some enumeration of the entries. -/
  iter : (Finmap fun _ : α => Commitment α) → List (Σ _ : α, Commitment α)
  iter_entries : ∀ m, (iter m : Multiset (Σ _ : α, Commitment α)) = m.entries
  eraDuration_lt : eraDuration < 2 ^ blockBits
  totalLockedCap_lt : totalLockedCap < 2 ^ balanceBits
  maxCandidates_lt : maxCandidates < 2 ^ 32

/-- The constants of the runtime, with the commitments enumerated by account. -/
def Config.runtime (α : Type) [LinearOrder α] : Config α where
  eraDuration := 7 * DAYS
  nominatorAPY := ⟨100_000_000, by decide⟩
  councilInflation := ⟨10_000_000, by decide⟩
  candidacyDeposit := 1_000_000 * REEF
  minLockAmount := 100_000 * REEF
  totalLockedCap := 2_000_000_000 * REEF
  maxCandidates := 100
  maxMembers := 9
  iter := FiniteMap.inKeyOrder
  iter_entries := FiniteMap.coe_inKeyOrder
  eraDuration_lt := by decide
  totalLockedCap_lt := by decide
  maxCandidates_lt := by decide

/-- The storage of the pallet, with the block number, the currency's state and the event log. -/
structure State {α : Type} (C : Currency α) where
  block : ℕ
  book : C.Book
  currentEra : Era
  voterRewards : ℕ → Finmap fun _ : α => ℕ
  commitments : Finmap fun _ : α => Commitment α
  members : List α
  candidates : Finmap fun _ : α => ℕ
  candidatesCount : ℕ
  lockedAmount : ℕ
  events : List (Event α)
  paid : List (Payout α)

variable {α : Type} [LinearOrder α] {C : Currency α}

/-- `deposit_event`. -/
def State.depositEvent (s : State C) (e : Event α) : State C := { s with events := s.events ++ [e] }

/-- Fail with an error of the pallet unless `p` holds. -/
def require (p : Prop) [Decidable p] (e : Error) : Except DispatchError Unit :=
  ensure p (.module e)

/-! ### Rates -/

section Rates

variable (cfg : Config α)

/-- `voting_weight`: nothing while unbonding. -/
def votingWeight (c : Commitment α) : ℕ :=
  if c.state ≠ .committed then 0
  else wrapMul balanceBits c.amount c.duration.multiplier

/-- `proportion_of_era_to_year`. -/
def proportionOfEraToYear : Perbill := .fromRational cfg.eraDuration (365 * DAYS)

/-- `era_voter_reward`: monthly locks earn nothing. -/
def eraVoterReward (c : Commitment α) : ℕ :=
  if c.state ≠ .committed then 0
  else match c.duration with
    | .oneMonth => 0
    | _ => cfg.nominatorAPY.mul ((proportionOfEraToYear cfg).mul c.amount)

/-- `era_council_rewards`: the reward of the whole council. -/
def eraCouncilRewards (s : State C) : ℕ :=
  (proportionOfEraToYear cfg).mul (cfg.councilInflation.mul (C.totalIssuance s.book))

end Rates

/-! ### Calls -/

section Calls

variable (cfg : Config α) (who : α) (s : State C)

/-- `slice::binary_search` between `left` and `right`; the fuel bounds the number of halvings. -/
def binarySearchIn (xs : List α) (x : α) : ℕ → ℕ → ℕ → Option ℕ
  | 0, _, _ => none
  | fuel + 1, left, right =>
    if left < right then
      let mid := left + (right - left) / 2
      match xs[mid]? with
      | none => none
      | some y =>
        if y < x then binarySearchIn xs x fuel (mid + 1) right
        else if x < y then binarySearchIn xs x fuel left mid
        else some mid
    else none

/-- `slice::binary_search`: a position of `x`, if the search finds one. -/
def binarySearch (xs : List α) (x : α) : Option ℕ := binarySearchIn xs x (xs.length + 1) 0 xs.length

/-- `start_candidacy`. -/
def startCandidacy : Except DispatchError (State C) := do
  require (who ∉ s.candidates) .alreadyCandidate
  let nCandidates := s.candidatesCount
  require (nCandidates < cfg.maxCandidates) .maxCandidatesReached
  let deposit := cfg.candidacyDeposit
  let book ← (C.reserve s.book who deposit).mapError .currency
  return { s with
    book
    candidates := s.candidates.insert who deposit
    candidatesCount := satAdd 32 nCandidates 1
  }.depositEvent (.candidateAdded who)

/-- `stop_candidacy`. -/
def stopCandidacy : Except DispatchError (State C) := do
  require (who ∈ s.candidates) .notCandidate
  require (binarySearch s.members who = none) .cannotLeave
  let deposit := (s.candidates.lookup who).getD 0
  return { s with
    book := (C.unreserve s.book who deposit).1
    candidates := s.candidates.erase who
    candidatesCount := s.candidatesCount - 1
  }.depositEvent (.candidateRemoved who)

/-- `commit`. -/
def commit (amount : ℕ) (duration : LockDuration) (candidate : α) :
    Except DispatchError (State C) := do
  require (who ∉ s.commitments) .alreadyCommitted
  require (cfg.minLockAmount ≤ amount) .insufficientAmount
  let lockedTotal := satAdd balanceBits s.lockedAmount amount
  require (lockedTotal < cfg.totalLockedCap) .overSubscribed
  let book ← (C.withdraw s.book who amount).mapError .currency
  return { s with
    book
    lockedAmount := lockedTotal
    commitments := s.commitments.insert who ⟨.committed, duration, amount, candidate⟩
  }.depositEvent (.committed who amount)

/-- `Commitments::get(..).ok_or(NoCommitmentsFound)`. -/
def getCommitment : Except DispatchError (Commitment α) :=
  match s.commitments.lookup who with
  | some c => .ok c
  | none => .error (.module .noCommitmentsFound)

/-- `add_funds`: the commitment is always re-committed. -/
def addFunds (amount : ℕ) : Except DispatchError (State C) := do
  require (who ∈ s.commitments) .commitmentNotFound
  let commitment ← getCommitment who s
  require (0 ≤ amount) .insufficientAmount
  let lockedTotal := satAdd balanceBits s.lockedAmount amount
  require (lockedTotal < cfg.totalLockedCap) .overSubscribed
  let book ← (C.withdraw s.book who amount).mapError .currency
  -- `checked_add` on the balance type
  ensure (commitment.amount + amount < 2 ^ balanceBits) (.other "currency overflow")
  return { s with
    book
    lockedAmount := lockedTotal
    commitments := s.commitments.insert who
      { commitment with amount := commitment.amount + amount, state := .committed }
  }.depositEvent (.fundsAdded who amount)

/-- `unbond`: records the current block. -/
def unbond : Except DispatchError (State C) := do
  require (who ∈ s.commitments) .commitmentNotFound
  let commitment ← getCommitment who s
  require (commitment.state = .committed) .notCommitted
  return { s with
    commitments := s.commitments.insert who { commitment with state := .unbonding s.block }
  }.depositEvent (.unbondingStarted who commitment.amount)

/-- `withdraw`: mints the committed amount back once the unbonding period is over. -/
def withdraw : Except DispatchError (State C) := do
  require (who ∈ s.commitments) .commitmentNotFound
  let commitment ← getCommitment who s
  require (commitment.state ≠ .committed) .alreadyCommitted
  match commitment.state with
  | .unbonding startBlock =>
    if wrapAdd blockBits startBlock commitment.duration.period ≤ s.block then
      let book ← (C.depositIntoExisting s.book who commitment.amount).mapError .currency
      return { s with
        book
        commitments := s.commitments.erase who
        lockedAmount := s.lockedAmount - commitment.amount
      }.depositEvent (.bondWithdrawn who commitment.amount)
    else .error (.module .cannotWithdrawLocked)
  | .committed => .error (.module .cannotWithdrawLocked)

/-- The vote part of `vote_candidate`: rewrites the commitment when the candidate changes. -/
def setVote (commitment : Commitment α) (candidate : α) : State C :=
  if commitment.candidate ≠ candidate then
    let commitment := { commitment with candidate }
    { s with commitments := s.commitments.insert who commitment }.depositEvent
      (.voted who candidate (votingWeight commitment))
  else s

/-- The reward part of `vote_candidate`: at most one reward per account and era. -/
def rewardVoter (commitment : Commitment α) : Except DispatchError (State C) :=
  let eraReward := eraVoterReward cfg commitment
  let era := s.currentEra.index
  if 0 < eraReward ∧ who ∉ s.voterRewards era then do
    let book ← (C.depositIntoExisting s.book who eraReward).mapError .currency
    return { s with
      book
      voterRewards := Function.update s.voterRewards era
        ((s.voterRewards era).insert who eraReward)
      paid := s.paid ++ [Payout.mk era who eraReward false]
    }.depositEvent (.voterRewarded era who eraReward)
  else return s

/-- `vote_candidate`. The reward depends on the commitment's state, duration and amount only,
which the vote does not change. -/
def voteCandidate (candidate : α) : Except DispatchError (State C) := do
  require (who ∈ s.commitments) .commitmentNotFound
  let commitment ← getCommitment who s
  require (commitment.state = .committed) .notCommitted
  rewardVoter cfg who (setVote who s commitment candidate) { commitment with candidate }

end Calls

/-! ### Blocks -/

section Blocks

variable (cfg : Config α)

/-- `BTreeMap::insert` on the entries in key order. -/
def insertSorted (k : α) (v : ℕ) : List (α × ℕ) → List (α × ℕ)
  | [] => [(k, v)]
  | e :: rest =>
    if k < e.1 then (k, v) :: e :: rest
    else if k = e.1 then (k, v) :: rest
    else e :: insertSorted k v rest

/-- One commitment's vote: counted when its candidate is running. -/
def countVote (s : State C) (counter : List (α × ℕ)) (c : Commitment α) : List (α × ℕ) :=
  if c.candidate ∉ s.candidates then counter
  else match counter.lookup c.candidate with
    | some accW => insertSorted c.candidate (satAdd balanceBits (votingWeight c) accW) counter
    | none => insertSorted c.candidate (votingWeight c) counter

/-- The votes of all commitments by candidate, in candidate order. -/
def counter (s : State C) : List (α × ℕ) :=
  (cfg.iter s.commitments).foldl (fun acc e => countVote s acc e.2) []

/-- The candidates by descending weight; the sort is stable. -/
def ranking (s : State C) : List (α × ℕ) := (counter cfg s).insertionSort fun a b => b.2 ≤ a.2

/-- Deposit one council reward, ignoring failures. -/
def rewardWinner (era reward : ℕ) (s : State C) (winner : α) : State C :=
  match C.depositIntoExisting s.book winner reward with
  | .ok book => { s with book, paid := s.paid ++ [Payout.mk era winner reward true] }
  | .error _ => s

/-- Seat the winners and pay them. -/
def seatCouncil (era : ℕ) (winners : List α) (s : State C) : State C :=
  if winners = [] then s
  else
    let s := { s with members := winners }
    let reward := eraCouncilRewards cfg s / winners.length
    if 0 < reward then winners.foldl (rewardWinner era reward) s else s

/-- The election at the start of the era with index `era`. -/
def elect (era : ℕ) (s : State C) : State C :=
  let top := (ranking cfg s).take cfg.maxMembers
  let winners := (top.map Prod.fst).insertionSort (· ≤ ·)
  seatCouncil cfg era winners
    { s with events := s.events ++ top.map fun e => .elected era e.1 e.2 }

/-- `on_initialize`. -/
def onInitialize (n : ℕ) (s : State C) : State C :=
  if wrapAdd blockBits s.currentEra.start cfg.eraDuration ≤ n then
    let newEraIndex := satAdd 32 s.currentEra.index 1
    elect cfg newEraIndex { s with
      currentEra := ⟨newEraIndex, n⟩
      voterRewards := Function.update s.voterRewards s.currentEra.index ∅ }
  else s

end Blocks

/-! ### The system -/

/-- The calls of the pallet. -/
inductive Call (α : Type)
  | startCandidacy
  | stopCandidacy
  | commit (amount : ℕ) (duration : LockDuration) (candidate : α)
  | addFunds (amount : ℕ)
  | unbond
  | withdraw
  | voteCandidate (candidate : α)
  deriving DecidableEq

/-- What can happen next: a signed call, the next block, or an action of another pallet, which
leaves the currency with the state `book`. -/
inductive Input (C : Currency α)
  | signed (who : α) (call : Call α)
  | nextBlock
  | external (book : C.Book)

variable (cfg : Config α)

/-- The result of a signed call. -/
def execute (s : State C) (who : α) : Call α → Except DispatchError (State C)
  | .startCandidacy => startCandidacy cfg who s
  | .stopCandidacy => stopCandidacy who s
  | .commit amount duration candidate => commit cfg who s amount duration candidate
  | .addFunds amount => addFunds cfg who s amount
  | .unbond => unbond who s
  | .withdraw => withdraw who s
  | .voteCandidate candidate => voteCandidate cfg who s candidate

/-- Dispatch a signed call: an error leaves the state as it was. -/
def dispatch (s : State C) (who : α) (call : Call α) : State C :=
  commitOrKeep (execute cfg s who call) s

/-- One step of the system. There is no block after the last number of the block number type. -/
def step (s : State C) : Input C → State C
  | .signed who call => dispatch cfg s who call
  | .nextBlock =>
    if s.block + 1 < 2 ^ blockBits then
      onInitialize cfg (s.block + 1) { s with block := s.block + 1 }
    else s
  | .external book => { s with book }

/-- The state at genesis: the currency is in some state, the pallet's storage has its defaults. -/
def genesis (book : C.Book) : State C where
  block := 0
  book := book
  currentEra := ⟨0, 0⟩
  voterRewards := fun _ => ∅
  commitments := ∅
  members := []
  candidates := ∅
  candidatesCount := 0
  lockedAmount := 0
  events := []
  paid := []

/-! ### What a successful call does -/

section Inversion

variable {cfg} {who : α} {s s' : State C}

theorem getCommitment_eq_ok {c : Commitment α} :
    getCommitment who s = .ok c ↔ s.commitments.lookup who = some c := by
  unfold getCommitment
  split <;> simp_all

theorem commit_eq_ok {amount : ℕ} {duration : LockDuration} {candidate : α} :
    commit cfg who s amount duration candidate = .ok s' ↔
      who ∉ s.commitments ∧ cfg.minLockAmount ≤ amount ∧
      satAdd balanceBits s.lockedAmount amount < cfg.totalLockedCap ∧
      ∃ book, C.withdraw s.book who amount = .ok book ∧
        { s with
          book
          lockedAmount := satAdd balanceBits s.lockedAmount amount
          commitments := s.commitments.insert who ⟨.committed, duration, amount, candidate⟩
        }.depositEvent (.committed who amount) = s' := by
  simp only [commit, require, bind_eq_ok, exists_ensure_eq_ok, mapError_eq_ok, pure, Except.pure,
    Except.ok.injEq]

theorem addFunds_eq_ok {amount : ℕ} :
    addFunds cfg who s amount = .ok s' ↔
      ∃ c, s.commitments.lookup who = some c ∧
      satAdd balanceBits s.lockedAmount amount < cfg.totalLockedCap ∧
      ∃ book, C.withdraw s.book who amount = .ok book ∧ c.amount + amount < 2 ^ balanceBits ∧
        { s with
          book
          lockedAmount := satAdd balanceBits s.lockedAmount amount
          commitments := s.commitments.insert who
            { c with amount := c.amount + amount, state := .committed }
        }.depositEvent (.fundsAdded who amount) = s' := by
  simp only [addFunds, require, bind_eq_ok, exists_ensure_eq_ok, mapError_eq_ok, pure, Except.pure,
    Except.ok.injEq, getCommitment_eq_ok, Nat.zero_le, true_and]
  constructor
  · rintro ⟨-, h⟩
    exact h
  · rintro ⟨c, hc, h⟩
    exact ⟨Finmap.mem_of_lookup_eq_some hc, c, hc, h⟩

theorem unbond_eq_ok :
    unbond who s = .ok s' ↔
      ∃ c, s.commitments.lookup who = some c ∧ c.state = .committed ∧
        { s with
          commitments := s.commitments.insert who { c with state := .unbonding s.block }
        }.depositEvent (.unbondingStarted who c.amount) = s' := by
  simp only [unbond, require, bind_eq_ok, exists_ensure_eq_ok, pure, Except.pure,
    Except.ok.injEq, getCommitment_eq_ok]
  constructor
  · rintro ⟨-, h⟩
    exact h
  · rintro ⟨c, hc, h⟩
    exact ⟨Finmap.mem_of_lookup_eq_some hc, c, hc, h⟩

theorem withdraw_eq_ok :
    withdraw who s = .ok s' ↔
      ∃ c startBlock, s.commitments.lookup who = some c ∧ c.state = .unbonding startBlock ∧
        wrapAdd blockBits startBlock c.duration.period ≤ s.block ∧
        ∃ book, C.depositIntoExisting s.book who c.amount = .ok book ∧
          { s with
            book
            commitments := s.commitments.erase who
            lockedAmount := s.lockedAmount - c.amount
          }.depositEvent (.bondWithdrawn who c.amount) = s' := by
  simp only [withdraw, require, bind_eq_ok, exists_ensure_eq_ok, getCommitment_eq_ok]
  constructor
  · rintro ⟨-, c, hc, hne, h⟩
    cases hst : c.state with
    | committed => exact absurd hst hne
    | unbonding startBlock =>
      simp only [hst] at h
      split at h
      · next hle =>
        simp only [bind_eq_ok, mapError_eq_ok, pure, Except.pure, Except.ok.injEq] at h
        exact ⟨c, startBlock, hc, hst, hle, h⟩
      · cases h
  · rintro ⟨c, startBlock, hc, hst, hle, h⟩
    refine ⟨Finmap.mem_of_lookup_eq_some hc, c, hc, by simp [hst], ?_⟩
    simp only [hst, if_pos hle, bind_eq_ok, mapError_eq_ok, pure, Except.pure, Except.ok.injEq]
    exact h

theorem startCandidacy_eq_ok :
    startCandidacy cfg who s = .ok s' ↔
      who ∉ s.candidates ∧ s.candidatesCount < cfg.maxCandidates ∧
      ∃ book, C.reserve s.book who cfg.candidacyDeposit = .ok book ∧
        { s with
          book
          candidates := s.candidates.insert who cfg.candidacyDeposit
          candidatesCount := satAdd 32 s.candidatesCount 1
        }.depositEvent (.candidateAdded who) = s' := by
  simp only [startCandidacy, require, bind_eq_ok, exists_ensure_eq_ok, mapError_eq_ok, pure,
    Except.pure, Except.ok.injEq]

theorem stopCandidacy_eq_ok :
    stopCandidacy who s = .ok s' ↔
      who ∈ s.candidates ∧ binarySearch s.members who = none ∧
        { s with
          book := (C.unreserve s.book who ((s.candidates.lookup who).getD 0)).1
          candidates := s.candidates.erase who
          candidatesCount := s.candidatesCount - 1
        }.depositEvent (.candidateRemoved who) = s' := by
  simp only [stopCandidacy, require, bind_eq_ok, exists_ensure_eq_ok, pure, Except.pure,
    Except.ok.injEq]

/-- A successful reward step pays nothing, or one voter reward that was not paid this era. -/
theorem rewardVoter_eq_ok {c : Commitment α} :
    rewardVoter cfg who s c = .ok s' ↔
      (¬ (0 < eraVoterReward cfg c ∧ who ∉ s.voterRewards s.currentEra.index) ∧ s = s') ∨
      ((0 < eraVoterReward cfg c ∧ who ∉ s.voterRewards s.currentEra.index) ∧
        ∃ book, C.depositIntoExisting s.book who (eraVoterReward cfg c) = .ok book ∧
          { s with
            book
            voterRewards := Function.update s.voterRewards s.currentEra.index
              ((s.voterRewards s.currentEra.index).insert who (eraVoterReward cfg c))
            paid := s.paid ++ [Payout.mk s.currentEra.index who (eraVoterReward cfg c) false]
          }.depositEvent
            (.voterRewarded s.currentEra.index who (eraVoterReward cfg c)) = s') := by
  simp only [rewardVoter]
  split
  · next h => simp [h, bind_eq_ok, mapError_eq_ok, pure, Except.pure]
  · next h => simp [h, pure, Except.pure]

theorem voteCandidate_eq_ok {candidate : α} :
    voteCandidate cfg who s candidate = .ok s' ↔
      ∃ c, s.commitments.lookup who = some c ∧ c.state = .committed ∧
        rewardVoter cfg who (setVote who s c candidate) { c with candidate } = .ok s' := by
  simp only [voteCandidate, require, bind_eq_ok, exists_ensure_eq_ok, getCommitment_eq_ok]
  constructor
  · rintro ⟨-, h⟩
    exact h
  · rintro ⟨c, hc, h⟩
    exact ⟨Finmap.mem_of_lookup_eq_some hc, c, hc, h⟩

end Inversion

/-! ### What elections and rewards leave alone -/

/-- The part of the state that says who has locked what, and since when. -/
structure Locks (α : Type) where
  block : ℕ
  commitments : Finmap fun _ : α => Commitment α
  lockedAmount : ℕ

/-- The locks of a state. -/
def State.locks (s : State C) : Locks α := ⟨s.block, s.commitments, s.lockedAmount⟩

omit [LinearOrder α] in
theorem rewardWinner_locks (era reward : ℕ) (s : State C) (winner : α) :
    (rewardWinner era reward s winner).locks = s.locks := by
  unfold rewardWinner
  split <;> rfl

omit [LinearOrder α] in
theorem foldl_rewardWinner_locks (era reward : ℕ) (winners : List α) (s : State C) :
    (winners.foldl (rewardWinner era reward) s).locks = s.locks := by
  induction winners generalizing s with
  | nil => rfl
  | cons w winners ih => rw [List.foldl_cons, ih, rewardWinner_locks]

/-- An election seats and pays the council and touches no lock. -/
theorem onInitialize_locks (n : ℕ) (s : State C) : (onInitialize cfg n s).locks = s.locks := by
  unfold onInitialize
  split
  · simp only [elect, seatCouncil]
    split
    · rfl
    · split
      · rw [foldl_rewardWinner_locks]
        rfl
      · rfl
  · rfl

variable {cfg}

/-- A voter reward touches no lock. -/
theorem rewardVoter_locks {who : α} {s s' : State C} {c : Commitment α}
    (h : rewardVoter cfg who s c = .ok s') : s'.locks = s.locks := by
  obtain ⟨-, rfl⟩ | ⟨-, book, -, rfl⟩ := rewardVoter_eq_ok.mp h
  · rfl
  · rfl

/-- A successful vote rewrites the candidate of the commitment and touches no other lock. -/
theorem voteCandidate_locks {who candidate : α} {s s' : State C}
    (h : voteCandidate cfg who s candidate = .ok s') :
    ∃ c, s.commitments.lookup who = some c ∧
      s'.locks = ⟨s.block, s.commitments.insert who { c with candidate }, s.lockedAmount⟩ := by
  obtain ⟨c, hc, -, h⟩ := voteCandidate_eq_ok.mp h
  refine ⟨c, hc, ?_⟩
  rw [rewardVoter_locks h]
  unfold setVote
  split
  · rfl
  · next hcand =>
    -- the candidate is the one voted for already, so the rewritten commitment is the old one
    obtain rfl : c.candidate = candidate := not_not.mp hcand
    change s.locks = ⟨s.block, s.commitments.insert who c, s.lockedAmount⟩
    rw [FiniteMap.insert_of_lookup hc]
    rfl

end Poc
end Reef
