import Mathlib.Data.Finmap
import ReefChain.Ledger
import ReefChain.Staking.Spans
import ReefChain.Staking.StakingLedger

/-!
# The state of the staking pallet

The storage of the pallet is kept in groups: who is bonded and with which ledger and role (`State`
itself), the eras (`Eras`), the offences (`Offences`) and what governance sets (`Settings`). Beside
it stand the parts of other pallets that the pallet reads and writes: the native currency with the
lock that the pallet puts on it, the consumer references of `frame_system`, and the validators of
the session.

A storage map is a function into `Option`; the maps of validators and of nominators, whose sizes are
read, are finite maps. Eras, sessions and reward points are `u32`: natural numbers that wrap around,
saturate or fail where the source adds them in this way. Balances are `u128` in the source and
natural numbers here: the sums of the pallet are taken to fit, as the issuance does.

The functions here are those which the calls, the sessions and the slashing share: writing a ledger,
which moves the lock with it, taking up and giving up a role, and removing a stash.
-/

namespace Reef.Staking

/-- `Percent`: a fraction with denominator 100, at most one. -/
structure Percent where
  parts : ℕ
  parts_le : parts ≤ 100

/-- `Percent * b`: the product rounded to the nearest integer, ties downwards. -/
def Percent.mul (r : Percent) (b : ℕ) : ℕ := (2 * (r.parts * b) + 99) / 200

/-- `Percent::mul_floor`. -/
def Percent.mulFloor (r : Percent) (b : ℕ) : ℕ := r.parts * b / 100

/-- `Error`. -/
inductive Error
  | notController
  | notStash
  | alreadyBonded
  | alreadyPaired
  | emptyTargets
  | invalidSlashIndex
  | insufficientBond
  | noMoreChunks
  | noUnlockChunk
  | fundedTarget
  | invalidEraToReward
  | notSortedAndUnique
  | alreadyClaimed
  | incorrectSlashingSpans
  | badState
  | tooManyTargets
  | badTarget
  | cannotChillOther
  | tooManyNominators
  | tooManyValidators
  | commissionTooLow
  | boundNotMet
  deriving DecidableEq, Repr

/-- The errors of a call. -/
inductive Failure
  | module (e : Error)
  | overflow
  | insufficientBalance
  | badOrigin
  deriving DecidableEq, Repr

/-- `RewardDestination`. -/
inductive RewardDestination (α : Type)
  | staked
  | stash
  | controller
  | account (dest : α)
  | none
  deriving DecidableEq, Repr

/-- `ValidatorPrefs`. -/
structure ValidatorPrefs where
  commission : Perbill
  blocked : Bool

/-- `ValidatorPrefs::default`. -/
def ValidatorPrefs.default : ValidatorPrefs := ⟨.fromPercent 0, false⟩

/-- `Nominations`. -/
structure Nominations (α : Type) where
  targets : List α
  submittedIn : ℕ
  suppressed : Bool
  deriving DecidableEq, Repr

/-- `IndividualExposure`. -/
structure IndividualExposure (α : Type) where
  who : α
  value : ℕ
  deriving DecidableEq, Repr

/-- `Exposure`: the stake behind a validator. -/
structure Exposure (α : Type) where
  total : ℕ
  own : ℕ
  others : List (IndividualExposure α)
  deriving DecidableEq, Repr

/-- `Exposure::default`. -/
def Exposure.empty {α : Type} : Exposure α := ⟨0, 0, []⟩

/-- `UnappliedSlash`. -/
structure UnappliedSlash (α : Type) where
  validator : α
  own : ℕ
  others : List (α × ℕ)
  reporters : List α
  payout : ℕ
  deriving DecidableEq, Repr

/-- `Forcing`. -/
inductive Forcing
  | notForcing
  | forceNew
  | forceNone
  | forceAlways
  deriving DecidableEq, Repr

/-- `ActiveEraInfo`. -/
structure ActiveEraInfo where
  index : ℕ
  start : Option ℕ
  deriving DecidableEq, Repr

/-- `EraRewardPoints`. -/
structure EraRewardPoints (α : Type) where
  total : ℕ
  individual : α → ℕ

/-- `EraRewardPoints::default`. -/
def EraRewardPoints.empty {α : Type} : EraRewardPoints α := ⟨0, fun _ => 0⟩

/-- `DisableStrategy`. -/
inductive DisableStrategy
  | never
  | whenSlashed
  | always
  deriving DecidableEq, Repr

/-- The origin of a call. -/
inductive Origin (α : Type)
  | root
  | council
  | signed (who : α)
  deriving DecidableEq, Repr

/-- The configuration of the pallet, with the two conditions that `integrity_test` asserts. The
payout of an era, the conversion of votes and what the currency makes of a lock of nothing are
parameters. -/
structure Config where
  /-- `Currency::minimum_balance`. -/
  minimumBalance : ℕ
  maxConsumers : ℕ
  maxNominations : ℕ
  historyDepth : ℕ
  sessionsPerEra : ℕ
  bondingDuration : ℕ
  slashDeferDuration : ℕ
  maxNominatorRewardedPerValidator : ℕ
  maxUnlockingChunks : ℕ
  /-- `ElectionProviderBase::MaxWinners`. -/
  maxWinners : ℕ
  offendingValidatorsThreshold : Perbill
  /-- `EraPayout::era_payout` of stake, issuance and duration. -/
  eraPayout : ℕ → ℕ → ℕ → ℕ × ℕ
  /-- `CurrencyToVote::to_currency` of a vote, for an issuance. -/
  toCurrency : ℕ → ℕ → ℕ
  /-- Whether `Currency::set_lock` with an amount of zero removes the lock. If not, it leaves the
  lock as it is. -/
  clearsZeroLock : Bool
  maxNominations_pos : 0 < maxNominations
  defer_lt : slashDeferDuration < bondingDuration ∨ bondingDuration = 0

/-- The constants of the runtime. -/
def runtimeConfig (eraPayout : ℕ → ℕ → ℕ → ℕ × ℕ) (toCurrency : ℕ → ℕ → ℕ)
    (clearsZeroLock : Bool) : Config where
  minimumBalance := 1
  maxConsumers := 16
  maxNominations := 16
  historyDepth := 84
  sessionsPerEra := 24
  bondingDuration := 28
  slashDeferDuration := 27
  maxNominatorRewardedPerValidator := 64
  maxUnlockingChunks := 32
  maxWinners := 1000
  offendingValidatorsThreshold := .fromPercent 17
  eraPayout := eraPayout
  toCurrency := toCurrency
  clearsZeroLock := clearsZeroLock
  maxNominations_pos := by omega
  defer_lt := by omega

/-! ### The state -/

/-- The storage about eras. -/
structure Eras (α : Type) where
  /-- `CurrentEra`, the latest planned era. -/
  current : Option ℕ
  /-- `ActiveEra`. -/
  active : Option ActiveEraInfo
  /-- `ErasStartSessionIndex`. -/
  startSession : ℕ → Option ℕ
  /-- `ErasStakers`. -/
  stakers : ℕ → α → Exposure α
  /-- `ErasStakersClipped`. -/
  stakersClipped : ℕ → α → Exposure α
  /-- `ErasValidatorPrefs`. -/
  validatorPrefs : ℕ → α → ValidatorPrefs
  /-- `ErasValidatorReward`. -/
  validatorReward : ℕ → Option ℕ
  /-- `ErasRewardPoints`. -/
  rewardPoints : ℕ → EraRewardPoints α
  /-- `ErasTotalStake`. -/
  totalStake : ℕ → ℕ
  /-- `ForceEra`. -/
  force : Forcing
  /-- `CurrentPlannedSession`. -/
  plannedSession : ℕ
  /-- `BondedEras`: the eras of the bonding period with their first sessions. -/
  bonded : List (ℕ × ℕ)

/-- The storage about offences. -/
structure Offences (α : Type) where
  /-- `SlashRewardFraction`. -/
  rewardFraction : Perbill
  /-- `Invulnerables`. -/
  invulnerables : List α
  /-- `UnappliedSlashes`. -/
  unapplied : ℕ → List (UnappliedSlash α)
  /-- `ValidatorSlashInEra`. -/
  validatorInEra : ℕ → α → Option (Perbill × ℕ)
  /-- `NominatorSlashInEra`. -/
  nominatorInEra : ℕ → α → Option ℕ
  /-- `SlashingSpans` and `SpanSlash`. -/
  books : α → Book
  /-- `OffendingValidators`. -/
  offending : List (ℕ × Bool)

/-- What governance sets. -/
structure Settings where
  validatorCount : ℕ
  minimumValidatorCount : ℕ
  minNominatorBond : ℕ
  minValidatorBond : ℕ
  minCommission : Perbill
  maxValidatorsCount : Option ℕ
  maxNominatorsCount : Option ℕ
  chillThreshold : Option Percent

/-- The native currency: balances, the lock under `STAKING_ID`, and the issuance. -/
structure Native (α : Type) where
  balances : Ledger α
  lock : α → ℕ
  issuance : ℕ

/-- The reference counters of `frame_system`. -/
structure Refs where
  providers : ℕ
  consumers : ℕ
  deriving DecidableEq, Repr

/-- The validators of the session, and the positions of the disabled ones. -/
structure Session (α : Type) where
  validators : List α
  disabled : List ℕ

/-- The storage of the pallet, and the parts of other pallets that it reads and writes. -/
structure State (α : Type) where
  /-- `Bonded`, from stash to controller. -/
  bonded : α → Option α
  /-- `Ledger`, by controller. -/
  ledger : α → Option (StakingLedger α)
  /-- `Payee`, by stash. -/
  payee : α → RewardDestination α
  /-- `Validators`, by stash. -/
  validators : Finmap fun _ : α => ValidatorPrefs
  /-- `Nominators`, by stash. -/
  nominators : Finmap fun _ : α => Nominations α
  /-- `VoterList`. -/
  voterList : List α
  eras : Eras α
  offences : Offences α
  settings : Settings
  native : Native α
  refs : α → Refs
  session : Session α

namespace State

variable {α : Type} [DecidableEq α]

/-- `Validators::get`, with the default for one that is not there. -/
def prefsOf (s : State α) (who : α) : ValidatorPrefs := (s.validators.lookup who).getD .default

/-- `Currency::free_balance`. -/
def freeBalance (s : State α) (who : α) : ℕ := s.native.balances.free who

/-- `Currency::total_balance`. -/
def totalBalance (s : State α) (who : α) : ℕ := s.native.balances.total who

/-- The locks after `set_lock` with `STAKING_ID`. -/
def lockSet (cfg : Config) (lock : α → ℕ) (who : α) (amount : ℕ) : α → ℕ :=
  if amount = 0 ∧ cfg.clearsZeroLock = false then lock else Function.update lock who amount

/-- A lock that is set is the amount, unless the currency passes over a lock of nothing. -/
theorem lockSet_self (cfg : Config) (lock : α → ℕ) (who : α) (amount : ℕ) :
    lockSet cfg lock who amount who = amount ∨ (amount = 0 ∧ cfg.clearsZeroLock = false) := by
  unfold lockSet
  split
  · next hzero => exact .inr hzero
  · exact .inl (Function.update_self _ _ _)

/-- The locks of others stay. -/
theorem lockSet_of_ne (cfg : Config) (lock : α → ℕ) {who other : α} (h : other ≠ who)
    (amount : ℕ) : lockSet cfg lock who amount other = lock other := by
  unfold lockSet
  split
  · rfl
  · exact Function.update_of_ne h _ _

/-- `Currency::set_lock` with `STAKING_ID`. -/
def setLock (cfg : Config) (s : State α) (who : α) (amount : ℕ) : State α :=
  { s with native := { s.native with lock := lockSet cfg s.native.lock who amount } }

/-- `Currency::remove_lock` with `STAKING_ID`. -/
def removeLock (s : State α) (who : α) : State α :=
  { s with native := { s.native with lock := Function.update s.native.lock who 0 } }

/-- `Pallet::update_ledger`. -/
def updateLedger (cfg : Config) (s : State α) (controller : α) (l : StakingLedger α) : State α :=
  { s.setLock cfg l.stash l.total with ledger := Function.update s.ledger controller (some l) }

/-- `frame_system::inc_consumers`. -/
def incConsumers (cfg : Config) (s : State α) (who : α) : Option (State α) :=
  if 0 < (s.refs who).providers ∧ (s.refs who).consumers < cfg.maxConsumers then
    some { s with
      refs := Function.update s.refs who ⟨(s.refs who).providers, (s.refs who).consumers + 1⟩ }
  else none

/-- `frame_system::dec_consumers`. -/
def decConsumers (s : State α) (who : α) : State α :=
  { s with
    refs := Function.update s.refs who ⟨(s.refs who).providers, (s.refs who).consumers - 1⟩ }

/-! ### Roles -/

/-- `VoterList::on_insert`; a voter that is there is not inserted again. -/
def voterInsert (voters : List α) (who : α) : List α :=
  if who ∈ voters then voters else voters ++ [who]

/-- `Pallet::do_add_nominator`. -/
def doAddNominator (s : State α) (who : α) (nominations : Nominations α) : State α :=
  { s with
    voterList := if who ∈ s.nominators then s.voterList else voterInsert s.voterList who
    nominators := s.nominators.insert who nominations }

/-- `Pallet::do_remove_nominator`. -/
def doRemoveNominator (s : State α) (who : α) : State α :=
  if who ∈ s.nominators then
    { s with nominators := s.nominators.erase who, voterList := s.voterList.erase who }
  else s

/-- `Pallet::do_add_validator`. -/
def doAddValidator (s : State α) (who : α) (prefs : ValidatorPrefs) : State α :=
  { s with
    voterList := if who ∈ s.validators then s.voterList else voterInsert s.voterList who
    validators := s.validators.insert who prefs }

/-- `Pallet::do_remove_validator`. -/
def doRemoveValidator (s : State α) (who : α) : State α :=
  if who ∈ s.validators then
    { s with validators := s.validators.erase who, voterList := s.voterList.erase who }
  else s

/-- `Pallet::chill_stash`. -/
def chillStash (s : State α) (stash : α) : State α :=
  (s.doRemoveValidator stash).doRemoveNominator stash

/-! ### Removing a stash -/

/-- Write the slashing record of a stash. -/
def setBook (s : State α) (stash : α) (book : Book) : State α :=
  { s with offences := { s.offences with books := Function.update s.offences.books stash book } }

/-- `SlashingSpans::iter().count()` of what is stored for an account. -/
def spansCount (s : State α) (who : α) : ℕ :=
  (s.offences.books who).spans.elim 0 fun spans => spans.iter.length

/-- `slashing::clear_stash_metadata`. -/
def clearStashMetadata (s : State α) (stash : α) (numSlashingSpans : ℕ) :
    Except Failure (State α) := do
  Fallible.ensure (s.spansCount stash ≤ numSlashingSpans) (.module .incorrectSlashingSpans)
  pure (s.setBook stash (s.offences.books stash).clear)

/-- `Pallet::kill_stash`. -/
def killStash (s : State α) (stash : α) (numSlashingSpans : ℕ) : Except Failure (State α) := do
  let controller ← Fallible.okOr (s.bonded stash) (.module .notStash)
  let s ← s.clearStashMetadata stash numSlashingSpans
  let s := { s with
    bonded := Function.update s.bonded stash none
    ledger := Function.update s.ledger controller none
    payee := Function.update s.payee stash .staked }
  pure (((s.doRemoveValidator stash).doRemoveNominator stash).decConsumers stash)

end State

end Reef.Staking
