import ReefChain.Lib.Run
import ReefChain.Staking.Sessions

/-!
# The calls of the staking pallet

The calls, and the operations a run of the pallet is made of: the calls with their origins, what the
session pallet, the offence pallet and the block author have it do, and transfers of the native
token, which respect the lock. A call that fails leaves the state as it was.
-/

namespace Reef.Staking

variable {α : Type} [DecidableEq α]

open Fallible

/-- `ensure_signed`. -/
def ensureSigned : Origin α → Except Failure α
  | .signed who => .ok who
  | _ => .error .badOrigin

/-- `ensure_root`. -/
def ensureRoot : Origin α → Except Failure Unit
  | .root => .ok ()
  | _ => .error .badOrigin

/-- `AdminOrigin::ensure_origin`: root or the technical council. -/
def ensureAdmin : Origin α → Except Failure Unit
  | .root | .council => .ok ()
  | .signed _ => .error .badOrigin

/-- `Pallet::ledger`, or the error that the account is no controller. -/
def ledgerOf (s : State α) (controller : α) : Except Failure (StakingLedger α) :=
  okOr (s.ledger controller) (.module .notController)

/-- `Pallet::bonded`, or the error that the account is no stash. -/
def bondedOf (s : State α) (stash : α) : Except Failure α :=
  okOr (s.bonded stash) (.module .notStash)

/-! ### Bonding -/

/-- The call `bond`. -/
def bond (cfg : Config) (s : State α) (origin : Origin α) (value : ℕ)
    (payee : RewardDestination α) : Except Failure (State α) := do
  let stash ← ensureSigned origin
  ensure ((s.bonded stash).isNone) (.module .alreadyBonded)
  ensure ((s.ledger stash).isNone) (.module .alreadyPaired)
  ensure (cfg.minimumBalance ≤ value) (.module .insufficientBond)
  let s ← okOr (s.incConsumers cfg stash) (.module .badState)
  let currentEra := s.eras.current.getD 0
  let lastRewardEra := currentEra - cfg.historyDepth
  let value := min value (s.freeBalance stash)
  let claimed := List.range' lastRewardEra (currentEra - lastRewardEra)
  ensure (claimed.length ≤ cfg.historyDepth) (.module .boundNotMet)
  let s := { s with
    bonded := Function.update s.bonded stash (some stash)
    payee := Function.update s.payee stash payee }
  pure (s.updateLedger cfg stash ⟨stash, value, value, [], claimed⟩)

/-- The call `bond_extra`. -/
def bondExtra (cfg : Config) (s : State α) (origin : Origin α) (maxAdditional : ℕ) :
    Except Failure (State α) := do
  let stash ← ensureSigned origin
  let controller ← bondedOf s stash
  let ledger ← ledgerOf s controller
  if ledger.total ≤ s.freeBalance stash then
    let extra := min (s.freeBalance stash - ledger.total) maxAdditional
    ensure (cfg.minimumBalance ≤ ledger.active + extra) (.module .insufficientBond)
    pure (s.updateLedger cfg controller
      { ledger with total := ledger.total + extra, active := ledger.active + extra })
  else pure s

/-- `Pallet::do_withdraw_unbonded`. -/
def doWithdrawUnbonded (cfg : Config) (s : State α) (controller : α) (numSlashingSpans : ℕ) :
    Except Failure (State α) := do
  let ledger ← ledgerOf s controller
  let ledger := s.eras.current.elim ledger ledger.consolidateUnlocked
  if ledger.unlocking = [] ∧ ledger.active < cfg.minimumBalance then
    let s ← s.killStash ledger.stash numSlashingSpans
    pure (s.removeLock ledger.stash)
  else pure (s.updateLedger cfg controller ledger)

/-- The smallest active bond of a role. -/
def minActiveBond (s : State α) (stash : α) : ℕ :=
  if stash ∈ s.nominators then s.settings.minNominatorBond
  else if stash ∈ s.validators then s.settings.minValidatorBond
  else 0

/-- The queue of chunks with one more; there is one chunk for an era only. -/
def pushChunk (cfg : Config) (chunks : List UnlockChunk) (value era : ℕ) :
    Except Failure (List UnlockChunk) :=
  match chunks.getLast? with
  | some last =>
    if last.era = era then .ok (chunks.dropLast ++ [⟨last.value + value, era⟩])
    else if chunks.length < cfg.maxUnlockingChunks then .ok (chunks ++ [⟨value, era⟩])
    else .error (.module .noMoreChunks)
  | none =>
    if chunks.length < cfg.maxUnlockingChunks then .ok (chunks ++ [⟨value, era⟩])
    else .error (.module .noMoreChunks)

/-- What is left active when `value` is unbonded: nothing rather than dust. -/
def remainingActive (cfg : Config) (active value : ℕ) : ℕ :=
  if active - value < cfg.minimumBalance then 0 else active - value

/-- The call `unbond`. If there is no room for a chunk, unlocked chunks are withdrawn first. -/
def unbond (cfg : Config) (s : State α) (origin : Origin α) (value : ℕ) :
    Except Failure (State α) := do
  let controller ← ensureSigned origin
  let ledger ← ledgerOf s controller
  let s ←
    if ledger.unlocking.length = cfg.maxUnlockingChunks then
      doWithdrawUnbonded cfg s controller (s.spansCount controller)
    else pure s
  let ledger ← ledgerOf s controller
  let value := min value ledger.active
  ensure (ledger.unlocking.length < cfg.maxUnlockingChunks) (.module .noMoreChunks)
  if value = 0 then pure s
  else
    let active := remainingActive cfg ledger.active value
    ensure (minActiveBond s ledger.stash ≤ active) (.module .insufficientBond)
    let era := Bounded.wrapAdd 32 (s.eras.current.getD 0) cfg.bondingDuration
    let unlocking ← pushChunk cfg ledger.unlocking (ledger.active - active) era
    pure (s.updateLedger cfg controller { ledger with active := active, unlocking := unlocking })

/-- The call `withdraw_unbonded`. -/
def withdrawUnbonded (cfg : Config) (s : State α) (origin : Origin α) (numSlashingSpans : ℕ) :
    Except Failure (State α) := do
  let controller ← ensureSigned origin
  doWithdrawUnbonded cfg s controller numSlashingSpans

/-- The call `rebond`. -/
def rebond (cfg : Config) (s : State α) (origin : Origin α) (value : ℕ) :
    Except Failure (State α) := do
  let controller ← ensureSigned origin
  let ledger ← ledgerOf s controller
  ensure (ledger.unlocking ≠ []) (.module .noUnlockChunk)
  let ledger := (ledger.rebond value).1
  ensure (cfg.minimumBalance ≤ ledger.active) (.module .insufficientBond)
  pure (s.updateLedger cfg controller ledger)

/-- The call `set_payee`. -/
def setPayee (s : State α) (origin : Origin α) (payee : RewardDestination α) :
    Except Failure (State α) := do
  let controller ← ensureSigned origin
  let ledger ← ledgerOf s controller
  pure { s with payee := Function.update s.payee ledger.stash payee }

/-- The call `set_controller`. -/
def setController (s : State α) (origin : Origin α) : Except Failure (State α) := do
  let stash ← ensureSigned origin
  let oldController ← bondedOf s stash
  ensure ((s.ledger stash).isNone) (.module .alreadyPaired)
  if oldController = stash then pure s
  else
    pure { s with
      bonded := Function.update s.bonded stash (some stash)
      ledger := match s.ledger oldController with
        | some l => Function.update (Function.update s.ledger oldController none) stash (some l)
        | none => s.ledger }

/-- The call `force_unstake`. -/
def forceUnstake (s : State α) (origin : Origin α) (stash : α) (numSlashingSpans : ℕ) :
    Except Failure (State α) := do
  ensureRoot origin
  let s ← s.killStash stash numSlashingSpans
  pure (s.removeLock stash)

/-- Whether a stash may be reaped. -/
def reapable (cfg : Config) (s : State α) (stash : α) : Except Failure Bool :=
  if s.totalBalance stash < cfg.minimumBalance then .ok true
  else do
    let controller ← bondedOf s stash
    pure (((s.ledger controller).elim 0 StakingLedger.total) < cfg.minimumBalance)

/-- The call `reap_stash`. -/
def reapStash (cfg : Config) (s : State α) (origin : Origin α) (stash : α)
    (numSlashingSpans : ℕ) : Except Failure (State α) := do
  let _ ← ensureSigned origin
  let dust ← reapable cfg s stash
  ensure (dust = true) (.module .fundedTarget)
  let s ← s.killStash stash numSlashingSpans
  pure (s.removeLock stash)

/-! ### Roles -/

/-- There is room for one more in a counted map, unless the account is there already. -/
def hasRoom {β : Type} (map : Finmap fun _ : α => β) (max : Option ℕ) (who : α) : Prop :=
  who ∈ map ∨ ∀ bound ∈ max, map.keys.card < bound

instance {β : Type} (map : Finmap fun _ : α => β) (max : Option ℕ) (who : α) :
    Decidable (hasRoom map max who) :=
  inferInstanceAs (Decidable (_ ∨ _))

/-- The call `validate`. -/
def validate (s : State α) (origin : Origin α) (prefs : ValidatorPrefs) :
    Except Failure (State α) := do
  let controller ← ensureSigned origin
  let ledger ← ledgerOf s controller
  ensure (s.settings.minValidatorBond ≤ ledger.active) (.module .insufficientBond)
  ensure (s.settings.minCommission.parts ≤ prefs.commission.parts) (.module .commissionTooLow)
  ensure (hasRoom s.validators s.settings.maxValidatorsCount ledger.stash)
    (.module .tooManyValidators)
  pure ((s.doRemoveNominator ledger.stash).doAddValidator ledger.stash prefs)

/-- The call `nominate`. -/
def nominate (cfg : Config) (s : State α) (origin : Origin α) (targets : List α) :
    Except Failure (State α) := do
  let controller ← ensureSigned origin
  let ledger ← ledgerOf s controller
  ensure (s.settings.minNominatorBond ≤ ledger.active) (.module .insufficientBond)
  ensure (hasRoom s.nominators s.settings.maxNominatorsCount ledger.stash)
    (.module .tooManyNominators)
  ensure (targets ≠ []) (.module .emptyTargets)
  ensure (targets.length ≤ cfg.maxNominations) (.module .tooManyTargets)
  let old := ((s.nominators.lookup ledger.stash).map Nominations.targets).getD []
  ensure (∀ target ∈ targets, target ∈ old ∨ (s.prefsOf target).blocked = false)
    (.module .badTarget)
  pure ((s.doRemoveValidator ledger.stash).doAddNominator ledger.stash
    ⟨targets, s.eras.current.getD 0, false⟩)

/-- The call `chill`. -/
def chill (s : State α) (origin : Origin α) : Except Failure (State α) := do
  let controller ← ensureSigned origin
  let ledger ← ledgerOf s controller
  pure (s.chillStash ledger.stash)

/-- Whether the number of accounts in a role has passed the threshold for chilling others. -/
def crowded (threshold : Percent) (count : ℕ) (max : Option ℕ) : Except Failure Unit := do
  let max ← okOr max (.module .cannotChillOther)
  ensure (threshold.mul max < count) (.module .cannotChillOther)

/-- The call `chill_other`. Nominations are always decodable here. -/
def chillOther (s : State α) (origin : Origin α) (controller : α) : Except Failure (State α) := do
  let caller ← ensureSigned origin
  let ledger ← ledgerOf s controller
  if caller = controller then pure (s.chillStash ledger.stash)
  else
    let threshold ← okOr s.settings.chillThreshold (.module .cannotChillOther)
    if ledger.stash ∈ s.nominators then
      crowded threshold s.nominators.keys.card s.settings.maxNominatorsCount
    else if ledger.stash ∈ s.validators then
      crowded threshold s.validators.keys.card s.settings.maxValidatorsCount
    ensure (ledger.active < minActiveBond s ledger.stash) (.module .cannotChillOther)
    pure (s.chillStash ledger.stash)

/-- `swap_remove` of the first occurrence: the last element takes its place. -/
def swapRemove (targets : List α) (who : α) : List α :=
  match targets.findIdx? (· = who) with
  | none => targets
  | some i =>
    match targets.getLast? with
    | none => targets
    | some last => (targets.set i last).dropLast

/-- One nominator of `kick`. -/
def kickNominator (stash : α) (s : State α) (who : α) : State α :=
  match s.nominators.lookup who with
  | none => s
  | some nominations =>
    let kept := { nominations with targets := swapRemove nominations.targets stash }
    { s with nominators := s.nominators.insert who kept }

/-- The call `kick`. -/
def kick (s : State α) (origin : Origin α) (who : List α) : Except Failure (State α) := do
  let controller ← ensureSigned origin
  let ledger ← ledgerOf s controller
  pure (who.foldl (kickNominator ledger.stash) s)

/-- The call `force_apply_min_commission`. -/
def forceApplyMinCommission (s : State α) (origin : Origin α) (stash : α) :
    Except Failure (State α) := do
  let _ ← ensureSigned origin
  let prefs ← okOr (s.validators.lookup stash) (.module .notStash)
  let raised := { prefs with commission := s.settings.minCommission }
  if prefs.commission.parts < s.settings.minCommission.parts then
    pure { s with validators := s.validators.insert stash raised }
  else pure s

/-! ### Governance -/

/-- `ConfigOp`. -/
inductive ConfigOp (β : Type)
  | noop
  | set (value : β)
  | remove

/-- `config_op_exp` on a value that is zero when it is not set. -/
def ConfigOp.onValue {β : Type} (zero : β) (old : β) : ConfigOp β → β
  | .noop => old
  | .set value => value
  | .remove => zero

/-- `config_op_exp` on an optional value. -/
def ConfigOp.onOption {β : Type} (old : Option β) : ConfigOp β → Option β
  | .noop => old
  | .set value => some value
  | .remove => none

/-- The arguments of `set_staking_configs`. -/
structure StakingConfigs where
  minNominatorBond : ConfigOp ℕ
  minValidatorBond : ConfigOp ℕ
  maxNominatorsCount : ConfigOp ℕ
  maxValidatorsCount : ConfigOp ℕ
  chillThreshold : ConfigOp Percent
  minCommission : ConfigOp Perbill

/-- The settings after `set_staking_configs`. -/
def Settings.configure (t : Settings) (c : StakingConfigs) : Settings :=
  { t with
    minNominatorBond := c.minNominatorBond.onValue 0 t.minNominatorBond
    minValidatorBond := c.minValidatorBond.onValue 0 t.minValidatorBond
    maxNominatorsCount := c.maxNominatorsCount.onOption t.maxNominatorsCount
    maxValidatorsCount := c.maxValidatorsCount.onOption t.maxValidatorsCount
    chillThreshold := c.chillThreshold.onOption t.chillThreshold
    minCommission := c.minCommission.onValue (.fromPercent 0) t.minCommission }

/-- The call `set_staking_configs`. -/
def setStakingConfigs (s : State α) (origin : Origin α) (configs : StakingConfigs) :
    Except Failure (State α) := do
  ensureRoot origin
  pure { s with settings := s.settings.configure configs }

/-- Write `ValidatorCount`, if there can be as many winners. -/
def putValidatorCount (cfg : Config) (s : State α) (count : ℕ) : Except Failure (State α) := do
  ensure (count ≤ cfg.maxWinners) (.module .tooManyValidators)
  pure { s with settings := { s.settings with validatorCount := count } }

/-- The call `set_validator_count`. -/
def setValidatorCount (cfg : Config) (s : State α) (origin : Origin α) (count : ℕ) :
    Except Failure (State α) := do
  ensureRoot origin
  putValidatorCount cfg s count

/-- The call `increase_validator_count`. -/
def increaseValidatorCount (cfg : Config) (s : State α) (origin : Origin α) (additional : ℕ) :
    Except Failure (State α) := do
  ensureRoot origin
  let count ← okOr (Bounded.checkedAdd 32 s.settings.validatorCount additional) .overflow
  putValidatorCount cfg s count

/-- The call `scale_validator_count`. -/
def scaleValidatorCount (cfg : Config) (s : State α) (origin : Origin α) (factor : Percent) :
    Except Failure (State α) := do
  ensureRoot origin
  let old := s.settings.validatorCount
  let count ← okOr (Bounded.checkedAdd 32 old (factor.mulFloor old)) .overflow
  putValidatorCount cfg s count

/-- The calls `force_no_eras`, `force_new_era` and `force_new_era_always`. -/
def forceEras (s : State α) (origin : Origin α) (mode : Forcing) : Except Failure (State α) := do
  ensureRoot origin
  pure (s.setForceEra mode)

/-- The call `set_invulnerables`. -/
def setInvulnerables (s : State α) (origin : Origin α) (invulnerables : List α) :
    Except Failure (State α) := do
  ensureRoot origin
  pure { s with offences := { s.offences with invulnerables := invulnerables } }

/-- The call `set_min_commission`. -/
def setMinCommission (s : State α) (origin : Origin α) (commission : Perbill) :
    Except Failure (State α) := do
  ensureAdmin origin
  pure { s with settings := { s.settings with minCommission := commission } }

/-- `is_sorted_and_unique`. -/
def isSortedAndUnique (list : List ℕ) : Bool :=
  (list.zip list.tail).all fun pair => pair.1 < pair.2

/-- The loop of `cancel_deferred_slash`: remove at the indices, each reduced by the number of those
removed before. -/
def cancelSlashes {β : Type} : List ℕ → ℕ → List β → List β
  | [], _, unapplied => unapplied
  | index :: indices, removed, unapplied =>
    cancelSlashes indices (removed + 1) (unapplied.eraseIdx (index - removed))

/-- The call `cancel_deferred_slash`. -/
def cancelDeferredSlash (s : State α) (origin : Origin α) (era : ℕ) (indices : List ℕ) :
    Except Failure (State α) := do
  ensureAdmin origin
  ensure (indices ≠ []) (.module .emptyTargets)
  ensure (isSortedAndUnique indices = true) (.module .notSortedAndUnique)
  let unapplied := s.offences.unapplied era
  ensure (∀ last ∈ indices.getLast?, last < unapplied.length)
    (.module .invalidSlashIndex)
  pure { s with
    offences := { s.offences with
      unapplied := Function.update s.offences.unapplied era
        (cancelSlashes indices 0 unapplied) } }

/-- The call `payout_stakers`. -/
def payoutStakers (cfg : Config) (s : State α) (origin : Origin α) (stash : α) (era : ℕ) :
    Except Failure (State α) := do
  let _ ← ensureSigned origin
  doPayoutStakers cfg s stash era

/-! ### Runs -/

/-- A transfer of free balance; what is locked stays. -/
def transfer (s : State α) (source dest : α) (value : ℕ) : Except Failure (State α) := do
  ensure (s.native.lock source + value ≤ s.freeBalance source) .insufficientBalance
  match s.native.balances.transfer source dest value with
  | .ok balances => pure { s with native := { s.native with balances := balances } }
  | .error _ => .error .insufficientBalance

/-- The operations of a run. -/
inductive Operation (α : Type)
  | bond (origin : Origin α) (value : ℕ) (payee : RewardDestination α)
  | bondExtra (origin : Origin α) (maxAdditional : ℕ)
  | unbond (origin : Origin α) (value : ℕ)
  | withdrawUnbonded (origin : Origin α) (numSlashingSpans : ℕ)
  | rebond (origin : Origin α) (value : ℕ)
  | setPayee (origin : Origin α) (payee : RewardDestination α)
  | setController (origin : Origin α)
  | forceUnstake (origin : Origin α) (stash : α) (numSlashingSpans : ℕ)
  | reapStash (origin : Origin α) (stash : α) (numSlashingSpans : ℕ)
  | validate (origin : Origin α) (prefs : ValidatorPrefs)
  | nominate (origin : Origin α) (targets : List α)
  | chill (origin : Origin α)
  | chillOther (origin : Origin α) (controller : α)
  | kick (origin : Origin α) (who : List α)
  | forceApplyMinCommission (origin : Origin α) (stash : α)
  | setStakingConfigs (origin : Origin α) (configs : StakingConfigs)
  | setValidatorCount (origin : Origin α) (count : ℕ)
  | increaseValidatorCount (origin : Origin α) (additional : ℕ)
  | scaleValidatorCount (origin : Origin α) (factor : Percent)
  | forceEras (origin : Origin α) (mode : Forcing)
  | setInvulnerables (origin : Origin α) (invulnerables : List α)
  | setMinCommission (origin : Origin α) (commission : Perbill)
  | cancelDeferredSlash (origin : Origin α) (era : ℕ) (indices : List ℕ)
  | payoutStakers (origin : Origin α) (stash : α) (era : ℕ)
  | newSession (session : ℕ) (election : Option (List (α × List (α × ℕ))))
  | startSession (session : ℕ) (validators : List α)
  | endSession (session now : ℕ)
  | onFinalize (now : ℕ)
  | rewardByIds (points : List (α × ℕ))
  | onOffence (offenders : List (OffenceDetails α)) (fractions : List Perbill)
      (slashSession : ℕ) (strategy : DisableStrategy)
  | transfer (source dest : α) (value : ℕ)

/-- The session pallet puts the validators of a session in place, none of them disabled. -/
def State.setSession (s : State α) (validators : List α) : State α :=
  { s with session := ⟨validators, []⟩ }

/-- The result of an operation. -/
def apply (cfg : Config) (s : State α) : Operation α → Except Failure (State α)
  | .bond origin value payee => bond cfg s origin value payee
  | .bondExtra origin maxAdditional => bondExtra cfg s origin maxAdditional
  | .unbond origin value => unbond cfg s origin value
  | .withdrawUnbonded origin n => withdrawUnbonded cfg s origin n
  | .rebond origin value => rebond cfg s origin value
  | .setPayee origin payee => setPayee s origin payee
  | .setController origin => setController s origin
  | .forceUnstake origin stash n => forceUnstake s origin stash n
  | .reapStash origin stash n => reapStash cfg s origin stash n
  | .validate origin prefs => validate s origin prefs
  | .nominate origin targets => nominate cfg s origin targets
  | .chill origin => chill s origin
  | .chillOther origin controller => chillOther s origin controller
  | .kick origin who => kick s origin who
  | .forceApplyMinCommission origin stash => forceApplyMinCommission s origin stash
  | .setStakingConfigs origin configs => setStakingConfigs s origin configs
  | .setValidatorCount origin count => setValidatorCount cfg s origin count
  | .increaseValidatorCount origin additional => increaseValidatorCount cfg s origin additional
  | .scaleValidatorCount origin factor => scaleValidatorCount cfg s origin factor
  | .forceEras origin mode => forceEras s origin mode
  | .setInvulnerables origin invulnerables => setInvulnerables s origin invulnerables
  | .setMinCommission origin commission => setMinCommission s origin commission
  | .cancelDeferredSlash origin era indices => cancelDeferredSlash s origin era indices
  | .payoutStakers origin stash era => payoutStakers cfg s origin stash era
  | .newSession session election => .ok (newSession cfg s session election).1
  | .startSession session validators => .ok (startSession cfg (s.setSession validators) session)
  | .endSession session now => .ok (endSession cfg s session now)
  | .onFinalize now => .ok (onFinalize s now)
  | .rewardByIds points => .ok (rewardByIds s points)
  | .onOffence offenders fractions session strategy =>
    .ok (onOffence cfg s offenders fractions session strategy)
  | .transfer source dest value => transfer s source dest value

/-- One step of a run: an operation that fails changes nothing. -/
def step (cfg : Config) (s : State α) (op : Operation α) : State α :=
  commitOrKeep (apply cfg s op) s

end Reef.Staking
