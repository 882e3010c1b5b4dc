import ReefChain.Staking.Slashing

/-!
# Sessions, eras and payouts

Sessions are planned, started and ended by the session pallet. Planning a session may plan an era:
the stake behind the elected validators is stored, and the era begins with the session. Starting the
first session of an era makes the era the active one, and applies the slashes that were deferred to
it. Ending the last session of the active era fixes the payout of the era.

The payout of a validator in an era is claimed later, once, and shared between the validator and the
nominators behind it (`doPayoutStakers`).
-/

namespace Reef.Staking

variable {α : Type} [DecidableEq α]

open Bounded

/-! ### The beginning and the end of an era -/

/-- `slashing::clear_era_metadata`. -/
def clearEraMetadata (s : State α) (era : ℕ) : State α :=
  { s with
    offences := { s.offences with
      validatorInEra := Function.update s.offences.validatorInEra era fun _ => none
      nominatorInEra := Function.update s.offences.nominatorInEra era fun _ => none } }

/-- `Pallet::apply_unapplied_slashes`. -/
def applyUnappliedSlashes (cfg : Config) (s : State α) (activeEra : ℕ) : State α :=
  let slashes := s.offences.unapplied activeEra
  let taken := { s with
    offences := { s.offences with
      unapplied := Function.update s.offences.unapplied activeEra [] } }
  slashes.foldl (applySlash cfg (activeEra - cfg.slashDeferDuration)) taken

/-- The eras of `BondedEras` that have left the bonding period when `activeEra` begins. -/
def prunedEras (cfg : Config) (activeEra : ℕ) (bonded : List (ℕ × ℕ)) : List (ℕ × ℕ) :=
  if cfg.bondingDuration < activeEra then
    bonded.takeWhile fun entry => entry.1 < activeEra - cfg.bondingDuration
  else []

/-- The era that becomes the active one next. -/
def State.nextActiveEra (s : State α) : ℕ :=
  (s.eras.active.map fun info => wrapAdd 32 info.index 1).getD 0

/-- `Pallet::start_era`. -/
def startEra (cfg : Config) (s : State α) (startSession : ℕ) : State α :=
  let activeEra := s.nextActiveEra
  let bonded := s.eras.bonded ++ [(activeEra, startSession)]
  let pruned := prunedEras cfg activeEra bonded
  let s := { s with
    eras := { s.eras with
      active := some ⟨activeEra, none⟩
      bonded := bonded.drop pruned.length } }
  let s := pruned.foldl (fun s entry => clearEraMetadata s entry.1) s
  applyUnappliedSlashes cfg s activeEra

/-- `Pallet::start_session`. -/
def startSession (cfg : Config) (s : State α) (session : ℕ) : State α :=
  let s :=
    match s.eras.startSession s.nextActiveEra with
    | none => s
    | some start => if start ≤ session then startEra cfg s session else s
  s.offences.offending.foldl
    (fun s entry => if entry.2 then s.disableValidator entry.1 else s) s

/-- `Pallet::end_era`. -/
def endEra (cfg : Config) (s : State α) (active : ActiveEraInfo) (now : ℕ) : State α :=
  match active.start with
  | none => s
  | some start =>
    let payout :=
      (cfg.eraPayout (s.eras.totalStake active.index) s.native.issuance (now - start)).1
    let s := { s with
      eras := { s.eras with
        validatorReward := Function.update s.eras.validatorReward active.index (some payout) } }
    s.setOffending []

/-- `Pallet::end_session`. -/
def endSession (cfg : Config) (s : State α) (session now : ℕ) : State α :=
  match s.eras.active with
  | none => s
  | some active =>
    if s.eras.startSession (wrapAdd 32 active.index 1) = some (wrapAdd 32 session 1) then
      endEra cfg s active now
    else s

/-- `Hooks::on_finalize`. -/
def onFinalize (s : State α) (now : ℕ) : State α :=
  match s.eras.active with
  | some ⟨index, none⟩ => { s with eras := { s.eras with active := some ⟨index, some now⟩ } }
  | _ => s

/-! ### Planning an era -/

/-- `Pallet::clear_era_information`. -/
def clearEraInformation (s : State α) (era : ℕ) : State α :=
  { s with
    eras := { s.eras with
      stakers := Function.update s.eras.stakers era fun _ => .empty
      stakersClipped := Function.update s.eras.stakersClipped era fun _ => .empty
      validatorPrefs := Function.update s.eras.validatorPrefs era fun _ => .default
      validatorReward := Function.update s.eras.validatorReward era none
      rewardPoints := Function.update s.eras.rewardPoints era .empty
      totalStake := Function.update s.eras.totalStake era 0
      startSession := Function.update s.eras.startSession era none } }

/-- The voters of an elected validator, as exposure. The stake of a vote is converted by
`toCurrency`. -/
def exposureOf (toCurrency : ℕ → ℕ) (validator : α) (voters : List (α × ℕ)) : Exposure α :=
  voters.foldl (fun e vote =>
    let stake := toCurrency vote.2
    let total := satAdd balanceBits e.total stake
    if vote.1 = validator then { e with own := satAdd balanceBits e.own stake, total := total }
    else { e with others := e.others ++ [⟨vote.1, stake⟩], total := total }) .empty

/-- `Pallet::collect_exposures`. -/
def collectExposures (cfg : Config) (s : State α) (supports : List (α × List (α × ℕ))) :
    List (α × Exposure α) :=
  supports.map fun support =>
    (support.1, exposureOf (cfg.toCurrency · s.native.issuance) support.1 support.2)

/-- The exposure with as many of the largest nominators as are rewarded. -/
def clip (cfg : Config) (e : Exposure α) : Exposure α :=
  if cfg.maxNominatorRewardedPerValidator < e.others.length then
    { e with
      others := (e.others.mergeSort fun a b => b.value ≤ a.value).take
        cfg.maxNominatorRewardedPerValidator }
  else e

/-- Store the stakers of one elected validator. -/
def storeStaker (cfg : Config) (era : ℕ) (eras : Eras α) (elected : α × Exposure α) : Eras α :=
  { eras with
    stakers := Function.update eras.stakers era
      (Function.update (eras.stakers era) elected.1 elected.2)
    stakersClipped := Function.update eras.stakersClipped era
      (Function.update (eras.stakersClipped era) elected.1 (clip cfg elected.2)) }

/-- `Pallet::store_stakers_info`. -/
def storeStakersInfo (cfg : Config) (s : State α) (exposures : List (α × Exposure α)) (era : ℕ) :
    State α :=
  let stored := exposures.foldl (storeStaker cfg era) s.eras
  let prefs := exposures.foldl
    (fun prefs elected => Function.update prefs elected.1 (s.prefsOf elected.1))
    (stored.validatorPrefs era)
  { s with
    eras := { stored with
      totalStake := Function.update stored.totalStake era
        (exposures.foldl (fun total elected => satAdd balanceBits total elected.2.total) 0)
      validatorPrefs := Function.update stored.validatorPrefs era prefs } }

/-- `Pallet::trigger_new_era`. -/
def triggerNewEra (cfg : Config) (s : State α) (startSession : ℕ)
    (exposures : List (α × Exposure α)) : State α :=
  let era := (s.eras.current.map (wrapAdd 32 · 1)).getD 0
  let s := { s with
    eras := { s.eras with
      current := some era
      startSession := Function.update s.eras.startSession era (some startSession) } }
  let s := if cfg.historyDepth + 1 ≤ era then clearEraInformation s (era - (cfg.historyDepth + 1))
    else s
  storeStakersInfo cfg s exposures era

/-- `Pallet::try_trigger_new_era`, for the result of an election, with the validators if an era is
planned. -/
def tryTriggerNewEra (cfg : Config) (s : State α) (startSession : ℕ)
    (election : Option (List (α × List (α × ℕ)))) : State α × Option (List α) :=
  match election with
  | none => (s, none)
  | some supports =>
    let exposures := collectExposures cfg s supports
    if exposures.length < max s.settings.minimumValidatorCount 1 then
      match s.eras.current with
      | some _ => (s, none)
      | none =>
        ({ s with
            eras := { s.eras with
              current := some 0
              startSession := Function.update s.eras.startSession 0 (some startSession) } }, none)
    else (triggerNewEra cfg s startSession exposures, some (exposures.map Prod.fst))

/-- Whether an era is due when a session is planned. -/
def eraDue (cfg : Config) (s : State α) (session current : ℕ) : Bool :=
  match s.eras.force with
  | .forceNew | .forceAlways => true
  | .notForcing => cfg.sessionsPerEra ≤ session - (s.eras.startSession current).getD 0
  | .forceNone => false

/-- `Pallet::new_session`. -/
def planSession (cfg : Config) (s : State α) (session : ℕ)
    (election : Option (List (α × List (α × ℕ)))) : State α × Option (List α) :=
  match s.eras.current with
  | none => tryTriggerNewEra cfg s session election
  | some current =>
    if eraDue cfg s session current then
      match tryTriggerNewEra cfg s session election with
      | (s, none) => (s, none)
      | (s, some validators) =>
        (if s.eras.force = .forceNew then s.setForceEra .notForcing else s, some validators)
    else (s, none)

/-- `SessionManager::new_session`. -/
def newSession (cfg : Config) (s : State α) (session : ℕ)
    (election : Option (List (α × List (α × ℕ)))) : State α × Option (List α) :=
  planSession cfg { s with eras := { s.eras with plannedSession := session } } session election

/-! ### Rewards -/

/-- `Pallet::reward_by_ids`. -/
def rewardByIds (s : State α) (points : List (α × ℕ)) : State α :=
  match s.eras.active with
  | none => s
  | some active =>
    let rewarded := points.foldl (fun (p : EraRewardPoints α) entry =>
      ⟨wrapAdd 32 p.total entry.2,
        Function.update p.individual entry.1 (wrapAdd 32 (p.individual entry.1) entry.2)⟩)
      (s.eras.rewardPoints active.index)
    { s with
      eras := { s.eras with
        rewardPoints := Function.update s.eras.rewardPoints active.index rewarded } }

/-- `Currency::deposit_creating`. -/
def State.depositCreating (s : State α) (who : α) (amount : ℕ) : State α :=
  { s with
    native := { s.native with
      balances := s.native.balances.depositCreating who amount
      issuance := s.native.issuance + amount } }

/-- `Currency::deposit_into_existing`, where it succeeds. -/
def State.depositIntoExisting (s : State α) (who : α) (amount : ℕ) : Option (State α) :=
  match s.native.balances.depositIntoExisting who amount with
  | .ok balances =>
    some { s with
      native := { s.native with
        balances := balances
        issuance := s.native.issuance + amount } }
  | .error _ => none

/-- `Pallet::make_payout`. The ledger of a stash whose rewards are staked grows whether the deposit
succeeds or not. -/
def makePayout (cfg : Config) (s : State α) (stash : α) (amount : ℕ) : State α :=
  match s.payee stash with
  | .controller =>
    match s.bonded stash with
    | none => s
    | some controller => s.depositCreating controller amount
  | .stash => (s.depositIntoExisting stash amount).getD s
  | .staked =>
    match s.bonded stash with
    | none => s
    | some controller =>
      match s.ledger controller with
      | none => s
      | some ledger =>
        ((s.depositIntoExisting stash amount).getD s).updateLedger cfg controller
          { ledger with active := ledger.active + amount, total := ledger.total + amount }
  | .account dest => s.depositCreating dest amount
  | .none => s

/-- The shares of a payout: what the validator gets and what is left for the stakers. -/
def validatorShare (prefs : ValidatorPrefs) (exposure : Exposure α) (payout : ℕ) : ℕ × ℕ :=
  let commission := prefs.commission.mul payout
  let leftover := payout - commission
  ((Perbill.fromRational exposure.own exposure.total).mul leftover + commission, leftover)

/-- The share of a nominator. -/
def nominatorShare (exposure : Exposure α) (leftover : ℕ) (nominator : IndividualExposure α) : ℕ :=
  (Perbill.fromRational nominator.value exposure.total).mul leftover

/-- The payments of an era behind one validator. -/
def payStakers (cfg : Config) (s : State α) (stash : α) (prefs : ValidatorPrefs)
    (exposure : Exposure α) (payout : ℕ) : State α :=
  let (own, leftover) := validatorShare prefs exposure payout
  exposure.others.foldl
    (fun s nominator => makePayout cfg s nominator.who (nominatorShare exposure leftover nominator))
    (makePayout cfg s stash own)

/-- The list of claimed eras with one more, if it is not there yet. Eras that have left the history
are dropped. -/
def claimEra (cfg : Config) (currentEra era : ℕ) (claimed : List ℕ) : Except Failure (List ℕ) :=
  let claimed := claimed.filter (currentEra - cfg.historyDepth ≤ ·)
  match SortedVec.search id claimed era with
  | .ok _ => .error (.module .alreadyClaimed)
  | .error position =>
    if claimed.length < cfg.historyDepth then .ok (claimed.insertIdx position era)
    else .error (.module .boundNotMet)

/-- The part of the payout of an era that belongs to a validator. -/
def validatorTotalPayout (s : State α) (era : ℕ) (stash : α) (eraPayout : ℕ) : ℕ :=
  (Perbill.fromRational ((s.eras.rewardPoints era).individual stash)
    (s.eras.rewardPoints era).total).mul eraPayout

/-- `Pallet::do_payout_stakers`. -/
def doPayoutStakers (cfg : Config) (s : State α) (validatorStash : α) (era : ℕ) :
    Except Failure (State α) := do
  let currentEra ← Fallible.okOr s.eras.current (.module .invalidEraToReward)
  Fallible.ensure (era ≤ currentEra ∧ currentEra - cfg.historyDepth ≤ era)
    (.module .invalidEraToReward)
  let eraPayout ← Fallible.okOr (s.eras.validatorReward era) (.module .invalidEraToReward)
  let controller ← Fallible.okOr (s.bonded validatorStash) (.module .notStash)
  let ledger ← Fallible.okOr (s.ledger controller) (.module .notController)
  let claimed ← claimEra cfg currentEra era ledger.claimedRewards
  let exposure := s.eras.stakersClipped era ledger.stash
  let claimedState := { s with
    ledger := Function.update s.ledger controller
      (some { ledger with claimedRewards := claimed }) }
  if (s.eras.rewardPoints era).individual ledger.stash = 0 then pure claimedState
  else
    pure (payStakers cfg claimedState ledger.stash (s.eras.validatorPrefs era validatorStash)
      exposure (validatorTotalPayout s era ledger.stash eraPayout))

end Reef.Staking
