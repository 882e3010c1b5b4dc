import ReefChain.Lib.SortedVec
import ReefChain.Staking.State

/-!
# Offences and slashes

An offence is reported with the validator, its exposure and the fraction to be slashed. Computing
the slash (`computeSlash`) goes through the records of the slashing spans: the validator is charged
if the fraction is larger than what it was slashed for in that era, and the nominators behind it for
the difference. The result is a record of what has to be slashed, which is applied at once or, if
slashes are deferred, at the beginning of a later era. Applying it (`applySlash`) takes the amounts
from the ledgers and the balances, and pays the reporters from what was taken.

`slashEraOf` finds the era of an offence from the session it happened in.
-/

namespace Reef.Staking

variable {α : Type} [DecidableEq α]

open Bounded

namespace State

/-- `Pallet::set_force_era`. -/
def setForceEra (s : State α) (mode : Forcing) : State α :=
  { s with eras := { s.eras with force := mode } }

/-- `Pallet::ensure_new_era`. -/
def ensureNewEra (s : State α) : State α :=
  match s.eras.force with
  | .forceAlways | .forceNew => s
  | _ => s.setForceEra .forceNew

/-- `SessionInterface::disable_validator`. -/
def disableValidator (s : State α) (index : ℕ) : State α :=
  if index ∈ s.session.disabled then s
  else { s with session := { s.session with disabled := index :: s.session.disabled } }

/-- Write `OffendingValidators`. -/
def setOffending (s : State α) (offending : List (ℕ × Bool)) : State α :=
  { s with offences := { s.offences with offending := offending } }

end State

/-- `slashing::SlashParams`. -/
structure SlashParams (α : Type) where
  stash : α
  slash : Perbill
  exposure : Exposure α
  slashEra : ℕ
  windowStart : ℕ
  now : ℕ
  rewardProportion : Perbill
  disableStrategy : DisableStrategy

/-! ### Computing a slash -/

/-- `slashing::add_offending_validator`. -/
def addOffendingValidator (cfg : Config) (s : State α) (stash : α) (disable : Bool) : State α :=
  match s.session.validators.findIdx? (· = stash) with
  | none => s
  | some index =>
    match SortedVec.search Prod.fst s.offences.offending index with
    | .error position =>
      let offending := s.offences.offending.insertIdx position (index, disable)
      let s := s.setOffending offending
      let threshold := cfg.offendingValidatorsThreshold.mul s.session.validators.length
      let s := if threshold ≤ offending.length then s.ensureNewEra else s
      if disable then s.disableValidator index else s
    | .ok position =>
      if disable ∧ (s.offences.offending[position]?).map Prod.snd = some false then
        let offending := s.offences.offending.modify position fun entry => (entry.1, true)
        (s.setOffending offending).disableValidator index
      else s

/-- `slashing::kick_out_if_recent`. -/
def kickOutIfRecent (cfg : Config) (s : State α) (params : SlashParams α) : State α :=
  let (book, current) := (s.offences.books params.stash).kick params.rewardProportion
    params.windowStart params.now params.slashEra
  let s := s.setBook params.stash book
  let s := if current then s.chillStash params.stash else s
  addOffendingValidator cfg s params.stash (params.disableStrategy = .always)

/-- What a nominator is slashed for in the era: what it was before, and the difference the larger
fraction makes. -/
def nominatorEraSlash (s : State α) (params : SlashParams α) (prior : Perbill)
    (nominator : IndividualExposure α) : ℕ :=
  (s.offences.nominatorInEra params.slashEra nominator.who).getD 0 +
    (params.slash.mul nominator.value - prior.mul nominator.value)

/-- Write `NominatorSlashInEra`. -/
def setNominatorInEra (s : State α) (era : ℕ) (who : α) (slash : ℕ) : State α :=
  { s with
    offences := { s.offences with
      nominatorInEra := Function.update s.offences.nominatorInEra era
        (Function.update (s.offences.nominatorInEra era) who (some slash)) } }

/-- Write `ValidatorSlashInEra`. -/
def setValidatorInEra (s : State α) (era : ℕ) (who : α) (slash : Perbill × ℕ) : State α :=
  { s with
    offences := { s.offences with
      validatorInEra := Function.update s.offences.validatorInEra era
        (Function.update (s.offences.validatorInEra era) who (some slash)) } }

/-- One round of `slashing::slash_nominators`. -/
def slashNominator (params : SlashParams α) (prior : Perbill)
    (acc : State α × List (α × ℕ) × ℕ) (nominator : IndividualExposure α) :
    State α × List (α × ℕ) × ℕ :=
  let (s, slashed, reward) := acc
  let eraSlash := nominatorEraSlash s params prior nominator
  let s := setNominatorInEra s params.slashEra nominator.who eraSlash
  let charge := (s.offences.books nominator.who).slashAt params.rewardProportion
    params.windowStart params.now params.slashEra eraSlash
  (s.setBook nominator.who charge.book, slashed ++ [(nominator.who, charge.slashed)],
    reward + charge.reward)

/-- `slashing::slash_nominators`: the nominators with what they are slashed for, and the reward. -/
def slashNominators (s : State α) (params : SlashParams α) (prior : Perbill) :
    State α × List (α × ℕ) × ℕ :=
  params.exposure.others.foldl (slashNominator params prior) (s, [], 0)

/-- The slash of the validator itself in `compute_slash`. -/
def slashValidator (cfg : Config) (s : State α) (params : SlashParams α) : State α × Charge :=
  let ownSlash := params.slash.mul params.exposure.own
  let s := setValidatorInEra s params.slashEra params.stash (params.slash, ownSlash)
  let charge := (s.offences.books params.stash).slashAt params.rewardProportion
    params.windowStart params.now params.slashEra ownSlash
  let s := s.setBook params.stash charge.book
  let s := if charge.current then s.chillStash params.stash else s
  (addOffendingValidator cfg s params.stash (params.disableStrategy ≠ .never), charge)

/-- The fraction a validator has been slashed for in an era. -/
def priorSlash (s : State α) (era : ℕ) (stash : α) : Perbill :=
  ((s.offences.validatorInEra era stash).map Prod.fst).getD (.fromPercent 0)

/-- `slashing::compute_slash`. -/
def computeSlash (cfg : Config) (s : State α) (params : SlashParams α) :
    State α × Option (UnappliedSlash α) :=
  if params.slash.mul params.exposure.total = 0 then (kickOutIfRecent cfg s params, none)
  else
    let prior := priorSlash s params.slashEra params.stash
    if prior.parts < params.slash.parts then
      let (s, charge) := slashValidator cfg s params
      let (s, others, reward) := slashNominators s params prior
      (s, some ⟨params.stash, charge.slashed, others, [], charge.reward + reward⟩)
    else (s, none)

/-! ### Applying a slash -/

/-- A slash being applied: what is left of the reward, and what has been taken. -/
structure Applying (α : Type) where
  state : State α
  reward : ℕ
  imbalance : ℕ

/-- Take from the balance of an account: what it does not have is missing. -/
def State.slashBalance (s : State α) (who : α) (value : ℕ) : State α × ℕ :=
  let (balances, missing) := s.native.balances.slash who value
  ({ s with native := { s.native with balances := balances } }, missing)

/-- `slashing::do_slash`. -/
def doSlash (cfg : Config) (slashEra : ℕ) (x : Applying α) (stash : α) (value : ℕ) : Applying α :=
  match x.state.bonded stash with
  | none => x
  | some controller =>
    match x.state.ledger controller with
    | none => x
    | some ledger =>
      let (ledger, value) :=
        ledger.slash cfg.bondingDuration value cfg.minimumBalance slashEra
      if value = 0 then x
      else
        let (s, missing) := x.state.slashBalance stash value
        ⟨s.updateLedger cfg controller ledger, x.reward - missing,
          x.imbalance + (value - missing)⟩

/-- `Currency::resolve_creating`, for each reporter in turn. -/
def payEach (s : State α) (reporters : List α) (perReporter : ℕ) : State α :=
  reporters.foldl (fun s reporter =>
    { s with native := { s.native with
      balances := s.native.balances.depositCreating reporter perReporter } }) s

/-- `Slash::on_unbalanced`: what was taken is burned. -/
def State.burn (s : State α) (amount : ℕ) : State α :=
  { s with native := { s.native with issuance := s.native.issuance - amount } }

/-- `slashing::pay_reporters`. -/
def payReporters (s : State α) (reward imbalance : ℕ) (reporters : List α) : State α :=
  if reward = 0 ∨ reporters = [] then s.burn imbalance
  else
    let reward := min reward imbalance
    let perReporter := reward / reporters.length
    (payEach s reporters perReporter).burn (imbalance - perReporter * reporters.length)

/-- `slashing::apply_slash`. -/
def applySlash (cfg : Config) (slashEra : ℕ) (s : State α) (slash : UnappliedSlash α) : State α :=
  let x := doSlash cfg slashEra ⟨s, slash.payout, 0⟩ slash.validator slash.own
  let x := slash.others.foldl (fun x other => doSlash cfg slashEra x other.1 other.2) x
  payReporters x.state x.reward x.imbalance slash.reporters

/-! ### Reports -/

/-- `OffenceDetails`: the offender with its exposure, and the reporters. -/
structure OffenceDetails (α : Type) where
  offender : α
  exposure : Exposure α
  reporters : List α

/-- The era of an offence in a session. -/
def slashEraOf (s : State α) (activeEra slashSession : ℕ) : Option ℕ :=
  if (s.eras.startSession activeEra).getD 0 ≤ slashSession then some activeEra
  else (s.eras.bonded.reverse.find? fun entry => entry.2 ≤ slashSession).map Prod.fst

/-- Defer a slash to an era. -/
def State.defer (s : State α) (era : ℕ) (slash : UnappliedSlash α) : State α :=
  { s with
    offences := { s.offences with
      unapplied := Function.update s.offences.unapplied era
        (s.offences.unapplied era ++ [slash]) } }

/-- One offender of `on_offence`. -/
def onOffender (cfg : Config) (activeEra slashEra : ℕ) (strategy : DisableStrategy) (s : State α)
    (offence : OffenceDetails α × Perbill) : State α :=
  let (details, fraction) := offence
  if details.offender ∈ s.offences.invulnerables then s
  else
    let params : SlashParams α :=
      { stash := details.offender
        slash := fraction
        exposure := details.exposure
        slashEra := slashEra
        windowStart := activeEra - cfg.bondingDuration
        now := activeEra
        rewardProportion := s.offences.rewardFraction
        disableStrategy := strategy }
    match computeSlash cfg s params with
    | (s, none) => s
    | (s, some unapplied) =>
      let unapplied := { unapplied with reporters := details.reporters }
      if cfg.slashDeferDuration = 0 then applySlash cfg slashEra s unapplied
      else s.defer (satAdd 32 (satAdd 32 slashEra cfg.slashDeferDuration) 1) unapplied

/-- `OnOffenceHandler::on_offence`. -/
def onOffence (cfg : Config) (s : State α) (offenders : List (OffenceDetails α))
    (fractions : List Perbill) (slashSession : ℕ) (strategy : DisableStrategy) : State α :=
  match s.eras.active with
  | none => s
  | some active =>
    match slashEraOf s active.index slashSession with
    | none => s
    | some slashEra =>
      (offenders.zip fractions).foldl (onOffender cfg active.index slashEra strategy) s

end Reef.Staking
