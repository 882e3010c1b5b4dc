import Mathlib.Logic.Relation
import ReefChain.Staking.Calls

/-!
# What an operation does to the stakes

What is at stake is a small part of the state, its `View`: who is bonded, the ledgers, the locks,
the planned and the active era, and which eras have a first session and a payout. An operation
changes the view in few ways, which are the constructors of `Change`: a ledger is written
(`LedgerChange`), a reward is claimed, a stash is added, removed or gets itself as controller, or an
era is planned, begun, settled or forgotten. Most operations are one change or none; a payout, a new
era and an offence are several.

Eras are `u32` and wrap around. `InRange` says that the planned era is so small that neither the
next one nor the end of the bonding period does; the changes are sums of natural numbers then.

`apply_path` is the lemma every invariant of the stakes is derived from: an operation takes the
view along a path of changes, if its state is in range. A path names the stashes that may be slashed
and those that may be removed although they have funds, as far as the operation tells them
(`MaySlash`, `MayRemove`).
-/

namespace Reef.Staking

variable {α : Type} [DecidableEq α]

open Fallible Bounded

/-- What is at stake. -/
structure View (α : Type) where
  bonded : α → Option α
  ledger : α → Option (StakingLedger α)
  lock : α → ℕ
  current : Option ℕ
  active : Option ℕ
  startSession : ℕ → Option ℕ
  validatorReward : ℕ → Option ℕ

/-- The view of a state. -/
def State.view (s : State α) : View α :=
  ⟨s.bonded, s.ledger, s.native.lock, s.eras.current, s.eras.active.map ActiveEraInfo.index,
    s.eras.startSession, s.eras.validatorReward⟩

/-- The end of a bonding period that starts now, and the next era, are eras. -/
def State.InRange (cfg : Config) (s : State α) : Prop :=
  s.eras.current.getD 0 + max cfg.bondingDuration 1 < 2 ^ 32

instance (cfg : Config) (s : State α) : Decidable (s.InRange cfg) :=
  inferInstanceAs (Decidable (_ < _))

/-- A ledger is written, and the lock with it. -/
def View.write (cfg : Config) (v : View α) (controller : α) (l : StakingLedger α) : View α :=
  { v with
    ledger := Function.update v.ledger controller (some l)
    lock := State.lockSet cfg v.lock l.stash l.total }

/-- A stash and its ledger are removed, with the lock. -/
def View.remove (v : View α) (stash controller : α) : View α :=
  { v with
    bonded := Function.update v.bonded stash none
    ledger := Function.update v.ledger controller none
    lock := Function.update v.lock stash 0 }

/-- Every stash has a ledger, and every ledger a stash. -/
structure View.Paired (v : View α) : Prop where
  ledger : ∀ {stash c}, v.bonded stash = some c → ∃ l, v.ledger c = some l ∧ l.stash = stash
  bonded : ∀ {c l}, v.ledger c = some l → v.bonded l.stash = some c

/-- The ledger without the chunks whose era has come. -/
def withdrawn (current : Option ℕ) (l : StakingLedger α) : StakingLedger α :=
  current.elim l l.consolidateUnlocked

/-- Nothing worth keeping is left in the ledger. -/
def Spent (cfg : Config) (current : Option ℕ) (l : StakingLedger α) : Prop :=
  ((withdrawn current l).unlocking = [] ∧ l.active < cfg.minimumBalance) ∨
    l.total < cfg.minimumBalance

/-- The ways a ledger is rewritten. -/
inductive LedgerChange (cfg : Config) (maySlash : α → Prop) (current : Option ℕ) :
    StakingLedger α → StakingLedger α → Prop
  | extra (l : StakingLedger α) (amount : ℕ) : LedgerChange cfg maySlash current l
      { l with total := l.total + amount, active := l.active + amount }
  | withdraw (l : StakingLedger α) : LedgerChange cfg maySlash current l (withdrawn current l)
  | unbond (l : StakingLedger α) (active : ℕ) (chunks : List UnlockChunk) (hle : active ≤ l.active)
      (hroom : l.unlocking.length < cfg.maxUnlockingChunks)
      (hpush : pushChunk cfg l.unlocking (l.active - active)
        (current.getD 0 + cfg.bondingDuration) = .ok chunks) :
      LedgerChange cfg maySlash current l { l with active := active, unlocking := chunks }
  | rebond (l : StakingLedger α) (value : ℕ) :
      LedgerChange cfg maySlash current l (l.rebond value).1
  | slash (l : StakingLedger α) (amount slashEra : ℕ) (h : maySlash l.stash) :
      LedgerChange cfg maySlash current l
        (l.slash cfg.bondingDuration amount cfg.minimumBalance slashEra).1

/-- The ways the view is changed. -/
inductive Change (cfg : Config) (maySlash mayRemove : α → Prop) : View α → View α → Prop
  | write {v : View α} {c : α} {l l' : StakingLedger α} (hl : v.ledger c = some l)
      (h : LedgerChange cfg maySlash v.current l l') :
      Change cfg maySlash mayRemove v (v.write cfg c l')
  | claim {v : View α} {c : α} {l : StakingLedger α} {current era : ℕ} {claimed : List ℕ}
      (hl : v.ledger c = some l) (hcurrent : v.current = some current)
      (hreward : v.validatorReward era ≠ none)
      (hclaim : claimEra cfg current era l.claimedRewards = .ok claimed) :
      Change cfg maySlash mayRemove v
        { v with ledger := Function.update v.ledger c (some { l with claimedRewards := claimed }) }
  | add {v : View α} {stash : α} {value : ℕ} (hbonded : v.bonded stash = none)
      (hledger : v.ledger stash = none) :
      Change cfg maySlash mayRemove v
        ({ v with bonded := Function.update v.bonded stash (some stash) }.write cfg stash
          ⟨stash, value, value, [],
            List.range' (v.current.getD 0 - cfg.historyDepth)
              (v.current.getD 0 - (v.current.getD 0 - cfg.historyDepth))⟩)
  | remove {v : View α} {stash c : α} {l : StakingLedger α} (hbonded : v.bonded stash = some c)
      (hl : v.ledger c = some l) (h : mayRemove stash ∨ Spent cfg v.current l) :
      Change cfg maySlash mayRemove v (v.remove stash c)
  | move {v : View α} {stash c : α} {l : StakingLedger α} (hbonded : v.bonded stash = some c)
      (hl : v.ledger c = some l) (hfree : v.ledger stash = none) :
      Change cfg maySlash mayRemove v { v with
        bonded := Function.update v.bonded stash (some stash)
        ledger := Function.update (Function.update v.ledger c none) stash (some l) }
  | plan {v : View α} (session : ℕ) : Change cfg maySlash mayRemove v { v with
      current := some ((v.current.map (· + 1)).getD 0)
      startSession := Function.update v.startSession ((v.current.map (· + 1)).getD 0)
        (some session) }
  | begun {v : View α} (era : ℕ) (hstarts : v.startSession era ≠ none) :
      Change cfg maySlash mayRemove v { v with active := some era }
  | settle {v : View α} (era payout : ℕ) (hactive : v.active = some era)
      (hrange : v.current.getD 0 + 1 < 2 ^ 32)
      (hnext : v.startSession (wrapAdd 32 era 1) ≠ none) :
      Change cfg maySlash mayRemove v { v with
        validatorReward := Function.update v.validatorReward era (some payout) }
  | forget {v : View α} (era : ℕ) : Change cfg maySlash mayRemove v { v with
      validatorReward := Function.update v.validatorReward era none
      startSession := Function.update v.startSession era none }

/-- The view is taken from `s` to `s'` by changes. -/
def Path (cfg : Config) (maySlash mayRemove : α → Prop) (s s' : State α) : Prop :=
  Relation.ReflTransGen (Change cfg maySlash mayRemove) s.view s'.view

variable {cfg : Config} {maySlash mayRemove : α → Prop} {s s' s'' : State α}

/-- What does not show in the view is no step of a path. -/
theorem Path.of_eq (h : s'.view = s.view) : Path cfg maySlash mayRemove s s' := by
  unfold Path
  rw [h]

theorem Path.refl (s : State α) : Path cfg maySlash mayRemove s s := .of_eq rfl

/-- Paths are put together. -/
theorem Path.trans (h : Path cfg maySlash mayRemove s s')
    (h' : Path cfg maySlash mayRemove s' s'') : Path cfg maySlash mayRemove s s'' :=
  Relation.ReflTransGen.trans h h'

/-- A change is a path. -/
theorem Path.single (h : Change cfg maySlash mayRemove s.view s'.view) :
    Path cfg maySlash mayRemove s s' :=
  Relation.ReflTransGen.single h

/-! ### Pairs of stash and controller -/

omit [DecidableEq α] in
/-- Withdrawing touches the chunks and the total only. -/
theorem withdrawn_stash (current : Option ℕ) (l : StakingLedger α) :
    (withdrawn current l).stash = l.stash ∧
      (withdrawn current l).claimedRewards = l.claimedRewards ∧
      (withdrawn current l).active = l.active := by
  cases current <;> exact ⟨rfl, rfl, rfl⟩

omit [DecidableEq α] in
/-- A ledger stays with its stash, and with the eras it was paid for. -/
theorem LedgerChange.stash {current : Option ℕ} {l l' : StakingLedger α}
    (h : LedgerChange cfg maySlash current l l') :
    l'.stash = l.stash ∧ l'.claimedRewards = l.claimedRewards := by
  cases h with
  | extra => exact ⟨rfl, rfl⟩
  | withdraw => exact ⟨(withdrawn_stash current l).1, (withdrawn_stash current l).2.1⟩
  | unbond => exact ⟨rfl, rfl⟩
  | rebond => exact ⟨rfl, rfl⟩
  | slash => exact StakingLedger.slash_stash _ _ _ _ _

variable {v : View α} {stash : α} {value session n : ℕ} {origin : Origin α}

/-- A ledger can be replaced by another one of the same stash. -/
theorem View.Paired.replace (hv : v.Paired) {c : α} {l : StakingLedger α} (hl : v.ledger c = some l)
    (l' : StakingLedger α) (hstash : l'.stash = l.stash) (lock : α → ℕ) :
    View.Paired { v with ledger := Function.update v.ledger c (some l'), lock := lock } := by
  constructor
  · intro stash c' hbonded
    -- from a stash to its ledger, which may be the new one
    obtain ⟨m, hm, hmstash⟩ := hv.ledger hbonded
    simp only [Function.update_apply]
    split
    · next heq =>
      subst heq
      rw [hl] at hm
      cases hm
      exact ⟨l', rfl, hstash.trans hmstash⟩
    · exact ⟨m, hm, hmstash⟩
  · intro c' m hm
    -- and from a ledger back to its stash
    simp only [Function.update_apply] at hm
    split at hm
    · next heq =>
      cases hm
      rw [hstash, heq]
      exact hv.bonded hl
    · exact hv.bonded hm

/-- A stash and its ledger can be removed. -/
theorem View.Paired.remove (hv : v.Paired) {c : α} (hbonded : v.bonded stash = some c) :
    (v.remove stash c).Paired := by
  obtain ⟨l, hl, hstash⟩ := hv.ledger hbonded
  unfold View.remove
  constructor
  · intro stash' c' hbonded'
    simp only [Function.update_apply] at hbonded' ⊢
    split at hbonded'
    · cases hbonded'
    · next hne =>
      obtain ⟨m, hm, hmstash⟩ := hv.ledger hbonded'
      -- another stash does not have the same controller
      have hc : c' ≠ c := by
        rintro rfl
        rw [hl] at hm
        cases hm
        exact hne (hmstash.symm.trans hstash)
      rw [if_neg hc]
      exact ⟨m, hm, hmstash⟩
  · intro c' m hm
    simp only [Function.update_apply] at hm ⊢
    split at hm
    · cases hm
    · next hne =>
      have hbonded' := hv.bonded hm
      -- nor does another ledger belong to the stash
      have hstash' : m.stash ≠ stash := by
        intro heq
        rw [heq, hbonded] at hbonded'
        exact hne (Option.some.inj hbonded').symm
      rw [if_neg hstash']
      exact hbonded'

/-- A stash that is not there, with a ledger under its own name, can be added. -/
theorem View.Paired.add (hv : v.Paired) (l : StakingLedger α) (hbonded : v.bonded l.stash = none)
    (hledger : v.ledger l.stash = none) (lock : α → ℕ) :
    View.Paired { v with
      bonded := Function.update v.bonded l.stash (some l.stash)
      ledger := Function.update v.ledger l.stash (some l)
      lock := lock } := by
  constructor
  · intro stash c hc
    simp only [Function.update_apply] at hc ⊢
    split at hc
    · next heq =>
      cases hc
      rw [if_pos rfl]
      exact ⟨l, rfl, heq.symm⟩
    · obtain ⟨m, hm, hmstash⟩ := hv.ledger hc
      -- the new key was not in use as a controller
      have hne : c ≠ l.stash := by
        rintro rfl
        rw [hledger] at hm
        cases hm
      rw [if_neg hne]
      exact ⟨m, hm, hmstash⟩
  · intro c m hm
    simp only [Function.update_apply] at hm ⊢
    split at hm
    · next heq =>
      cases hm
      rw [if_pos rfl, heq]
    · have hbonded' := hv.bonded hm
      -- and no ledger had the new stash
      have hne : m.stash ≠ l.stash := by
        intro heq
        rw [heq, hbonded] at hbonded'
        cases hbonded'
      rw [if_neg hne]
      exact hbonded'

/-- **A change keeps stashes and ledgers paired.** -/
theorem Change.paired {v' : View α} (h : Change cfg maySlash mayRemove v v') (hv : v.Paired) :
    v'.Paired := by
  cases h with
  | write hl h => exact hv.replace hl _ h.stash.1 _
  | @claim c l current era claimed hl =>
    exact hv.replace hl { l with claimedRewards := claimed } rfl _
  | @add stash value hbonded hledger => exact hv.add ⟨stash, value, value, [], _⟩ hbonded hledger _
  | remove hbonded => exact hv.remove hbonded
  | @move stash c l hbonded hl hfree =>
    -- the stash is removed and added again with itself as controller
    obtain ⟨m, hm, hmstash⟩ := hv.ledger hbonded
    rw [hl] at hm
    cases hm
    have hadd := (hv.remove hbonded).add l
    unfold View.remove at hadd
    simp only [hmstash, Function.update_self, Function.update_idem] at hadd
    refine hadd trivial ?_ v.lock
    rw [Function.update_apply]
    split
    · rfl
    · exact hfree
  | plan | begun | settle | forget => exact ⟨hv.ledger, hv.bonded⟩

/-- Stashes and ledgers stay paired along a path. -/
theorem Path.paired (h : Path cfg maySlash mayRemove s s') (hs : s.view.Paired) :
    s'.view.Paired := by
  refine Relation.ReflTransGen.head_induction_on h (motive := fun v _ => v.Paired → _) id ?_ hs
  intro v w hstep _ ih hv
  exact ih (hstep.paired hv)

/-- A loop takes the view along the paths of its rounds. -/
theorem Path.foldl {β γ : Type} (state : β → State α) {f : β → γ → β} (xs : List γ)
    (h : ∀ b, (state b).view.Paired → ∀ x ∈ xs,
      Path cfg maySlash mayRemove (state b) (state (f b x)))
    {b : β} (hb : (state b).view.Paired) :
    Path cfg maySlash mayRemove (state b) (state (xs.foldl f b)) := by
  induction xs generalizing b with
  | nil => exact .refl _
  | cons x xs ih =>
    have hfirst := h b hb x List.mem_cons_self
    have hrest : ∀ b, (state b).view.Paired → ∀ y ∈ xs,
        Path cfg maySlash mayRemove (state b) (state (f b y)) :=
      fun b hb y hy => h b hb y (List.mem_cons_of_mem x hy)
    exact hfirst.trans (ih hrest (hfirst.paired hb))

/-! ### What leaves the view as it is -/

section Frame

omit [DecidableEq α] in
/-- A loop none of whose rounds shows in the view does not show in it. -/
theorem view_foldl {β γ : Type} (state : β → State α) (f : β → γ → β)
    (h : ∀ b x, (state (f b x)).view = (state b).view) (xs : List γ) (b : β) :
    (state (xs.foldl f b)).view = (state b).view := by
  induction xs generalizing b with
  | nil => rfl
  | cons x xs ih => exact (ih (f b x)).trans (h b x)

@[simp] theorem view_doRemoveValidator (s : State α) (who : α) :
    (s.doRemoveValidator who).view = s.view := by
  unfold State.doRemoveValidator
  split <;> rfl

@[simp] theorem view_doRemoveNominator (s : State α) (who : α) :
    (s.doRemoveNominator who).view = s.view := by
  unfold State.doRemoveNominator
  split <;> rfl

@[simp] theorem view_chillStash (s : State α) (stash : α) : (s.chillStash stash).view = s.view := by
  simp [State.chillStash]

@[simp] theorem view_setBook (s : State α) (stash : α) (book : Book) :
    (s.setBook stash book).view = s.view := rfl

omit [DecidableEq α] in
@[simp] theorem view_ensureNewEra (s : State α) : s.ensureNewEra.view = s.view := by
  unfold State.ensureNewEra
  split <;> rfl

omit [DecidableEq α] in
@[simp] theorem view_disableValidator (s : State α) (index : ℕ) :
    (s.disableValidator index).view = s.view := by
  unfold State.disableValidator
  split <;> rfl

omit [DecidableEq α] in
@[simp] theorem view_setOffending (s : State α) (offending : List (ℕ × Bool)) :
    (s.setOffending offending).view = s.view := rfl

/-- Offenders are recorded and disabled outside of the view. -/
@[simp] theorem view_addOffendingValidator (cfg : Config) (s : State α) (stash : α)
    (disable : Bool) : (addOffendingValidator cfg s stash disable).view = s.view := by
  unfold addOffendingValidator
  split
  · rfl
  · split
    · dsimp only
      split <;> split <;> simp
    · split <;> simp

@[simp] theorem view_kickOutIfRecent (cfg : Config) (s : State α) (params : SlashParams α) :
    (kickOutIfRecent cfg s params).view = s.view := by
  unfold kickOutIfRecent
  dsimp only
  split <;> simp

/-- Computing the slashes of the nominators writes their spans only. -/
@[simp] theorem view_slashNominators (s : State α) (params : SlashParams α) (prior : Perbill) :
    (slashNominators s params prior).1.view = s.view :=
  view_foldl Prod.fst (slashNominator params prior) (fun _ _ => rfl) params.exposure.others
    (s, [], 0)

/-- Computing the slash of a validator writes its spans, and may chill it. -/
@[simp] theorem view_slashValidator (cfg : Config) (s : State α) (params : SlashParams α) :
    (slashValidator cfg s params).1.view = s.view := by
  unfold slashValidator
  dsimp only
  rw [view_addOffendingValidator]
  split
  · rw [view_chillStash]
    rfl
  · rfl

/-- Computing a slash takes nothing yet. -/
@[simp] theorem view_computeSlash (cfg : Config) (s : State α) (params : SlashParams α) :
    (computeSlash cfg s params).1.view = s.view := by
  unfold computeSlash
  split
  · simp
  · dsimp only
    split <;> simp

omit [DecidableEq α] in
@[simp] theorem view_burn (s : State α) (amount : ℕ) : (s.burn amount).view = s.view := rfl

@[simp] theorem view_payEach (s : State α) (reporters : List α) (perReporter : ℕ) :
    (payEach s reporters perReporter).view = s.view := by
  unfold payEach
  induction reporters generalizing s with
  | nil => rfl
  | cons reporter reporters ih => exact ih _

/-- Reporters are paid into their accounts, which the view does not show. -/
@[simp] theorem view_payReporters (s : State α) (reward imbalance : ℕ) (reporters : List α) :
    (payReporters s reward imbalance reporters).view = s.view := by
  unfold payReporters
  split <;> simp

@[simp] theorem view_depositCreating (s : State α) (who : α) (amount : ℕ) :
    (s.depositCreating who amount).view = s.view := rfl

@[simp] theorem view_depositIntoExisting (s : State α) (who : α) (amount : ℕ) :
    ((s.depositIntoExisting who amount).getD s).view = s.view := by
  unfold State.depositIntoExisting
  split <;> rfl

/-- The exposures of an era are not part of the view. -/
@[simp] theorem view_storeStakersInfo (cfg : Config) (s : State α)
    (exposures : List (α × Exposure α)) (era : ℕ) :
    (storeStakersInfo cfg s exposures era).view = s.view :=
  view_foldl (fun eras : Eras α => { s with eras := eras }) (storeStaker cfg era) (fun _ _ => rfl)
    exposures s.eras

end Frame

/-! ### Slashes -/

/-- The stashes that a slash takes something from. -/
def UnappliedSlash.Takes (slash : UnappliedSlash α) (stash : α) : Prop :=
  (slash.validator = stash ∧ slash.own ≠ 0) ∨
    ∃ other ∈ slash.others, other.1 = stash ∧ other.2 ≠ 0

/-- The slash lists the nominators of the exposure, in order. -/
theorem map_fst_foldl_slashNominator (params : SlashParams α) (prior : Perbill)
    (others : List (IndividualExposure α)) (acc : State α × List (α × ℕ) × ℕ) :
    (others.foldl (slashNominator params prior) acc).2.1.map Prod.fst =
      acc.2.1.map Prod.fst ++ others.map IndividualExposure.who := by
  induction others generalizing acc with
  | nil => simp
  | cons nominator others ih =>
    rw [List.foldl_cons, ih]
    simp [slashNominator]

/-- Computing a slash does not show in the view, whether there is one or not. -/
theorem computeSlash_view {params : SlashParams α} {slash : Option (UnappliedSlash α)}
    (h : computeSlash cfg s params = (s', slash)) : s'.view = s.view := by
  rw [← view_computeSlash cfg s params, h]

/-- A slash takes from the offender and those who are exposed behind it, if the fraction of the
exposure is not zero. -/
theorem computeSlash_takes {params : SlashParams α} {slash : UnappliedSlash α}
    (h : computeSlash cfg s params = (s', some slash)) (htakes : slash.Takes stash) :
    params.slash.mul params.exposure.total ≠ 0 ∧ (params.stash = stash ∨
      stash ∈ params.exposure.others.map IndividualExposure.who) := by
  unfold computeSlash at h
  split at h
  · cases h
  · next hzero =>
    refine ⟨hzero, ?_⟩
    dsimp only at h
    split at h
    · cases h
      -- the others of the slash are those of the exposure
      refine htakes.imp And.left fun hother => ?_
      obtain ⟨other, hmem, rfl, -⟩ := hother
      have hfst := map_fst_foldl_slashNominator params (priorSlash s params.slashEra params.stash)
        params.exposure.others ((slashValidator cfg s params).1, [], 0)
      rw [List.map_nil, List.nil_append] at hfst
      rw [← hfst]
      exact List.mem_map_of_mem hmem
    · cases h

/-- Taking an amount writes the ledger of the stash; taking nothing writes nothing. -/
theorem doSlash_path {slashEra : ℕ} (x : Applying α) (hp : x.state.view.Paired)
    (hmay : value ≠ 0 → maySlash stash) :
    Path cfg maySlash mayRemove x.state (doSlash cfg slashEra x stash value).state := by
  unfold doSlash
  split
  · exact .refl _
  · next controller hbonded =>
    split
    · exact .refl _
    · next l hl =>
      dsimp only
      split
      · exact .refl _
      · next htaken =>
        -- something was taken, so the amount is not zero
        have hvalue : value ≠ 0 := by
          rintro rfl
          exact htaken (congrArg Prod.snd (l.slash_zero _ _ _))
        -- the ledger is that of the stash
        obtain ⟨m, hm, hstash⟩ := hp.ledger hbonded
        obtain rfl : m = l := Option.some.inj (hm.symm.trans hl)
        rw [← hstash] at hmay
        exact .single (.write hl (.slash m value slashEra (hmay hvalue)))

/-- A slash is applied to the validator and then to each nominator. -/
theorem applySlash_path {slashEra : ℕ} {slash : UnappliedSlash α} (hp : s.view.Paired)
    (hmay : ∀ stash, slash.Takes stash → maySlash stash) :
    Path cfg maySlash mayRemove s (applySlash cfg slashEra s slash) := by
  have hown : Path cfg maySlash mayRemove s
      (doSlash cfg slashEra ⟨s, slash.payout, 0⟩ slash.validator slash.own).state :=
    doSlash_path ⟨s, slash.payout, 0⟩ hp fun hown => hmay _ (.inl ⟨rfl, hown⟩)
  -- each round of the loop is a slash of one nominator
  have hother : ∀ x : Applying α, x.state.view.Paired → ∀ other ∈ slash.others,
      Path cfg maySlash mayRemove x.state (doSlash cfg slashEra x other.1 other.2).state :=
    fun x hx other hmem => doSlash_path x hx fun hvalue =>
      hmay _ (.inr ⟨other, hmem, rfl, hvalue⟩)
  have hothers := Path.foldl Applying.state slash.others hother (hown.paired hp)
  exact (hown.trans hothers).trans (.of_eq (view_payReporters _ _ _ _))

/-- An offender is slashed at once if slashes are not deferred. -/
theorem onOffender_path {activeEra slashEra : ℕ} {strategy : DisableStrategy}
    {offence : OffenceDetails α × Perbill} (hp : s.view.Paired)
    (hmay : cfg.slashDeferDuration = 0 → offence.2.mul offence.1.exposure.total ≠ 0 →
      ∀ stash, (offence.1.offender = stash ∨
        stash ∈ offence.1.exposure.others.map IndividualExposure.who) → maySlash stash) :
    Path cfg maySlash mayRemove s (onOffender cfg activeEra slashEra strategy s offence) := by
  unfold onOffender
  split
  next details fraction =>
  split
  · exact .refl s
  · extract_lets params
    have hoffender : params.stash = details.offender := rfl
    have hexposure : params.exposure = details.exposure := rfl
    have hfraction : params.slash = fraction := rfl
    clear_value params
    split
    · next computed hcomputed => exact .of_eq (computeSlash_view hcomputed)
    · next computed slash hcomputed =>
      have hview : computed.view = s.view := computeSlash_view hcomputed
      split
      · next hdefer =>
        -- not deferred: the slash is applied to what computing it has left
        have hp' : computed.view.Paired := by
          rw [hview]
          exact hp
        refine (Path.of_eq hview).trans (applySlash_path hp' ?_)
        intro stash htakes
        obtain ⟨hzero, hnamed⟩ := computeSlash_takes hcomputed htakes
        rw [hexposure] at hzero hnamed
        rw [hfraction] at hzero
        rw [hoffender] at hnamed
        exact hmay hdefer hzero stash hnamed
      · -- deferred: it is only noted
        exact .of_eq hview

/-! ### Sessions -/

omit [DecidableEq α] in
/-- Clearing old eras shows neither in the view nor in the deferred slashes. -/
theorem foldl_clearEraMetadata (pruned : List (ℕ × ℕ)) (s : State α) :
    (pruned.foldl (fun s entry => clearEraMetadata s entry.1) s).view = s.view ∧
      (pruned.foldl (fun s entry => clearEraMetadata s entry.1) s).offences.unapplied =
        s.offences.unapplied := by
  induction pruned generalizing s with
  | nil => exact ⟨rfl, rfl⟩
  | cons entry pruned ih => exact ih (clearEraMetadata s entry.1)

/-- The era that begins is one with a first session; the slashes deferred to it are applied. -/
theorem startEra_path (hp : s.view.Paired) (hstarts : s.eras.startSession s.nextActiveEra ≠ none)
    (hmay : ∀ slash ∈ s.offences.unapplied s.nextActiveEra, ∀ stash, slash.Takes stash →
      maySlash stash) : Path cfg maySlash mayRemove s (startEra cfg s session) := by
  unfold startEra
  extract_lets activeEra bonded pruned eras begun cleared
  have hbegun : Path cfg maySlash mayRemove s begun := .single (.begun activeEra hstarts)
  -- old eras are cleared, which leaves the slashes deferred to this one
  obtain ⟨hview, hunapplied⟩ := foldl_clearEraMetadata pruned begun
  have hcleared : cleared.view = begun.view := hview
  have hslashes : cleared.offences.unapplied activeEra =
      s.offences.unapplied s.nextActiveEra := congrFun hunapplied activeEra
  clear_value cleared
  -- these are applied one after the other
  unfold applyUnappliedSlashes
  extract_lets slashes offences taken
  have htaken : taken.view = begun.view := hcleared
  refine (hbegun.trans (.of_eq htaken)).trans (Path.foldl (fun s => s) slashes ?_ ?_)
  · intro t ht slash hslash
    rw [← hslashes] at hmay
    exact applySlash_path ht (hmay slash hslash)
  · rw [htaken]
    exact hbegun.paired hp

/-- An era begins with a session if it has a first session that is not later. -/
def State.StartsEra (s : State α) (session : ℕ) : Prop :=
  ∃ start, s.eras.startSession s.nextActiveEra = some start ∧ start ≤ session

/-- A session may begin an era; that it disables offenders does not show in the view. -/
theorem startSession_path (hp : s.view.Paired)
    (hmay : s.StartsEra session → ∀ slash ∈ s.offences.unapplied s.nextActiveEra, ∀ stash,
      slash.Takes stash → maySlash stash) :
    Path cfg maySlash mayRemove s (startSession cfg s session) := by
  unfold startSession
  extract_lets started
  have hstarted : Path cfg maySlash mayRemove s started := by
    unfold started
    split
    · exact .refl s
    · next start hstart =>
      split
      · next hle =>
        have hstarts : s.eras.startSession s.nextActiveEra ≠ none :=
          fun hnone => nomatch hstart.symm.trans hnone
        exact startEra_path hp hstarts (hmay ⟨start, hstart, hle⟩)
      · exact .refl s
  refine hstarted.trans (.of_eq (view_foldl (fun s => s) _ ?_ _ started))
  intro t entry
  split
  · exact view_disableValidator t entry.1
  · rfl

omit [DecidableEq α] in
/-- In range the next era is the successor of the planned one. -/
theorem State.InRange.next (h : s.InRange cfg) :
    (s.eras.current.map (wrapAdd 32 · 1)).getD 0 = (s.view.current.map (· + 1)).getD 0 := by
  unfold State.InRange at h
  change _ = (s.eras.current.map (· + 1)).getD 0
  cases hcurrent : s.eras.current with
  | none => rfl
  | some current =>
    rw [hcurrent] at h
    have hlt : current + 1 < 2 ^ 32 := by
      simp only [Option.getD_some] at h
      omega
    exact wrapAdd_of_lt hlt

/-- A new era is planned, and the one that leaves the history is forgotten. -/
theorem triggerNewEra_path {exposures : List (α × Exposure α)} (hrange : s.InRange cfg) :
    Path cfg maySlash mayRemove s (triggerNewEra cfg s session exposures) := by
  unfold triggerNewEra
  rw [hrange.next]
  extract_lets era eras planned cleared
  have hplanned : Path cfg maySlash mayRemove s planned := .single (.plan session)
  have hcleared : Path cfg maySlash mayRemove planned cleared := by
    unfold cleared
    split
    · exact .single (.forget _)
    · exact .refl planned
  exact (hplanned.trans hcleared).trans (.of_eq (view_storeStakersInfo _ _ _ _))

/-- An election that is too small plans no era, except the very first one. -/
theorem tryTriggerNewEra_path {election : Option (List (α × List (α × ℕ)))}
    (hrange : s.InRange cfg) :
    Path cfg maySlash mayRemove s (tryTriggerNewEra cfg s session election).1 := by
  unfold tryTriggerNewEra
  split
  · exact .refl s
  · extract_lets exposures
    split
    · split
      · exact .refl s
      · next hcurrent =>
        -- the very first era is planned although there are too few validators
        have hplan : Change cfg maySlash mayRemove s.view _ := .plan session
        rw [show s.view.current = none from hcurrent] at hplan
        exact .single hplan
    · exact triggerNewEra_path hrange

/-- A session is planned, and with it perhaps an era. -/
theorem newSession_path {election : Option (List (α × List (α × ℕ)))} (hrange : s.InRange cfg) :
    Path cfg maySlash mayRemove s (newSession cfg s session election).1 := by
  unfold newSession planSession
  have hrange' : State.InRange cfg { s with eras := { s.eras with plannedSession := session } } :=
    hrange
  -- that the session is planned does not show in the view
  generalize hplanned : { s with eras := { s.eras with plannedSession := session } } = planned
    at hrange' ⊢
  have hview : planned.view = s.view := by
    rw [← hplanned]
    rfl
  refine (Path.of_eq hview).trans ?_
  have htry : Path cfg maySlash mayRemove planned
      (tryTriggerNewEra cfg planned session election).1 := tryTriggerNewEra_path hrange'
  split
  · exact htry
  · split
    · split
      · next heq =>
        rw [heq] at htry
        exact htry
      · next heq =>
        rw [heq] at htry
        refine htry.trans (.of_eq ?_)
        dsimp only
        split <;> rfl
    · exact .refl planned

/-- The payout of the active era is fixed when the next era has a first session. -/
theorem endSession_path {now : ℕ} (hrange : s.InRange cfg) :
    Path cfg maySlash mayRemove s (endSession cfg s session now) := by
  unfold endSession
  split
  · exact .refl s
  · next active hactive =>
    split
    · next hnext =>
      unfold endEra
      split
      · exact .refl s
      · have hindex : s.view.active = some active.index := congrArg (Option.map _) hactive
        -- in range the next era is not cut off
        have hlt : s.view.current.getD 0 + 1 < 2 ^ 32 := by
          unfold State.InRange at hrange
          change s.eras.current.getD 0 + 1 < 2 ^ 32
          omega
        have hstarts : s.view.startSession (wrapAdd 32 active.index 1) ≠ none :=
          fun hnone => nomatch hnext.symm.trans hnone
        exact .single (.settle active.index _ hindex hlt hstarts)
    · exact .refl s

omit [DecidableEq α] in
/-- The time of an era is not part of the view, its index is. -/
theorem view_onFinalize (s : State α) (now : ℕ) : (onFinalize s now).view = s.view := by
  unfold onFinalize
  split
  · next index hactive => simp [State.view, hactive]
  · rfl

/-- Points are not part of the view. -/
theorem view_rewardByIds (s : State α) (points : List (α × ℕ)) :
    (rewardByIds s points).view = s.view := by
  unfold rewardByIds
  split <;> rfl

/-! ### Payouts -/

/-- A payout is only seen if it is staked: then it adds to the ledger. -/
theorem makePayout_path {amount : ℕ} :
    Path cfg maySlash mayRemove s (makePayout cfg s stash amount) := by
  unfold makePayout
  split
  · split
    · exact .refl s
    · exact .of_eq (view_depositCreating _ _ _)
  · exact .of_eq (view_depositIntoExisting _ _ _)
  · split
    · exact .refl s
    · next c hbonded =>
      split
      · exact .refl s
      · next l hl =>
        -- staked: the deposit first, and then the ledger
        have hview := view_depositIntoExisting s stash amount
        generalize (s.depositIntoExisting stash amount).getD s = paid at hview ⊢
        have hl' : paid.view.ledger c = some l := by
          rw [hview]
          exact hl
        exact (Path.of_eq hview).trans (.single (.write hl' (.extra l amount)))
  · exact .of_eq (view_depositCreating _ _ _)
  · exact .refl s

/-- The validator is paid, and then each nominator. -/
theorem payStakers_path {prefs : ValidatorPrefs} {exposure : Exposure α} {payout : ℕ}
    (hp : s.view.Paired) :
    Path cfg maySlash mayRemove s (payStakers cfg s stash prefs exposure payout) := by
  unfold payStakers
  generalize validatorShare prefs exposure payout = shares
  obtain ⟨own, leftover⟩ := shares
  have hown : Path cfg maySlash mayRemove s (makePayout cfg s stash own) := makePayout_path
  refine hown.trans (Path.foldl (fun s => s) exposure.others ?_ (hown.paired hp))
  intro t _ nominator _
  exact makePayout_path

/-- What a payout needs, and what it does after the reward is marked as claimed. -/
structure PaidOut (cfg : Config) (v : View α) (stash : α) (era : ℕ) (v' : View α) where
  current : ℕ
  controller : α
  ledger : StakingLedger α
  claimed : List ℕ
  hcurrent : v.current = some current
  hfrom : current - cfg.historyDepth ≤ era
  hreward : v.validatorReward era ≠ none
  hledger : v.ledger controller = some ledger
  hstash : ledger.stash = stash
  hclaim : claimEra cfg current era ledger.claimedRewards = .ok claimed
  hrest : Relation.ReflTransGen (Change cfg (fun _ => False) fun _ => False)
    { v with
      ledger := Function.update v.ledger controller
        (some { ledger with claimedRewards := claimed }) } v'

/-- A payout that succeeds marks its era as claimed and pays the stakers. -/
theorem doPayoutStakers_spec {era : ℕ} (hp : s.view.Paired)
    (h : doPayoutStakers cfg s stash era = .ok s') :
    Nonempty (PaidOut cfg s.view stash era s'.view) := by
  unfold doPayoutStakers at h
  simp only [bind_eq_ok, okOr_eq_ok, exists_ensure_eq_ok] at h
  obtain ⟨current, hcurrent, ⟨-, hfrom⟩, payout, hpayout, c, hbonded, l, hl, h⟩ := h
  obtain ⟨claimed, hclaim, h⟩ := h
  obtain ⟨m, hm, hstash⟩ := hp.ledger hbonded
  obtain rfl : m = l := Option.some.inj (hm.symm.trans hl)
  -- the era has a reward, and the ledger found is that of the stash
  have hreward : s.view.validatorReward era ≠ none := fun hnone => nomatch hpayout.symm.trans hnone
  refine ⟨⟨current, c, m, claimed, hcurrent, hfrom, hreward, hl, hstash, hclaim, ?_⟩⟩
  have hclaimed : Change cfg (fun _ => False) (fun _ => False) s.view _ :=
    .claim hl hcurrent hreward hclaim
  split at h
  · cases h
    exact .refl
  · cases h
    exact payStakers_path (s := { s with
      ledger := Function.update s.ledger c (some { m with claimedRewards := claimed }) })
      (hclaimed.paired hp)

/-! ### Calls -/

/-- Killing a stash, with its lock, removes it from the view together with its ledger. -/
theorem killStash_spec (h : s.killStash stash n = .ok s') :
    ∃ c, s.view.bonded stash = some c ∧ (s'.removeLock stash).view = s.view.remove stash c := by
  unfold State.killStash State.clearStashMetadata at h
  simp only [bind_eq_ok, okOr_eq_ok, exists_ensure_eq_ok] at h
  obtain ⟨c, hbonded, t, ⟨-, ht⟩, h⟩ := h
  cases ht
  cases h
  refine ⟨c, hbonded, ?_⟩
  have hlock : ∀ t : State α, (t.removeLock stash).view =
      { t.view with lock := Function.update t.view.lock stash 0 } := fun _ => rfl
  have hrefs : ∀ t : State α, (t.decConsumers stash).view = t.view := fun _ => rfl
  rw [hlock, hrefs, view_doRemoveNominator, view_doRemoveValidator]
  rfl

/-- Withdrawing writes the ledger, or removes the stash if nothing is left; the eras stay. -/
theorem doWithdrawUnbonded_path {c : α} (hp : s.view.Paired)
    (h : doWithdrawUnbonded cfg s c n = .ok s') :
    Path cfg maySlash mayRemove s s' ∧ s'.view.current = s.view.current := by
  unfold doWithdrawUnbonded ledgerOf at h
  simp only [bind_eq_ok, okOr_eq_ok] at h
  obtain ⟨l, hl, h⟩ := h
  change (if (withdrawn s.view.current l).unlocking = [] ∧
    (withdrawn s.view.current l).active < cfg.minimumBalance then _ else _) = _ at h
  split at h
  · next hspent =>
    -- nothing is left: the stash is killed
    obtain ⟨t, ht, h⟩ := bind_eq_ok.mp h
    cases h
    rw [(withdrawn_stash s.view.current l).2.2] at hspent
    obtain ⟨c', hbonded, hview⟩ := killStash_spec ht
    have hstash : (s.eras.current.elim l l.consolidateUnlocked).stash = l.stash :=
      (withdrawn_stash s.view.current l).1
    rw [hstash] at hbonded hview ⊢
    obtain rfl : c = c' := Option.some.inj ((hp.bonded hl).symm.trans hbonded)
    have hcurrent : (t.removeLock l.stash).view.current = (s.view.remove l.stash c).current :=
      congrArg View.current hview
    refine ⟨Path.single ?_, hcurrent⟩
    rw [hview]
    exact .remove hbonded hl (.inr (.inl hspent))
  · cases h
    exact ⟨.single (.write hl (.withdraw l)), rfl⟩

/-- Bonding adds a stash with itself as controller. -/
theorem bond_path {payee : RewardDestination α} (h : bond cfg s origin value payee = .ok s') :
    Path cfg maySlash mayRemove s s' := by
  unfold bond at h
  simp only [bind_eq_ok, okOr_eq_ok, exists_ensure_eq_ok] at h
  obtain ⟨stash, -, hbonded, hledger, -, t, ht, -, h⟩ := h
  cases h
  have hview : t.view = s.view := by
    unfold State.incConsumers at ht
    split at ht
    · cases ht
      rfl
    · cases ht
  refine (Path.of_eq hview).trans (.single (.add ?_ ?_))
  · rw [hview]
    exact Option.isNone_iff_eq_none.mp hbonded
  · rw [hview]
    exact Option.isNone_iff_eq_none.mp hledger

/-- What is bonded on top is active. -/
theorem bondExtra_path (h : bondExtra cfg s origin value = .ok s') :
    Path cfg maySlash mayRemove s s' := by
  unfold bondExtra bondedOf ledgerOf at h
  simp only [bind_eq_ok, okOr_eq_ok] at h
  obtain ⟨stash, -, c, hbonded, l, hl, h⟩ := h
  split at h
  · simp only [bind_eq_ok, exists_ensure_eq_ok] at h
    obtain ⟨-, h⟩ := h
    cases h
    exact .single (.write hl (.extra l _))
  · cases h
    exact .refl s

omit [DecidableEq α] in
/-- A branch before the rest of a computation. -/
theorem ite_bind_eq_ok {β : Type} {p : Prop} [Decidable p] {x y : Except Failure β}
    {f : β → Except Failure (State α)} (h : (if p then x >>= f else y >>= f) = .ok s') :
    ∃ b, (if p then x else y) = .ok b ∧ f b = .ok s' := by
  rw [← apply_ite (· >>= f)] at h
  exact bind_eq_ok.mp h

/-- Unbonding withdraws first if there are too many chunks. In range the era in which the new chunk
is due is not cut off. -/
theorem unbond_path (hp : s.view.Paired) (hrange : s.InRange cfg)
    (h : unbond cfg s origin value = .ok s') : Path cfg maySlash mayRemove s s' := by
  unfold unbond ledgerOf at h
  obtain ⟨c, -, h⟩ := bind_eq_ok.mp h
  obtain ⟨l₀, -, h⟩ := bind_eq_ok.mp h
  obtain ⟨t, ht, h⟩ := ite_bind_eq_ok h
  simp only [bind_eq_ok, okOr_eq_ok, exists_ensure_eq_ok] at h
  obtain ⟨l, hl, hroom, h⟩ := h
  have hwithdrawn : Path cfg maySlash mayRemove s t ∧ t.view.current = s.view.current := by
    split at ht
    · exact doWithdrawUnbonded_path hp ht
    · cases ht
      exact ⟨.refl s, rfl⟩
  have hdue : wrapAdd 32 (t.eras.current.getD 0) cfg.bondingDuration =
      t.view.current.getD 0 + cfg.bondingDuration := by
    have hcurrent : t.eras.current = s.eras.current := hwithdrawn.2
    unfold State.InRange at hrange
    change _ = t.eras.current.getD 0 + _
    rw [hcurrent]
    exact wrapAdd_of_lt (by omega)
  refine hwithdrawn.1.trans ?_
  split at h
  · cases h
    exact .refl _
  · simp only [bind_eq_ok, exists_ensure_eq_ok] at h
    obtain ⟨-, chunks, hpush, h⟩ := h
    cases h
    rw [hdue] at hpush
    refine .single (.write hl (.unbond l _ chunks ?_ hroom hpush))
    -- no more is left active than was
    unfold remainingActive
    split
    · exact Nat.zero_le _
    · exact Nat.sub_le _ _

/-- Rebonding is a change of the ledger. -/
theorem rebond_path (h : rebond cfg s origin value = .ok s') :
    Path cfg maySlash mayRemove s s' := by
  unfold rebond ledgerOf at h
  simp only [bind_eq_ok, okOr_eq_ok, exists_ensure_eq_ok] at h
  obtain ⟨c, -, l, hl, -, -, h⟩ := h
  cases h
  exact .single (.write hl (.rebond l value))

/-- A stash becomes its own controller. -/
theorem setController_path (hp : s.view.Paired) (h : setController s origin = .ok s') :
    Path cfg maySlash mayRemove s s' := by
  unfold setController bondedOf at h
  simp only [bind_eq_ok, okOr_eq_ok, exists_ensure_eq_ok] at h
  obtain ⟨stash, -, c, hbonded, hfree, h⟩ := h
  split at h
  · cases h
    exact .refl s
  · cases h
    obtain ⟨l, hl, -⟩ := hp.ledger hbonded
    have hmove : Change cfg maySlash mayRemove s.view _ :=
      .move hbonded hl (Option.isNone_iff_eq_none.mp hfree)
    refine .single ?_
    have hl' : s.ledger c = some l := hl
    simp only [State.view, hl']
    exact hmove

/-- A stash that `reap_stash` removes has no balance or a spent ledger. -/
theorem reapStash_path (hp : s.view.Paired)
    (hmay : s.totalBalance stash < cfg.minimumBalance → mayRemove stash)
    (h : reapStash cfg s origin stash n = .ok s') : Path cfg maySlash mayRemove s s' := by
  unfold reapStash reapable bondedOf at h
  simp only [bind_eq_ok, exists_ensure_eq_ok] at h
  obtain ⟨-, -, dust, hdust, rfl, t, ht, h⟩ := h
  cases h
  obtain ⟨c, hbonded, hview⟩ := killStash_spec ht
  obtain ⟨l, hl, -⟩ := hp.ledger hbonded
  refine .single ?_
  rw [hview]
  refine .remove hbonded hl ?_
  split at hdust
  -- a balance below the minimum, or a ledger that is spent
  · next hpoor => exact .inl (hmay hpoor)
  · simp only [bind_eq_ok, okOr_eq_ok] at hdust
    obtain ⟨c', hc', htotal⟩ := hdust
    obtain rfl : c = c' := Option.some.inj (hbonded.symm.trans hc')
    have hl' : s.ledger c = some l := hl
    rw [hl'] at htotal
    exact .inr (.inr (of_decide_eq_true (Except.ok.inj htotal)))

/-- Root removes a stash whatever its ledger says. -/
theorem forceUnstake_path (hp : s.view.Paired) (hmay : origin = .root → mayRemove stash)
    (h : forceUnstake s origin stash n = .ok s') : Path cfg maySlash mayRemove s s' := by
  unfold forceUnstake at h
  simp only [bind_eq_ok] at h
  obtain ⟨_, hroot, t, ht, h⟩ := h
  cases h
  obtain ⟨c, hbonded, hview⟩ := killStash_spec ht
  obtain ⟨l, hl, -⟩ := hp.ledger hbonded
  refine .single ?_
  rw [hview]
  refine .remove hbonded hl (.inl (hmay ?_))
  cases origin with
  | root => rfl
  | council => cases hroot
  | signed => cases hroot

/-- The stashes an operation may slash: if an era begins, those from which slashes deferred to it
take something, and, if slashes are not deferred, the offenders and those behind them whose exposure
has a fraction that is not zero. -/
def MaySlash (cfg : Config) (s : State α) : Operation α → α → Prop
  | .startSession session _, stash =>
    s.StartsEra session ∧ ∃ slash ∈ s.offences.unapplied s.nextActiveEra, slash.Takes stash
  | .onOffence offenders fractions _ _, stash =>
    cfg.slashDeferDuration = 0 ∧ ∃ offence ∈ offenders.zip fractions,
      offence.2.mul offence.1.exposure.total ≠ 0 ∧ (offence.1.offender = stash ∨
        stash ∈ offence.1.exposure.others.map IndividualExposure.who)
  | _, _ => False

/-- The stashes an operation may remove although their ledgers are not spent: root can do so, and
anyone if the balance is less than the minimum. -/
def MayRemove (cfg : Config) (s : State α) : Operation α → α → Prop
  | .forceUnstake origin stash _, stash' => origin = .root ∧ stash' = stash
  | .reapStash _ stash _, stash' => stash' = stash ∧ s.totalBalance stash < cfg.minimumBalance
  | _, _ => False

/-- The offenders are dealt with one after the other. -/
theorem onOffence_path {offenders : List (OffenceDetails α)} {fractions : List Perbill}
    {strategy : DisableStrategy} (hp : s.view.Paired) :
    Path cfg (MaySlash cfg s (.onOffence offenders fractions session strategy)) mayRemove s
      (onOffence cfg s offenders fractions session strategy) := by
  unfold onOffence
  split
  · exact .refl s
  · split
    · exact .refl s
    · refine Path.foldl (fun s => s) _ ?_ hp
      intro t ht offence hmem
      exact onOffender_path ht fun hdefer hzero stash hstash =>
        ⟨hdefer, offence, hmem, hzero, hstash⟩

/-! ### Calls that leave the stakes alone -/

/-- The destination of rewards is not part of the view. -/
theorem setPayee_view {payee : RewardDestination α} (h : setPayee s origin payee = .ok s') :
    s'.view = s.view := by
  unfold setPayee at h
  simp only [bind_eq_ok] at h
  obtain ⟨-, -, l, -, h⟩ := h
  cases h
  rfl

/-- Validating moves a stash between the lists of roles. -/
theorem validate_view {prefs : ValidatorPrefs} (h : validate s origin prefs = .ok s') :
    s'.view = s.view := by
  unfold validate at h
  simp only [bind_eq_ok, exists_ensure_eq_ok] at h
  obtain ⟨-, -, l, -, -, -, -, h⟩ := h
  cases h
  exact view_doRemoveNominator s l.stash

/-- So does nominating. -/
theorem nominate_view {targets : List α} (h : nominate cfg s origin targets = .ok s') :
    s'.view = s.view := by
  unfold nominate at h
  simp only [bind_eq_ok, exists_ensure_eq_ok] at h
  obtain ⟨-, -, l, -, -, -, -, -, -, h⟩ := h
  cases h
  exact view_doRemoveValidator s l.stash

/-- Chilling takes a stash off the lists of roles. -/
theorem chill_view (h : chill s origin = .ok s') : s'.view = s.view := by
  unfold chill at h
  simp only [bind_eq_ok] at h
  obtain ⟨-, -, l, -, h⟩ := h
  cases h
  exact view_chillStash s l.stash

/-- Chilling somebody else does the same, if one of the three conditions for it holds. -/
theorem chillOther_view {controller : α} (h : chillOther s origin controller = .ok s') :
    s'.view = s.view := by
  unfold chillOther at h
  obtain ⟨caller, -, h⟩ := bind_eq_ok.mp h
  obtain ⟨l, -, h⟩ := bind_eq_ok.mp h
  split at h
  · cases h
    exact view_chillStash s l.stash
  · obtain ⟨threshold, -, h⟩ := bind_eq_ok.mp h
    -- all three ways end with the same check
    have hend : ∀ {x : Except Failure Unit}, (do
        x
        ensure (l.active < minActiveBond s l.stash) (.module .cannotChillOther)
        pure (s.chillStash l.stash)) = .ok s' → s'.view = s.view := by
      intro x hx
      simp only [bind_eq_ok, exists_ensure_eq_ok] at hx
      obtain ⟨-, -, -, hx⟩ := hx
      cases hx
      exact view_chillStash s l.stash
    split at h
    · exact hend h
    · split at h
      · exact hend h
      · exact hend (x := .ok ()) h

/-- Kicking edits nominations. -/
theorem kick_view {who : List α} (h : kick s origin who = .ok s') : s'.view = s.view := by
  unfold kick at h
  simp only [bind_eq_ok] at h
  obtain ⟨-, -, l, -, h⟩ := h
  cases h
  refine view_foldl (fun s => s) (kickNominator l.stash) (fun t nominator => ?_) who s
  unfold kickNominator
  split <;> rfl

theorem forceApplyMinCommission_view (h : forceApplyMinCommission s origin stash = .ok s') :
    s'.view = s.view := by
  unfold forceApplyMinCommission at h
  simp only [bind_eq_ok] at h
  obtain ⟨-, -, prefs, -, h⟩ := h
  split at h <;> cases h <;> rfl

omit [DecidableEq α] in
/-- The number of validators is not part of the view. -/
theorem putValidatorCount_view {count : ℕ} (h : putValidatorCount cfg s count = .ok s') :
    s'.view = s.view := by
  unfold putValidatorCount at h
  simp only [bind_eq_ok, exists_ensure_eq_ok] at h
  obtain ⟨-, h⟩ := h
  cases h
  rfl

omit [DecidableEq α] in
/-- A deferred slash that is cancelled has taken nothing. -/
theorem cancelDeferredSlash_view {era : ℕ} {indices : List ℕ}
    (h : cancelDeferredSlash s origin era indices = .ok s') : s'.view = s.view := by
  unfold cancelDeferredSlash at h
  simp only [bind_eq_ok, exists_ensure_eq_ok] at h
  obtain ⟨-, -, -, -, -, h⟩ := h
  cases h
  rfl

/-- Balances that are not locked are not part of the view. -/
theorem transfer_view {source dest : α} (h : transfer s source dest value = .ok s') :
    s'.view = s.view := by
  unfold transfer at h
  simp only [bind_eq_ok, exists_ensure_eq_ok] at h
  obtain ⟨-, h⟩ := h
  split at h
  · cases h
    rfl
  · cases h

omit [DecidableEq α] in
/-- A call of governance that writes one value. -/
theorem guarded_view {x : Except Failure Unit} {t : State α}
    (h : (do x; pure t) = .ok s') (ht : t.view = s.view) : s'.view = s.view := by
  obtain ⟨-, -, h⟩ := bind_eq_ok.mp h
  cases h
  exact ht

/-- **An operation takes the view along a path of changes.** -/
theorem apply_path {op : Operation α} (hp : s.view.Paired) (hrange : s.InRange cfg)
    (h : apply cfg s op = .ok s') :
    Path cfg (MaySlash cfg s op) (MayRemove cfg s op) s s' := by
  cases op with
  | bond => exact bond_path h
  | bondExtra => exact bondExtra_path h
  | unbond => exact unbond_path hp hrange h
  -- the checks of the origin are peeled off the calls that have them in front
  | withdrawUnbonded =>
    obtain ⟨c, -, h⟩ := bind_eq_ok.mp h
    exact (doWithdrawUnbonded_path hp h).1
  | rebond => exact rebond_path h
  | setPayee => exact .of_eq (setPayee_view h)
  | setController => exact setController_path hp h
  | forceUnstake => exact forceUnstake_path hp (fun hroot => ⟨hroot, rfl⟩) h
  | reapStash => exact reapStash_path hp (fun hpoor => ⟨rfl, hpoor⟩) h
  | validate => exact .of_eq (validate_view h)
  | nominate => exact .of_eq (nominate_view h)
  | chill => exact .of_eq (chill_view h)
  | chillOther => exact .of_eq (chillOther_view h)
  | kick => exact .of_eq (kick_view h)
  | forceApplyMinCommission => exact .of_eq (forceApplyMinCommission_view h)
  | setStakingConfigs => exact .of_eq (guarded_view h rfl)
  | setValidatorCount =>
    obtain ⟨-, -, h⟩ := bind_eq_ok.mp h
    exact .of_eq (putValidatorCount_view h)
  | increaseValidatorCount | scaleValidatorCount =>
    obtain ⟨-, -, h⟩ := bind_eq_ok.mp h
    obtain ⟨count, -, h⟩ := bind_eq_ok.mp h
    exact .of_eq (putValidatorCount_view h)
  | forceEras | setInvulnerables | setMinCommission => exact .of_eq (guarded_view h rfl)
  | cancelDeferredSlash => exact .of_eq (cancelDeferredSlash_view h)
  | payoutStakers origin stash era =>
    obtain ⟨-, -, h⟩ := bind_eq_ok.mp h
    obtain ⟨paid⟩ := doPayoutStakers_spec hp h
    exact .head (.claim paid.hledger paid.hcurrent paid.hreward paid.hclaim) paid.hrest
  -- the sessions do not fail
  | newSession =>
    cases h
    exact newSession_path hrange
  | startSession session validators =>
    cases h
    exact startSession_path (s := s.setSession validators) hp
      fun hstarts slash hslash stash htakes => ⟨hstarts, slash, hslash, htakes⟩
  | endSession =>
    cases h
    exact endSession_path hrange
  | onFinalize =>
    cases h
    exact .of_eq (view_onFinalize _ _)
  | rewardByIds =>
    cases h
    exact .of_eq (view_rewardByIds _ _)
  | onOffence =>
    cases h
    exact onOffence_path hp
  | transfer => exact .of_eq (transfer_view h)

/-- A step takes the view along a path; an operation that fails leaves it. -/
theorem step_path (hp : s.view.Paired) (hrange : s.InRange cfg) (op : Operation α) :
    Path cfg (MaySlash cfg s op) (MayRemove cfg s op) s (step cfg s op) := by
  unfold step
  rcases commitOrKeep_cases (apply cfg s op) s with ⟨s', happly, hcommit⟩ | ⟨-, hkeep⟩
  · rw [hcommit]
    exact apply_path hp hrange happly
  · rw [hkeep]
    exact .refl s

end Reef.Staking
