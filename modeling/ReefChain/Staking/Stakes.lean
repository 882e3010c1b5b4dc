import ReefChain.Staking.Changes

/-!
# Stakes over whole runs

What the changes of the view keep, and with it every run of the pallet from its genesis.

The runs are those whose states are `InRange`: the planned era is less than `2^32` by the bonding
duration. Later than that the eras wrap around, chunks are due before they are made, and the
statements here do not hold.

**Locks.** `View.Kept` is the invariant: every stash has one ledger and every ledger a stash, the
total of a ledger is its active part and its chunks, the queue of chunks is in order, and the lock
of a stash is its total. One lemma for each kind of change gives `Change.kept`, and with
`apply_path` the invariant holds along every run (`locked_eq_staked`). If the currency passes over a
lock of nothing, a ledger from which everything was slashed has its former lock.

**Rewards.** A ledger lists the eras whose rewards are claimed, as far as they are in the history.
When a stash is removed its list is lost. A stash that bonds starts with all eras of the history on
the list, so that removing it and bonding again does not open a reward once more. `Settled` says
that a reward cannot be claimed; changes keep it (`Change.settled`), and a payout is made of what
was not settled, and settles it (`payout_settles`). So no reward is paid twice (`rewarded_once`).

**Reach.** An offence is punished after it has happened, so stake has to stay locked for a while.
`Held` says that a stash has an amount active or in chunks that are due in an era or later. What is
unbonded goes into such a chunk, and no chunk is withdrawn before it is due, so changes keep it
unless the stash is slashed or removed by force (`Change.held`). Stake that is active in an era is
locked until the bonding duration has passed (`stake_stays_locked`).
-/

namespace Reef.Staking

variable {α : Type} [DecidableEq α]

open Fallible Bounded

variable {cfg : Config} {maySlash mayRemove : α → Prop} {s s' : State α}

/-! ### Ledgers -/

/-- What holds of the ledgers: the total is the active part and the chunks, there are not more
chunks than allowed, their eras increase and are due within the bonding duration, and the claimed
eras are sorted. -/
structure StakingLedger.Kept (cfg : Config) (current : Option ℕ) (l : StakingLedger α) : Prop where
  sound : l.Sound
  room : l.unlocking.length ≤ cfg.maxUnlockingChunks
  ordered : (eras l.unlocking).Pairwise (· < ·)
  due : ∀ era ∈ eras l.unlocking, era ≤ current.getD 0 + cfg.bondingDuration
  claimed : SortedVec.Sorted id l.claimedRewards

variable {l l' : StakingLedger α} {chunks : List UnlockChunk} {era current due amount : ℕ}
  {v v' : View α} {stash : α}

omit [DecidableEq α] in
/-- A ledger stays in order if none but some chunks go. -/
theorem StakingLedger.Kept.of_sublist {current : Option ℕ} (h : l.Kept cfg current)
    (hsound : l'.Sound) (hsublist : (eras l'.unlocking).Sublist (eras l.unlocking))
    (hclaimed : l'.claimedRewards = l.claimedRewards) : l'.Kept cfg current := by
  refine ⟨hsound, ?_, h.ordered.sublist hsublist, fun era hera => h.due era (hsublist.subset hera),
    hclaimed ▸ h.claimed⟩
  have hlength := hsublist.length_le
  unfold eras at hlength
  rw [List.length_map, List.length_map] at hlength
  exact hlength.trans h.room

/-- The two outcomes of `pushChunk`: the last chunk grows if it has the same era, otherwise there is
a new one. -/
theorem pushChunk_cases {chunks' : List UnlockChunk} {value : ℕ}
    (h : pushChunk cfg chunks value era = .ok chunks') :
    (∃ init last, chunks = init ++ [last] ∧ last.era = era ∧
      chunks' = init ++ [⟨last.value + value, era⟩]) ∨
    (chunks.length < cfg.maxUnlockingChunks ∧ (∀ last ∈ chunks.getLast?, last.era ≠ era) ∧
      chunks' = chunks ++ [⟨value, era⟩]) := by
  unfold pushChunk at h
  split at h
  -- the last chunk is added to if it is due at the same time
  · next last hlast =>
    split at h
    · next hera =>
      cases h
      obtain ⟨init, rfl⟩ := List.getLast?_eq_some_iff.mp hlast
      exact .inl ⟨init, last, rfl, hera, by rw [List.dropLast_concat]⟩
    · next hera =>
      split at h
      · next hlt =>
        cases h
        refine .inr ⟨hlt, fun last' hlast' => ?_, rfl⟩
        obtain rfl : last = last' := Option.some.inj (hlast.symm.trans hlast')
        exact hera
      · cases h
  -- without chunks there is none to add to
  · next hnone =>
    split at h
    · next hlt =>
      cases h
      refine .inr ⟨hlt, fun last hlast => ?_, rfl⟩
      rw [hnone] at hlast
      cases hlast
    · cases h

/-- What is pushed is added to the funds. -/
theorem funds_pushChunk {chunks' : List UnlockChunk} {value : ℕ}
    (h : pushChunk cfg chunks value era = .ok chunks') : funds chunks' = funds chunks + value := by
  obtain ⟨init, last, rfl, -, rfl⟩ | ⟨-, -, rfl⟩ := pushChunk_cases h
  · simp [Nat.add_assoc]
  · simp

/-- The eras of a queue whose last era is not the bound are below the bound. -/
theorem lt_of_last_ne {bound : ℕ} (hordered : (eras chunks).Pairwise (· < ·))
    (hdue : ∀ era ∈ eras chunks, era ≤ bound) (hlast : ∀ last ∈ chunks.getLast?, last.era ≠ bound) :
    ∀ era ∈ eras chunks, era < bound := by
  rcases List.eq_nil_or_concat chunks with rfl | ⟨init, last, rfl⟩
  · intro era hera
    cases hera
  · have hne : last.era ≠ bound := hlast last (by simp)
    have hle : last.era ≤ bound := hdue last.era (by simp [eras])
    intro era hera
    simp only [eras, List.concat_eq_append, List.map_append, List.map_cons, List.map_nil,
      List.mem_append, List.mem_singleton, List.pairwise_append] at hera hordered
    rcases hera with hera | rfl
    · have hlt : era < last.era := hordered.2.2 era hera last.era rfl
      omega
    · omega

omit [DecidableEq α] in
/-- **A change of a ledger keeps it in order.** -/
theorem LedgerChange.kept {current : Option ℕ} (h : LedgerChange cfg maySlash current l l')
    (hl : l.Kept cfg current) : l'.Kept cfg current := by
  cases h with
  | extra amount =>
    refine hl.of_sublist ?_ (.refl _) rfl
    have hsound := hl.sound
    unfold StakingLedger.Sound at hsound ⊢
    dsimp only
    omega
  | withdraw =>
    cases current with
    | none => exact hl
    | some current =>
      exact hl.of_sublist (hl.sound.consolidateUnlocked current)
        (StakingLedger.eras_consolidateUnlocked l current) rfl
  | unbond active chunks hle hroom hpush =>
    have hfunds := funds_pushChunk hpush
    have hsound : ({ l with active := active, unlocking := chunks } : StakingLedger α).Sound := by
      have hsound := hl.sound
      unfold StakingLedger.Sound at hsound ⊢
      dsimp only
      omega
    obtain ⟨init, last, hchunks, hera, rfl⟩ | ⟨hlength, hlast, rfl⟩ := pushChunk_cases hpush
    · -- the last chunk grows: the eras are those there were
      refine hl.of_sublist hsound ?_ rfl
      rw [hchunks]
      simp [eras, hera]
    · -- there is room for a chunk, and its era is later than all others
      have hlt := lt_of_last_ne hl.ordered hl.due hlast
      have heras : ∀ value era, eras (l.unlocking ++ [UnlockChunk.mk value era]) =
          eras l.unlocking ++ [era] := fun value era => by simp [eras]
      refine ⟨hsound, ?_, ?_, ?_, hl.claimed⟩
      · rw [List.length_append]
        exact hlength
      · dsimp only
        rw [heras]
        refine List.pairwise_append.mpr ⟨hl.ordered, List.pairwise_singleton _ _, ?_⟩
        intro era hera era' hera'
        rw [List.mem_singleton.mp hera']
        exact hlt era hera
      · intro era hera
        dsimp only at hera
        rw [heras, List.mem_append, List.mem_singleton] at hera
        rcases hera with hera | rfl
        · exact hl.due era hera
        · exact Nat.le_refl _
  | rebond value =>
    exact hl.of_sublist (hl.sound.rebond value) (StakingLedger.rebond_spec l value).sublist rfl
  | slash amount slashEra =>
    have hspec := StakingLedger.slash_spec hl.sound cfg.bondingDuration amount
      cfg.minimumBalance slashEra
    exact hl.of_sublist hspec.sound hspec.sublist (StakingLedger.slash_stash _ _ _ _ _).2

/-- What `claimEra` does: the era was not among the claimed ones, now it is, and those that have
left the history are dropped. -/
theorem claimEra_spec {old claimed : List ℕ} (hold : SortedVec.Sorted id old)
    (h : claimEra cfg current era old = .ok claimed) :
    SortedVec.Sorted id claimed ∧ (current - cfg.historyDepth ≤ era → era ∉ old) ∧
      ∀ e, e ∈ claimed ↔ e = era ∨ (e ∈ old ∧ current - cfg.historyDepth ≤ e) := by
  unfold claimEra at h
  dsimp only at h
  have hsorted : SortedVec.Sorted id (old.filter (current - cfg.historyDepth ≤ ·)) :=
    hold.sublist List.filter_sublist
  split at h
  · cases h
  · next position hsearch =>
    split at h
    · cases h
      refine ⟨hsorted.insertIdx hsearch, fun hfrom hmem => ?_, fun e => ?_⟩
      · have hkept : era ∈ old.filter (current - cfg.historyDepth ≤ ·) :=
          List.mem_filter.mpr ⟨hmem, decide_eq_true hfrom⟩
        exact SortedVec.not_mem_of_search hsorted hsearch hkept rfl
      · obtain ⟨as, bs, heq, rfl, -, -⟩ := SortedVec.search_eq_error hsorted hsearch
        have hmem : e ∈ as ++ bs ↔ e ∈ old ∧ current - cfg.historyDepth ≤ e := by
          rw [← heq, List.mem_filter, decide_eq_true_iff]
        rw [heq, SortedVec.insertIdx_append_length, ← hmem]
        simp only [List.mem_append, List.mem_cons]
        tauto
    · cases h

/-! ### The invariant -/

/-- What holds of the view in every run: stashes and ledgers are paired, the ledgers are in order,
the lock of a stash is its total and there is no other lock, only eras that are planned have a
first session or are active, and only those before the planned one have a payout. -/
structure View.Kept (cfg : Config) (v : View α) : Prop where
  paired : v.Paired
  ledgers : ∀ {c l}, v.ledger c = some l → l.Kept cfg v.current
  locked : ∀ {c l}, v.ledger c = some l →
    v.lock l.stash = l.total ∨ (l.total = 0 ∧ cfg.clearsZeroLock = false)
  free : ∀ {stash}, v.bonded stash = none → v.lock stash = 0
  active : ∀ {era}, v.active = some era → ∃ current, v.current = some current ∧ era ≤ current
  started : ∀ {era}, v.startSession era ≠ none → ∃ current, v.current = some current ∧ era ≤ current
  rewarded : ∀ {era}, v.validatorReward era ≠ none →
    ∃ current, v.current = some current ∧ era < current

/-- A ledger is replaced by one of the same stash that is in order, and the lock follows. -/
theorem View.Kept.write (hv : v.Kept cfg) {c : α} (hl : v.ledger c = some l)
    (hl' : l'.Kept cfg v.current) (hstash : l'.stash = l.stash) : (v.write cfg c l').Kept cfg := by
  unfold View.write
  refine ⟨hv.paired.replace hl l' hstash _, ?_, ?_, ?_, hv.active, hv.started, hv.rewarded⟩
  · intro d m hm
    simp only [Function.update_apply] at hm
    split at hm
    · cases hm
      exact hl'
    · exact hv.ledgers hm
  · intro d m hm
    dsimp only
    simp only [Function.update_apply] at hm
    split at hm
    · cases hm
      exact State.lockSet_self _ _ _ _
    · next hne =>
      -- another controller has another stash
      have hother : m.stash ≠ l'.stash := by
        intro heq
        have hc := hv.paired.bonded hl
        rw [← hstash, ← heq, hv.paired.bonded hm] at hc
        exact hne (Option.some.inj hc)
      rw [State.lockSet_of_ne _ _ hother]
      exact hv.locked hm
  · intro stash hnone
    have hne : stash ≠ l'.stash := by
      rintro rfl
      rw [hstash, hv.paired.bonded hl] at hnone
      cases hnone
    dsimp only
    rw [State.lockSet_of_ne _ _ hne]
    exact hv.free hnone

/-- A stash is removed, and its lock with it. -/
theorem View.Kept.remove (hv : v.Kept cfg) {c : α} (hbonded : v.bonded stash = some c) :
    (v.remove stash c).Kept cfg := by
  have hpaired := hv.paired.remove hbonded
  refine ⟨hpaired, ?_, ?_, ?_, hv.active, hv.started, hv.rewarded⟩
  · intro d m hm
    simp only [View.remove, Function.update_apply] at hm
    split at hm
    · cases hm
    · exact hv.ledgers hm
  · intro d m hm
    have hb := hpaired.bonded hm
    simp only [View.remove, Function.update_apply] at hm hb ⊢
    split at hb
    · cases hb
    · next hne =>
      rw [if_neg hne]
      split at hm
      · cases hm
      · exact hv.locked hm
  · intro stash' hnone
    simp only [View.remove, Function.update_apply] at hnone ⊢
    split
    · rfl
    · next hne =>
      rw [if_neg hne] at hnone
      exact hv.free hnone

/-- A new stash with its ledger in order. -/
theorem View.Kept.add (hv : v.Kept cfg) (hbonded : v.bonded l.stash = none)
    (hledger : v.ledger l.stash = none) (hl : l.Kept cfg v.current) :
    ({ v with bonded := Function.update v.bonded l.stash (some l.stash) }.write cfg l.stash
      l).Kept cfg := by
  refine ⟨hv.paired.add l hbonded hledger _, ?_, ?_, ?_, hv.active, hv.started, hv.rewarded⟩
  · intro d m hm
    simp only [View.write, Function.update_apply] at hm
    split at hm
    · cases hm
      exact hl
    · exact hv.ledgers hm
  · intro d m hm
    simp only [View.write, Function.update_apply] at hm ⊢
    split at hm
    · cases hm
      exact State.lockSet_self _ _ _ _
    -- the locks of the other stashes stay
    · have hne : m.stash ≠ l.stash := by
        intro heq
        have hb := hv.paired.bonded hm
        rw [heq, hbonded] at hb
        cases hb
      rw [State.lockSet_of_ne _ _ hne]
      exact hv.locked hm
  · intro stash hnone
    simp only [View.write, Function.update_apply] at hnone ⊢
    split at hnone
    · cases hnone
    · next hne =>
      rw [State.lockSet_of_ne _ _ hne]
      exact hv.free hnone

omit [DecidableEq α] in
theorem StakingLedger.Kept.mono {current current' : Option ℕ} (h : l.Kept cfg current)
    (hle : current.getD 0 ≤ current'.getD 0) : l.Kept cfg current' :=
  ⟨h.sound, h.room, h.ordered, fun era hera => (h.due era hera).trans (by omega), h.claimed⟩

omit [DecidableEq α] in
/-- An era is planned: what held of the planned era holds of the next one. -/
theorem View.Kept.plan (hv : v.Kept cfg) (session : ℕ) :
    View.Kept cfg { v with
      current := some ((v.current.map (· + 1)).getD 0)
      startSession := Function.update v.startSession ((v.current.map (· + 1)).getD 0)
        (some session) } := by
  -- the era that is planned is behind all eras so far
  have hnext : ∀ current, v.current = some current →
      (v.current.map (· + 1)).getD 0 = current + 1 := by
    intro current hcurrent
    rw [hcurrent]
    rfl
  refine ⟨⟨hv.paired.ledger, hv.paired.bonded⟩, ?_, hv.locked, hv.free, ?_, ?_, ?_⟩
  · intro c l hl
    refine (hv.ledgers hl).mono ?_
    cases hcurrent : v.current <;> simp
  · intro era hera
    obtain ⟨current, hcurrent, hle⟩ := hv.active hera
    refine ⟨_, rfl, ?_⟩
    rw [hnext current hcurrent]
    omega
  · intro era hera
    refine ⟨_, rfl, ?_⟩
    -- the new era has a first session, the others had theirs before
    simp only [Function.update_apply] at hera
    split at hera
    · next heq => exact heq.le
    · obtain ⟨current, hcurrent, hle⟩ := hv.started hera
      rw [hnext current hcurrent]
      omega
  · intro era hera
    obtain ⟨current, hcurrent, hlt⟩ := hv.rewarded hera
    refine ⟨_, rfl, ?_⟩
    rw [hnext current hcurrent]
    omega

/-- **A change keeps the view in order.** -/
theorem Change.kept (h : Change cfg maySlash mayRemove v v') (hv : v.Kept cfg) : v'.Kept cfg := by
  have hpaired := h.paired hv.paired
  cases h with
  | write hl h => exact hv.write hl (h.kept (hv.ledgers hl)) h.stash.1
  | @claim c l current era claimed hl hcurrent hreward hclaim =>
    have hsorted := (claimEra_spec (hv.ledgers hl).claimed hclaim).1
    refine ⟨hpaired, ?_, ?_, hv.free, hv.active, hv.started, hv.rewarded⟩
    · intro d m hm
      simp only [Function.update_apply] at hm
      split at hm
      · cases hm
        have hkept := hv.ledgers hl
        exact ⟨hkept.sound, hkept.room, hkept.ordered, hkept.due, hsorted⟩
      · exact hv.ledgers hm
    · intro d m hm
      simp only [Function.update_apply] at hm
      split at hm
      · cases hm
        have hlocked := hv.locked hl
        exact hlocked
      · exact hv.locked hm
  | @add stash value hbonded hledger =>
    refine hv.add (l := ⟨stash, value, value, [], _⟩) hbonded hledger ⟨rfl, Nat.zero_le _, .nil,
      nofun, ?_⟩
    exact List.pairwise_lt_range'
  | remove hbonded => exact hv.remove hbonded
  | @move stash c l hbonded hl hfree =>
    obtain ⟨m, hm, hstash⟩ := hv.paired.ledger hbonded
    obtain rfl : m = l := Option.some.inj (hm.symm.trans hl)
    have hmem : ∀ {d l}, Function.update (Function.update v.ledger c none) stash (some m) d =
        some l → ∃ d', v.ledger d' = some l := by
      intro d l hd
      simp only [Function.update_apply] at hd
      split at hd
      · cases hd
        exact ⟨c, hl⟩
      · split at hd
        · cases hd
        · exact ⟨d, hd⟩
    refine ⟨hpaired, ?_, ?_, ?_, hv.active, hv.started, hv.rewarded⟩
    · intro d l hd
      exact hv.ledgers (hmem hd).choose_spec
    · intro d l hd
      exact hv.locked (hmem hd).choose_spec
    · intro stash' hnone
      simp only [Function.update_apply] at hnone
      split at hnone
      · cases hnone
      · exact hv.free hnone
  | plan session => exact hv.plan session
  | begun era hstarts =>
    refine ⟨hpaired, hv.ledgers, hv.locked, hv.free, ?_, hv.started, hv.rewarded⟩
    intro era' hera'
    cases hera'
    exact hv.started hstarts
  | settle era payout hactive hrange hnext =>
    refine ⟨hpaired, hv.ledgers, hv.locked, hv.free, hv.active, hv.started, ?_⟩
    intro era' hera'
    simp only [Function.update_apply] at hera'
    split at hera'
    · next heq =>
      -- the active era is planned, and so is the one after it
      obtain ⟨current, hcurrent, hle⟩ := hv.active hactive
      rw [hcurrent, Option.getD_some] at hrange
      rw [wrapAdd_of_lt (by omega)] at hnext
      obtain ⟨current', hcurrent', hle'⟩ := hv.started hnext
      exact ⟨current', hcurrent', by omega⟩
    · exact hv.rewarded hera'
  | forget era =>
    refine ⟨hpaired, hv.ledgers, hv.locked, hv.free, hv.active, ?_, ?_⟩
    · intro era' hera'
      simp only [Function.update_apply] at hera'
      split at hera'
      · exact absurd rfl hera'
      · exact hv.started hera'
    · intro era' hera'
      simp only [Function.update_apply] at hera'
      split at hera'
      · exact absurd rfl hera'
      · exact hv.rewarded hera'

/-- A property that every change of a view in order keeps holds at the end of a path. -/
theorem path_induction {P : View α → Prop}
    (h : Relation.ReflTransGen (Change cfg maySlash mayRemove) v v')
    (hstep : ∀ {v v'}, Change cfg maySlash mayRemove v v' → v.Kept cfg → P v → P v')
    (hv : v.Kept cfg) (hP : P v) : v'.Kept cfg ∧ P v' := by
  induction h with
  | refl => exact ⟨hv, hP⟩
  | tail _ hchange ih => exact ⟨hchange.kept ih.1, hstep hchange ih.1 ih.2⟩

theorem Path.kept (h : Path cfg maySlash mayRemove s s') (hs : s.view.Kept cfg) :
    s'.view.Kept cfg :=
  (path_induction (P := fun _ => True) h (fun _ _ _ => trivial) hs trivial).1

/-- **A step in range keeps the view in order.** -/
theorem step_kept (hs : s.view.Kept cfg) (hrange : s.InRange cfg) (op : Operation α) :
    (step cfg s op).view.Kept cfg :=
  (step_path hs.paired hrange op).kept hs

/-- The storage before the first stakers bond: nothing is bonded, locked or planned. -/
def State.genesis (settings : Settings) (force : Forcing) (rewardFraction : Perbill)
    (invulnerables : List α) (balances : Ledger α) (issuance : ℕ) (refs : α → Refs)
    (session : Session α) : State α where
  bonded _ := none
  ledger _ := none
  payee _ := .staked
  validators := ∅
  nominators := ∅
  voterList := []
  eras :=
    { current := none
      active := none
      startSession := fun _ => none
      stakers := fun _ _ => .empty
      stakersClipped := fun _ _ => .empty
      validatorPrefs := fun _ _ => .default
      validatorReward := fun _ => none
      rewardPoints := fun _ => .empty
      totalStake := fun _ => 0
      force := force
      plannedSession := 0
      bonded := [] }
  offences :=
    { rewardFraction := rewardFraction
      invulnerables := invulnerables
      unapplied := fun _ => []
      validatorInEra := fun _ _ => none
      nominatorInEra := fun _ _ => none
      books := fun _ => .empty
      offending := [] }
  settings := settings
  native := ⟨balances, fun _ => 0, issuance⟩
  refs := refs
  session := session

/-! ### Rewards -/

/-- The reward of a stash for an era cannot be claimed any more: the era is over, and it has left
the history or is claimed in every ledger of the stash. -/
def Settled (cfg : Config) (stash : α) (era : ℕ) (v : View α) : Prop :=
  ∃ current, v.current = some current ∧ era < current ∧
    (era < current - cfg.historyDepth ∨
      ∀ c l, v.ledger c = some l → l.stash = stash → era ∈ l.claimedRewards)

omit [DecidableEq α] in
/-- If the planned era stays and the ledgers are those there were, up to the rest of the ledgers,
what is settled stays settled. -/
theorem Settled.of_ledgers (h : Settled cfg stash era v) (hcurrent : v'.current = v.current)
    (hledger : ∀ c l, v'.ledger c = some l → ∃ c' l', v.ledger c' = some l' ∧
      l'.stash = l.stash ∧ l'.claimedRewards = l.claimedRewards) : Settled cfg stash era v' := by
  obtain ⟨current, hv, hlt, h⟩ := h
  refine ⟨current, hcurrent.trans hv, hlt, h.imp id fun hclaimed c l hl hstash => ?_⟩
  obtain ⟨c', l', hl', hstash', hclaimed'⟩ := hledger c l hl
  rw [← hclaimed']
  exact hclaimed c' l' hl' (hstash'.trans hstash)

/-- **What is settled stays settled**, also when the stash is removed and bonds again: a new ledger
starts with the whole history as claimed. -/
theorem Change.settled (h : Change cfg maySlash mayRemove v v') (hv : v.Kept cfg)
    (hsettled : Settled cfg stash era v) : Settled cfg stash era v' := by
  cases h with
  | @write c l l' hl h =>
    refine hsettled.of_ledgers rfl fun d m hm => ?_
    simp only [View.write, Function.update_apply] at hm
    split at hm
    · cases hm
      exact ⟨c, l, hl, h.stash.1.symm, h.stash.2.symm⟩
    · exact ⟨d, m, hm, rfl, rfl⟩
  -- another era is claimed, which does not unclaim this one
  | @claim c l current era' claimed hl hcurrent hreward hclaim =>
    obtain ⟨current', hcurrent', hlt, h⟩ := hsettled
    obtain rfl : current = current' := Option.some.inj (hcurrent.symm.trans hcurrent')
    refine ⟨current, hcurrent, hlt, or_iff_not_imp_left.mpr fun hfrom d m hm hstash => ?_⟩
    have hclaimed := h.resolve_left hfrom
    simp only [Function.update_apply] at hm
    split at hm
    · cases hm
      have hmem := (claimEra_spec (hv.ledgers hl).claimed hclaim).2.2 era
      exact hmem.mpr (.inr ⟨hclaimed c l hl hstash, Nat.not_lt.mp hfrom⟩)
    · exact hclaimed d m hm hstash
  -- a new stash starts with all eras of the history claimed
  | @add stash' value hbonded hledger =>
    obtain ⟨current, hcurrent, hlt, h⟩ := hsettled
    refine ⟨current, hcurrent, hlt, or_iff_not_imp_left.mpr fun hfrom d m hm hstash => ?_⟩
    simp only [View.write, Function.update_apply] at hm
    split at hm
    · cases hm
      simp only [hcurrent, Option.getD_some, List.mem_range'_1]
      omega
    · exact h.resolve_left hfrom d m hm hstash
  | remove =>
    refine hsettled.of_ledgers rfl fun d m hm => ?_
    simp only [View.remove, Function.update_apply] at hm
    split at hm
    · cases hm
    · exact ⟨d, m, hm, rfl, rfl⟩
  -- the ledger moves to another key and stays the same
  | @move stash' c l hbonded hl hfree =>
    refine hsettled.of_ledgers rfl fun d m hm => ?_
    simp only [Function.update_apply] at hm
    split at hm
    · cases hm
      exact ⟨c, l, hl, rfl, rfl⟩
    · split at hm
      · cases hm
      · exact ⟨d, m, hm, rfl, rfl⟩
  | plan session =>
    obtain ⟨current, hcurrent, hlt, h⟩ := hsettled
    refine ⟨current + 1, ?_, by omega, h.imp (fun hlt => by omega) id⟩
    dsimp only
    rw [hcurrent]
    rfl
  | begun => exact hsettled
  | settle => exact hsettled
  | forget => exact hsettled

theorem step_settled (hs : s.view.Kept cfg) (hrange : s.InRange cfg)
    (h : Settled cfg stash era s.view) (op : Operation α) :
    Settled cfg stash era (step cfg s op).view :=
  (path_induction (step_path hs.paired hrange op) Change.settled hs h).2

/-- A payout is made of what is not settled, and settles it. -/
theorem payout_settles (hs : s.view.Kept cfg) (h : doPayoutStakers cfg s stash era = .ok s') :
    ¬ Settled cfg stash era s.view ∧ Settled cfg stash era s'.view := by
  obtain ⟨paid⟩ := doPayoutStakers_spec hs.paired h
  obtain ⟨-, hfresh, hclaimed⟩ := claimEra_spec (hs.ledgers paid.hledger).claimed paid.hclaim
  constructor
  · rintro ⟨current, hcurrent, -, hsettled⟩
    obtain rfl : paid.current = current := Option.some.inj (paid.hcurrent.symm.trans hcurrent)
    have hmem := hsettled.resolve_left (Nat.not_lt.mpr paid.hfrom) _ _ paid.hledger paid.hstash
    exact hfresh paid.hfrom hmem
  · have hclaim : Change cfg (fun _ => False) (fun _ => False) s.view _ :=
      .claim paid.hledger paid.hcurrent paid.hreward paid.hclaim
    refine (path_induction paid.hrest Change.settled (hclaim.kept hs) ?_).2
    obtain ⟨current, hcurrent, hlt⟩ := hs.rewarded paid.hreward
    refine ⟨current, hcurrent, hlt, .inr fun d m hm hstash => ?_⟩
    simp only [Function.update_apply] at hm
    split at hm
    · cases hm
      exact (hclaimed era).mpr (.inl rfl)
    · next hne =>
      -- the stash has no other ledger
      have hd := hs.paired.bonded hm
      rw [hstash, ← paid.hstash, hs.paired.bonded paid.hledger] at hd
      exact absurd (Option.some.inj hd).symm hne

/-- The reward that an operation pays out, if it succeeds. -/
def payoutOf (cfg : Config) : State α × Operation α → Option (α × ℕ)
  | (s, .payoutStakers origin stash era) =>
    match payoutStakers cfg s origin stash era with
    | .ok _ => some (stash, era)
    | .error _ => none
  | _ => none

theorem payoutOf_eq_some {op : Operation α} (h : payoutOf cfg (s, op) = some (stash, era)) :
    doPayoutStakers cfg s stash era = .ok (step cfg s op) := by
  unfold payoutOf at h
  split at h
  · next origin stash' era' heq =>
    cases heq
    split at h
    · next s' hpayout =>
      cases h
      have hstep : step cfg s (.payoutStakers origin stash era) = s' := by
        show commitOrKeep (payoutStakers cfg s origin stash era) s = s'
        rw [hpayout]
        rfl
      rw [hstep]
      obtain ⟨-, -, hdo⟩ := bind_eq_ok.mp hpayout
      exact hdo
    · cases h
  · cases h

/-- What holds of the payouts of a run: no reward is paid twice, and those paid are settled. -/
structure PaidOnce (cfg : Config) (trace : List (State α × Operation α)) (s : State α) : Prop where
  kept : s.view.Kept cfg
  nodup : (trace.filterMap (payoutOf cfg)).Nodup
  settled : ∀ stash era, (stash, era) ∈ trace.filterMap (payoutOf cfg) →
    Settled cfg stash era s.view

/-- **A step in range pays nothing that is settled.** -/
theorem PaidOnce.step {trace : List (State α × Operation α)} (h : PaidOnce cfg trace s)
    (hrange : s.InRange cfg) (op : Operation α) :
    PaidOnce cfg (trace ++ [(s, op)]) (step cfg s op) := by
  have hkept := step_kept h.kept hrange op
  cases hpayout : payoutOf cfg (s, op) with
  | none =>
    have hsame : (trace ++ [(s, op)]).filterMap (payoutOf cfg) =
        trace.filterMap (payoutOf cfg) := by
      simp [hpayout]
    refine ⟨hkept, hsame ▸ h.nodup, fun stash era hmem => ?_⟩
    rw [hsame] at hmem
    exact step_settled h.kept hrange (h.settled stash era hmem) op
  | some paid =>
    obtain ⟨stash, era⟩ := paid
    have hmore : (trace ++ [(s, op)]).filterMap (payoutOf cfg) =
        trace.filterMap (payoutOf cfg) ++ [(stash, era)] := by
      simp [hpayout]
    obtain ⟨hopen, hsettles⟩ := payout_settles h.kept (payoutOf_eq_some hpayout)
    refine ⟨hkept, ?_, fun stash' era' hmem => ?_⟩
    · rw [hmore]
      refine List.nodup_append.mpr ⟨h.nodup, List.nodup_singleton _, ?_⟩
      rintro paid hold _ hnew rfl
      rw [List.mem_singleton.mp hnew] at hold
      exact hopen (h.settled stash era hold)
    · rw [hmore, List.mem_append, List.mem_singleton] at hmem
      rcases hmem with hmem | hmem
      · exact step_settled h.kept hrange (h.settled stash' era' hmem) op
      · cases hmem
        exact hsettles

/-! ### Funds within reach -/

/-- Chunks that are not yet due are not withdrawn. -/
theorem fundsFrom_filter (h : current < due) (chunks : List UnlockChunk) :
    StakingLedger.fundsFrom due (chunks.filter (current < ·.era)) =
      StakingLedger.fundsFrom due chunks := by
  unfold StakingLedger.fundsFrom
  rw [List.filter_filter]
  congr 1
  refine List.filter_congr fun chunk _ => ?_
  by_cases hera : due ≤ chunk.era
  · simp [hera, h.trans_le hera]
  · simp [hera]

/-- What is pushed with a later era counts. -/
theorem fundsFrom_pushChunk {chunks' : List UnlockChunk} {value : ℕ}
    (h : pushChunk cfg chunks value era = .ok chunks') (hdue : due ≤ era) :
    StakingLedger.fundsFrom due chunks' = StakingLedger.fundsFrom due chunks + value := by
  obtain ⟨init, last, rfl, rfl, rfl⟩ | ⟨-, -, rfl⟩ := pushChunk_cases h
  · simp [StakingLedger.fundsFrom_append, StakingLedger.fundsFrom_cons, hdue, Nat.add_assoc]
  · simp [StakingLedger.fundsFrom_append, StakingLedger.fundsFrom_cons, hdue]

omit [DecidableEq α] in
/-- **A ledger that is not slashed keeps what is within reach.** -/
theorem LedgerChange.reach (h : LedgerChange cfg maySlash (some current) l l')
    (hmay : ¬ maySlash l.stash) (hlt : current < due) (hle : due ≤ current + cfg.bondingDuration) :
    l.active + StakingLedger.fundsFrom due l.unlocking ≤
      l'.active + StakingLedger.fundsFrom due l'.unlocking := by
  cases h with
  | extra amount =>
    dsimp only
    omega
  | withdraw =>
    have hkeep := fundsFrom_filter hlt l.unlocking
    exact (congrArg (l.active + ·) hkeep).ge
  | unbond active chunks hactive hroom hpush =>
    have hpushed := fundsFrom_pushChunk hpush hle
    dsimp only
    omega
  | rebond value => exact (StakingLedger.rebond_spec l value).from_le due
  | slash amount slashEra h => exact absurd h hmay

/-- Until an era comes, a stash has at least the amount active or in chunks of that era or later. -/
def Held (cfg : Config) (stash : α) (due amount : ℕ) (v : View α) : Prop :=
  ∃ current, v.current = some current ∧ due ≤ current + cfg.bondingDuration ∧
    (current < due → ∃ c l, v.ledger c = some l ∧ l.stash = stash ∧
      amount ≤ l.active + StakingLedger.fundsFrom due l.unlocking)

omit [DecidableEq α] in
/-- If the planned era stays and every ledger of the stash has one that is not less in its place,
what is held stays held. -/
theorem Held.of_ledgers (h : Held cfg stash due amount v) (hcurrent : v'.current = v.current)
    (hledger : ∀ c l, v.ledger c = some l → l.stash = stash →
      amount ≤ l.active + StakingLedger.fundsFrom due l.unlocking →
      ∀ current, v.current = some current → current < due →
        due ≤ current + cfg.bondingDuration →
        ∃ c' l', v'.ledger c' = some l' ∧ l'.stash = stash ∧
          amount ≤ l'.active + StakingLedger.fundsFrom due l'.unlocking) :
    Held cfg stash due amount v' := by
  obtain ⟨current, hv, hle, h⟩ := h
  refine ⟨current, hcurrent.trans hv, hle, fun hlt => ?_⟩
  obtain ⟨c, l, hl, hstash, hamount⟩ := h hlt
  exact hledger c l hl hstash hamount current hv hlt hle

omit [DecidableEq α] in
/-- A ledger that holds the minimum is not spent. -/
theorem not_spent (hl : l.Sound) (hlt : current < due) (hmin : cfg.minimumBalance ≤ amount)
    (hamount : amount ≤ l.active + StakingLedger.fundsFrom due l.unlocking) :
    ¬ Spent cfg (some current) l := by
  rintro (⟨hempty, hactive⟩ | htotal)
  · have hkeep := fundsFrom_filter hlt l.unlocking
    have hnil : l.unlocking.filter (current < ·.era) = [] := hempty
    rw [hnil, StakingLedger.fundsFrom_nil] at hkeep
    omega
  · have hfunds := StakingLedger.fundsFrom_le due l.unlocking
    unfold StakingLedger.Sound at hl
    omega

/-- **What is held stays held**, if the stash is neither slashed nor removed by force. -/
theorem Change.held (hslash : ¬ maySlash stash) (hremove : ¬ mayRemove stash)
    (hmin : cfg.minimumBalance ≤ amount) (h : Change cfg maySlash mayRemove v v') (hv : v.Kept cfg)
    (hheld : Held cfg stash due amount v) : Held cfg stash due amount v' := by
  cases h with
  | @write c l l' hl h =>
    refine hheld.of_ledgers rfl fun d m hm hstash hamount current hcurrent hlt hle => ?_
    simp only [View.write, Function.update_apply]
    by_cases hd : d = c
    · subst hd
      obtain rfl : l = m := Option.some.inj (hl.symm.trans hm)
      rw [hcurrent] at h
      have hreach := h.reach (hstash ▸ hslash) hlt hle
      exact ⟨d, l', if_pos rfl, h.stash.1.trans hstash, hamount.trans hreach⟩
    · exact ⟨d, m, by rw [if_neg hd]; exact hm, hstash, hamount⟩
  | @claim c l current era claimed hl hcurrent hreward hclaim =>
    refine hheld.of_ledgers rfl fun d m hm hstash hamount _ _ _ _ => ?_
    simp only [Function.update_apply]
    by_cases hd : d = c
    · subst hd
      obtain rfl : l = m := Option.some.inj (hl.symm.trans hm)
      exact ⟨d, { l with claimedRewards := claimed }, if_pos rfl, hstash, hamount⟩
    · exact ⟨d, m, by rw [if_neg hd]; exact hm, hstash, hamount⟩
  | @add stash' value hbonded hledger =>
    refine hheld.of_ledgers rfl fun d m hm hstash hamount _ _ _ _ => ?_
    have hd : d ≠ stash' := by
      rintro rfl
      rw [hledger] at hm
      cases hm
    refine ⟨d, m, ?_, hstash, hamount⟩
    simp only [View.write, Function.update_apply, if_neg hd]
    exact hm
  | @remove stash' c l hbonded hl hwhy =>
    refine hheld.of_ledgers rfl fun d m hm hstash hamount current hcurrent hlt _ => ?_
    by_cases hd : d = c
    · -- the stash itself is removed, which its funds forbid
      subst hd
      obtain ⟨n, hn, hstash'⟩ := hv.paired.ledger hbonded
      obtain rfl : n = m := Option.some.inj (hn.symm.trans hm)
      obtain rfl : n = l := Option.some.inj (hn.symm.trans hl)
      rw [hcurrent] at hwhy
      rcases hwhy with hmay | hspent
      · rw [← hstash', hstash] at hmay
        exact absurd hmay hremove
      · exact absurd hspent (not_spent (hv.ledgers hl).sound hlt hmin hamount)
    · refine ⟨d, m, ?_, hstash, hamount⟩
      simp only [View.remove, Function.update_apply, if_neg hd]
      exact hm
  | @move stash' c l hbonded hl hfree =>
    refine hheld.of_ledgers rfl fun d m hm hstash hamount _ _ _ _ => ?_
    simp only [Function.update_apply]
    by_cases hd : d = c
    · subst hd
      obtain rfl : l = m := Option.some.inj (hl.symm.trans hm)
      exact ⟨stash', l, if_pos rfl, hstash, hamount⟩
    · have hne : d ≠ stash' := by
        rintro rfl
        rw [hfree] at hm
        cases hm
      exact ⟨d, m, by rw [if_neg hne, if_neg hd]; exact hm, hstash, hamount⟩
  | plan session =>
    obtain ⟨current, hcurrent, hle, h⟩ := hheld
    refine ⟨current + 1, ?_, by omega, fun hlt => h (by omega)⟩
    dsimp only
    rw [hcurrent]
    rfl
  | begun => exact hheld
  | settle => exact hheld
  | forget => exact hheld

theorem step_held {op : Operation α} (hslash : ¬ MaySlash cfg s op stash)
    (hremove : ¬ MayRemove cfg s op stash) (hmin : cfg.minimumBalance ≤ amount)
    (hs : s.view.Kept cfg) (hrange : s.InRange cfg) (h : Held cfg stash due amount s.view) :
    Held cfg stash due amount (step cfg s op).view :=
  (path_induction (step_path hs.paired hrange op) (Change.held hslash hremove hmin) hs h).2

section Runs

variable (cfg : Config) (settings : Settings) (force : Forcing) (rewardFraction : Perbill)
  (invulnerables : List α) (balances : Ledger α) (issuance : ℕ) (refs : α → Refs)
  (session : Session α)

omit [DecidableEq α] in
theorem genesis_kept :
    (State.genesis settings force rewardFraction invulnerables balances issuance refs
      session).view.Kept cfg where
  paired := ⟨nofun, nofun⟩
  ledgers := nofun
  locked := nofun
  free _ := rfl
  active := nofun
  started h := absurd rfl h
  rewarded h := absurd rfl h

/-- A run in range keeps the view in order. -/
theorem run_kept {s : State α} (hs : s.view.Kept cfg) {ops : List (Operation α)}
    (hrange : Run.Along (step cfg) (fun s _ => s.InRange cfg) s ops) :
    (Run.run (step cfg) s ops).view.Kept cfg :=
  Run.invariant (fun s : State α => s.view.Kept cfg) (fun _ op hs hrange => step_kept hs hrange op)
    hs hrange

/-- What a stash has at stake, in the ledger of its controller. -/
structure Staked (cfg : Config) (s : State α) (stash controller : α) (l : StakingLedger α) :
    Prop where
  ledger : s.ledger controller = some l
  own : l.stash = stash
  lock : s.native.lock stash = l.total ∨ (l.total = 0 ∧ cfg.clearsZeroLock = false)
  total : l.total = l.active + funds l.unlocking
  room : l.unlocking.length ≤ cfg.maxUnlockingChunks
  ordered : (eras l.unlocking).Pairwise (· < ·)
  due : ∀ era ∈ eras l.unlocking, era ≤ s.eras.current.getD 0 + cfg.bondingDuration

/-- **The lock is the stake.** In every run in range a bonded stash has one ledger, which is its
own; what is locked is the total of the ledger, that is the active part and the chunks; the chunks
are not more than allowed, their eras increase and are due within the bonding duration. What is not
bonded is not locked. -/
theorem locked_eq_staked (ops : List (Operation α))
    (hrange : Run.Along (step cfg) (fun s _ => s.InRange cfg)
      (.genesis settings force rewardFraction invulnerables balances issuance refs session) ops)
    (stash : α) :
    let s := Run.run (step cfg) (.genesis settings force rewardFraction invulnerables balances
      issuance refs session) ops
    match s.bonded stash with
    | none => s.native.lock stash = 0
    | some c => ∃ l, Staked cfg s stash c l := by
  intro s
  have hs : s.view.Kept cfg := run_kept cfg (genesis_kept cfg settings force rewardFraction
    invulnerables balances issuance refs session) hrange
  clear_value s
  split
  · next hnone => exact hs.free hnone
  · next c hbonded =>
    obtain ⟨l, hl, rfl⟩ := hs.paired.ledger hbonded
    have hkept := hs.ledgers hl
    exact ⟨l, hl, rfl, hs.locked hl, hkept.sound, hkept.room, hkept.ordered, hkept.due⟩

/-- The configuration of the runtime, with a payout of nothing and a currency that passes over a
lock of nothing. -/
def plainConfig : Config := runtimeConfig (fun _ _ _ => (0, 0)) (fun vote _ => vote) false

/-- One account with a hundred units. -/
def soleGenesis : State ℕ :=
  .genesis ⟨1, 0, 0, 0, .fromPercent 0, none, none, none⟩ .notForcing (.fromPercent 10) []
    (.ofFree fun who => if who = 1 then 100 else 0) 100 (fun _ => ⟨1, 0⟩) ⟨[], []⟩

/-- The account bonds its units and is elected. In two eras it unbonds a part of them. -/
theorem locked_eq_staked_unbonding :
    ∃ l, Staked plainConfig (Run.run (step plainConfig) soleGenesis
      [.bond (.signed 1) 100 .staked, .newSession 0 (some [(1, [(1, 100)])]),
        .unbond (.signed 1) 40, .newSession 24 (some [(1, [(1, 60)])]), .unbond (.signed 1) 20]) 1 1
      l ∧ eras l.unlocking = [28, 29] := by
  have hstaked := locked_eq_staked plainConfig _ _ _ _ _ _ _ _
    [.bond (.signed 1) 100 .staked, .newSession 0 (some [(1, [(1, 100)])]),
      .unbond (.signed 1) 40, .newSession 24 (some [(1, [(1, 60)])]), .unbond (.signed 1) 20]
    (show Run.Along (step plainConfig) _ soleGenesis _ by decide +kernel) 1
  have hledger : (Run.run (step plainConfig) soleGenesis
      [.bond (.signed 1) 100 .staked, .newSession 0 (some [(1, [(1, 100)])]),
        .unbond (.signed 1) 40, .newSession 24 (some [(1, [(1, 60)])]),
        .unbond (.signed 1) 20]).ledger 1 = some ⟨1, 100, 40, [⟨40, 28⟩, ⟨20, 29⟩], []⟩ := by
    decide +kernel
  obtain ⟨l, hl⟩ := hstaked
  refine ⟨l, hl, ?_⟩
  cases hl.ledger.symm.trans hledger
  rfl

/-- **A reward is paid at most once.** Over any run in range, no validator gets its reward for an
era twice, also if its stash is removed and bonds again. -/
theorem rewarded_once (ops : List (Operation α))
    (hrange : Run.Along (step cfg) (fun s _ => s.InRange cfg)
      (.genesis settings force rewardFraction invulnerables balances issuance refs session) ops) :
    ((Run.trace (step cfg) (.genesis settings force rewardFraction invulnerables balances
      issuance refs session) ops).filterMap (payoutOf cfg)).Nodup := by
  have hgenesis := genesis_kept cfg settings force rewardFraction invulnerables balances issuance
    refs session
  have hempty : PaidOnce cfg [] (.genesis settings force rewardFraction invulnerables balances
      issuance refs session) := ⟨hgenesis, List.nodup_nil, nofun⟩
  have hpaid : PaidOnce cfg (Run.trace (step cfg) _ ops) (Run.run (step cfg) _ ops) :=
    Run.history (PaidOnce cfg) (fun _ _ op h hrange => h.step hrange op) hempty hrange
  exact hpaid.nodup

/-- The account is elected for two eras. After the first one its reward is claimed twice, and once
more after it has left and bonded again. -/
def claims : List (Operation ℕ) :=
  [.bond (.signed 1) 100 .stash, .newSession 0 (some [(1, [(1, 100)])]), .startSession 0 [1],
    .onFinalize 5, .rewardByIds [(1, 20)], .newSession 24 (some [(1, [(1, 100)])]),
    .endSession 23 9, .startSession 24 [1], .payoutStakers (.signed 1) 1 0,
    .payoutStakers (.signed 1) 1 0, .forceUnstake .root 1 0, .bond (.signed 1) 100 .stash,
    .payoutStakers (.signed 1) 1 0]

/-- It is paid once. -/
theorem rewarded_once_claims :
    ((Run.trace (step plainConfig) soleGenesis claims).filterMap (payoutOf plainConfig)).Nodup ∧
      (Run.trace (step plainConfig) soleGenesis claims).filterMap (payoutOf plainConfig) =
        [(1, 0)] :=
  ⟨rewarded_once plainConfig _ _ _ _ _ _ _ _ claims
    (show Run.Along (step plainConfig) _ soleGenesis _ by decide +kernel), by decide +kernel⟩

/-- **Stake stays within reach for the bonding duration.** Take any state of a run in range, where a
stash has at least the minimum balance active. Whatever happens then in range, apart from slashes of
the stash and from removing it by force, its lock is not less than what was active, until the
bonding duration has passed since the era that was planned. -/
theorem stake_stays_locked (before ops : List (Operation α)) {stash c : α} {l : StakingLedger α}
    {era current : ℕ} (s : State α)
    (hs : s = Run.run (step cfg) (.genesis settings force rewardFraction invulnerables balances
      issuance refs session) before)
    (hrange : Run.Along (step cfg) (fun s _ => s.InRange cfg)
      (.genesis settings force rewardFraction invulnerables balances issuance refs session) before)
    (hera : s.eras.current = some era) (hbonded : s.bonded stash = some c)
    (hl : s.ledger c = some l) (hmin : cfg.minimumBalance ≤ l.active)
    (hok : Run.Along (step cfg)
      (fun s op => s.InRange cfg ∧ ¬ MaySlash cfg s op stash ∧ ¬ MayRemove cfg s op stash) s ops)
    (hcurrent : (Run.run (step cfg) s ops).eras.current = some current)
    (hlt : current < era + cfg.bondingDuration) :
    l.active ≤ (Run.run (step cfg) s ops).native.lock stash := by
  have hkept : s.view.Kept cfg := by
    rw [hs]
    exact run_kept cfg (genesis_kept cfg settings force rewardFraction invulnerables balances
      issuance refs session) hrange
  obtain ⟨m, hm, hstash⟩ := hkept.paired.ledger hbonded
  obtain rfl : m = l := Option.some.inj (hm.symm.trans hl)
  have hheld : Held cfg stash (era + cfg.bondingDuration) m.active s.view :=
    ⟨era, hera, Nat.le_refl _, fun _ => ⟨c, m, hl, hstash, Nat.le_add_right _ _⟩⟩
  -- along the run the view stays in order and the funds stay held
  obtain ⟨hend, hheld'⟩ := Run.invariant
    (fun s : State α =>
      s.view.Kept cfg ∧ Held cfg stash (era + cfg.bondingDuration) m.active s.view)
    (fun s op h hop => ⟨step_kept h.1 hop.1 op,
      step_held hop.2.1 hop.2.2 hmin h.1 hop.1 h.2⟩) ⟨hkept, hheld⟩ hok
  obtain ⟨current', hcurrent', -, hfunds⟩ := hheld'
  obtain rfl : current = current' := Option.some.inj (hcurrent.symm.trans hcurrent')
  obtain ⟨c', l', hl', rfl, hamount⟩ := hfunds hlt
  have hsound : l'.total = l'.active + funds l'.unlocking := (hend.ledgers hl').sound
  have hfrom := StakingLedger.fundsFrom_le (era + cfg.bondingDuration) l'.unlocking
  rcases hend.locked hl' with hlock | ⟨hzero, -⟩
  · have hlock' : (Run.run (step cfg) s ops).native.lock l'.stash = l'.total := hlock
    omega
  · -- a ledger with nothing in it holds nothing
    omega

/-- The account has bonded its units and is elected. -/
def soleStaker : State ℕ :=
  Run.run (step plainConfig) soleGenesis
    [.bond (.signed 1) 100 .staked, .newSession 0 (some [(1, [(1, 100)])])]

/-- It unbonds a part of them, withdraws in vain, and cannot remove itself by force. -/
theorem stake_stays_locked_unbonding :
    100 ≤ (Run.run (step plainConfig) soleStaker
      [.unbond (.signed 1) 40, .withdrawUnbonded (.signed 1) 0, .forceUnstake (.signed 1) 1 0,
        .newSession 24 (some [(1, [(1, 60)])]), .startSession 0 [1],
        .withdrawUnbonded (.signed 1) 0]).native.lock 1 := by
  refine stake_stays_locked plainConfig _ _ _ _ _ _ _ _ _ _ soleStaker rfl
    (show Run.Along (step plainConfig) _ soleGenesis _ by decide +kernel)
    (show soleStaker.eras.current = some 0 by decide +kernel)
    (show soleStaker.bonded 1 = some 1 by decide +kernel)
    (show soleStaker.ledger 1 = some ⟨1, 100, 100, [], []⟩ by decide +kernel)
    (by decide +kernel) ?_ (show _ = some 1 by decide +kernel) (by decide +kernel)
  refine ⟨⟨by decide +kernel, id, id⟩, ⟨by decide +kernel, id, id⟩,
    ⟨by decide +kernel, id, nofun⟩, ⟨by decide +kernel, id, id⟩,
    ⟨by decide +kernel, ?_, id⟩, ⟨by decide +kernel, id, id⟩, trivial⟩
  -- an era begins, but no slash was deferred to it
  rintro ⟨-, slash, hslash, -⟩
  cases hslash

end Runs

end Reef.Staking
