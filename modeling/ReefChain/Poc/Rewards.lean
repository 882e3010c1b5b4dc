import ReefChain.Poc.Council
import ReefChain.Poc.History

/-!
# Voter rewards

An account that votes with a long lock is paid a reward, once per era: the pallet notes the reward
under the index of the era, pays only accounts without a note, and deletes the notes of an era when
the next one starts. This file bounds what is paid between two era changes.

That each account is paid at most once needs no assumption (`EraPayouts`): a payment leaves a note
under the *current* index, and between two era changes the index does not change. It does not matter
whether the index can still grow, because an era change deletes the notes before it counts on.

The bound on the total needs that the rewarded tokens stay locked: otherwise the same tokens could
be withdrawn, sent to another account and rewarded again. Rewarded locks are for a year at least, an
era is shorter than that, and unbonding starts after the reward (`RewardInv`); so they are all still
in place when the last reward of the era is paid, and what is locked is below the cap. As in the
history of a commitment, this is right as long as the end of the lock period is a block number. In
the last year of the block numbers it is not, and the same tokens are rewarded as often as one likes
(`rewards_exceed_bound`).
-/

namespace Reef
namespace Poc

open Bounded Fallible FiniteMap

variable {α : Type} [LinearOrder α] {C : Currency α}

/-! ### The reward for an amount -/

/-- The reward for a long lock. -/
def rewardFor (cfg : Config α) (amount : ℕ) : ℕ :=
  cfg.nominatorAPY.mul ((proportionOfEraToYear cfg).mul amount)

omit [LinearOrder α] in
/-- A reward is at most the product of the rates and the amount, plus one. -/
theorem rewardFor_le (cfg : Config α) (amount : ℕ) :
    rewardFor cfg amount * Perbill.accuracy ^ 2 ≤
      cfg.nominatorAPY.parts * (proportionOfEraToYear cfg).parts * amount +
        Perbill.accuracy ^ 2 := by
  have houter := cfg.nominatorAPY.two_mul_mul_le ((proportionOfEraToYear cfg).mul amount)
  have hinner := (proportionOfEraToYear cfg).two_mul_mul_le amount
  have hrate : cfg.nominatorAPY.parts ≤ Perbill.accuracy := cfg.nominatorAPY.parts_le
  set A := Perbill.accuracy
  set n := cfg.nominatorAPY.parts
  set p := (proportionOfEraToYear cfg).parts
  set x := (proportionOfEraToYear cfg).mul amount
  change cfg.nominatorAPY.mul x * A ^ 2 ≤ n * p * amount + A ^ 2
  -- both roundings add at most one half, the inner one scaled by a rate of at most one
  have hscaled : n * (2 * (x * A)) ≤ n * (2 * (p * amount) + A) := Nat.mul_le_mul_left n hinner
  have hrest : n * A ≤ A * A := Nat.mul_le_mul_right A hrate
  have htwice : 2 * (cfg.nominatorAPY.mul x * A ^ 2) ≤ 2 * (n * p * amount + A ^ 2) := by
    calc 2 * (cfg.nominatorAPY.mul x * A ^ 2)
        = 2 * (cfg.nominatorAPY.mul x * A) * A := by ring
      _ ≤ (2 * (n * x) + A) * A := Nat.mul_le_mul_right A houter
      _ = n * (2 * (x * A)) + A * A := by ring
      _ ≤ n * (2 * (p * amount) + A) + A * A := Nat.add_le_add_right hscaled _
      _ = 2 * (n * p * amount) + n * A + A * A := by ring
      _ ≤ 2 * (n * p * amount) + A * A + A * A := by omega
      _ = 2 * (n * p * amount + A ^ 2) := by ring
  omega

/-! ### What a call does to notes and payments -/

section Calls

variable {cfg : Config α} {s s' : State C} {who x : α} {c : Commitment α} {call : Call α}

/-- A call pays nothing, or a reward for the caller's long lock of which there is no note yet. -/
inductive Pays (cfg : Config α) (who : α) (s s' : State C) : Prop
  | nothing : s'.voterRewards = s.voterRewards → s'.paid = s.paid → Pays cfg who s s'
  | reward (c : Commitment α) : s'.commitments.lookup who = some c → c.state = .committed →
      c.duration ≠ .oneMonth → who ∉ s.voterRewards s.currentEra.index →
      s'.voterRewards = Function.update s.voterRewards s.currentEra.index
        ((s.voterRewards s.currentEra.index).insert who (rewardFor cfg c.amount)) →
      s'.paid = s.paid ++ [Payout.mk s.currentEra.index who (rewardFor cfg c.amount) false] →
      Pays cfg who s s'

omit [LinearOrder α] in
theorem eraVoterReward_pos (h : 0 < eraVoterReward cfg c) :
    c.duration ≠ .oneMonth ∧ eraVoterReward cfg c = rewardFor cfg c.amount := by
  unfold eraVoterReward at h ⊢
  split at h
  · exact absurd h (lt_irrefl 0)
  · next hst =>
    rw [if_neg hst]
    cases hd : c.duration with
    | oneMonth =>
      rw [hd] at h
      exact absurd h (lt_irrefl 0)
    | oneYear => exact ⟨nofun, rfl⟩
    | tenYears => exact ⟨nofun, rfl⟩

theorem voteCandidate_pays {candidate : α} (hs : voteCandidate cfg who s candidate = .ok s') :
    s'.currentEra = s.currentEra ∧ s'.block = s.block ∧ Pays cfg who s s' := by
  obtain ⟨c, hc, hst, hs⟩ := voteCandidate_eq_ok.mp hs
  -- the vote itself rewrites the commitment only
  have hvote : (setVote who s c candidate).currentEra = s.currentEra ∧
      (setVote who s c candidate).block = s.block ∧
      (setVote who s c candidate).voterRewards = s.voterRewards ∧
      (setVote who s c candidate).paid = s.paid ∧
      (setVote who s c candidate).commitments.lookup who = some { c with candidate } := by
    unfold setVote
    split
    · exact ⟨rfl, rfl, rfl, rfl, Finmap.lookup_insert _⟩
    · next hsame =>
      obtain rfl : c.candidate = candidate := not_not.mp hsame
      exact ⟨rfl, rfl, rfl, rfl, hc⟩
  obtain ⟨hera, hblock, hnotes, hpaid, hlookup⟩ := hvote
  generalize setVote who s c candidate = t at hs hera hblock hnotes hpaid hlookup
  obtain ⟨-, rfl⟩ | ⟨⟨hpos, hnew⟩, book, -, rfl⟩ := rewardVoter_eq_ok.mp hs
  · exact ⟨hera, hblock, .nothing hnotes hpaid⟩
  · obtain ⟨hlong, hreward⟩ := eraVoterReward_pos hpos
    refine ⟨hera, hblock, .reward { c with candidate } hlookup hst hlong ?_ ?_ ?_⟩
    · rw [← hnotes, ← hera]
      exact hnew
    · change Function.update t.voterRewards t.currentEra.index _ = _
      rw [hera, hnotes, hreward]
    · change t.paid ++ [_] = _
      rw [hera, hpaid, hreward]

/-- **What a successful call pays.** -/
theorem execute_pays (hs : execute cfg s who call = .ok s') :
    s'.currentEra = s.currentEra ∧ s'.block = s.block ∧ Pays cfg who s s' := by
  cases call with
  | startCandidacy =>
    obtain ⟨-, -, book, -, rfl⟩ := startCandidacy_eq_ok.mp hs
    exact ⟨rfl, rfl, .nothing rfl rfl⟩
  | stopCandidacy =>
    obtain ⟨-, -, rfl⟩ := stopCandidacy_eq_ok.mp hs
    exact ⟨rfl, rfl, .nothing rfl rfl⟩
  | commit amount duration candidate =>
    obtain ⟨-, -, -, book, -, rfl⟩ := commit_eq_ok.mp hs
    exact ⟨rfl, rfl, .nothing rfl rfl⟩
  | addFunds amount =>
    obtain ⟨c, -, -, book, -, -, rfl⟩ := addFunds_eq_ok.mp hs
    exact ⟨rfl, rfl, .nothing rfl rfl⟩
  | unbond =>
    obtain ⟨c, -, -, rfl⟩ := unbond_eq_ok.mp hs
    exact ⟨rfl, rfl, .nothing rfl rfl⟩
  | withdraw =>
    obtain ⟨c, startBlock, -, -, -, book, -, rfl⟩ := withdraw_eq_ok.mp hs
    exact ⟨rfl, rfl, .nothing rfl rfl⟩
  | voteCandidate candidate => exact voteCandidate_pays hs

/-! ### What a call does to a commitment -/

/-- What has become of a commitment `c` of `x` after a call of `who`: it is still there, with at
least its amount, and if it is unbonding it was before or `x` has just called `unbond`; or its
unbonding period was over, and it is withdrawn. -/
inductive Fate (x : α) (c : Commitment α) (who : α) (call : Call α) (s s' : State C) : Prop
  | kept (c' : Commitment α) : s'.commitments.lookup x = some c' → c'.duration = c.duration →
      c.amount ≤ c'.amount → (∀ b, c'.state = .unbonding b → c.state = .unbonding b ∨
        call = .unbond ∧ who = x ∧ c.state = .committed ∧ b = s.block) → Fate x c who call s s'
  | withdrawn (b : ℕ) : c.state = .unbonding b →
      wrapAdd blockBits b c.duration.period ≤ s.block → Fate x c who call s s'

/-- A rewritten commitment of the caller: other commitments are not touched. -/
theorem Fate.of_insert {cnew : Commitment α} (hc : s.commitments.lookup x = some c)
    (hs : s'.commitments = s.commitments.insert who cnew)
    (hfate : who = x → cnew.duration = c.duration ∧ c.amount ≤ cnew.amount ∧
      ∀ b, cnew.state = .unbonding b → c.state = .unbonding b ∨
        call = .unbond ∧ who = x ∧ c.state = .committed ∧ b = s.block) :
    Fate x c who call s s' := by
  by_cases hx : who = x
  · obtain ⟨hdur, hamount, hstate⟩ := hfate hx
    refine .kept cnew ?_ hdur hamount hstate
    rw [hs, hx]
    exact Finmap.lookup_insert _
  · refine .kept c ?_ rfl le_rfl fun b hb => .inl hb
    rw [hs, Finmap.lookup_insert_of_ne _ (Ne.symm hx)]
    exact hc

/-- **What a successful call does to a commitment.** -/
theorem execute_fate (hs : execute cfg s who call = .ok s')
    (hc : s.commitments.lookup x = some c) : Fate x c who call s s' := by
  cases call with
  | startCandidacy =>
    obtain ⟨-, -, book, -, rfl⟩ := startCandidacy_eq_ok.mp hs
    exact .kept c hc rfl le_rfl fun b hb => .inl hb
  | stopCandidacy =>
    obtain ⟨-, -, rfl⟩ := stopCandidacy_eq_ok.mp hs
    exact .kept c hc rfl le_rfl fun b hb => .inl hb
  | commit amount duration candidate =>
    obtain ⟨hnew, -, -, book, -, rfl⟩ := commit_eq_ok.mp hs
    -- who commits had no commitment before
    refine .of_insert hc rfl fun hx => absurd ?_ hnew
    rw [hx]
    exact Finmap.mem_of_lookup_eq_some hc
  | addFunds amount =>
    obtain ⟨d, hd, -, book, -, -, rfl⟩ := addFunds_eq_ok.mp hs
    refine .of_insert hc rfl fun hx => ?_
    obtain rfl : d = c := Option.some.inj (hd.symm.trans (hx ▸ hc))
    exact ⟨rfl, Nat.le_add_right _ _, fun b hb => nomatch hb⟩
  | unbond =>
    obtain ⟨d, hd, hst, rfl⟩ := unbond_eq_ok.mp hs
    refine .of_insert hc rfl fun hx => ?_
    obtain rfl : d = c := Option.some.inj (hd.symm.trans (hx ▸ hc))
    refine ⟨rfl, le_rfl, fun b hb => .inr ⟨rfl, hx, hst, ?_⟩⟩
    injection hb with hb
    exact hb.symm
  | withdraw =>
    obtain ⟨d, b, hd, hst, hover, book, -, rfl⟩ := withdraw_eq_ok.mp hs
    by_cases hx : who = x
    · obtain rfl : d = c := Option.some.inj (hd.symm.trans (hx ▸ hc))
      exact .withdrawn b hst hover
    · refine .kept c ?_ rfl le_rfl fun b hb => .inl hb
      exact (Finmap.lookup_erase_ne (Ne.symm hx)).trans hc
  | voteCandidate candidate =>
    obtain ⟨d, hd, hlocks⟩ := voteCandidate_locks hs
    have hrewritten : s'.commitments = s.commitments.insert who { d with candidate } :=
      congrArg Locks.commitments hlocks
    refine .of_insert hc hrewritten fun hx => ?_
    obtain rfl : d = c := Option.some.inj (hd.symm.trans (hx ▸ hc))
    exact ⟨rfl, le_rfl, fun b hb => .inl hb⟩

end Calls

/-! ### At most one reward per account and era -/

/-- The input does not start a new era. -/
def SameEra (cfg : Config α) (s : State C) (i : Input C) : Prop :=
  i = .nextBlock → ¬ EraChange cfg (s.block + 1) s

/-- Since the state `s₀` of the same era, `payouts` were paid: voter rewards to different accounts,
of each of which there is a note. -/
structure EraPayouts (s₀ : State C) (payouts : List (Payout α)) (s : State C) : Prop where
  sameEra : s.currentEra = s₀.currentEra
  paid : s.paid = s₀.paid ++ payouts
  voters : ∀ p ∈ payouts, p.council = false
  nodup : (payouts.map Payout.who).Nodup
  noted : ∀ p ∈ payouts, (s.voterRewards s.currentEra.index).lookup p.who = some p.amount

section Era

variable {cfg : Config α} {s₀ s s' : State C} {payouts : List (Payout α)}

theorem EraPayouts.refl (s : State C) : EraPayouts s [] s where
  sameEra := rfl
  paid := (List.append_nil _).symm
  voters := fun _ h => nomatch h
  nodup := List.nodup_nil
  noted := fun _ h => nomatch h

/-- **A call pays nobody twice.** -/
theorem EraPayouts.execute {who : α} {call : Call α} (h : EraPayouts s₀ payouts s)
    (hs : execute cfg s who call = .ok s') : ∃ payouts, EraPayouts s₀ payouts s' := by
  obtain ⟨hera, -, hpays⟩ := execute_pays hs
  cases hpays with
  | nothing hnotes hpaid =>
    refine ⟨payouts, hera.trans h.sameEra, hpaid.trans h.paid, h.voters, h.nodup, fun p hp => ?_⟩
    rw [hera, hnotes]
    exact h.noted p hp
  | reward c hc hst hlong hnew hnotes hpaid =>
    set era := s.currentEra.index
    set r := rewardFor cfg c.amount
    -- whoever was paid before has a note, and the caller has none
    have hother : ∀ p ∈ payouts, p.who ≠ who := by
      intro p hp heq
      refine hnew (Finmap.mem_of_lookup_eq_some (b := p.amount) ?_)
      rw [← heq]
      exact h.noted p hp
    refine ⟨payouts ++ [⟨era, who, r, false⟩], hera.trans h.sameEra, ?_, ?_, ?_, ?_⟩
    · rw [hpaid, h.paid, List.append_assoc]
    · intro p hp
      rcases List.mem_append.mp hp with hp | hp
      · exact h.voters p hp
      · rw [List.mem_singleton.mp hp]
    · rw [List.map_append, List.nodup_append]
      refine ⟨h.nodup, List.nodup_singleton _, ?_⟩
      intro a ha b hb
      obtain ⟨p, hp, rfl⟩ := List.mem_map.mp ha
      obtain rfl := List.mem_singleton.mp hb
      exact hother p hp
    · intro p hp
      rw [hera, hnotes, Function.update_self]
      rcases List.mem_append.mp hp with hp | hp
      · rw [Finmap.lookup_insert_of_ne _ (hother p hp)]
        exact h.noted p hp
      · rw [List.mem_singleton.mp hp]
        exact Finmap.lookup_insert _

theorem EraPayouts.step (h : ∃ payouts, EraPayouts s₀ payouts s) (i : Input C)
    (hi : SameEra cfg s i) : ∃ payouts, EraPayouts s₀ payouts (step cfg s i) := by
  obtain ⟨payouts, h⟩ := h
  cases i with
  | signed who call =>
    obtain ⟨s', hs, heq⟩ | ⟨-, heq⟩ := commitOrKeep_cases (Poc.execute cfg s who call) s
    · have hstep : Poc.step cfg s (.signed who call) = s' := heq
      rw [hstep]
      exact h.execute hs
    · have hstep : Poc.step cfg s (.signed who call) = s := heq
      rw [hstep]
      exact ⟨payouts, h⟩
  | nextBlock =>
    simp only [Poc.step]
    split
    · -- the era does not change, so nobody is paid
      have hsame : ¬ EraChange cfg (s.block + 1) { s with block := s.block + 1 } := hi rfl
      rw [onInitialize_of_not_eraChange hsame]
      exact ⟨payouts, h.sameEra, h.paid, h.voters, h.nodup, h.noted⟩
    · exact ⟨payouts, h⟩
  | external book => exact ⟨payouts, h.sameEra, h.paid, h.voters, h.nodup, h.noted⟩

/-- **Between two era changes every account is paid at most once.** -/
theorem EraPayouts.run (s₀ : State C) {is : List (Input C)}
    (hera : Run.Along (Poc.step cfg) (SameEra cfg) s₀ is) :
    ∃ payouts, EraPayouts s₀ payouts (Run.run (Poc.step cfg) s₀ is) :=
  Run.invariant (fun s : State C => ∃ payouts, EraPayouts s₀ payouts s)
    (fun _ i h hi => EraPayouts.step h i hi) ⟨[], .refl s₀⟩ hera

end Era

/-! ### Rewarded tokens stay locked -/

/-- **The reward invariant.** -/
structure RewardInv (cfg : Config α) (s : State C) : Prop where
  /-- The era has begun. -/
  started : s.currentEra.start ≤ s.block
  /-- The era is less than a year old. -/
  young : s.block < s.currentEra.start + 365 * DAYS
  /-- There are no notes of other eras. -/
  cleared : ∀ era, era ≠ s.currentEra.index → s.voterRewards era = ∅
  /-- A noted reward is for a long lock that is still there, and if it is unbonding, it is so since
  this era and for a period that ends at a block number. -/
  locked : ∀ who r, (s.voterRewards s.currentEra.index).lookup who = some r →
    ∃ c, s.commitments.lookup who = some c ∧ c.duration ≠ .oneMonth ∧
      r ≤ rewardFor cfg c.amount ∧ ∀ b, c.state = .unbonding b →
        s.currentEra.start ≤ b ∧ b + c.duration.period < 2 ^ blockBits

section Invariant

variable {cfg : Config α} {s s' : State C}

theorem RewardInv.genesis (cfg : Config α) (book : C.Book) :
    RewardInv cfg (genesis book : State C) where
  started := Nat.le_refl 0
  young := (by decide : 0 < 0 + 365 * DAYS)
  cleared := fun _ _ => rfl
  locked := fun _ _ h => nomatch h

/-- A note is of an account with a commitment. -/
theorem RewardInv.notMem_voterRewards (h : RewardInv cfg s) {who : α}
    (hnone : who ∉ s.commitments) : who ∉ s.voterRewards s.currentEra.index := by
  intro hmem
  obtain ⟨r, hr⟩ := Finmap.mem_iff.mp hmem
  obtain ⟨c, hc, -⟩ := h.locked who r hr
  exact hnone (Finmap.mem_of_lookup_eq_some hc)

/-- A long lock cannot be withdrawn in the era in which its unbonding started. -/
theorem RewardInv.not_over (h : RewardInv cfg s) {c : Commitment α} {b : ℕ}
    (hlong : c.duration ≠ .oneMonth) (hstart : s.currentEra.start ≤ b)
    (hrange : b + c.duration.period < 2 ^ blockBits) :
    ¬ wrapAdd blockBits b c.duration.period ≤ s.block := by
  rw [wrapAdd_of_lt hrange]
  have hyear : 365 * DAYS ≤ c.duration.period := by
    cases hd : c.duration with
    | oneMonth => exact absurd hd hlong
    | oneYear => exact le_rfl
    | tenYears => decide
  have hyoung := h.young
  omega

/-- A rewarded lock survives every call. -/
theorem RewardInv.survives {who x : α} {call : Call α} {c : Commitment α} (h : RewardInv cfg s)
    (hs : execute cfg s who call = .ok s') (hrange : UnbondsInRange s (.signed who call))
    (hc : s.commitments.lookup x = some c) (hlong : c.duration ≠ .oneMonth)
    (hunbonding : ∀ b, c.state = .unbonding b →
      s.currentEra.start ≤ b ∧ b + c.duration.period < 2 ^ blockBits) :
    ∃ c', s'.commitments.lookup x = some c' ∧ c'.duration ≠ .oneMonth ∧ c.amount ≤ c'.amount ∧
      ∀ b, c'.state = .unbonding b →
        s.currentEra.start ≤ b ∧ b + c'.duration.period < 2 ^ blockBits := by
  cases execute_fate hs hc with
  | kept c' hc' hdur hamount hstate =>
    refine ⟨c', hc', hdur ▸ hlong, hamount, fun b hb => ?_⟩
    rw [hdur]
    rcases hstate b hb with hold | ⟨rfl, rfl, hst, rfl⟩
    · exact hunbonding b hold
    · exact ⟨h.started, hrange who rfl c hc hst⟩
  | withdrawn b hb hover =>
    obtain ⟨hstart, hlt⟩ := hunbonding b hb
    exact absurd hover (h.not_over hlong hstart hlt)

/-- **A successful call keeps the reward invariant.** -/
theorem RewardInv.execute {who : α} {call : Call α} (h : RewardInv cfg s)
    (hs : execute cfg s who call = .ok s') (hrange : UnbondsInRange s (.signed who call)) :
    RewardInv cfg s' := by
  obtain ⟨hera, hblock, hpays⟩ := execute_pays hs
  -- what was noted before is locked still
  have hold : ∀ x r, (s.voterRewards s.currentEra.index).lookup x = some r →
      ∃ c, s'.commitments.lookup x = some c ∧ c.duration ≠ .oneMonth ∧
        r ≤ rewardFor cfg c.amount ∧ ∀ b, c.state = .unbonding b →
          s.currentEra.start ≤ b ∧ b + c.duration.period < 2 ^ blockBits := by
    intro x r hr
    obtain ⟨c, hc, hlong, hle, hunbonding⟩ := h.locked x r hr
    obtain ⟨c', hc', hlong', hamount, hunbonding'⟩ := h.survives hs hrange hc hlong hunbonding
    refine ⟨c', hc', hlong', hle.trans ?_, hunbonding'⟩
    exact Perbill.mul_mono _ (Perbill.mul_mono _ hamount)
  have hstarted : s'.currentEra.start ≤ s'.block := by
    rw [hera, hblock]
    exact h.started
  have hyoung : s'.block < s'.currentEra.start + 365 * DAYS := by
    rw [hera, hblock]
    exact h.young
  cases hpays with
  | nothing hnotes _ =>
    refine ⟨hstarted, hyoung, fun era hne => ?_, fun x r hr => ?_⟩
    · rw [hnotes]
      exact h.cleared era (hera ▸ hne)
    · rw [hera, hnotes] at hr
      rw [hera]
      exact hold x r hr
  | reward c hc hst hlong hnew hnotes _ =>
    refine ⟨hstarted, hyoung, fun era hne => ?_, fun x r hr => ?_⟩
    · rw [hera] at hne
      rw [hnotes, Function.update_of_ne hne]
      exact h.cleared era hne
    · rw [hera, hnotes, Function.update_self, lookup_insert_eq] at hr
      rw [hera]
      split at hr
      · next hx =>
        obtain rfl := Option.some.inj hr
        rw [hx]
        refine ⟨c, hc, hlong, le_rfl, fun b hb => ?_⟩
        rw [hst] at hb
        cases hb
      · exact hold x r hr

/-- **Every step keeps the reward invariant.** The era that ends leaves no notes, whether or not the
index of the next one is different. -/
theorem RewardInv.step (hdur : cfg.eraDuration < 365 * DAYS) (h : RewardInv cfg s) (i : Input C)
    (hrange : UnbondsInRange s i) : RewardInv cfg (step cfg s i) := by
  cases i with
  | signed who call =>
    obtain ⟨s', hs, heq⟩ | ⟨-, heq⟩ := commitOrKeep_cases (Poc.execute cfg s who call) s
    · have hstep : Poc.step cfg s (.signed who call) = s' := heq
      rw [hstep]
      exact h.execute hs hrange
    · have hstep : Poc.step cfg s (.signed who call) = s := heq
      rw [hstep]
      exact h
  | nextBlock =>
    simp only [Poc.step]
    split
    · by_cases hera : EraChange cfg (s.block + 1) { s with block := s.block + 1 }
      · obtain ⟨members, book, events, paid, heq, -⟩ := onInitialize_eq hera
        rw [heq]
        -- all notes are gone: those of the old era are deleted, there were no others
        have hempty : ∀ era,
            Function.update s.voterRewards s.currentEra.index ∅ era = (∅ : Finmap fun _ => ℕ) := by
          intro era
          by_cases hold : era = s.currentEra.index
          · rw [hold, Function.update_self]
          · rw [Function.update_of_ne hold]
            exact h.cleared era hold
        refine ⟨Nat.le_refl _, ?_, fun era _ => hempty era, fun who r hr => ?_⟩
        · exact Nat.lt_add_of_pos_right (by decide)
        · change (Function.update s.voterRewards s.currentEra.index ∅ _).lookup who = some r at hr
          rw [hempty] at hr
          cases hr
      · rw [onInitialize_of_not_eraChange hera]
        have hwrap : wrapAdd blockBits s.currentEra.start cfg.eraDuration ≤
            s.currentEra.start + cfg.eraDuration := Nat.mod_le _ _
        have hlt := not_le.mp hera
        have hstarted := h.started
        refine ⟨?_, ?_, h.cleared, h.locked⟩
        · change s.currentEra.start ≤ s.block + 1
          omega
        · change s.block + 1 < s.currentEra.start + 365 * DAYS
          change s.block + 1 < wrapAdd blockBits s.currentEra.start cfg.eraDuration at hlt
          omega
    · exact h
  | external book => exact ⟨h.started, h.young, h.cleared, h.locked⟩

end Invariant

/-! ### The bound -/

section Bound

variable {cfg : Config α} {s : State C} {payouts : List (Payout α)}

/-- Rewards that are noted and whose locks are in place are bounded by the cap. -/
theorem RewardInv.payoutSum_le (h : RewardInv cfg s) (hlocked : LockedInv cfg s.locks)
    (hnodup : (payouts.map Payout.who).Nodup)
    (hnoted : ∀ p ∈ payouts, (s.voterRewards s.currentEra.index).lookup p.who = some p.amount) :
    payoutSum payouts * Perbill.accuracy ^ 2 ≤
      cfg.nominatorAPY.parts * (proportionOfEraToYear cfg).parts * cfg.totalLockedCap +
        payouts.length * Perbill.accuracy ^ 2 := by
  set K := cfg.nominatorAPY.parts * (proportionOfEraToYear cfg).parts
  set A := Perbill.accuracy ^ 2
  set lockedOf := weightAt (fun _ c : _ => (c : Commitment α).amount) s.commitments
  -- every reward is at most its share of what the account has locked, plus one
  have hone : ∀ p ∈ payouts, p.amount * A ≤ K * lockedOf p.who + A := by
    intro p hp
    obtain ⟨c, hc, -, hle, -⟩ := h.locked p.who p.amount (hnoted p hp)
    have hlockedOf : lockedOf p.who = c.amount := weightAt_of_lookup hc
    rw [hlockedOf]
    exact (Nat.mul_le_mul_right A hle).trans (rewardFor_le cfg c.amount)
  have hsum : ∀ ps : List (Payout α), (∀ p ∈ ps, p.amount * A ≤ K * lockedOf p.who + A) →
      payoutSum ps * A ≤ K * ((ps.map Payout.who).map lockedOf).sum + ps.length * A := by
    intro ps
    induction ps with
    | nil => exact fun _ => Nat.le_of_eq (by simp [payoutSum])
    | cons p ps ih =>
      intro hps
      have hhead := hps p List.mem_cons_self
      have htail := ih fun q hq => hps q (List.mem_cons_of_mem p hq)
      have hcons : payoutSum (p :: ps) = p.amount + payoutSum ps := List.sum_cons
      rw [hcons, List.map_cons, List.map_cons, List.sum_cons, List.length_cons, Nat.add_mul,
        Nat.mul_add, Nat.add_mul, Nat.one_mul]
      omega
  -- the accounts are different, so what they have locked is part of the locked total
  have hle : ((payouts.map Payout.who).map lockedOf).sum ≤ cfg.totalLockedCap := by
    have htotal := sum_weightAt_le_total (fun _ c : _ => (c : Commitment α).amount) hnodup
      s.commitments
    have hsum : s.lockedAmount = total (fun _ c => c.amount) s.commitments := hlocked.sum
    have hcap : s.lockedAmount = 0 ∨ s.lockedAmount < cfg.totalLockedCap := hlocked.cap
    have hbelow : s.lockedAmount ≤ cfg.totalLockedCap := by omega
    exact htotal.trans (hsum ▸ hbelow)
  exact (hsum payouts hone).trans (Nat.add_le_add_right (Nat.mul_le_mul_left K hle) _)

end Bound

/-- **Voter rewards are paid once and bounded.** Between two era changes, from any reachable state,
each account receives at most one voter reward; and if every unbonding of the run starts early
enough for its period to end at a block number, all rewards together are at most the product of the
two rates with the cap on the locked total, plus one for each account rewarded. -/
theorem voter_rewards_bounded (cfg : Config α) (hdur : cfg.eraDuration < 365 * DAYS)
    (book : C.Book) (past is : List (Input C))
    (hera : Run.Along (step cfg) (SameEra cfg) (Run.run (step cfg) (genesis book) past) is) :
    let s := Run.run (step cfg) (genesis book) past
    let s' := Run.run (step cfg) s is
    ∃ payouts, s'.paid = s.paid ++ payouts ∧ (∀ p ∈ payouts, p.council = false) ∧
      (payouts.map Payout.who).Nodup ∧
      (Run.Along (step cfg) UnbondsInRange (genesis book) (past ++ is) →
        payoutSum payouts * Perbill.accuracy ^ 2 ≤
          cfg.nominatorAPY.parts * (proportionOfEraToYear cfg).parts * cfg.totalLockedCap +
            payouts.length * Perbill.accuracy ^ 2) := by
  intro s s'
  obtain ⟨payouts, hpayouts⟩ := EraPayouts.run s hera
  refine ⟨payouts, hpayouts.paid, hpayouts.voters, hpayouts.nodup, fun hrange => ?_⟩
  have hrun : Run.run (step cfg) (genesis book) (past ++ is) = s' := Run.run_append is
  have hinv : RewardInv cfg s' := by
    rw [← hrun]
    exact Run.invariant (RewardInv cfg) (fun _ i h hi => h.step hdur i hi)
      (RewardInv.genesis cfg book) hrange
  have hlocked : LockedInv cfg s'.locks := by
    rw [← hrun]
    exact LockedInv.run cfg book (past ++ is)
  exact hinv.payoutSum_le hlocked hpayouts.nodup hpayouts.noted

/-- Two accounts vote in one era, in different blocks. The first one unbonds after it, and the
second one votes again. Each is rewarded once. -/
theorem voter_rewards_bounded_vote :
    let cfg := Config.runtime (Fin 2)
    let past : List (Input Pair) := [.signed 0 (.commit (100_000 * REEF) .oneYear 1),
      .signed 1 (.commit (500_000 * REEF) .tenYears 1), .nextBlock]
    let is : List (Input Pair) := [.signed 0 (.voteCandidate 1), .nextBlock, .signed 0 .unbond,
      .signed 1 (.voteCandidate 0), .signed 1 (.voteCandidate 1)]
    let s := Run.run (step cfg) (genesis (richBook 2)) past
    let s' := Run.run (step cfg) s is
    cfg.eraDuration < 365 * DAYS ∧ Run.Along (step cfg) (SameEra cfg) s is ∧
    Run.Along (step cfg) UnbondsInRange (genesis (richBook 2)) (past ++ is) ∧
    (s'.commitments.lookup 0).map (·.state) = some (.unbonding 2) ∧
    s'.paid.map Payout.who = [0, 1] ∧
    ∃ payouts, s'.paid = s.paid ++ payouts ∧ (payouts.map Payout.who).Nodup ∧
      payoutSum payouts * Perbill.accuracy ^ 2 ≤
        cfg.nominatorAPY.parts * (proportionOfEraToYear cfg).parts * cfg.totalLockedCap +
          payouts.length * Perbill.accuracy ^ 2 := by
  intro cfg past is s s'
  have hdur : cfg.eraDuration < 365 * DAYS := by decide
  have hera : Run.Along (step cfg) (SameEra cfg) s is := by
    refine ⟨nofun, fun _ => ?_, nofun, nofun, nofun, trivial⟩
    unfold EraChange
    decide +kernel
  have hrange : Run.Along (step cfg) UnbondsInRange (genesis (richBook 2)) (past ++ is) := by
    -- in the block with the number two, every period ends in time
    have hearly : ∀ (t : State Pair) i, t.block = 2 → UnbondsInRange t i := by
      intro t i ht who _ c _ _
      rw [ht]
      cases c.duration <;> decide
    exact ⟨nofun, nofun, nofun, nofun, nofun, hearly _ _ (by decide +kernel), nofun, nofun, trivial⟩
  obtain ⟨payouts, hpaid, -, hnodup, hbound⟩ :=
    voter_rewards_bounded cfg hdur (richBook 2) past is hera
  exact ⟨hdur, hera, hrange, by decide +kernel, by decide +kernel, payouts, hpaid, hnodup,
    hbound hrange⟩

/-! ### The last year of the block numbers

An account commits for a year, votes, unbonds and withdraws, all in the last block. The next account
does the same. The cap on the locked total holds at all times and bounds nothing. -/

section LastBlock

/-- Two accounts with one and a half times what the cap allows together. -/
def tycoons : Pair.Book := Ledger.ofFree fun _ => 1_600_000_000 * REEF

/-- Commit, vote, unbond, withdraw. -/
def rewardAndRelease (who : Fin 2) : List (Input Pair) :=
  [.signed who (.commit (1_500_000_000 * REEF) .oneYear firstAccount),
    .signed who (.voteCandidate firstAccount), .signed who .unbond, .signed who .withdraw]

/-- The book `l'` differs from `l` in the free balance of `a`, which is `v`. -/
structure Rebooked (l l' : Pair.Book) (a : Fin 2) (v : ℕ) : Prop where
  free : l'.free a = v
  reserved : l'.reserved = l.reserved
  others : ∀ x, x ≠ a → l'.free x = l.free x

theorem exists_withdraw {l : Pair.Book} {a : Fin 2} {v : ℕ} (hv : v ≠ 0) (hlt : v < l.free a) :
    ∃ l', Pair.withdraw l a v = .ok l' ∧ Rebooked l l' a (l.free a - v) := by
  refine ⟨_, Ledger.currency_withdraw 1 l hv hlt.le (by omega), ?_, rfl, fun x hx => ?_⟩
  · exact Function.update_self _ _ _
  · exact Function.update_of_ne hx _ _

theorem exists_deposit {l : Pair.Book} {a : Fin 2} {v : ℕ} (halive : 0 < l.free a)
    (hlt : l.free a + v < 2 ^ balanceBits) :
    ∃ l', Pair.depositIntoExisting l a v = .ok l' ∧ Rebooked l l' a (l.free a + v) := by
  refine ⟨_, Ledger.currency_depositIntoExisting 1 l (by omega) hlt, ?_, rfl, fun x hx => ?_⟩
  · exact Function.update_self _ _ _
  · exact Function.update_of_ne hx _ _

/-- **In the last block a reward costs nothing.** -/
theorem run_rewardAndRelease {s : State Pair} (who : Fin 2) (hblock : s.block = 2 ^ 32 - 1)
    (hlocked : s.lockedAmount = 0) (hnew : who ∉ s.commitments)
    (hnote : who ∉ s.voterRewards s.currentEra.index)
    (hfree : s.book.free who = 1_600_000_000 * REEF) :
    let cfg := Config.runtime (Fin 2)
    let s' := Run.run (step cfg) s (rewardAndRelease who)
    s'.block = 2 ^ 32 - 1 ∧ s'.lockedAmount = 0 ∧ s'.currentEra = s.currentEra ∧
    s'.paid = s.paid ++
      [⟨s.currentEra.index, who, rewardFor cfg (1_500_000_000 * REEF), false⟩] ∧
    ∀ x, x ≠ who → (x ∉ s.commitments → x ∉ s'.commitments) ∧
      (x ∉ s.voterRewards s.currentEra.index → x ∉ s'.voterRewards s'.currentEra.index) ∧
      s'.book.free x = s.book.free x := by
  intro cfg s'
  set c : Commitment (Fin 2) := ⟨.committed, .oneYear, 1_500_000_000 * REEF, 0⟩ with hc
  -- the three movements of money
  obtain ⟨b₁, hburn, hb₁⟩ := exists_withdraw (l := s.book) (a := who) (v := 1_500_000_000 * REEF)
    (by decide) (by rw [hfree]; decide)
  obtain ⟨b₂, hpay, hb₂⟩ := exists_deposit (l := b₁) (a := who)
    (v := rewardFor cfg (1_500_000_000 * REEF)) (by rw [hb₁.free, hfree]; decide)
    (by rw [hb₁.free, hfree]; decide)
  obtain ⟨b₃, hmint, hb₃⟩ := exists_deposit (l := b₂) (a := who) (v := 1_500_000_000 * REEF)
    (by rw [hb₂.free, hb₁.free, hfree]; decide) (by rw [hb₂.free, hb₁.free, hfree]; decide)
  -- the four calls
  have hroom : satAdd balanceBits s.lockedAmount (1_500_000_000 * REEF) < cfg.totalLockedCap := by
    rw [hlocked]
    decide
  obtain ⟨s₁, hcommit, hblock₁, hbook₁, hera₁, hnotes₁, hpaid₁, hlocked₁, hcs₁⟩ :
      ∃ s₁, execute cfg s who (.commit (1_500_000_000 * REEF) .oneYear 0) = .ok s₁ ∧
        s₁.block = s.block ∧ s₁.book = b₁ ∧ s₁.currentEra = s.currentEra ∧
        s₁.voterRewards = s.voterRewards ∧ s₁.paid = s.paid ∧
        s₁.lockedAmount = 1_500_000_000 * REEF ∧ s₁.commitments = s.commitments.insert who c := by
    refine ⟨_, commit_eq_ok.mpr ⟨hnew, by decide, hroom, b₁, hburn, rfl⟩, rfl, rfl, rfl, rfl, rfl,
      ?_, rfl⟩
    change satAdd balanceBits s.lockedAmount (1_500_000_000 * REEF) = _
    rw [hlocked]
    decide
  have hc₁ : s₁.commitments.lookup who = some c := by
    rw [hcs₁]
    exact Finmap.lookup_insert _
  have hreward : eraVoterReward cfg c = rewardFor cfg (1_500_000_000 * REEF) := rfl
  rw [← hbook₁] at hpay
  obtain ⟨s₂, hvote, hblock₂, hbook₂, hera₂, hnotes₂, hpaid₂, hlocked₂, hcs₂⟩ :
      ∃ s₂, execute cfg s₁ who (.voteCandidate 0) = .ok s₂ ∧ s₂.block = s₁.block ∧ s₂.book = b₂ ∧
        s₂.currentEra = s₁.currentEra ∧
        s₂.voterRewards = Function.update s₁.voterRewards s₁.currentEra.index
          ((s₁.voterRewards s₁.currentEra.index).insert who
            (rewardFor cfg (1_500_000_000 * REEF))) ∧
        s₂.paid = s₁.paid ++
          [⟨s₁.currentEra.index, who, rewardFor cfg (1_500_000_000 * REEF), false⟩] ∧
        s₂.lockedAmount = s₁.lockedAmount ∧ s₂.commitments = s₁.commitments := by
    have hsame : setVote who s₁ c 0 = s₁ := if_neg (by decide)
    have hpos : 0 < eraVoterReward cfg c := by decide
    have hnote₁ : who ∉ s₁.voterRewards s₁.currentEra.index := by
      rw [hnotes₁, hera₁]
      exact hnote
    have hrewarded := rewardVoter_eq_ok.mpr (.inr ⟨⟨hpos, hnote₁⟩, b₂, hpay, rfl⟩)
    rw [← hsame] at hrewarded
    refine ⟨_, voteCandidate_eq_ok.mpr ⟨c, hc₁, rfl, hrewarded⟩, ?_⟩
    rw [hsame]
    exact ⟨rfl, rfl, rfl, rfl, rfl, rfl, rfl⟩
  have hc₂ : s₂.commitments.lookup who = some c := hcs₂ ▸ hc₁
  obtain ⟨s₃, hunbond, hblock₃, hbook₃, hera₃, hnotes₃, hpaid₃, hlocked₃, hcs₃⟩ :
      ∃ s₃, execute cfg s₂ who .unbond = .ok s₃ ∧ s₃.block = s₂.block ∧ s₃.book = s₂.book ∧
        s₃.currentEra = s₂.currentEra ∧ s₃.voterRewards = s₂.voterRewards ∧ s₃.paid = s₂.paid ∧
        s₃.lockedAmount = s₂.lockedAmount ∧
        s₃.commitments = s₂.commitments.insert who { c with state := .unbonding s₂.block } :=
    ⟨_, unbond_eq_ok.mpr ⟨c, hc₂, rfl, rfl⟩, rfl, rfl, rfl, rfl, rfl, rfl, rfl⟩
  have hc₃ : s₃.commitments.lookup who = some { c with state := .unbonding s₂.block } := by
    rw [hcs₃]
    exact Finmap.lookup_insert _
  have hover : wrapAdd blockBits s₂.block c.duration.period ≤ s₃.block := by
    rw [hblock₃, hblock₂, hblock₁, hblock]
    decide
  rw [← hbook₂, ← hbook₃] at hmint
  obtain ⟨s₄, hwithdraw, hblock₄, hbook₄, hera₄, hnotes₄, hpaid₄, hlocked₄, hcs₄⟩ :
      ∃ s₄, execute cfg s₃ who .withdraw = .ok s₄ ∧ s₄.block = s₃.block ∧ s₄.book = b₃ ∧
        s₄.currentEra = s₃.currentEra ∧ s₄.voterRewards = s₃.voterRewards ∧ s₄.paid = s₃.paid ∧
        s₄.lockedAmount = s₃.lockedAmount - 1_500_000_000 * REEF ∧
        s₄.commitments = s₃.commitments.erase who :=
    ⟨_, withdraw_eq_ok.mpr ⟨_, s₂.block, hc₃, rfl, hover, b₃, hmint, rfl⟩, rfl, rfl, rfl, rfl, rfl,
      rfl, rfl⟩
  have hs' : s' = s₄ := by
    change Run.run (step cfg) s [_, _, _, _] = s₄
    rw [Run.run_cons, step_of_execute hcommit, Run.run_cons, step_of_execute hvote, Run.run_cons,
      step_of_execute hunbond, Run.run_cons, step_of_execute hwithdraw, Run.run_nil]
  rw [hs']
  have hera : s₄.currentEra = s.currentEra := by rw [hera₄, hera₃, hera₂, hera₁]
  refine ⟨?_, ?_, hera, ?_, fun x hx => ⟨fun hnot => ?_, fun hnot => ?_, ?_⟩⟩
  · rw [hblock₄, hblock₃, hblock₂, hblock₁, hblock]
  · rw [hlocked₄, hlocked₃, hlocked₂, hlocked₁, Nat.sub_self]
  · rw [hpaid₄, hpaid₃, hpaid₂, hpaid₁, hera₁]
  · rw [hcs₄, hcs₃, hcs₂, hcs₁, Finmap.mem_erase, Finmap.mem_insert, Finmap.mem_insert]
    rintro ⟨-, h | h | h⟩
    · exact hx h
    · exact hx h
    · exact hnot h
  · rw [hnotes₄, hnotes₃, hnotes₂, hera, hera₁, hnotes₁, Function.update_self, Finmap.mem_insert]
    rintro (h | h)
    · exact hx h
    · exact hnot h
  · rw [hbook₄, hb₃.others x hx, hb₂.others x hx, hb₁.others x hx]

/-- Both accounts in turn are rewarded as if each had half of the cap to itself. -/
theorem run_both {s : State Pair} (hidle : Idle (genesis tycoons) s (2 ^ 32 - 1))
    (hinv : RewardInv (Config.runtime (Fin 2)) s) :
    let cfg := Config.runtime (Fin 2)
    ∃ payouts, (Run.run (step cfg) s (rewardAndRelease 0 ++ rewardAndRelease 1)).paid =
        s.paid ++ payouts ∧
      payouts.length = 2 ∧ payoutSum payouts = 2 * rewardFor cfg (1_500_000_000 * REEF) := by
  intro cfg
  have hnone : ∀ who, who ∉ s.commitments := by
    intro who
    rw [hidle.commitments]
    exact Finmap.notMem_empty
  have hblock : s.block = 2 ^ 32 - 1 := hidle.block.trans (Nat.zero_add _)
  have hfree : ∀ who, s.book.free who = 1_600_000_000 * REEF := by
    intro who
    rw [hidle.book]
    rfl
  obtain ⟨hblock₀, hlocked₀, -, hpaid₀, hothers⟩ := run_rewardAndRelease 0 hblock
    hidle.lockedAmount (hnone 0) (hinv.notMem_voterRewards (hnone 0)) (hfree 0)
  obtain ⟨hcs, hnotes, hfree₀⟩ := hothers 1 (by decide)
  obtain ⟨-, -, -, hpaid₁, -⟩ := run_rewardAndRelease 1 hblock₀ hlocked₀ (hcs (hnone 1))
    (hnotes (hinv.notMem_voterRewards (hnone 1))) (hfree₀.trans (hfree 1))
  rw [hpaid₀, List.append_assoc, ← Run.run_append] at hpaid₁
  refine ⟨_, hpaid₁, rfl, ?_⟩
  rw [payoutSum_append, payoutSum_singleton, payoutSum_singleton, Nat.two_mul]

theorem sameEra_rewardAndRelease (s : State Pair) (who : Fin 2) :
    Run.Along (step (Config.runtime (Fin 2))) (SameEra (Config.runtime (Fin 2))) s
      (rewardAndRelease who) :=
  Run.Along.of_mem fun i hi t hnext => by
    rw [hnext] at hi
    simp [rewardAndRelease] at hi

/-- Together they receive more than the rates yield for all tokens that may be locked. -/
theorem both_exceed_bound {s : State Pair} (hidle : Idle (genesis tycoons) s (2 ^ 32 - 1))
    (hinv : RewardInv (Config.runtime (Fin 2)) s) :
    let cfg := Config.runtime (Fin 2)
    let is := rewardAndRelease 0 ++ rewardAndRelease 1
    cfg.eraDuration < 365 * DAYS ∧ Run.Along (step cfg) (SameEra cfg) s is ∧
    ∃ payouts, (Run.run (step cfg) s is).paid = s.paid ++ payouts ∧
      cfg.nominatorAPY.parts * (proportionOfEraToYear cfg).parts * cfg.totalLockedCap +
          payouts.length * Perbill.accuracy ^ 2 <
        payoutSum payouts * Perbill.accuracy ^ 2 := by
  intro cfg is
  obtain ⟨payouts, hpaid, hlength, hsum⟩ := run_both hidle hinv
  refine ⟨by decide, ?_, payouts, hpaid, ?_⟩
  · exact (Run.along_append _).mpr ⟨sameEra_rewardAndRelease _ 0, sameEra_rewardAndRelease _ 1⟩
  · rw [hlength, hsum]
    decide

/-- **The bound fails in the last block.** A period that ends past the last block number wraps, so
both accounts withdraw in the block in which they unbond, and the second is rewarded for room under
the cap that the first one gave back. -/
theorem rewards_exceed_bound :
    let cfg := Config.runtime (Fin 2)
    let past : List (Input Pair) := List.replicate (2 ^ 32 - 1) .nextBlock
    let is := rewardAndRelease 0 ++ rewardAndRelease 1
    let s := Run.run (step cfg) (genesis tycoons) past
    let s' := Run.run (step cfg) s is
    cfg.eraDuration < 365 * DAYS ∧ Run.Along (step cfg) (SameEra cfg) s is ∧
    ∃ payouts, s'.paid = s.paid ++ payouts ∧
      cfg.nominatorAPY.parts * (proportionOfEraToYear cfg).parts * cfg.totalLockedCap +
          payouts.length * Perbill.accuracy ^ 2 <
        payoutSum payouts * Perbill.accuracy ^ 2 := by
  intro cfg past is s s'
  have hidle : Idle (genesis tycoons) s (2 ^ 32 - 1) :=
    run_nextBlock_idle cfg rfl (2 ^ 32 - 1) (by decide)
  -- nothing is unbonded while the blocks pass
  have hinv : RewardInv cfg s :=
    Run.invariant (RewardInv cfg) (fun _ i h hi => h.step (by decide) i hi)
      (RewardInv.genesis cfg tycoons) (Run.Along.of_mem fun i hi t who hunb => by
        rw [List.eq_of_mem_replicate hi] at hunb
        cases hunb)
  exact both_exceed_bound hidle hinv

end LastBlock

end Poc
end Reef
