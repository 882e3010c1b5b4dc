import ReefChain.Poc.Election

/-!
# The council

Three storage items describe the council: the members, the candidates with their deposits, and the
number of candidates. Members are written by elections only, candidates by calls only. This file
proves the invariant that ties them together (`CouncilInv`) and, with it, that an election does what
it is meant to (`election_correct`).

The members are candidates when they are elected, and a candidate can leave unless it is a member.
Whether it is one is decided by a binary search, which is right because the members are sorted
(`binarySearch_eq_none`); and they are sorted because every election sorts them. An election that
finds no named candidate leaves the old members in place, so the invariant has to survive any
number of calls between two elections.
-/

namespace Reef
namespace Poc

open Bounded Fallible FiniteMap Ranking

variable {α : Type} [LinearOrder α] {C : Currency α}

/-! ### Binary search -/

theorem binarySearchIn_eq_none {xs : List α} {x : α} (hxs : xs.SortedLT) {fuel left right : ℕ}
    (hright : right ≤ xs.length) (hfuel : right - left < fuel) :
    binarySearchIn xs x fuel left right = none ↔
      ∀ i, left ≤ i → i < right → xs[i]? ≠ some x := by
  induction fuel generalizing left right with
  | zero => exact absurd hfuel (Nat.not_lt_zero _)
  | succ fuel ih =>
    unfold binarySearchIn
    by_cases hlt : left < right
    · rw [if_pos hlt]
      set mid := left + (right - left) / 2 with hmid
      have hmidlt : mid < right := by omega
      have hbound : mid < xs.length := by omega
      have hget : xs[mid]? = some xs[mid] := List.getElem?_eq_getElem hbound
      simp only [hget]
      -- an element before `mid` is smaller than the one at `mid`, one behind it is larger
      have horder : ∀ {i j : ℕ} {y z : α}, xs[i]? = some y → xs[j]? = some z → i < j → y < z := by
        intro i j y z hy hz hij
        obtain ⟨hi, rfl⟩ := List.getElem?_eq_some_iff.mp hy
        obtain ⟨hj, rfl⟩ := List.getElem?_eq_some_iff.mp hz
        exact hxs.getElem_lt_getElem_iff.mpr hij
      split
      · next hsmall =>
        rw [ih hright (by omega)]
        refine ⟨fun h i hi hir => ?_, fun h i hi hir => h i (by omega) hir⟩
        by_cases him : mid < i
        · exact h i him hir
        · intro hx
          rcases Nat.lt_or_eq_of_le (not_lt.mp him) with him | rfl
          · exact absurd (horder hx hget him) hsmall.not_gt
          · rw [hget] at hx
            exact absurd (Option.some.inj hx) hsmall.ne
      · next hnsmall =>
        split
        · next hlarge =>
          rw [ih (by omega) (by omega)]
          refine ⟨fun h i hi hir => ?_, fun h i hi hir => h i hi (by omega)⟩
          by_cases him : i < mid
          · exact h i hi him
          · intro hx
            rcases Nat.lt_or_eq_of_le (not_lt.mp him) with him | rfl
            · exact absurd (horder hget hx him) hlarge.not_gt
            · rw [hget] at hx
              exact absurd (Option.some.inj hx) hlarge.ne'
        · next hnlarge =>
          have heq := le_antisymm (not_lt.mp hnlarge) (not_lt.mp hnsmall)
          refine ⟨fun h => absurd h (by simp), fun h => ?_⟩
          exact absurd (hget.trans (congrArg some heq)) (h mid (by omega) hmidlt)
    · rw [if_neg hlt]
      exact ⟨fun _ i hi hir => absurd (hi.trans_lt hir) hlt, fun _ => rfl⟩

/-- **Binary search decides membership** in a sorted list. -/
theorem binarySearch_eq_none {xs : List α} (hxs : xs.SortedLT) (x : α) :
    binarySearch xs x = none ↔ x ∉ xs := by
  rw [binarySearch, binarySearchIn_eq_none hxs le_rfl (by omega), List.mem_iff_getElem?]
  constructor
  · rintro h ⟨i, hi⟩
    obtain ⟨hlt, -⟩ := List.getElem?_eq_some_iff.mp hi
    exact h i (Nat.zero_le i) hlt hi
  · intro h i _ _ hi
    exact h ⟨i, hi⟩

/-! ### The invariant -/

/-- The part of the state that describes the council. -/
structure Council (α : Type) where
  members : List α
  candidates : Finmap fun _ : α => ℕ
  candidatesCount : ℕ

/-- The council of a state. -/
def State.council (s : State C) : Council α := ⟨s.members, s.candidates, s.candidatesCount⟩

/-- **The council invariant.** -/
structure CouncilInv (cfg : Config α) (k : Council α) : Prop where
  /-- The members are in strictly increasing order. -/
  sorted : k.members.SortedLT
  /-- There are at most as many members as seats. -/
  seats : k.members.length ≤ cfg.maxMembers
  /-- Every member is a candidate. -/
  running : ∀ m ∈ k.members, m ∈ k.candidates
  /-- The counter is the number of candidates. -/
  count : k.candidatesCount = k.candidates.keys.card
  /-- There are at most as many candidates as allowed. -/
  room : k.candidatesCount ≤ cfg.maxCandidates

variable {cfg : Config α} {s s' : State C} {who : α}

theorem CouncilInv.genesis (cfg : Config α) (book : C.Book) :
    CouncilInv cfg (genesis book : State C).council where
  sorted := List.Pairwise.nil.sortedLT
  seats := Nat.zero_le _
  running := fun _ h => nomatch h
  count := rfl
  room := Nat.zero_le _

theorem keys_insert {ν : Type} (m : Finmap fun _ : α => ν) (k : α) (v : ν) :
    (m.insert k v).keys = insert k m.keys := by
  ext x
  rw [Finmap.mem_keys, Finmap.mem_insert, Finset.mem_insert, Finmap.mem_keys]

theorem CouncilInv.startCandidacy (h : CouncilInv cfg s.council)
    (hs : startCandidacy cfg who s = .ok s') : CouncilInv cfg s'.council := by
  obtain ⟨hnew, hroom, book, -, rfl⟩ := startCandidacy_eq_ok.mp hs
  have hcount : s.candidatesCount = s.candidates.keys.card := h.count
  have hmax := cfg.maxCandidates_lt
  -- the addition is exact because the new count is at most the maximum
  have hexact : satAdd 32 s.candidatesCount 1 = s.candidatesCount + 1 :=
    satAdd_of_lt (by omega)
  refine ⟨h.sorted, h.seats, fun m hm => ?_, ?_, ?_⟩
  · exact Finmap.mem_insert.mpr (.inr (h.running m hm))
  · change satAdd 32 s.candidatesCount 1 = (s.candidates.insert who cfg.candidacyDeposit).keys.card
    rw [hexact, keys_insert, Finset.card_insert_of_notMem, hcount]
    rwa [Finmap.mem_keys]
  · change satAdd 32 s.candidatesCount 1 ≤ cfg.maxCandidates
    omega

/-- **A candidate that leaves is not a member.** -/
theorem CouncilInv.stopCandidacy (h : CouncilInv cfg s.council)
    (hs : stopCandidacy who s = .ok s') : CouncilInv cfg s'.council := by
  obtain ⟨hrunning, hsearch, rfl⟩ := stopCandidacy_eq_ok.mp hs
  have hnot : who ∉ s.members := (binarySearch_eq_none h.sorted who).mp hsearch
  have hcount : s.candidatesCount = s.candidates.keys.card := h.count
  have hroom : s.candidatesCount ≤ cfg.maxCandidates := h.room
  refine ⟨h.sorted, h.seats, fun m hm => ?_, ?_, ?_⟩
  · have hne : m ≠ who := fun heq => hnot (heq ▸ hm)
    exact Finmap.mem_erase.mpr ⟨hne, h.running m hm⟩
  · change s.candidatesCount - 1 = (s.candidates.erase who).keys.card
    rw [Finmap.keys_erase, Finset.card_erase_of_mem (Finmap.mem_keys.mpr hrunning), hcount]
  · change s.candidatesCount - 1 ≤ cfg.maxCandidates
    omega

theorem voteCandidate_council {candidate : α} (hs : voteCandidate cfg who s candidate = .ok s') :
    s'.council = s.council := by
  obtain ⟨c, -, -, hs⟩ := voteCandidate_eq_ok.mp hs
  have hvote : (setVote who s c candidate).council = s.council := by
    unfold setVote
    split <;> rfl
  rw [← hvote]
  obtain ⟨-, rfl⟩ | ⟨-, book, -, rfl⟩ := rewardVoter_eq_ok.mp hs
  · rfl
  · rfl

/-- **A successful call keeps the invariant.** Only the two calls about candidacy touch it. -/
theorem CouncilInv.execute {call : Call α} (h : CouncilInv cfg s.council)
    (hs : execute cfg s who call = .ok s') : CouncilInv cfg s'.council := by
  cases call with
  | startCandidacy => exact h.startCandidacy hs
  | stopCandidacy => exact h.stopCandidacy hs
  | commit amount duration candidate =>
    obtain ⟨-, -, -, book, -, rfl⟩ := commit_eq_ok.mp hs
    exact h
  | addFunds amount =>
    obtain ⟨c, -, -, book, -, -, rfl⟩ := addFunds_eq_ok.mp hs
    exact h
  | unbond =>
    obtain ⟨c, -, -, rfl⟩ := unbond_eq_ok.mp hs
    exact h
  | withdraw =>
    obtain ⟨c, startBlock, -, -, -, book, -, rfl⟩ := withdraw_eq_ok.mp hs
    exact h
  | voteCandidate candidate =>
    rw [voteCandidate_council hs]
    exact h

/-- A block leaves the candidates alone. -/
theorem onInitialize_candidates (cfg : Config α) (n : ℕ) (s : State C) :
    (onInitialize cfg n s).candidates = s.candidates ∧
      (onInitialize cfg n s).candidatesCount = s.candidatesCount := by
  by_cases h : EraChange cfg n s
  · obtain ⟨members, book, events, paid, heq, -⟩ := onInitialize_eq h
    rw [heq]
    exact ⟨rfl, rfl⟩
  · rw [onInitialize_of_not_eraChange h]
    exact ⟨rfl, rfl⟩

/-- **An election keeps the invariant.** Those elected are candidates, and at most `maxMembers`. -/
theorem CouncilInv.onInitialize (h : CouncilInv cfg s.council) (n : ℕ) :
    CouncilInv cfg (onInitialize cfg n s).council := by
  obtain ⟨hcand, hcount⟩ := onInitialize_candidates cfg n s
  -- an election without winners leaves the members in place
  have hmembers : (Poc.onInitialize cfg n s).members = s.members ∨
      (Poc.onInitialize cfg n s).members = elected cfg.maxMembers s := by
    by_cases hera : EraChange cfg n s
    · rw [onInitialize_members hera]
      by_cases hempty : elected cfg.maxMembers s = []
      · exact .inl (if_pos hempty)
      · exact .inr (if_neg hempty)
    · rw [onInitialize_of_not_eraChange hera]
      exact .inl rfl
  have hsame : (Poc.onInitialize cfg n s).council =
      ⟨(Poc.onInitialize cfg n s).members, s.candidates, s.candidatesCount⟩ := by
    rw [State.council, hcand, hcount]
  rw [hsame]
  rcases hmembers with heq | heq
  · rw [heq]
    exact h
  · rw [heq]
    refine ⟨elected_sortedLT _ _, ?_, fun m hm => ?_, h.count, h.room⟩
    · change (elected cfg.maxMembers s).length ≤ cfg.maxMembers
      rw [elected, List.length_insertionSort]
      exact List.length_take_le _ _
    · have hnamed : m ∈ named s := mem_ranked.mp (List.mem_of_mem_take (mem_elected.mp hm))
      exact (mem_named.mp hnamed).2

/-- **Every step keeps the invariant.** -/
theorem CouncilInv.step (h : CouncilInv cfg s.council) (i : Input C) :
    CouncilInv cfg (step cfg s i).council := by
  cases i with
  | signed who call =>
    change CouncilInv cfg (commitOrKeep (Poc.execute cfg s who call) s).council
    obtain ⟨s', hs, heq⟩ | ⟨-, heq⟩ := commitOrKeep_cases (Poc.execute cfg s who call) s
    · rw [heq]
      exact h.execute hs
    · rw [heq]
      exact h
  | nextBlock =>
    simp only [Poc.step]
    split
    · exact CouncilInv.onInitialize (s := { s with block := s.block + 1 }) h _
    · exact h
  | external book => exact h

theorem CouncilInv.run (cfg : Config α) (book : C.Book) (is : List (Input C)) :
    CouncilInv cfg (Run.run (Poc.step cfg) (Poc.genesis book) is).council :=
  Run.invariant_of_step (fun s : State C => CouncilInv cfg s.council) (fun _ i h => h.step i)
    (CouncilInv.genesis cfg book)

/-- **The council is sound.** In every state reached from genesis the members are strictly
increasing, at most `maxMembers`, and candidates; the binary search that keeps members from leaving
decides membership; and the counter is the number of candidates, at most `maxCandidates`. -/
theorem council_sound (cfg : Config α) (book : C.Book) (is : List (Input C)) :
    let s := Run.run (step cfg) (genesis book) is
    s.members.Pairwise (· < ·) ∧ s.members.length ≤ cfg.maxMembers ∧
    (∀ m ∈ s.members, m ∈ s.candidates) ∧
    (∀ who, binarySearch s.members who = none ↔ who ∉ s.members) ∧
    s.candidatesCount = s.candidates.keys.card ∧ s.candidatesCount ≤ cfg.maxCandidates := by
  intro s
  have hinv : CouncilInv cfg s.council := CouncilInv.run cfg book is
  refine ⟨hinv.sorted.pairwise, hinv.seats, hinv.running, ?_, hinv.count, hinv.room⟩
  exact binarySearch_eq_none hinv.sorted

/-! ### Elections count exactly -/

/-- The votes for `k`: each commitment counts its amount once, ten or a hundred times, and an
unbonding one not at all. -/
def tally (s : State C) (k : α) : ℕ :=
  total (fun _ c => if c.candidate = k ∧ c.state = .committed then
    c.amount * c.duration.multiplier else 0) s.commitments

omit [LinearOrder α] in
theorem multiplier_le (d : LockDuration) : d.multiplier ≤ 100 := by
  cases d <;> decide

section Exact

variable {k : α}

/-- All votes together are at most a hundred times the locked total. -/
theorem LockedInv.weights_le (h : LockedInv cfg s.locks) :
    total (fun _ c => 100 * c.amount) s.commitments ≤ 100 * cfg.totalLockedCap := by
  have hsum : s.lockedAmount = total (fun _ c => c.amount) s.commitments := h.sum
  have hcap : s.lockedAmount = 0 ∨ s.lockedAmount < cfg.totalLockedCap := h.cap
  rw [total_mul_left 100 (fun _ c : _ => (c : Commitment α).amount) s.commitments, ← hsum]
  omega

/-- The multiplication of a voting weight fits. -/
theorem LockedInv.weight_lt (h : LockedInv cfg s.locks)
    (hfit : 100 * cfg.totalLockedCap < 2 ^ balanceBits) {c : Commitment α}
    (hc : s.commitments.lookup who = some c) :
    c.amount * c.duration.multiplier < 2 ^ balanceBits := by
  have hle : 100 * c.amount ≤ total (fun _ c => 100 * c.amount) s.commitments :=
    le_total (f := fun _ c => 100 * c.amount) hc
  calc c.amount * c.duration.multiplier
      ≤ c.amount * 100 := Nat.mul_le_mul_left _ (multiplier_le _)
    _ = 100 * c.amount := Nat.mul_comm _ _
    _ ≤ 100 * cfg.totalLockedCap := hle.trans h.weights_le
    _ < 2 ^ balanceBits := hfit

/-- So a voting weight is the exact product. -/
theorem LockedInv.weightFor_eq (h : LockedInv cfg s.locks)
    (hfit : 100 * cfg.totalLockedCap < 2 ^ balanceBits) {c : Commitment α}
    (hc : s.commitments.lookup who = some c) :
    weightFor k c = if c.candidate = k ∧ c.state = .committed then
      c.amount * c.duration.multiplier else 0 := by
  unfold weightFor votingWeight
  by_cases hk : c.candidate = k
  · by_cases hst : c.state = .committed
    · rw [if_pos hk, if_neg (not_not.mpr hst), if_pos ⟨hk, hst⟩]
      exact Nat.mod_eq_of_lt (h.weight_lt hfit hc)
    · rw [if_pos hk, if_pos hst, if_neg fun hand => hst hand.2]
  · rw [if_neg hk, if_neg fun hand => hk hand.1]

theorem LockedInv.total_weightFor (h : LockedInv cfg s.locks)
    (hfit : 100 * cfg.totalLockedCap < 2 ^ balanceBits) (k : α) :
    total (fun _ c => weightFor k c) s.commitments = tally s k :=
  total_congr fun _ _ hc => h.weightFor_eq hfit hc

/-- The tally of a candidate fits. -/
theorem LockedInv.tally_lt (h : LockedInv cfg s.locks)
    (hfit : 100 * cfg.totalLockedCap < 2 ^ balanceBits) (k : α) : tally s k < 2 ^ balanceBits := by
  refine lt_of_le_of_lt (le_trans (total_le_total fun _ c _ => ?_) h.weights_le) hfit
  split
  · rw [Nat.mul_comm 100]
    exact Nat.mul_le_mul_left _ (multiplier_le _)
  · exact Nat.zero_le _

/-- **The counted weight is the tally.** -/
theorem LockedInv.weightOf_eq (h : LockedInv cfg s.locks)
    (hfit : 100 * cfg.totalLockedCap < 2 ^ balanceBits) : weightOf s = tally s := by
  funext k
  rw [weightOf, h.total_weightFor hfit]
  exact min_eq_right (lt_two_pow_iff.mp (h.tally_lt hfit k))

/-- No addition of the count saturates: what is accumulated is part of a tally. -/
theorem LockedInv.partial_lt (h : LockedInv cfg s.locks)
    (hfit : 100 * cfg.totalLockedCap < 2 ^ balanceBits)
    {before after : List (Σ _ : α, Commitment α)} {e : Σ _ : α, Commitment α}
    (hiter : cfg.iter s.commitments = before ++ e :: after) :
    weightIn before e.2.candidate + votingWeight e.2 < 2 ^ balanceBits := by
  refine lt_of_le_of_lt ?_ (h.tally_lt hfit e.2.candidate)
  have hself : weightFor e.2.candidate e.2 = votingWeight e.2 := if_pos rfl
  rw [← h.total_weightFor hfit, total, ← cfg.iter_entries, hiter, Multiset.map_coe,
    Multiset.sum_coe, List.map_append, List.map_cons, List.sum_append, List.sum_cons, hself,
    weightIn]
  omega

end Exact

/-- The members after a block that starts a new era. -/
theorem nextBlock_members (hblock : s.block + 1 < 2 ^ blockBits)
    (hera : EraChange cfg (s.block + 1) s) :
    (step cfg s .nextBlock).members =
      if elected cfg.maxMembers s = [] then s.members else elected cfg.maxMembers s := by
  have hstep : step cfg s .nextBlock =
      onInitialize cfg (s.block + 1) { s with block := s.block + 1 } := if_pos hblock
  rw [hstep]
  exact onInitialize_members (s := { s with block := s.block + 1 }) hera

/-- **Elections are correct.** At every era change of every run, the new members are the first
`maxMembers` of the named candidates, by tally and then by account, again in account order; if no
candidate is named, the members stay. No candidate left out has a larger tally than one elected, the
order in which the commitments are enumerated plays no role, and no product or sum is cut off. -/
theorem election_correct (cfg : Config α) (hfit : 100 * cfg.totalLockedCap < 2 ^ balanceBits)
    (book : C.Book) (is : List (Input C)) :
    let s := Run.run (step cfg) (genesis book) is
    s.block + 1 < 2 ^ blockBits → EraChange cfg (s.block + 1) s →
    let s' := step cfg s .nextBlock
    let best := (ranked (tally s) (named s)).take cfg.maxMembers
    (named s ≠ ∅ → s'.members = best.insertionSort (· ≤ ·)) ∧
    (named s = ∅ → s'.members = s.members) ∧
    (∀ a ∈ best, ∀ b ∈ named s, b ∉ best → tally s b ≤ tally s a) ∧
    (∀ iter h, (step { cfg with iter := iter, iter_entries := h } s .nextBlock).members =
      s'.members) ∧
    (∀ who c, s.commitments.lookup who = some c →
      c.amount * c.duration.multiplier < 2 ^ balanceBits) ∧
    (∀ before e after, cfg.iter s.commitments = before ++ e :: after →
      weightIn before e.2.candidate + votingWeight e.2 < 2 ^ balanceBits) := by
  intro s hblock hera s' best
  have hinv : LockedInv cfg s.locks := LockedInv.run cfg book is
  have hcouncil : CouncilInv cfg s.council := CouncilInv.run cfg book is
  have helected : elected cfg.maxMembers s = best.insertionSort (· ≤ ·) := by
    rw [elected, hinv.weightOf_eq hfit]
  -- what the block does to the members, for any order of enumeration
  have hafter := nextBlock_members hblock hera
  refine ⟨fun hnamed => ?_, fun hnamed => ?_, ?_, fun iter h => ?_, ?_, ?_⟩
  · change (step cfg s .nextBlock).members = _
    rw [hafter, helected]
    by_cases hempty : best.insertionSort (· ≤ ·) = []
    · -- there are no seats, so there were no members either
      have hseats := (elected_eq_nil.mp (helected.trans hempty)).resolve_right hnamed
      have hlen : s.members.length ≤ cfg.maxMembers := hcouncil.seats
      rw [hseats] at hlen
      rw [if_pos hempty, hempty]
      exact List.length_eq_zero_iff.mp (Nat.le_zero.mp hlen)
    · exact if_neg hempty
  · exact hafter.trans (if_pos (elected_eq_nil.mpr (.inr hnamed)))
  · intro a ha b hb hnot
    exact score_le_of_notMem_take ha hb hnot
  · have hafter' : (step { cfg with iter := iter, iter_entries := h } s .nextBlock).members =
        if elected cfg.maxMembers s = [] then s.members else elected cfg.maxMembers s :=
      nextBlock_members hblock hera
    exact hafter'.trans hafter.symm
  · exact fun who c hc => hinv.weight_lt hfit hc
  · exact fun before e after hiter => hinv.partial_lt hfit hiter

/-- Three candidates run for two seats. The account `5` is named twice, `3` and `4` once; the one
commitment for `4` is of the same amount as the one for `3`, but longer. So `4` and `5` are
elected, and `3` is not. -/
theorem election_correct_three_candidates :
    let cfg := { quickEras (Fin 6) with maxMembers := 2 }
    let s : State (Ledger.currency (Fin 6) 1) := Run.run (step cfg) (genesis (richBook 6))
      [.signed 3 .startCandidacy, .signed 4 .startCandidacy, .signed 5 .startCandidacy,
        .signed 0 (.commit (100_000 * REEF) .oneYear 3),
        .signed 1 (.commit (100_000 * REEF) .tenYears 4),
        .signed 2 (.commit (300_000 * REEF) .tenYears 5),
        .signed 3 (.commit (200_000 * REEF) .oneMonth 5)]
    100 * cfg.totalLockedCap < 2 ^ balanceBits ∧ s.block + 1 < 2 ^ blockBits ∧
    EraChange cfg (s.block + 1) s ∧ named s = {3, 4, 5} ∧
    tally s 3 < tally s 4 ∧ tally s 4 < tally s 5 ∧
    (step cfg s .nextBlock).members =
      ((ranked (tally s) (named s)).take cfg.maxMembers).insertionSort (· ≤ ·) ∧
    ∀ a, a ∈ (step cfg s .nextBlock).members ↔ a = 4 ∨ a = 5 := by
  intro cfg s
  have hfit : 100 * cfg.totalLockedCap < 2 ^ balanceBits := by decide
  have hblock : s.block + 1 < 2 ^ blockBits := by decide +kernel
  have hera : EraChange cfg (s.block + 1) s := by
    unfold EraChange
    decide +kernel
  have hnamed : named s = {3, 4, 5} := by decide +kernel
  have hne : named s ≠ ∅ := by
    rw [hnamed]
    decide
  have hmembers := (election_correct cfg hfit (richBook 6) _ hblock hera).1 hne
  refine ⟨hfit, hblock, hera, hnamed, by decide +kernel, by decide +kernel, hmembers, fun a => ?_⟩
  rw [hmembers, List.mem_insertionSort, mem_take_ranked]
  -- the best two are those with fewer than two others above them
  revert a
  decide +kernel

end Poc
end Reef
