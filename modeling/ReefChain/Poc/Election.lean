import Mathlib.Data.Finset.Union
import ReefChain.Lib.Ranking
import ReefChain.Poc.Locked

/-!
# Elections

The first block of an era counts the votes of all commitments and seats the candidates with most
votes. The code folds the commitments, in whatever order the storage yields them, into a map kept in
candidate order, sorts the entries by weight with a stable sort, cuts the list off after
`maxMembers` entries, and sorts the remaining candidates again by account.

Everything that follows rests on one equation, `counter_eq`: the map the fold arrives at has an
entry for each candidate that is running and named by a commitment (`named`), and its weight is the
sum of the voting weights given to it, cut off at the largest balance (`weightOf`). No trace of the
order of the fold is left. The two sorts then make a ranking of it (`Ranking.ranked`), so that the
council seated by an era change is `elected`: the `maxMembers` best of the named candidates in
account order, or the old council if no candidate is named.

An entry is made for a candidate that is named by unbonding commitments only; its weight is zero,
but it is an entry. Such a candidate is seated whenever seats are left. The last section says
exactly when unbonding commitments make no difference.
-/

namespace Reef
namespace Poc

open Bounded FiniteMap Ranking

variable {α : Type} [LinearOrder α] {C : Currency α}

/-! ### The map of votes -/

/-- The list holds, in key order, the value `g k` for each key `k` of `S`. -/
structure Tabulates (S : Finset α) (g : α → ℕ) (l : List (α × ℕ)) : Prop where
  sorted : l.Pairwise fun p q => p.1 < q.1
  mem : ∀ p, p ∈ l ↔ p.1 ∈ S ∧ p.2 = g p.1

section Tabulates

variable {S : Finset α} {g : α → ℕ} {l : List (α × ℕ)} {k : α} {v : ℕ}

theorem Tabulates.empty (g : α → ℕ) : Tabulates ∅ g [] :=
  ⟨.nil, fun p => by simp⟩

theorem Tabulates.congr {g' : α → ℕ} (h : Tabulates S g l) (hg : ∀ k ∈ S, g k = g' k) :
    Tabulates S g' l := by
  refine ⟨h.sorted, fun p => (h.mem p).trans ?_⟩
  constructor
  · rintro ⟨hp, hv⟩
    exact ⟨hp, hv.trans (hg p.1 hp)⟩
  · rintro ⟨hp, hv⟩
    exact ⟨hp, hv.trans (hg p.1 hp).symm⟩

/-- Set and values determine the list. -/
theorem Tabulates.eq_map (h : Tabulates S g l) : l = S.sort.map fun k => (k, g k) := by
  have hkeys : l.map Prod.fst = S.sort := by
    have hsorted : (l.map Prod.fst).SortedLT := (List.pairwise_map.mpr h.sorted).sortedLT
    refine hsorted.eq_of_mem_iff (Finset.sortedLT_sort S) fun k => ?_
    rw [Finset.mem_sort, List.mem_map]
    constructor
    · rintro ⟨p, hp, rfl⟩
      exact ((h.mem p).mp hp).1
    · intro hk
      exact ⟨(k, g k), (h.mem _).mpr ⟨hk, rfl⟩, rfl⟩
  rw [← hkeys, List.map_map]
  calc l = l.map id := (List.map_id l).symm
    _ = l.map ((fun k => (k, g k)) ∘ Prod.fst) :=
        List.map_congr_left fun p hp => Prod.ext rfl ((h.mem p).mp hp).2

theorem lookup_map (g : α → ℕ) (ks : List α) (k : α) :
    (ks.map fun k => (k, g k)).lookup k = if k ∈ ks then some (g k) else none := by
  induction ks with
  | nil => rfl
  | cons j ks ih =>
    rw [List.map_cons, List.lookup_cons, ih]
    by_cases h : k = j
    · simp [h]
    · have hne : (k == j) = false := beq_false_of_ne h
      simp [h, hne]

theorem Tabulates.lookup (h : Tabulates S g l) (k : α) :
    l.lookup k = if k ∈ S then some (g k) else none := by
  rw [h.eq_map, lookup_map]
  simp only [Finset.mem_sort]

theorem mem_insertSorted (hl : l.Pairwise fun p q => p.1 < q.1) {p : α × ℕ} :
    p ∈ insertSorted k v l ↔ p = (k, v) ∨ p ∈ l ∧ p.1 ≠ k := by
  induction l with
  | nil => simp [insertSorted]
  | cons e l ih =>
    obtain ⟨he, hl'⟩ := List.pairwise_cons.mp hl
    unfold insertSorted
    split
    · next hlt =>
      -- everything is behind `k`
      have hne : ∀ q ∈ e :: l, q.1 ≠ k := by
        intro q hq
        rcases List.mem_cons.mp hq with rfl | hq
        · exact hlt.ne'
        · exact (hlt.trans (he q hq)).ne'
      rw [List.mem_cons]
      constructor
      · rintro (hp | hp)
        · exact .inl hp
        · exact .inr ⟨hp, hne p hp⟩
      · rintro (hp | ⟨hp, -⟩)
        · exact .inl hp
        · exact .inr hp
    · split
      · next heq =>
        -- `e` is replaced, everything else is behind it
        rw [List.mem_cons]
        constructor
        · rintro (hp | hp)
          · exact .inl hp
          · exact .inr ⟨List.mem_cons_of_mem e hp, heq ▸ (he p hp).ne'⟩
        · rintro (hp | ⟨hp, hne⟩)
          · exact .inl hp
          · rcases List.mem_cons.mp hp with rfl | hp
            · exact absurd heq.symm hne
            · exact .inr hp
      · next hne =>
        rw [List.mem_cons, ih hl', List.mem_cons]
        constructor
        · rintro (rfl | hp | ⟨hp, hpk⟩)
          · exact .inr ⟨.inl rfl, Ne.symm hne⟩
          · exact .inl hp
          · exact .inr ⟨.inr hp, hpk⟩
        · rintro (hp | ⟨rfl | hp, hpk⟩)
          · exact .inr (.inl hp)
          · exact .inl rfl
          · exact .inr (.inr ⟨hp, hpk⟩)

theorem pairwise_insertSorted (k : α) (v : ℕ) (hl : l.Pairwise fun p q => p.1 < q.1) :
    (insertSorted k v l).Pairwise fun p q => p.1 < q.1 := by
  induction l with
  | nil => exact List.pairwise_singleton _ _
  | cons e l ih =>
    obtain ⟨he, hl'⟩ := List.pairwise_cons.mp hl
    unfold insertSorted
    split
    · next hlt =>
      -- the new key is below the head
      refine List.pairwise_cons.mpr ⟨fun q hq => ?_, hl⟩
      rcases List.mem_cons.mp hq with rfl | hq
      · exact hlt
      · exact hlt.trans (he q hq)
    · next hnlt =>
      -- it replaces the head or goes into the tail
      split
      · next heq => exact List.pairwise_cons.mpr ⟨fun q hq => heq ▸ he q hq, hl'⟩
      · next hne =>
        refine List.pairwise_cons.mpr ⟨fun q hq => ?_, ih hl'⟩
        rcases (mem_insertSorted hl').mp hq with rfl | ⟨hq, -⟩
        · exact lt_of_le_of_ne (not_lt.mp hnlt) (Ne.symm hne)
        · exact he q hq

theorem Tabulates.insert (h : Tabulates S g l) (k : α) (v : ℕ) :
    Tabulates (insert k S) (Function.update g k v) (insertSorted k v l) := by
  refine ⟨pairwise_insertSorted k v h.sorted, fun p => ?_⟩
  rw [mem_insertSorted h.sorted, h.mem, Finset.mem_insert]
  by_cases hp : p.1 = k
  · rw [hp, Function.update_self]
    constructor
    · rintro (rfl | ⟨-, hne⟩)
      · exact ⟨.inl rfl, rfl⟩
      · exact absurd rfl hne
    · rintro ⟨-, hv⟩
      exact .inl (Prod.ext hp hv)
  · rw [Function.update_of_ne hp]
    constructor
    · rintro (rfl | ⟨hS, -⟩)
      · exact absurd rfl hp
      · exact ⟨.inr hS.1, hS.2⟩
    · rintro ⟨hk | hS, hv⟩
      · exact absurd hk hp
      · exact .inr ⟨⟨hS, hv⟩, hp⟩

end Tabulates

/-! ### Counting the votes -/

omit [LinearOrder α] in
/-- A voting weight is a balance. -/
theorem votingWeight_le (c : Commitment α) : votingWeight c ≤ maxValue balanceBits := by
  unfold votingWeight
  split
  · exact Nat.zero_le _
  · exact lt_two_pow_iff.mp (Nat.mod_lt _ (Nat.two_pow_pos _))

/-- The candidates that are running and named by an entry of the list. -/
def namedIn (s : State C) (es : List (Σ _ : α, Commitment α)) : Finset α :=
  (es.map fun e => e.2.candidate).toFinset.filter (· ∈ s.candidates)

/-- The voting weight a commitment gives to `k`. -/
def weightFor (k : α) (c : Commitment α) : ℕ := if c.candidate = k then votingWeight c else 0

/-- The weights the entries of the list give to `k`. -/
def weightIn (es : List (Σ _ : α, Commitment α)) (k : α) : ℕ :=
  (es.map fun e => weightFor k e.2).sum

section Count

variable {s : State C} {es : List (Σ _ : α, Commitment α)} {e : Σ _ : α, Commitment α} {k : α}

theorem mem_namedIn :
    k ∈ namedIn s es ↔ (∃ e ∈ es, e.2.candidate = k) ∧ k ∈ s.candidates := by
  rw [namedIn, Finset.mem_filter, List.mem_toFinset, List.mem_map]

theorem weightIn_append : weightIn (es ++ [e]) k = weightIn es k + weightFor k e.2 := by
  simp [weightIn]

/-- A candidate that is running and not named has no weight. -/
theorem weightIn_of_notMem (hk : k ∈ s.candidates) (h : k ∉ namedIn s es) : weightIn es k = 0 := by
  rw [weightIn, List.sum_eq_zero_iff]
  intro w hw
  obtain ⟨e, he, rfl⟩ := List.mem_map.mp hw
  refine if_neg fun heq => h ?_
  exact mem_namedIn.mpr ⟨⟨e, he, heq⟩, hk⟩

/-- Saturating sums of balances are the sum cut off once. -/
theorem satAdd_min (w v : ℕ) :
    satAdd balanceBits v (min (maxValue balanceBits) w) = min (maxValue balanceBits) (w + v) := by
  unfold satAdd
  omega

/-- **One vote.** -/
theorem countVote_tabulates {l : List (α × ℕ)}
    (h : Tabulates (namedIn s es) (fun k => min (maxValue balanceBits) (weightIn es k)) l) :
    Tabulates (namedIn s (es ++ [e]))
      (fun k => min (maxValue balanceBits) (weightIn (es ++ [e]) k)) (countVote s l e.2) := by
  set x := e.2.candidate with hx
  unfold countVote
  split
  · next hout =>
    -- the vote is for nobody who is running: the running candidates keep their weights
    have hsame : namedIn s (es ++ [e]) = namedIn s es := by
      ext k
      rw [mem_namedIn, mem_namedIn]
      constructor
      · rintro ⟨⟨e', he', hk⟩, hrun⟩
        rcases List.mem_append.mp he' with he' | he'
        · exact ⟨⟨e', he', hk⟩, hrun⟩
        · rw [List.mem_singleton.mp he'] at hk
          exact absurd (hk ▸ hrun) hout
      · rintro ⟨⟨e', he', hk⟩, hrun⟩
        exact ⟨⟨e', List.mem_append_left _ he', hk⟩, hrun⟩
    rw [hsame]
    refine h.congr fun k hk => ?_
    have hne : e.2.candidate ≠ k := fun heq => hout (heq ▸ (mem_namedIn.mp hk).2)
    rw [weightIn_append, weightFor, if_neg hne, Nat.add_zero]
  · next hrun =>
    have hrun : x ∈ s.candidates := not_not.mp hrun
    have hset : namedIn s (es ++ [e]) = insert x (namedIn s es) := by
      ext k
      rw [Finset.mem_insert, mem_namedIn, mem_namedIn]
      constructor
      · rintro ⟨⟨e', he', hk⟩, hkrun⟩
        rcases List.mem_append.mp he' with he' | he'
        · exact .inr ⟨⟨e', he', hk⟩, hkrun⟩
        · rw [List.mem_singleton.mp he'] at hk
          exact .inl hk.symm
      · rintro (rfl | ⟨⟨e', he', hk⟩, hkrun⟩)
        · exact ⟨⟨e, List.mem_append_right _ (List.mem_singleton_self e), rfl⟩, hrun⟩
        · exact ⟨⟨e', List.mem_append_left _ he', hk⟩, hkrun⟩
    -- in both branches the entry of `x` becomes the sum with the new vote
    have hadd : ∀ v, v = min (maxValue balanceBits) (weightIn es x + votingWeight e.2) →
        Tabulates (insert x (namedIn s es))
          (fun k => min (maxValue balanceBits) (weightIn (es ++ [e]) k)) (insertSorted x v l) := by
      intro v hv
      refine (h.insert x v).congr fun k _ => ?_
      by_cases hk : k = x
      · rw [hk, Function.update_self, hv, weightIn_append, weightFor, if_pos hx.symm]
      · rw [Function.update_of_ne hk, weightIn_append, weightFor, if_neg (Ne.symm hk),
          Nat.add_zero]
    rw [hset, h.lookup x]
    split
    · next accW hacc =>
      split at hacc
      · obtain rfl := Option.some.inj hacc
        exact hadd _ (satAdd_min _ _)
      · cases hacc
    · next hnone =>
      split at hnone
      · cases hnone
      · next hnew =>
        refine hadd _ ?_
        rw [weightIn_of_notMem hrun hnew, Nat.zero_add, min_eq_right (votingWeight_le _)]

/-- **All votes**, in whatever order. -/
theorem foldl_countVote_tabulates (s : State C) (es : List (Σ _ : α, Commitment α)) :
    Tabulates (namedIn s es) (fun k => min (maxValue balanceBits) (weightIn es k))
      (es.foldl (fun acc e => countVote s acc e.2) []) := by
  induction es using List.reverseRecOn with
  | nil => exact .empty _
  | append_singleton es e ih =>
    rw [List.foldl_append]
    exact countVote_tabulates ih

end Count

/-- The candidates that are running and named by a commitment. -/
def named (s : State C) : Finset α :=
  (s.commitments.entries.map fun e => e.2.candidate).toFinset.filter (· ∈ s.candidates)

/-- The weight a candidate is counted with. -/
def weightOf (s : State C) (k : α) : ℕ :=
  min (maxValue balanceBits) (total (fun _ c => weightFor k c) s.commitments)

variable {s : State C} {cfg : Config α} {n : ℕ}

theorem mem_named {k : α} :
    k ∈ named s ↔
      (∃ who c, s.commitments.lookup who = some c ∧ c.candidate = k) ∧ k ∈ s.candidates := by
  rw [named, Finset.mem_filter, Multiset.mem_toFinset, Multiset.mem_map]
  constructor
  · rintro ⟨⟨⟨who, c⟩, he, hk⟩, hrun⟩
    exact ⟨⟨who, c, Finmap.lookup_eq_some_iff.mpr he, hk⟩, hrun⟩
  · rintro ⟨⟨who, c, hc, hk⟩, hrun⟩
    exact ⟨⟨⟨who, c⟩, Finmap.lookup_eq_some_iff.mp hc, hk⟩, hrun⟩

/-- **The votes**: each named candidate with its weight, in candidate order. -/
theorem counter_eq (cfg : Config α) (s : State C) :
    counter cfg s = (named s).sort.map fun k => (k, weightOf s k) := by
  have hnamed : namedIn s (cfg.iter s.commitments) = named s := by
    rw [named, ← cfg.iter_entries]
    rfl
  have hweight : ∀ k, weightIn (cfg.iter s.commitments) k =
      total (fun _ c => weightFor k c) s.commitments := by
    intro k
    rw [total, ← cfg.iter_entries, Multiset.map_coe, Multiset.sum_coe]
    rfl
  have htable := foldl_countVote_tabulates s (cfg.iter s.commitments)
  rw [hnamed] at htable
  refine (htable.congr fun k _ => ?_).eq_map
  rw [hweight]
  rfl

/-! ### The council an era starts with -/

/-- The best of the named candidates, in account order. -/
def elected (maxMembers : ℕ) (s : State C) : List α :=
  ((ranked (weightOf s) (named s)).take maxMembers).insertionSort (· ≤ ·)

/-- The ranking lists the named candidates with their weights, best first. -/
theorem ranking_eq (cfg : Config α) (s : State C) :
    ranking cfg s = (ranked (weightOf s) (named s)).map fun k => (k, weightOf s k) := by
  rw [ranking, counter_eq, insertionSort_eq_map_ranked]

theorem winners_eq (cfg : Config α) (s : State C) :
    (((ranking cfg s).take cfg.maxMembers).map Prod.fst).insertionSort (· ≤ ·) =
      elected cfg.maxMembers s := by
  have hfst : (ranking cfg s).map Prod.fst = ranked (weightOf s) (named s) := by
    rw [ranking_eq, List.map_map]
    exact List.map_id _
  rw [List.map_take, hfst]
  rfl

theorem mem_elected {maxMembers : ℕ} {k : α} :
    k ∈ elected maxMembers s ↔ k ∈ (ranked (weightOf s) (named s)).take maxMembers :=
  List.mem_insertionSort _

theorem elected_sortedLT (maxMembers : ℕ) (s : State C) : (elected maxMembers s).SortedLT := by
  refine List.sortedLE_insertionSort.sortedLT_of_nodup ?_
  rw [(List.perm_insertionSort _ _).nodup_iff]
  exact (ranked_nodup _ _).sublist (List.take_sublist _ _)

/-- Nobody is elected if nobody is named, or if there are no seats. -/
theorem elected_eq_nil {maxMembers : ℕ} :
    elected maxMembers s = [] ↔ maxMembers = 0 ∨ named s = ∅ := by
  have hlen : (elected maxMembers s).length = min maxMembers (named s).card := by
    rw [elected, List.length_insertionSort, List.length_take, ranked, Finset.length_sort]
  rw [← List.length_eq_zero_iff, hlen, ← Finset.card_eq_zero]
  omega

/-- The block starts a new era. -/
def EraChange (cfg : Config α) (n : ℕ) (s : State C) : Prop :=
  wrapAdd blockBits s.currentEra.start cfg.eraDuration ≤ n

omit [LinearOrder α] in
/-- Rewards touch the currency and the record of payments. -/
theorem foldl_rewardWinner_eq (era reward : ℕ) (winners : List α) (s : State C) :
    ∃ book paid, winners.foldl (rewardWinner era reward) s = { s with book, paid } := by
  induction winners generalizing s with
  | nil => exact ⟨s.book, s.paid, rfl⟩
  | cons w winners ih =>
    have hone : ∃ book paid, rewardWinner era reward s w = { s with book, paid } := by
      unfold rewardWinner
      split
      · exact ⟨_, _, rfl⟩
      · exact ⟨s.book, s.paid, rfl⟩
    obtain ⟨book, paid, hone⟩ := hone
    obtain ⟨book', paid', hrest⟩ := ih { s with book, paid }
    rw [List.foldl_cons, hone]
    exact ⟨book', paid', hrest⟩

omit [LinearOrder α] in
/-- **Seating a council** touches the members, the currency and the record of payments. -/
theorem seatCouncil_eq (cfg : Config α) (era : ℕ) {winners : List α} (h : winners ≠ [])
    (s : State C) :
    ∃ book paid, seatCouncil cfg era winners s = { s with members := winners, book, paid } := by
  simp only [seatCouncil, if_neg h]
  split
  · exact foldl_rewardWinner_eq era _ winners _
  · exact ⟨s.book, s.paid, rfl⟩

omit [LinearOrder α] in
theorem rewardWinner_paid (era reward : ℕ) (winner : α) {t : State C} (hbook : s.book = t.book)
    (hpaid : s.paid = t.paid) :
    (rewardWinner era reward s winner).book = (rewardWinner era reward t winner).book ∧
      (rewardWinner era reward s winner).paid = (rewardWinner era reward t winner).paid := by
  unfold rewardWinner
  rw [hbook, hpaid]
  split
  · exact ⟨rfl, rfl⟩
  · exact ⟨hbook, hpaid⟩

omit [LinearOrder α] in
/-- The rewards depend on the winners and the currency only. -/
theorem seatCouncil_paid (cfg : Config α) (era : ℕ) (winners : List α) {t : State C}
    (hbook : s.book = t.book) (hpaid : s.paid = t.paid) :
    (seatCouncil cfg era winners s).book = (seatCouncil cfg era winners t).book ∧
      (seatCouncil cfg era winners s).paid = (seatCouncil cfg era winners t).paid := by
  have hall : ∀ (reward : ℕ) (ws : List α) {s t : State C}, s.book = t.book → s.paid = t.paid →
      (ws.foldl (rewardWinner era reward) s).book = (ws.foldl (rewardWinner era reward) t).book ∧
      (ws.foldl (rewardWinner era reward) s).paid =
        (ws.foldl (rewardWinner era reward) t).paid := by
    intro reward ws
    induction ws with
    | nil => exact fun hbook hpaid => ⟨hbook, hpaid⟩
    | cons w ws ih =>
      intro s t hbook hpaid
      obtain ⟨hbook', hpaid'⟩ := rewardWinner_paid era reward w hbook hpaid
      exact ih hbook' hpaid'
  have hrewards : eraCouncilRewards cfg { s with members := winners } =
      eraCouncilRewards cfg { t with members := winners } := by
    unfold eraCouncilRewards
    rw [hbook]
  simp only [seatCouncil]
  rw [hrewards]
  split
  · exact ⟨hbook, hpaid⟩
  · split
    · exact hall _ winners hbook hpaid
    · exact ⟨hbook, hpaid⟩

/-- The state in which the votes of the era that starts with block `n` are counted. -/
def atEraChange (n : ℕ) (s : State C) : State C :=
  { s with
    currentEra := ⟨satAdd 32 s.currentEra.index 1, n⟩
    voterRewards := Function.update s.voterRewards s.currentEra.index ∅ }

theorem onInitialize_of_eraChange (h : EraChange cfg n s) :
    onInitialize cfg n s = elect cfg (satAdd 32 s.currentEra.index 1) (atEraChange n s) := by
  unfold onInitialize
  rw [if_pos (show wrapAdd blockBits s.currentEra.start cfg.eraDuration ≤ n from h)]
  rfl

theorem onInitialize_of_not_eraChange (h : ¬ EraChange cfg n s) :
    onInitialize cfg n s = s := if_neg h

/-- The state in which the new council is seated: those elected have been announced. -/
def announced (cfg : Config α) (n : ℕ) (s : State C) : State C :=
  { atEraChange n s with
    events := s.events ++ ((ranked (weightOf s) (named s)).take cfg.maxMembers).map fun k =>
      .elected (satAdd 32 s.currentEra.index 1) k (weightOf s k) }

/-- An era change announces those elected and seats them. -/
theorem onInitialize_eq_seatCouncil (h : EraChange cfg n s) :
    onInitialize cfg n s = seatCouncil cfg (satAdd 32 s.currentEra.index 1)
      (elected cfg.maxMembers s) (announced cfg n s) := by
  rw [onInitialize_of_eraChange h, elect, winners_eq, ranking_eq, ← List.map_take, List.map_map]
  rfl

/-- **What an era change does.** The elected council is seated, unless nobody is elected. -/
theorem onInitialize_eq (h : EraChange cfg n s) :
    ∃ members book events paid,
      onInitialize cfg n s = { atEraChange n s with members, book, events, paid } ∧
      members = if elected cfg.maxMembers s = [] then s.members else elected cfg.maxMembers s := by
  rw [onInitialize_eq_seatCouncil h]
  by_cases hempty : elected cfg.maxMembers s = []
  · rw [if_pos hempty, hempty]
    exact ⟨_, _, _, _, rfl, rfl⟩
  · rw [if_neg hempty]
    obtain ⟨book, paid, heq⟩ := seatCouncil_eq cfg (satAdd 32 s.currentEra.index 1) hempty
      (announced cfg n s)
    exact ⟨_, book, _, paid, heq, rfl⟩

/-- The council after an era change. -/
theorem onInitialize_members (h : EraChange cfg n s) :
    (onInitialize cfg n s).members =
      if elected cfg.maxMembers s = [] then s.members else elected cfg.maxMembers s := by
  obtain ⟨members, book, events, paid, heq, hmembers⟩ := onInitialize_eq h
  rw [heq]
  exact hmembers

/-! ### Unbonding commitments -/

/-- The commitments that are not unbonding. -/
def dropUnbonding (m : Finmap fun _ : α => Commitment α) : Finmap fun _ : α => Commitment α :=
  ⟨m.entries.filter fun e => e.2.state = .committed,
    Multiset.nodup_keys.mp (Multiset.nodup_of_le (Multiset.map_le_map (Multiset.filter_le _ _))
      (Multiset.nodup_keys.mpr m.nodupKeys))⟩

/-- The state without the unbonding commitments. -/
def State.withoutUnbonding (s : State C) : State C :=
  { s with commitments := dropUnbonding s.commitments }

theorem lookup_dropUnbonding {m : Finmap fun _ : α => Commitment α} {who : α} {c : Commitment α} :
    (dropUnbonding m).lookup who = some c ↔ m.lookup who = some c ∧ c.state = .committed := by
  rw [Finmap.lookup_eq_some_iff, Finmap.lookup_eq_some_iff]
  exact Multiset.mem_filter

/-- An unbonding commitment has no weight. -/
theorem weightOf_withoutUnbonding (s : State C) : weightOf s.withoutUnbonding = weightOf s := by
  funext k
  set es := s.commitments.entries
  -- what is dropped weighs nothing
  have hrest : ((es.filter fun e => ¬ e.2.state = .committed).map
      fun e => weightFor k e.2).sum = 0 := by
    rw [Multiset.sum_eq_zero_iff]
    intro w hw
    obtain ⟨e, he, rfl⟩ := Multiset.mem_map.mp hw
    rw [weightFor, votingWeight, if_pos (Multiset.mem_filter.mp he).2, ite_self]
  have htotal : total (fun _ c => weightFor k c) (dropUnbonding s.commitments) =
      total (fun _ c => weightFor k c) s.commitments := by
    calc total (fun _ c => weightFor k c) (dropUnbonding s.commitments)
        = ((es.filter fun e => e.2.state = .committed).map fun e => weightFor k e.2).sum +
            ((es.filter fun e => ¬ e.2.state = .committed).map fun e => weightFor k e.2).sum := by
          rw [hrest]
          rfl
      _ = (es.map fun e => weightFor k e.2).sum := by
          rw [← Multiset.sum_add, ← Multiset.map_add, Multiset.filter_add_not]
  unfold weightOf
  rw [← htotal]
  rfl

theorem named_withoutUnbonding_subset (s : State C) : named s.withoutUnbonding ⊆ named s := by
  intro k hk
  obtain ⟨⟨who, c, hc, hck⟩, hrun⟩ := mem_named.mp hk
  exact mem_named.mpr ⟨⟨who, c, (lookup_dropUnbonding.mp hc).1, hck⟩, hrun⟩

/-- Every candidate that only unbonding commitments name has at least `maxMembers` candidates above
it that other commitments name. -/
def Outvoted (maxMembers : ℕ) (s : State C) : Prop :=
  ∀ z ∈ named s \ named s.withoutUnbonding,
    maxMembers ≤ ((named s.withoutUnbonding).filter fun a => Above (weightOf s) a z).card

/-- Unbonding commitments leave the best of the candidates as they are exactly if those only they
name are outvoted. -/
theorem best_withoutUnbonding_iff (maxMembers : ℕ) (s : State C) :
    (ranked (weightOf s) (named s)).take maxMembers =
        (ranked (weightOf s.withoutUnbonding) (named s.withoutUnbonding)).take maxMembers ↔
      Outvoted maxMembers s := by
  have hunion : named s.withoutUnbonding ∪ (named s \ named s.withoutUnbonding) = named s :=
    Finset.union_sdiff_of_subset (named_withoutUnbonding_subset s)
  have hbest := take_ranked_union_iff (f := weightOf s) (k := maxMembers)
    (Finset.disjoint_sdiff (s := named s.withoutUnbonding) (t := named s))
  rw [hunion] at hbest
  rw [Outvoted, ← hbest, weightOf_withoutUnbonding]
  constructor
  · intro heq x
    rw [heq]
  · exact take_ranked_congr

/-- What an era change announces: those elected with their weights, best first. -/
theorem onInitialize_events (h : EraChange cfg n s) :
    (onInitialize cfg n s).events = s.events ++
      ((ranked (weightOf s) (named s)).take cfg.maxMembers).map fun k =>
        .elected (satAdd 32 s.currentEra.index 1) k (weightOf s k) := by
  rw [onInitialize_eq_seatCouncil h]
  -- seating a council announces nothing
  by_cases hnone : elected cfg.maxMembers s = []
  · rw [seatCouncil, if_pos hnone]
    rfl
  · obtain ⟨book, paid, heq⟩ := seatCouncil_eq cfg (satAdd 32 s.currentEra.index 1) hnone
      (announced cfg n s)
    rw [heq]
    rfl

/-- An era change has the same outcome in two states: the same members, the same candidates
announced with the same weights, and the same rewards. -/
structure SameOutcome (s t : State C) : Prop where
  members : s.members = t.members
  events : s.events = t.events
  paid : s.paid = t.paid
  book : s.book = t.book

/-- **When unbonding commitments have no influence.** An era change has the same outcome with and
without them exactly if those they alone name are outvoted. -/
theorem unbonding_without_influence_iff (cfg : Config α) (n : ℕ) (s : State C)
    (hera : EraChange cfg n s) :
    SameOutcome (onInitialize cfg n s) (onInitialize cfg n s.withoutUnbonding) ↔
      Outvoted cfg.maxMembers s := by
  have hera₀ : EraChange cfg n s.withoutUnbonding := hera
  rw [← best_withoutUnbonding_iff]
  constructor
  · -- the announcements tell the candidates that were elected
    intro hsame
    have hevents := hsame.events
    rw [onInitialize_events hera, onInitialize_events hera₀] at hevents
    rw [weightOf_withoutUnbonding] at hevents ⊢
    refine List.map_injective_iff.mpr (fun a b hab => ?_) (List.append_cancel_left hevents)
    injection hab
  · intro hbest
    have helected : elected cfg.maxMembers s = elected cfg.maxMembers s.withoutUnbonding := by
      rw [elected, elected, hbest]
    -- the same council is seated, in states that differ in their commitments only
    have hpaid := seatCouncil_paid cfg (satAdd 32 s.currentEra.index 1) (elected cfg.maxMembers s)
      (s := announced cfg n s) (t := announced cfg n s.withoutUnbonding) rfl rfl
    refine ⟨?_, ?_, ?_, ?_⟩
    · rw [onInitialize_members hera, onInitialize_members hera₀, helected]
      rfl
    · rw [onInitialize_events hera, onInitialize_events hera₀, hbest, weightOf_withoutUnbonding]
      rfl
    · rw [onInitialize_eq_seatCouncil hera, onInitialize_eq_seatCouncil hera₀, ← helected]
      exact hpaid.2
    · rw [onInitialize_eq_seatCouncil hera, onInitialize_eq_seatCouncil hera₀, ← helected]
      exact hpaid.1

/-- The constants of the runtime, with a new era in every block. -/
def quickEras (α : Type) [LinearOrder α] : Config α :=
  { Config.runtime α with eraDuration := 1, eraDuration_lt := by decide }

/-- The accounts 1 and 2 run for one seat. Only a commitment that is unbonding names the account 2,
and it is outvoted. -/
theorem unbonding_without_influence_committed :
    let cfg := { quickEras (Fin 4) with maxMembers := 1 }
    let s : State (Ledger.currency (Fin 4) 1) := Run.run (step cfg) (genesis (richBook 4))
      [.signed 1 .startCandidacy, .signed 2 .startCandidacy,
        .signed 0 (.commit (100_000 * REEF) .oneYear 1),
        .signed 3 (.commit (200_000 * REEF) .tenYears 2), .signed 3 .unbond]
    EraChange cfg 1 s ∧ named s \ named s.withoutUnbonding = {2} ∧ Outvoted cfg.maxMembers s ∧
    SameOutcome (onInitialize cfg 1 s) (onInitialize cfg 1 s.withoutUnbonding) := by
  intro cfg s
  have hera : EraChange cfg 1 s := by
    unfold EraChange
    decide +kernel
  have hout : Outvoted cfg.maxMembers s := by
    unfold Outvoted
    decide +kernel
  exact ⟨hera, by decide +kernel, hout, (unbonding_without_influence_iff cfg 1 s hera).mpr hout⟩

/-- The only commitment is unbonding. It elects its candidate, which is paid as a member. -/
theorem unbonding_commitment_elects :
    let cfg := Config.runtime (Fin 2)
    let s : State (Ledger.currency (Fin 2) 1) := Run.run (step cfg) (genesis (richBook 2))
      [.signed 1 .startCandidacy, .signed 0 (.commit (100_000 * REEF) .oneYear 1),
        .signed 0 .unbond]
    wrapAdd blockBits s.currentEra.start cfg.eraDuration ≤ 7 * DAYS ∧
    (onInitialize cfg (7 * DAYS) s).members = [1] ∧
    (onInitialize cfg (7 * DAYS) s).paid.map Payout.who = [1] ∧
    (onInitialize cfg (7 * DAYS) s.withoutUnbonding).members = [] ∧
    (onInitialize cfg (7 * DAYS) s.withoutUnbonding).paid.map Payout.who = [] := by
  decide +kernel

end Poc
end Reef
