import ReefChain.Poc.Locked

/-!
# The history of a commitment

The state keeps of a commitment only its total amount and, while it unbonds, the block at which
that started. This file relates both to the calls that led there. For every commitment of a
reachable state the trace of the run splits at the successful `commit` that created it; the amount
is the amount of that call plus all funds added since, and if it is unbonding the rest of the trace
splits again, at the successful `unbond` after which no funds were added (`History`).

A withdrawal is let through when `startBlock + period ≤ block`, where the sum is taken in the block
number type. The history therefore yields that a withdrawn commitment has been unbonding for its
whole lock period *as long as that sum does not wrap around*: `UnbondsInRange` is the condition,
on the state in which `unbond` is called. Close to the last block number it fails, the sum wraps to
a small number, and the tokens can be taken out in the block in which unbonding starts
(`withdraw_in_unbond_block`).
-/

namespace Reef
namespace Poc

open Bounded Fallible FiniteMap

variable {α : Type} [LinearOrder α] {C : Currency α}

/-! ### Events of a trace -/

/-- An entry of a trace: an input, with the state it was taken in. -/
abbrev Entry (C : Currency α) := State C × Input C

/-- The entry is a successful call of `call` by `who`. -/
def Succeeds (cfg : Config α) (who : α) (call : Call α) (e : Entry C) : Prop :=
  e.2 = .signed who call ∧ ∃ s', execute cfg e.1 who call = .ok s'

/-- The amount the entry adds to the commitment of `who`. -/
def added (cfg : Config α) (who : α) (e : Entry C) : ℕ :=
  match e.2 with
  | .signed x (.addFunds amount) =>
    if x = who then
      match addFunds cfg who e.1 amount with
      | .ok _ => amount
      | .error _ => 0
    else 0
  | _ => 0

/-- All funds added to the commitment of `who` along a trace. -/
def addedSum (cfg : Config α) (who : α) (tr : List (Entry C)) : ℕ := (tr.map (added cfg who)).sum

/-- The trace has no successful `commit` by `who`. -/
def NoCommit (cfg : Config α) (who : α) (tr : List (Entry C)) : Prop :=
  ∀ e ∈ tr, ∀ amount duration candidate, ¬ Succeeds cfg who (.commit amount duration candidate) e

/-- The trace has no successful `add_funds` by `who`. -/
def NoAddFunds (cfg : Config α) (who : α) (tr : List (Entry C)) : Prop :=
  ∀ e ∈ tr, ∀ amount, ¬ Succeeds cfg who (.addFunds amount) e

/-! ### The history invariant -/

/-- The trace since the commitment was created ends in an unbonding period: a successful `unbond`
at block `startBlock`, and no funds added or committed since. -/
def UnbondingSince (cfg : Config α) (who : α) (startBlock : ℕ) (tr : List (Entry C)) : Prop :=
  ∃ before e after, tr = before ++ e :: after ∧ Succeeds cfg who .unbond e ∧
    e.1.block = startBlock ∧ NoAddFunds cfg who after ∧ NoCommit cfg who after

/-- `since` is the trace from the creation of the commitment `c` of `who` on: the calls in it
account for the amount and for the state of the commitment. -/
structure Accounts (cfg : Config α) (who : α) (c : Commitment α) (amount : ℕ)
    (since : List (Entry C)) : Prop where
  /-- Nothing was committed anew. -/
  noCommit : NoCommit cfg who since
  /-- The amount is the committed one plus all funds added. -/
  amount_eq : c.amount = amount + addedSum cfg who since
  /-- An unbonding commitment is so since its last `unbond`. -/
  unbonding : ∀ startBlock, c.state = .unbonding startBlock →
    UnbondingSince cfg who startBlock since ∧
      startBlock + c.duration.period < 2 ^ blockBits

/-- **The history invariant.** Every commitment was created by a successful `commit` of its
duration, and the trace since accounts for it. -/
def History (cfg : Config α) (tr : List (Entry C)) (s : State C) : Prop :=
  ∀ who c, s.commitments.lookup who = some c →
    ∃ before e amount candidate since, tr = before ++ e :: since ∧
      Succeeds cfg who (.commit amount c.duration candidate) e ∧
      Accounts cfg who c amount since

/-- An account that unbonds in `s` does so early enough for its lock period to end at a block
number. -/
def UnbondsInRange (s : State C) (i : Input C) : Prop :=
  ∀ who, i = .signed who .unbond → ∀ c, s.commitments.lookup who = some c →
    c.state = .committed → s.block + c.duration.period < 2 ^ blockBits

/-! ### What a step does to one commitment -/

section Step

variable {cfg : Config α} {s s' : State C} {i : Input C} {who : α} {c c' : Commitment α}

/-- The entry neither commits nor adds funds for `who`. -/
def Quiet (cfg : Config α) (who : α) (e : Entry C) : Prop :=
  (∀ amount duration candidate, ¬ Succeeds cfg who (.commit amount duration candidate) e) ∧
  ∀ amount, ¬ Succeeds cfg who (.addFunds amount) e

/-- A commitment that differs at most in the candidate. -/
structure SameLock (c c' : Commitment α) : Prop where
  state : c'.state = c.state
  duration : c'.duration = c.duration
  amount : c'.amount = c.amount

/-- The ways in which the commitment `c'` of `who` after a step comes about: it was there before,
it is created, it gains funds, or it starts to unbond. -/
inductive Origin (cfg : Config α) (who : α) (s : State C) (i : Input C) (c' : Commitment α) : Prop
  | same (c : Commitment α) : s.commitments.lookup who = some c → SameLock c c' →
      Quiet cfg who (s, i) → Origin cfg who s i c'
  | created (amount : ℕ) (candidate : α) :
      Succeeds cfg who (.commit amount c'.duration candidate) (s, i) →
      c'.amount = amount → c'.state = .committed → Origin cfg who s i c'
  | funded (c : Commitment α) (amount : ℕ) : s.commitments.lookup who = some c →
      Succeeds cfg who (.addFunds amount) (s, i) → c'.duration = c.duration →
      c'.amount = c.amount + amount → c'.state = .committed → Origin cfg who s i c'
  | unbonded (c : Commitment α) : s.commitments.lookup who = some c → c.state = .committed →
      i = .signed who .unbond → Succeeds cfg who .unbond (s, i) → c'.duration = c.duration →
      c'.amount = c.amount → c'.state = .unbonding s.block → Origin cfg who s i c'

omit [LinearOrder α] in
theorem SameLock.refl (c : Commitment α) : SameLock c c := ⟨rfl, rfl, rfl⟩

/-- A call of another account is quiet. -/
theorem Quiet.of_ne {x : α} {call : Call α} (h : who ≠ x) :
    Quiet cfg who (s, .signed x call) := by
  refine ⟨fun amount duration candidate hs => ?_, fun amount hs => ?_⟩
  · have hx := hs.1
    injection hx with hx
    exact h hx.symm
  · have hx := hs.1
    injection hx with hx
    exact h hx.symm

/-- A failed call is quiet. -/
theorem Quiet.of_error {x : α} {call : Call α} {e : DispatchError}
    (h : execute cfg s x call = .error e) : Quiet cfg who (s, .signed x call) := by
  have hfail : ∀ call', ¬ Succeeds cfg who call' (s, .signed x call) := by
    rintro call' ⟨hx, s', hs⟩
    injection hx with hx hcall
    subst hx hcall
    rw [h] at hs
    cases hs
  exact ⟨fun _ _ _ => hfail _, fun _ => hfail _⟩

/-- An input that is no `commit` and no `add_funds` is quiet. -/
theorem Quiet.of_input (hcommit : ∀ amount duration candidate,
      i ≠ .signed who (.commit amount duration candidate))
    (hadd : ∀ amount, i ≠ .signed who (.addFunds amount)) : Quiet cfg who (s, i) :=
  ⟨fun amount duration candidate hs => hcommit amount duration candidate hs.1,
    fun amount hs => hadd amount hs.1⟩

/-- A successful call: the commitments of other accounts stay, and the caller's own is created,
funded, unbonded, removed or kept. -/
theorem origin_of_execute {x : α} {call : Call α} (hs : execute cfg s x call = .ok s')
    (hc : s'.commitments.lookup who = some c') : Origin cfg who s (.signed x call) c' := by
  by_cases hx : who = x
  · subst hx
    cases call with
    | startCandidacy =>
      obtain ⟨-, -, book, -, rfl⟩ := startCandidacy_eq_ok.mp hs
      exact .same c' hc (.refl c') (.of_input (by simp) (by simp))
    | stopCandidacy =>
      obtain ⟨-, -, rfl⟩ := stopCandidacy_eq_ok.mp hs
      exact .same c' hc (.refl c') (.of_input (by simp) (by simp))
    | commit amount duration candidate =>
      have hcopy := hs
      obtain ⟨-, -, -, book, -, rfl⟩ := commit_eq_ok.mp hs
      obtain rfl := eq_of_lookup_insert (m := s.commitments) hc
      exact .created amount candidate ⟨rfl, _, hcopy⟩ rfl rfl
    | addFunds amount =>
      have hcopy := hs
      obtain ⟨c, hold, -, book, -, -, rfl⟩ := addFunds_eq_ok.mp hs
      obtain rfl := eq_of_lookup_insert (m := s.commitments) hc
      exact .funded c amount hold ⟨rfl, _, hcopy⟩ rfl rfl rfl
    | unbond =>
      have hcopy := hs
      obtain ⟨c, hold, hst, rfl⟩ := unbond_eq_ok.mp hs
      obtain rfl := eq_of_lookup_insert (m := s.commitments) hc
      exact .unbonded c hold hst rfl ⟨rfl, _, hcopy⟩ rfl rfl rfl
    | withdraw =>
      -- the commitment is gone
      obtain ⟨c, startBlock, -, -, -, book, -, rfl⟩ := withdraw_eq_ok.mp hs
      exact absurd hc (by simp [State.depositEvent])
    | voteCandidate candidate =>
      obtain ⟨c, hold, hlocks⟩ := voteCandidate_locks hs
      have hcs : s'.commitments = s.commitments.insert who { c with candidate } :=
        congrArg Locks.commitments hlocks
      rw [hcs] at hc
      obtain rfl := eq_of_lookup_insert (m := s.commitments) hc
      exact .same c hold ⟨rfl, rfl, rfl⟩ (.of_input (by simp) (by simp))
  · -- the call writes the commitment of `x` only
    refine .same c' ?_ (.refl c') (.of_ne hx)
    cases call with
    | startCandidacy =>
      obtain ⟨-, -, book, -, rfl⟩ := startCandidacy_eq_ok.mp hs
      exact hc
    | stopCandidacy =>
      obtain ⟨-, -, rfl⟩ := stopCandidacy_eq_ok.mp hs
      exact hc
    | commit amount duration candidate =>
      obtain ⟨-, -, -, book, -, rfl⟩ := commit_eq_ok.mp hs
      exact lookup_of_lookup_insert (m := s.commitments) hx hc
    | addFunds amount =>
      obtain ⟨c, -, -, book, -, -, rfl⟩ := addFunds_eq_ok.mp hs
      exact lookup_of_lookup_insert (m := s.commitments) hx hc
    | unbond =>
      obtain ⟨c, -, -, rfl⟩ := unbond_eq_ok.mp hs
      exact lookup_of_lookup_insert (m := s.commitments) hx hc
    | withdraw =>
      obtain ⟨c, startBlock, -, -, -, book, -, rfl⟩ := withdraw_eq_ok.mp hs
      exact (lookup_erase_eq_some_iff.mp hc).2
    | voteCandidate candidate =>
      obtain ⟨c, -, hlocks⟩ := voteCandidate_locks hs
      have hcs : s'.commitments = s.commitments.insert x { c with candidate } :=
        congrArg Locks.commitments hlocks
      rw [hcs] at hc
      exact lookup_of_lookup_insert (m := s.commitments) hx hc

/-- The origin of a commitment after any step. -/
theorem origin_of_step (hc : (step cfg s i).commitments.lookup who = some c') :
    Origin cfg who s i c' := by
  cases i with
  | signed x call =>
    cases hs : execute cfg s x call with
    | ok s' =>
      have hstep : step cfg s (.signed x call) = s' := by
        simp only [step, dispatch, commitOrKeep, hs]
      rw [hstep] at hc
      exact origin_of_execute hs hc
    | error e =>
      have hstep : step cfg s (.signed x call) = s := by
        simp only [step, dispatch, commitOrKeep, hs]
      rw [hstep] at hc
      exact .same c' hc (.refl c') (.of_error hs)
  | nextBlock =>
    refine .same c' ?_ (.refl c') (.of_input (by simp) (by simp))
    simp only [step] at hc
    split at hc
    · have hcs := congrArg Locks.commitments
        (onInitialize_locks cfg (s.block + 1) { s with block := s.block + 1 })
      exact (congrArg (Finmap.lookup who) hcs).symm.trans hc
    · exact hc
  | external book =>
    exact .same c' hc (.refl c') (.of_input (by simp) (by simp))

end Step

/-! ### Every step extends the history -/

section Extend

variable {cfg : Config α} {s : State C} {i : Input C} {who : α} {c c' : Commitment α}
  {amount : ℕ} {tr since : List (Entry C)} {e : Entry C}

theorem addedSum_append (tr tr' : List (Entry C)) :
    addedSum cfg who (tr ++ tr') = addedSum cfg who tr + addedSum cfg who tr' := by
  unfold addedSum
  rw [List.map_append, List.sum_append]

theorem addedSum_singleton (e : Entry C) : addedSum cfg who [e] = added cfg who e :=
  List.sum_singleton

/-- A quiet entry adds no funds. -/
theorem Quiet.added_eq_zero (h : Quiet cfg who e) : added cfg who e = 0 := by
  obtain ⟨s, i⟩ := e
  unfold added
  split
  · next x amount hi =>
    split
    · next hx =>
      subst hx
      split
      · next s' hs => exact absurd ⟨hi, s', hs⟩ (h.2 amount)
      · rfl
    · rfl
  · rfl

/-- A successful `add_funds` adds its amount. -/
theorem Succeeds.added_eq (h : Succeeds cfg who (.addFunds amount) e) :
    added cfg who e = amount := by
  obtain ⟨s, i⟩ := e
  obtain ⟨rfl, s', hs⟩ := h
  change addFunds cfg who s amount = .ok s' at hs
  simp only [added, if_true, hs]

/-- Two successful calls of one entry are the same call. -/
theorem Succeeds.call_eq {call call' : Call α} (h : Succeeds cfg who call e)
    (h' : Succeeds cfg who call' e) : call = call' := by
  have heq : Input.signed who call = (.signed who call' : Input C) := h.1.symm.trans h'.1
  injection heq

theorem NoCommit.append (h : NoCommit cfg who tr)
    (he : ∀ amount duration candidate,
      ¬ Succeeds cfg who (.commit amount duration candidate) e) :
    NoCommit cfg who (tr ++ [e]) := by
  intro e' he'
  rcases List.mem_append.mp he' with hmem | hmem
  · exact h e' hmem
  · obtain rfl := List.mem_singleton.mp hmem
    exact he

theorem UnbondingSince.append {startBlock : ℕ} (h : UnbondingSince cfg who startBlock tr)
    (he : Quiet cfg who e) : UnbondingSince cfg who startBlock (tr ++ [e]) := by
  obtain ⟨before, e₁, after, rfl, hsucc, hblock, hadd, hcommit⟩ := h
  refine ⟨before, e₁, after ++ [e], by simp, hsucc, hblock, ?_, hcommit.append he.1⟩
  intro e' he'
  rcases List.mem_append.mp he' with hmem | hmem
  · exact hadd e' hmem
  · obtain rfl := List.mem_singleton.mp hmem
    exact he.2

/-- A quiet step that keeps the lock. -/
theorem Accounts.keep (h : Accounts cfg who c amount since) (hsame : SameLock c c')
    (hquiet : Quiet cfg who e) : Accounts cfg who c' amount (since ++ [e]) where
  noCommit := h.noCommit.append hquiet.1
  amount_eq := by
    rw [addedSum_append, addedSum_singleton, hquiet.added_eq_zero, hsame.amount, h.amount_eq]
    rfl
  unbonding := by
    intro startBlock hst
    rw [hsame.state] at hst
    obtain ⟨hsince, hrange⟩ := h.unbonding startBlock hst
    rw [hsame.duration]
    exact ⟨hsince.append hquiet, hrange⟩

/-- Adding funds commits again, so there is no unbonding period to account for. -/
theorem Accounts.fund {n : ℕ} (h : Accounts cfg who c amount since)
    (hadd : Succeeds cfg who (.addFunds n) e) (hamount : c'.amount = c.amount + n)
    (hst : c'.state = .committed) : Accounts cfg who c' amount (since ++ [e]) where
  noCommit := h.noCommit.append fun _ _ _ hcommit => nomatch hadd.call_eq hcommit
  amount_eq := by
    rw [addedSum_append, addedSum_singleton, hadd.added_eq, hamount, h.amount_eq, Nat.add_assoc]
  unbonding := fun startBlock hunb => by
    rw [hst] at hunb
    cases hunb

/-- Unbonding starts a period with nothing after it yet. -/
theorem Accounts.unbond (h : Accounts cfg who c amount since)
    (hunbond : Succeeds cfg who .unbond e) (hduration : c'.duration = c.duration)
    (hamount : c'.amount = c.amount) (hst : c'.state = .unbonding e.1.block)
    (hrange : e.1.block + c.duration.period < 2 ^ blockBits) :
    Accounts cfg who c' amount (since ++ [e]) where
  noCommit := h.noCommit.append fun _ _ _ hcommit => nomatch hunbond.call_eq hcommit
  amount_eq := by
    have hquiet : Quiet cfg who e :=
      ⟨fun _ _ _ hcommit => (nomatch hunbond.call_eq hcommit),
        fun _ hadd => (nomatch hunbond.call_eq hadd)⟩
    rw [addedSum_append, addedSum_singleton, hquiet.added_eq_zero, hamount, h.amount_eq]
    rfl
  unbonding := by
    intro startBlock hunb
    rw [hst] at hunb
    obtain rfl := LockState.unbonding.inj hunb
    rw [hduration]
    exact ⟨⟨since, e, [], rfl, hunbond, rfl, by simp [NoAddFunds], by simp [NoCommit]⟩, hrange⟩

/-- **Every step extends the history.** -/
theorem History.step (h : History cfg tr s) (hrange : UnbondsInRange s i) :
    History cfg (tr ++ [(s, i)]) (step cfg s i) := by
  intro who c' hc'
  cases origin_of_step hc' with
  | same c hc hsame hquiet =>
    obtain ⟨before, e, amount, candidate, since, rfl, hcommit, hacc⟩ := h who c hc
    refine ⟨before, e, amount, candidate, since ++ [(s, i)], by simp, ?_, hacc.keep hsame hquiet⟩
    rw [hsame.duration]
    exact hcommit
  | created amount candidate hcommit hamount hst =>
    refine ⟨tr, (s, i), amount, candidate, [], rfl, hcommit, by simp [NoCommit], hamount, ?_⟩
    intro startBlock hunb
    rw [hst] at hunb
    cases hunb
  | funded c n hc hadd hduration hamount hst =>
    obtain ⟨before, e, amount, candidate, since, rfl, hcommit, hacc⟩ := h who c hc
    refine ⟨before, e, amount, candidate, since ++ [(s, i)], by simp, ?_,
      hacc.fund hadd hamount hst⟩
    rw [hduration]
    exact hcommit
  | unbonded c hc hcommitted hi hunbond hduration hamount hst =>
    obtain ⟨before, e, amount, candidate, since, rfl, hcommit, hacc⟩ := h who c hc
    refine ⟨before, e, amount, candidate, since ++ [(s, i)], by simp, ?_,
      hacc.unbond hunbond hduration hamount hst (hrange who hi c hc hcommitted)⟩
    rw [hduration]
    exact hcommit

/-- The history of every run from genesis whose unbondings are in range. -/
theorem History.run (cfg : Config α) (book : C.Book) {is : List (Input C)}
    (hok : Run.Along (Poc.step cfg) UnbondsInRange (genesis book) is) :
    History cfg (Run.trace (Poc.step cfg) (genesis book) is)
      (Run.run (Poc.step cfg) (genesis book) is) := by
  refine Run.history (History cfg) (fun tr s i h hi => h.step hi) ?_ hok
  intro who c hc
  simp [genesis] at hc

end Extend

/-! ### Withdrawals -/

/-- The withdrawal that takes `s` to `s'` after the trace `tr` is in time: the trace has the
`commit` that created the commitment, with duration `duration`, and after it an `unbond` since which
`who` has neither committed nor added funds; at least the lock period lies between that `unbond` and
the current block; and the account is credited with what it committed plus what it added since. -/
def WithdrawnInTime (cfg : Config α) (who : α) (tr : List (Entry C)) (s s' : State C) : Prop :=
  ∃ before e₁ amount duration candidate between e₂ after,
    tr = before ++ e₁ :: (between ++ e₂ :: after) ∧
    Succeeds cfg who (.commit amount duration candidate) e₁ ∧
    NoCommit cfg who (between ++ e₂ :: after) ∧
    Succeeds cfg who .unbond e₂ ∧ NoAddFunds cfg who after ∧
    e₂.1.block + duration.period ≤ s.block ∧
    C.freeBalance s'.book who = C.freeBalance s.book who +
      (amount + addedSum cfg who (between ++ e₂ :: after))

/-- **No early withdrawal.** In every run in which accounts unbond only while their lock period
still ends at a block number, every successful withdrawal is in time. -/
theorem withdraw_in_time (cfg : Config α) (book : C.Book) (is : List (Input C))
    (hok : Run.Along (step cfg) UnbondsInRange (genesis book) is) (who : α) (s' : State C)
    (hs : withdraw who (Run.run (step cfg) (genesis book) is) = .ok s') :
    WithdrawnInTime cfg who (Run.trace (step cfg) (genesis book) is)
      (Run.run (step cfg) (genesis book) is) s' := by
  obtain ⟨c, startBlock, hc, hst, hperiod, book', hdep, rfl⟩ := withdraw_eq_ok.mp hs
  obtain ⟨before, e₁, amount, candidate, since, htr, hcommit, hacc⟩ :=
    History.run cfg book hok who c hc
  obtain ⟨⟨between, e₂, after, rfl, hunbond, hblock, hadd, -⟩, hrange⟩ :=
    hacc.unbonding startBlock hst
  refine ⟨before, e₁, amount, c.duration, candidate, between, e₂, after, htr, hcommit,
    hacc.noCommit, hunbond, hadd, ?_, ?_⟩
  · -- in range, the sum the code compares is the exact one
    rw [wrapAdd_of_lt hrange] at hperiod
    rw [hblock]
    exact hperiod
  · have hcredit := C.deposit_free hdep
    rw [hacc.amount_eq] at hcredit
    exact hcredit

/-! ### Idle blocks

Without a registered candidate an election seats nobody and pays nobody, so blocks pass without
touching balances or locks. -/

section Idle

variable {cfg : Config α} {s : State C}

/-- `s'` is `s` with `n` blocks passed. -/
structure Idle (s s' : State C) (n : ℕ) : Prop where
  block : s'.block = s.block + n
  book : s'.book = s.book
  commitments : s'.commitments = s.commitments
  lockedAmount : s'.lockedAmount = s.lockedAmount
  candidates : s'.candidates = ∅

theorem counter_of_no_candidates (h : s.candidates = ∅) : counter cfg s = [] := by
  unfold counter
  generalize cfg.iter s.commitments = entries
  induction entries with
  | nil => rfl
  | cons e entries ih =>
    have hskip : countVote s [] e.2 = [] := by
      unfold countVote
      rw [if_pos (by rw [h]; exact Finmap.notMem_empty)]
    rw [List.foldl_cons, hskip]
    exact ih

theorem onInitialize_idle (cfg : Config α) (n : ℕ) (h : s.candidates = ∅) :
    Idle s (onInitialize cfg n s) 0 := by
  unfold onInitialize
  split
  · have htop : ∀ t : State C, t.candidates = ∅ →
        ((ranking cfg t).take cfg.maxMembers).map Prod.fst = [] := by
      intro t ht
      unfold ranking
      rw [counter_of_no_candidates ht]
      simp
    simp only [elect, seatCouncil]
    rw [htop _ (by exact h), List.insertionSort_nil, if_pos rfl]
    exact ⟨rfl, rfl, rfl, rfl, h⟩
  · exact ⟨rfl, rfl, rfl, rfl, h⟩

/-- Blocks pass idly as long as nobody is a candidate and the numbers last. -/
theorem run_nextBlock_idle (cfg : Config α) (h : s.candidates = ∅) (n : ℕ)
    (hn : s.block + n < 2 ^ blockBits) :
    Idle s (Run.run (step cfg) s (List.replicate n .nextBlock)) n := by
  induction n with
  | zero => exact ⟨rfl, rfl, rfl, rfl, h⟩
  | succ n ih =>
    have hprev := ih (by omega)
    rw [List.replicate_succ', Run.run_append, Run.run_cons, Run.run_nil]
    generalize Run.run (step cfg) s (List.replicate n .nextBlock) = t at hprev ⊢
    have hnext : t.block + 1 < 2 ^ blockBits := by
      rw [hprev.block]
      omega
    have hidle := onInitialize_idle (s := { t with block := t.block + 1 }) cfg (t.block + 1)
      hprev.candidates
    simp only [step, if_pos hnext]
    refine ⟨?_, hidle.book.trans hprev.book, hidle.commitments.trans hprev.commitments,
      hidle.lockedAmount.trans hprev.lockedAmount, hidle.candidates⟩
    rw [hidle.block, ← Nat.add_assoc, ← hprev.block]

theorem step_of_execute {who : α} {call : Call α} {s' : State C}
    (h : execute cfg s who call = .ok s') : step cfg s (.signed who call) = s' := by
  simp only [step, dispatch, commitOrKeep, h]

end Idle

/-! ### The two ends of the range

One account commits the minimum amount for a month and unbonds in the same block. Early in the chain
it has to wait for its tokens; in the last block it does not. -/

section Ends

/-- The currency of two accounts. -/
abbrev Pair := Ledger.currency (Fin 2) 1

/-- Account `0` commits the minimum amount. -/
def commitCall : Call (Fin 2) := .commit (100_000 * REEF) .oneMonth 1

/-- The first account of the pair. -/
abbrev firstAccount : Fin 2 := 0

/-- Both calls succeed on an empty pallet with rich accounts. -/
theorem commit_then_unbond {s : State Pair} (hbook : s.book = richBook 2)
    (hcs : s.commitments = ∅) (hlocked : s.lockedAmount = 0) :
    ∃ s₁ s₂, execute (Config.runtime (Fin 2)) s 0 commitCall = .ok s₁ ∧
      execute (Config.runtime (Fin 2)) s₁ 0 .unbond = .ok s₂ ∧ s₁.block = s.block ∧
      s₁.commitments.lookup 0 = some ⟨.committed, .oneMonth, 100_000 * REEF, 1⟩ ∧
      s₂.block = s.block ∧ s₂.candidates = s.candidates ∧
      s₂.commitments.lookup 0 = some ⟨.unbonding s.block, .oneMonth, 100_000 * REEF, 1⟩ ∧
      ∃ book, Pair.depositIntoExisting s₂.book 0 (100_000 * REEF) = .ok book := by
  obtain ⟨left, book, hburn, hdep⟩ : ∃ left book,
      Pair.withdraw (richBook 2) 0 (100_000 * REEF) = .ok left ∧
      Pair.depositIntoExisting left 0 (100_000 * REEF) = .ok book :=
    ⟨_, _, Ledger.currency_withdraw 1 (richBook 2) (by decide) (by decide) (by decide),
      Ledger.currency_depositIntoExisting 1 _ (by decide) (by decide)⟩
  rw [← hbook] at hburn
  have hroom : satAdd balanceBits s.lockedAmount (100_000 * REEF) <
      (Config.runtime (Fin 2)).totalLockedCap := by
    rw [hlocked]
    decide
  exact ⟨_, _, commit_eq_ok.mpr ⟨by rw [hcs]; exact Finmap.notMem_empty, by decide, hroom,
    left, hburn, rfl⟩, unbond_eq_ok.mpr ⟨_, Finmap.lookup_insert _, rfl, rfl⟩, rfl,
    Finmap.lookup_insert _, rfl, rfl, Finmap.lookup_insert _, book, hdep⟩

/-- The hypotheses of `withdraw_in_time` are met by an account that waits for a month. -/
theorem withdraw_in_time_after_month :
    let inputs : List (Input Pair) :=
      [.signed 0 commitCall, .signed 0 .unbond] ++ List.replicate (30 * DAYS) .nextBlock
    let s := Run.run (step (Config.runtime (Fin 2))) (genesis (richBook 2)) inputs
    ∃ s', Run.Along (step (Config.runtime (Fin 2))) UnbondsInRange (genesis (richBook 2)) inputs ∧
      withdraw 0 s = .ok s' ∧
      WithdrawnInTime (Config.runtime (Fin 2)) 0
        (Run.trace (step (Config.runtime (Fin 2))) (genesis (richBook 2)) inputs) s s' := by
  intro inputs s
  obtain ⟨s₁, s₂, hcommit, hunbond, hblock₁, hc₁, hblock₂, hcands, hc₂, book, hdep⟩ :=
    commit_then_unbond (s := genesis (richBook 2)) rfl rfl rfl
  have hrun₂ : Run.run (step (Config.runtime (Fin 2))) (genesis (richBook 2))
      [.signed 0 commitCall, .signed 0 .unbond] = s₂ := by
    rw [Run.run_cons, step_of_execute hcommit, Run.run_cons, step_of_execute hunbond, Run.run_nil]
  have hidle : Idle s₂ s (30 * DAYS) := by
    have h := run_nextBlock_idle (Config.runtime (Fin 2)) (s := s₂) hcands (30 * DAYS)
      (by rw [hblock₂]; decide)
    rw [← hrun₂, ← Run.run_append] at h
    rw [← hrun₂]
    exact h
  have hok : Run.Along (step (Config.runtime (Fin 2))) UnbondsInRange (genesis (richBook 2))
      inputs := by
    rw [Run.along_append]
    refine ⟨⟨?_, ?_, trivial⟩, Run.Along.of_mem fun i hi t who hunb => ?_⟩
    · intro who hi
      cases hi
    · -- the month that starts in block zero ends at a block number
      rw [step_of_execute hcommit]
      intro who hi c hc hst
      injection hi with hi
      subst hi
      obtain rfl := Option.some.inj (hc₁.symm.trans hc)
      rw [hblock₁]
      decide
    · obtain rfl := List.eq_of_mem_replicate hi
      cases hunb
  obtain ⟨s', hs⟩ : ∃ s', withdraw 0 s = .ok s' := by
    rw [← hidle.commitments] at hc₂
    rw [← hidle.book] at hdep
    refine ⟨_, withdraw_eq_ok.mpr ⟨_, _, hc₂, rfl, ?_, book, hdep, rfl⟩⟩
    rw [hidle.block, hblock₂]
    decide
  exact ⟨s', hok, hs, withdraw_in_time (Config.runtime (Fin 2)) (richBook 2) inputs hok 0 s' hs⟩

/-- **A withdrawal without waiting.** In the last block, account `0` commits, unbonds and withdraws:
the end of the lock period wraps around to a small block number. -/
theorem withdraw_in_unbond_block :
    let inputs : List (Input Pair) :=
      List.replicate (2 ^ 32 - 1) .nextBlock ++ [.signed 0 commitCall, .signed 0 .unbond]
    let s := Run.run (step (Config.runtime (Fin 2))) (genesis (richBook 2)) inputs
    ∃ s', withdraw 0 s = .ok s' ∧
      ¬ WithdrawnInTime (Config.runtime (Fin 2)) 0
        (Run.trace (step (Config.runtime (Fin 2))) (genesis (richBook 2)) inputs) s s' := by
  intro inputs s
  have hidle := run_nextBlock_idle (Config.runtime (Fin 2)) (s := genesis (richBook 2)) rfl
    (2 ^ 32 - 1) (by decide)
  generalize hs₀ : Run.run (step (Config.runtime (Fin 2))) (genesis (richBook 2))
    (List.replicate (2 ^ 32 - 1) .nextBlock) = s₀ at hidle
  obtain ⟨s₁, s₂, hcommit, hunbond, hblock₁, hc₁, hblock₂, hcands, hc₂, book, hdep⟩ :=
    commit_then_unbond hidle.book hidle.commitments hidle.lockedAmount
  have hlast : s₀.block = 2 ^ 32 - 1 := by
    rw [hidle.block]
    rfl
  have hs : s = s₂ := by
    change Run.run _ _ (_ ++ _) = _
    rw [Run.run_append, hs₀, Run.run_cons, step_of_execute hcommit, Run.run_cons,
      step_of_execute hunbond, Run.run_nil]
  rw [hs]
  refine ⟨_, withdraw_eq_ok.mpr ⟨_, _, hc₂, rfl, ?_, book, hdep, rfl⟩, ?_⟩
  · rw [hblock₂, hlast]
    decide
  · rintro ⟨before, e₁, amount, duration, candidate, between, e₂, after, htr, -, -, hunb, -,
      hperiod, -⟩
    -- the only `unbond` of the trace is in the current block
    have hmem : e₂ ∈ Run.trace (step (Config.runtime (Fin 2))) (genesis (richBook 2)) inputs := by
      rw [htr]
      simp
    have hpos : 0 < duration.period := by
      cases duration <;> decide
    have hblock : e₂.1.block = s₂.block := by
      rw [Run.trace_append, hs₀] at hmem
      rcases List.mem_append.mp hmem with hmem | hmem
      · have hin := List.eq_of_mem_replicate (Run.snd_mem_of_mem_trace hmem)
        rw [hunb.1] at hin
        cases hin
      · simp only [Run.trace, step_of_execute hcommit, List.mem_cons, List.not_mem_nil,
          or_false] at hmem
        rcases hmem with rfl | rfl
        · exact absurd hunb.1 (by simp [commitCall])
        · rw [hblock₁, hblock₂]
    omega

end Ends

end Poc
end Reef
