import ReefChain.Tokens.Frame

/-!
# Locks

A lock freezes a part of the free balance. Locks overlap: an account has as much frozen as the
largest of its locks says. The pallet stores the locks in a map of their own and the frozen amount
with the balances, where it is checked by whatever takes from the free balance.

* Without an existential deposit, as in the runtime, the frozen amount is at least the largest lock
  in every reachable state (`LocksSound`). It is the largest lock as long as `CurrencyAdapter` drops
  no error: with too many locks the frozen amount is written and the locks are not, and the adapter
  leaves it at that (`locks_sound`). With an existential deposit there is no such relation: the
  account may be removed with what it has frozen, while the locks stay.
* A lock protects the balance in any case. As long as nobody releases it, and apart from the three
  operations that write balances without regard to locks (`TakesFree`), the free balance does not
  fall below the lock, or below what was there when that was less (`lock_protects`).

Both rest on one description of what an operation makes of the locks of an account
(`apply_changesLocks`).
-/

namespace Reef.Tokens

open Bounded Fallible

variable {α κ ι : Type} {cfg : Config α κ} {s s' : State α κ ι} {who w : α} {c d : κ}
  {a : AccountData} {id : LockIdentifier} {amount : ℕ} {locks : List BalanceLock}

/-! ### The largest lock -/

/-- The locks freeze no more than `m` if no single one does. -/
theorem frozenBy_le_iff {m : ℕ} : frozenBy locks ≤ m ↔ ∀ l ∈ locks, l.amount ≤ m := by
  -- for any amount to start from, as the fold goes on with a larger one
  have hfold : ∀ frozen, locks.foldl (fun frozen l => max frozen l.amount) frozen ≤ m ↔
      frozen ≤ m ∧ ∀ l ∈ locks, l.amount ≤ m := by
    induction locks with
    | nil => simp
    | cons l locks ih =>
      intro frozen
      rw [List.foldl_cons, ih, Nat.max_le, List.forall_mem_cons, and_assoc]
  rw [frozenBy, hfold]
  exact and_iff_right (Nat.zero_le m)

variable {l : BalanceLock} {merge : BalanceLock → BalanceLock → BalanceLock}

theorem le_frozenBy (h : l ∈ locks) : l.amount ≤ frozenBy locks :=
  frozenBy_le_iff.mp (Nat.le_refl _) l h

/-- More locks freeze more. -/
theorem frozenBy_mono {locks' : List BalanceLock} (h : locks ⊆ locks') :
    frozenBy locks ≤ frozenBy locks' :=
  frozenBy_le_iff.mpr fun _ hl => le_frozenBy (h hl)

/-- There is a lock with this identifier, of at least this amount. -/
def HasLock (id : LockIdentifier) (amount : ℕ) (locks : List BalanceLock) : Prop :=
  ∃ l ∈ locks, l.id = id ∧ amount ≤ l.amount

theorem HasLock.le_frozenBy (h : HasLock id amount locks) : amount ≤ frozenBy locks := by
  obtain ⟨l, hl, -, hle⟩ := h
  exact hle.trans (Tokens.le_frozenBy hl)

/-! ### Placing a lock -/

/-- How a lock is merged with one that has the same identifier. -/
structure Merges (merge : BalanceLock → BalanceLock → BalanceLock) : Prop where
  id : ∀ {lock l : BalanceLock}, lock.id = l.id → (merge lock l).id = lock.id

theorem placeLock_none (merge : BalanceLock → BalanceLock → BalanceLock) (id : LockIdentifier)
    (locks : List BalanceLock) :
    placeLock merge id none locks = locks.filter fun l => l.id ≠ id := by
  induction locks with
  | nil => rfl
  | cons l locks ih =>
    unfold placeLock
    by_cases hid : l.id = id
    · simp [hid, ih]
    · simp [hid, ih]

/-- A lock with a new identifier goes to the end. -/
theorem placeLock_of_notMem (h : ∀ lock ∈ locks, lock.id ≠ id) :
    placeLock merge id (some l) locks = locks ++ [l] := by
  induction locks with
  | nil => rfl
  | cons lock locks ih =>
    unfold placeLock
    rw [if_neg (h lock List.mem_cons_self), ih fun x hx => h x (List.mem_cons_of_mem lock hx)]
    rfl

/-- The first lock with the identifier is merged, and further ones are dropped. -/
theorem placeLock_append {lock : BalanceLock} {before behind : List BalanceLock}
    (hbefore : ∀ x ∈ before, x.id ≠ id) (hid : lock.id = id) :
    placeLock merge id (some l) (before ++ lock :: behind) =
      before ++ merge lock l :: behind.filter fun x => x.id ≠ id := by
  induction before with
  | nil =>
    rw [List.nil_append, List.nil_append, placeLock, if_pos hid, placeLock_none]
  | cons x before ih =>
    rw [List.cons_append, placeLock, if_neg (hbefore x List.mem_cons_self),
      ih fun y hy => hbefore y (List.mem_cons_of_mem x hy), List.cons_append]

/-- Either there is no lock with the identifier, or there is a first one. -/
theorem exists_first_lock (id : LockIdentifier) (locks : List BalanceLock) :
    (∀ lock ∈ locks, lock.id ≠ id) ∨ ∃ before lock behind,
      locks = before ++ lock :: behind ∧ (∀ x ∈ before, x.id ≠ id) ∧ lock.id = id := by
  induction locks with
  | nil => exact .inl (by simp)
  | cons l locks ih =>
    by_cases hid : l.id = id
    · exact .inr ⟨[], l, locks, rfl, by simp, hid⟩
    · rcases ih with hnone | ⟨before, lock, behind, rfl, hbefore, hlock⟩
      · left
        intro x hx
        rcases List.mem_cons.mp hx with rfl | hx
        · exact hid
        · exact hnone x hx
      · refine .inr ⟨l :: before, lock, behind, rfl, ?_, hlock⟩
        intro x hx
        rcases List.mem_cons.mp hx with rfl | hx
        · exact hid
        · exact hbefore x hx

/-- A lock that makes the locks more has a new identifier, and the others stay. -/
theorem subset_placeLock_of_length_lt
    (h : locks.length < (placeLock merge id (some l) locks).length) :
    locks ⊆ placeLock merge id (some l) locks := by
  rcases exists_first_lock id locks with hnone | ⟨before, lock, behind, rfl, hbefore, hid⟩
  · rw [placeLock_of_notMem hnone]
    exact List.subset_append_left _ _
  · -- a merged lock takes the place of the first one, and further ones are dropped
    rw [placeLock_append hbefore hid] at h
    have hle := List.length_filter_le (fun x : BalanceLock => x.id ≠ id) behind
    simp only [List.length_append, List.length_cons] at h
    omega

/-- The locks of an account have different identifiers. -/
def Distinct (locks : List BalanceLock) : Prop := (locks.map (·.id)).Nodup

instance (locks : List BalanceLock) : Decidable (Distinct locks) :=
  inferInstanceAs (Decidable (List.Nodup _))

theorem Distinct.placeLock (hmerge : Merges merge) (h : Distinct locks) :
    Distinct (placeLock merge id (some ⟨id, amount⟩) locks) := by
  rcases exists_first_lock id locks with hnone | ⟨before, lock, behind, rfl, hbefore, hid⟩
  · rw [placeLock_of_notMem hnone]
    unfold Distinct at h ⊢
    rw [List.map_append, List.nodup_append]
    refine ⟨h, List.nodup_singleton _, ?_⟩
    intro x hx y hy
    obtain ⟨lock, hlock, rfl⟩ := List.mem_map.mp hx
    rw [List.mem_singleton.mp hy]
    exact hnone lock hlock
  · rw [placeLock_append hbefore hid]
    refine List.Nodup.sublist ?_ h
    rw [List.map_append, List.map_append, List.map_cons, List.map_cons, hmerge.id hid]
    exact (List.Sublist.refl _).append (List.Sublist.cons_cons _ (List.filter_sublist.map _))

/-- Placing a lock with another identifier leaves a lock in place. -/
theorem HasLock.placeLock_of_ne {id' : LockIdentifier} (h : HasLock id amount locks)
    (hne : id ≠ id') : HasLock id amount (placeLock merge id' (some l) locks) := by
  obtain ⟨x, hx, hid, hle⟩ := h
  refine ⟨x, ?_, hid, hle⟩
  rcases exists_first_lock id' locks with hnone | ⟨before, lock, behind, rfl, hbefore, hlock⟩
  · rw [placeLock_of_notMem hnone]
    exact List.mem_append_left _ hx
  · rw [placeLock_append hbefore hlock]
    rcases List.mem_append.mp hx with hx | hx
    · exact List.mem_append_left _ hx
    · refine List.mem_append_right _ (List.mem_cons_of_mem _ ?_)
      rcases List.mem_cons.mp hx with rfl | hx
      · exact absurd (hid.symm.trans hlock) hne
      · exact List.mem_filter.mpr ⟨hx, by simpa [hid] using hne⟩

/-- Extending a lock leaves it in place. -/
theorem HasLock.placeLock_extend {extension : ℕ} (hdistinct : Distinct locks)
    (h : HasLock id amount locks) :
    HasLock id amount (Tokens.placeLock (fun lock l => ⟨lock.id, max lock.amount l.amount⟩) id
      (some ⟨id, extension⟩) locks) := by
  obtain ⟨x, hx, hid, hle⟩ := h
  rcases exists_first_lock id locks with hnone | ⟨before, lock, behind, rfl, hbefore, hlock⟩
  · exact absurd hid (hnone x hx)
  · -- the lock is the one that is merged, as there is no other with its identifier
    have heq : x = lock := List.inj_on_of_nodup_map hdistinct hx
      (List.mem_append_right _ List.mem_cons_self) (hid.trans hlock.symm)
    rw [placeLock_append hbefore hlock]
    refine ⟨_, List.mem_append_right _ List.mem_cons_self, hlock, ?_⟩
    rw [← heq]
    exact hle.trans (Nat.le_max_left _ _)

/-! ### What the operations do to locks -/

variable [DecidableEq α] [DecidableEq κ]

theorem merges_set : Merges fun _ l => l := ⟨fun h => h.symm⟩

theorem merges_extend : Merges fun lock l => ⟨lock.id, max lock.amount l.amount⟩ := ⟨fun _ => rfl⟩

/-- A change keeps the identifiers apart. -/
theorem LockChange.distinct {change : LockChange} {old : List BalanceLock} (hold : Distinct old)
    (h : change.locks old = some locks) : Distinct locks := by
  cases change with
  | set id amount =>
    simp only [LockChange.locks] at h
    split at h
    · cases h
    · cases h
      exact hold.placeLock merges_set
  | extend id amount =>
    simp only [LockChange.locks] at h
    split at h
    · cases h
    · cases h
      exact hold.placeLock merges_extend
  | remove id =>
    cases h
    exact List.Nodup.sublist (List.filter_sublist.map _) hold

/-- A change that makes the locks more keeps those that are there. -/
theorem LockChange.subset_of_length_lt {change : LockChange} {old : List BalanceLock}
    (h : change.locks old = some locks) (hlt : old.length < locks.length) : old ⊆ locks := by
  cases change with
  | set | extend =>
    simp only [LockChange.locks] at h
    split at h
    · cases h
    · cases h
      exact subset_placeLock_of_length_lt hlt
  | remove id =>
    cases h
    exact absurd (List.length_filter_le _ old) (Nat.not_le.mpr hlt)

/-- The change replaces or removes the lock with this identifier. Extending it does not. -/
def LockChange.Releases (id : LockIdentifier) : LockChange → Prop
  | .set id' _ => id = id'
  | .extend _ _ => False
  | .remove id' => id = id'

/-- A change that does not release a lock leaves it in place. -/
theorem HasLock.of_change {change : LockChange} {old : List BalanceLock}
    (hreleases : ¬ change.Releases id) (hdistinct : Distinct old) (hhas : HasLock id amount old)
    (h : change.locks old = some locks) : HasLock id amount locks := by
  cases change with
  | set id' v =>
    simp only [LockChange.locks] at h
    split at h
    · cases h
    · cases h
      exact hhas.placeLock_of_ne hreleases
  | extend id' v =>
    simp only [LockChange.locks] at h
    split at h
    · cases h
    · cases h
      by_cases heq : id = id'
      · subst heq
        exact hhas.placeLock_extend hdistinct
      · exact hhas.placeLock_of_ne heq
  | remove id' =>
    cases h
    obtain ⟨l, hl, hid, hle⟩ := hhas
    refine ⟨l, List.mem_filter.mpr ⟨hl, ?_⟩, hid, hle⟩
    have hne : l.id ≠ id' := fun heq => hreleases (hid.symm.trans heq)
    simpa using hne

/-- The operation goes through `CurrencyAdapter`, which drops the error that it meets at the
account. -/
def DropsError (cfg : Config α κ) (w : α) (d : κ) (s : State α κ ι) (op : Operation α κ ι) :
    Prop :=
  ∃ r, lockRequest op = some r ∧ r.adapter = true ∧ (w, d) = (r.who, r.c) ∧
    (r.change.make cfg s r.c r.who).2 ≠ .ok ()

/-- The operation replaces or removes the lock with this identifier. -/
def ReleasesLock (id : LockIdentifier) (w : α) (d : κ) (op : Operation α κ ι) : Prop :=
  ∃ r, lockRequest op = some r ∧ (w, d) = (r.who, r.c) ∧ r.change.Releases id

/-- **An operation on the locks of an account** leaves it alone, or updates it to the locks that the
change asks for. These are too many only if the error is dropped. -/
theorem apply_changesLocks [LinearOrder ι] {op : Operation α κ ι} (hlocks : ChangesLocks w d op)
    (h : apply cfg s op = .ok s') :
    s' = s ∨ ∃ r locks, lockRequest op = some r ∧ (w, d) = (r.who, r.c) ∧
      r.change.locks (s.locksOf w d) = some locks ∧ s' = (updateLocks cfg s d w locks).1 ∧
      (DropsError cfg w d s op ∨ locks.length ≤ cfg.maxLocks) := by
  obtain ⟨r, hr, hkey⟩ := hlocks
  obtain ⟨hwritten, hresult⟩ := apply_of_lockRequest hr h
  obtain ⟨who, c, change, adapter⟩ := r
  obtain ⟨rfl, rfl⟩ := Prod.mk.inj hkey
  rcases change.make_cases cfg s d w with ⟨-, hmake⟩ | ⟨locks, hchange, hmake⟩
  · rw [hmake] at hwritten
    exact .inl hwritten
  · refine .inr ⟨_, locks, hr, rfl, hchange, ?_, ?_⟩
    · rw [← hmake]
      exact hwritten
    · by_cases hok : (change.make cfg s d w).2 = .ok ()
      · rw [hmake] at hok
        exact .inr ((updateLocks_result cfg s d w locks).mp hok)
      · exact .inl ⟨_, hr, hresult.resolve_right hok, rfl, hok⟩

/-- An update of the locks protects what it says, if that much is free. -/
theorem updateLocks_guarded {m : ℕ} (hfree : m ≤ (s.account w d).free)
    (hfrozen : m ≤ frozenBy locks) :
    m ≤ ((updateLocks cfg s d w locks).1.account w d).guarded := by
  have hwritten : m ≤ ((settle cfg s w d (s.stored w d)
      { s.account w d with frozen := frozenBy locks }).account w d).guarded := by
    rw [account_settle_self]
    split
    · next hreaps =>
      -- an account that is removed has nothing free
      have hzero : (s.account w d).free = 0 := (balances_of_reaps hreaps).1
      omega
    · exact le_min hfree hfrozen
  have hswept : Kept cfg True True w d
      (settle cfg s w d (s.stored w d) { s.account w d with frozen := frozenBy locks })
      (frozenAs cfg s d w locks) := .swept (finish_swept cfg s w d _ _)
  obtain ⟨-, stored, system, heq⟩ := updateLocks_eq cfg s d w locks
  rw [heq]
  exact hwritten.trans (hswept.free trivial)

/-- Without an existential deposit an update of the locks writes the frozen amount, even if it
fails. -/
theorem updateLocks_frozen (hd : cfg.existentialDeposits d = 0) (locks : List BalanceLock) :
    ((updateLocks cfg s d w locks).1.account w d).frozen = frozenBy locks := by
  have haccount : (frozenAs cfg s d w locks).account w d =
      { s.account w d with frozen := frozenBy locks } := by
    unfold frozenAs mutateAccount
    rw [finish_of_dustOf_none (dustOf_of_noDeposit hd), account_settle_of_noDeposit hd]
  obtain ⟨-, stored, system, heq⟩ := updateLocks_eq cfg s d w locks
  rw [heq]
  exact congrArg AccountData.frozen haccount

/-! ### The frozen amount is the largest lock -/

/-- The locks of an account have different identifiers and are not too many. Where there is no
existential deposit, the frozen amount covers all of them. -/
structure LocksSound (cfg : Config α κ) (w : α) (d : κ) (s : State α κ ι) : Prop where
  distinct : Distinct (s.locksOf w d)
  bounded : (s.locksOf w d).length ≤ cfg.maxLocks
  frozen : cfg.existentialDeposits d = 0 → frozenBy (s.locksOf w d) ≤ (s.account w d).frozen

/-- Where there is no existential deposit, the frozen amount is the largest lock. -/
def FrozenExact (cfg : Config α κ) (w : α) (d : κ) (s : State α κ ι) : Prop :=
  cfg.existentialDeposits d = 0 → (s.account w d).frozen = frozenBy (s.locksOf w d)

theorem Kept.locksOf {F R : Prop} (h : Kept cfg F R w d s s') :
    s'.locksOf w d = s.locksOf w d := congrArg (Option.getD · []) h.locks

theorem LocksSound.of_kept {F R : Prop} (h : LocksSound cfg w d s) (hkept : Kept cfg F R w d s s') :
    LocksSound cfg w d s' := by
  refine ⟨?_, ?_, fun hd => ?_⟩
  · rw [hkept.locksOf]
    exact h.distinct
  · rw [hkept.locksOf]
    exact h.bounded
  · rw [hkept.locksOf, hkept.frozen hd]
    exact h.frozen hd

theorem FrozenExact.of_kept {F R : Prop} (h : FrozenExact cfg w d s)
    (hkept : Kept cfg F R w d s s') : FrozenExact cfg w d s' := by
  intro hd
  rw [hkept.locksOf, hkept.frozen hd]
  exact h hd

/-- An update of the locks, failing or not. If there are too many of them, the locks that are there
are among them, so that the frozen amount still covers these. -/
theorem LocksSound.updateLocks (h : LocksSound cfg w d s) (hdistinct : Distinct locks)
    (hgrow : cfg.maxLocks < locks.length → s.locksOf w d ⊆ locks) :
    LocksSound cfg w d (updateLocks cfg s d w locks).1 := by
  have hown := (updateLocks_eq cfg s d w locks).1.own
  by_cases hbound : locks.length ≤ cfg.maxLocks
  · rw [if_pos hbound] at hown
    refine ⟨?_, ?_, fun hd => ?_⟩
    · rw [hown]
      exact hdistinct
    · rw [hown]
      exact hbound
    · rw [hown, updateLocks_frozen hd]
  · rw [if_neg hbound] at hown
    refine ⟨?_, ?_, fun hd => ?_⟩
    · rw [hown]
      exact h.distinct
    · rw [hown]
      exact h.bounded
    · rw [hown, updateLocks_frozen hd]
      exact frozenBy_mono (hgrow (Nat.lt_of_not_le hbound))

section Steps

variable [LinearOrder ι]

theorem step_locksSound (op : Operation α κ ι) (hs : Covered s) (h : LocksSound cfg w d s) :
    LocksSound cfg w d (step cfg s op) := by
  rcases commitOrKeep_cases (apply cfg s op) s with ⟨s', hs', hcommit⟩ | ⟨-, hkeep⟩
  · rw [step, hcommit]
    by_cases hlocks : ChangesLocks w d op
    · rcases apply_changesLocks hlocks hs' with rfl | ⟨r, locks, -, -, hchange, rfl, -⟩
      · exact h
      · refine h.updateLocks (LockChange.distinct h.distinct hchange) fun hmany => ?_
        exact LockChange.subset_of_length_lt hchange (h.bounded.trans_lt hmany)
    · exact h.of_kept (apply_kept hs hlocks hs')
  · rw [step, hkeep]
    exact h

/-- A step that drops no error keeps the frozen amount exact. -/
theorem step_frozenExact {op : Operation α κ ι} (hs : Covered s) (h : FrozenExact cfg w d s)
    (hop : ¬ DropsError cfg w d s op) : FrozenExact cfg w d (step cfg s op) := by
  rcases commitOrKeep_cases (apply cfg s op) s with ⟨s', hs', hcommit⟩ | ⟨-, hkeep⟩
  · rw [step, hcommit]
    by_cases hlocks : ChangesLocks w d op
    · rcases apply_changesLocks hlocks hs' with rfl | ⟨r, locks, -, -, -, rfl, hbound⟩
      · exact h
      · intro hd
        rw [updateLocks_frozen hd, (updateLocks_eq cfg s d w locks).1.own,
          if_pos (hbound.resolve_left hop)]
    · exact h.of_kept (apply_kept hs hlocks hs')
  · rw [step, hkeep]
    exact h

omit [LinearOrder ι] in
theorem endow_kept {entry : (α × κ) × ℕ} (h : endow cfg s entry = some s') :
    Kept cfg False False w d s s' := by
  unfold endow at h
  split at h
  · cases h
  · obtain ⟨v, -, rfl⟩ := Option.map_eq_some_iff.mp h
    exact (setFreeBalance_kept fun hfalse => hfalse.elim).toKept.congr rfl rfl

omit [LinearOrder ι] in
theorem genesisBuild_kept {balances : List ((α × κ) × ℕ)}
    (h : genesisBuild cfg balances = some s) : Kept cfg False False w d emptyState s := by
  unfold genesisBuild at h
  split at h
  · next hnodup =>
    clear hnodup
    generalize (emptyState : State α κ ι) = s₀ at h ⊢
    induction balances generalizing s₀ with
    | nil =>
      cases h
      exact .refl _
    | cons entry balances ih =>
      rw [List.foldlM_cons] at h
      obtain ⟨s₁, hs₁, hrest⟩ := Option.bind_eq_some_iff.mp h
      exact (endow_kept hs₁).trans (ih s₁ hrest)
  · cases h

/-- What holds of the locks of every account after genesis and after any operations. -/
theorem locksSound_run {balances : List ((α × κ) × ℕ)}
    (hwords : ∀ entry ∈ balances, entry.2 < 2 ^ balanceBits)
    (hgenesis : genesisBuild cfg balances = some s) (ops : List (Operation α κ ι)) :
    Covered (Run.run (step cfg) s ops) ∧ LocksSound cfg w d (Run.run (step cfg) s ops) := by
  have hempty : LocksSound cfg w d (emptyState : State α κ ι) :=
    ⟨List.nodup_nil, Nat.zero_le _, fun _ => Nat.zero_le _⟩
  refine Run.invariant_of_step (fun s => Covered s ∧ LocksSound cfg w d s) ?_ ?_
  · intro s op h
    exact ⟨step_covered op h.1, step_locksSound op h.1 h.2⟩
  · exact ⟨(genesisBuild_balanced hwords hgenesis).covered,
      hempty.of_kept (genesisBuild_kept hgenesis)⟩

/-- **The frozen amount covers the locks and is the largest of them**, for every account of a
currency without existential deposit and in every state that is reached from genesis. It covers them
in any case, and it is the largest one if no error of a lock of the account is dropped. No account
has two locks with the same identifier or more locks than are allowed. -/
theorem locks_sound {balances : List ((α × κ) × ℕ)} {ops : List (Operation α κ ι)}
    (hwords : ∀ entry ∈ balances, entry.2 < 2 ^ balanceBits)
    (hgenesis : genesisBuild cfg balances = some s) (w : α) (d : κ) :
    LocksSound cfg w d (Run.run (step cfg) s ops) ∧
      (Run.Along (step cfg) (fun s op => ¬ DropsError cfg w d s op) s ops →
        FrozenExact cfg w d (Run.run (step cfg) s ops)) := by
  refine ⟨(locksSound_run hwords hgenesis ops).2, fun hrun => ?_⟩
  have hempty : FrozenExact cfg w d (emptyState : State α κ ι) := fun _ => rfl
  refine (Run.invariant (fun s => Covered s ∧ FrozenExact cfg w d s) ?_ ?_ hrun).2
  · intro s op h hop
    exact ⟨step_covered op h.1, step_frozenExact h.1 h.2 hop⟩
  · exact ⟨(genesisBuild_balanced hwords hgenesis).covered,
      hempty.of_kept (genesisBuild_kept hgenesis)⟩

/-- Two accounts with a hundred and with fifty, as the runtime is configured. -/
def pairBalances : List ((ℕ × Unit) × ℕ) := [((0, ()), 100), ((1, ()), 50)]

/-- The state after that genesis. -/
def pairGenesis : State ℕ Unit ℕ :=
  (genesisBuild (runtimeConfig ℕ Unit) pairBalances).getD emptyState

theorem genesisBuild_pair :
    genesisBuild (runtimeConfig ℕ Unit) pairBalances = some pairGenesis := rfl

/-- Two locks, one of them through the adapter, a transfer that they do not allow and one that they
allow. -/
def lockRun : List (Operation ℕ Unit ℕ) :=
  [.setLock 1 0 () 60, .adapterExtendLock 2 0 () 80, .transfer (.signed 0) 1 () 90,
    .transfer (.signed 0) 1 () 20]

theorem locks_sound_pair :
    LocksSound (runtimeConfig ℕ Unit) 0 ()
        (Run.run (step (runtimeConfig ℕ Unit)) pairGenesis lockRun) ∧
      FrozenExact (runtimeConfig ℕ Unit) 0 ()
        (Run.run (step (runtimeConfig ℕ Unit)) pairGenesis lockRun) := by
  have hlocks : LocksSound (runtimeConfig ℕ Unit) 0 () _ ∧
      (Run.Along (step (runtimeConfig ℕ Unit)) _ pairGenesis lockRun → _) :=
    locks_sound (by decide) genesisBuild_pair 0 ()
  obtain ⟨hsound, hexact⟩ := hlocks
  refine ⟨hsound, hexact ⟨?_, ?_, ?_, ?_, trivial⟩⟩
  · rintro ⟨r, hr, hadapter, -⟩
    cases hr
    cases hadapter
  · -- the adapter meets no error
    rintro ⟨r, hr, -, -, herror⟩
    cases hr
    exact herror rfl
  · rintro ⟨r, hr, -⟩
    cases hr
  · rintro ⟨r, hr, -⟩
    cases hr

/-- With one lock allowed, a second one through the adapter raises the frozen amount and is not
stored. -/
example :
    let cfg : Config ℕ Unit := { runtimeConfig ℕ Unit with maxLocks := 1 }
    let s := Run.run (step cfg) pairGenesis [.setLock 1 0 () 60, .adapterSetLock 2 0 () 80]
    (s.account 0 ()).frozen = 80 ∧ s.locksOf 0 () = [⟨1, 60⟩] := by decide

/-! ### A lock protects the balance -/

/-- A lock is in place, and an amount up to it is protected. -/
structure Protects (cfg : Config α κ) (id : LockIdentifier) (amount m : ℕ) (w : α) (d : κ)
    (s : State α κ ι) : Prop where
  issued : Covered s
  locks : LocksSound cfg w d s
  has : HasLock id amount (s.locksOf w d)
  guarded : m ≤ (s.account w d).guarded

/-- The operation leaves the lock alone and does not take from the free balance without regard to
locks. -/
def RespectsLock (id : LockIdentifier) (w : α) (d : κ) (op : Operation α κ ι) : Prop :=
  ¬ TakesFree w d op ∧ ¬ ReleasesLock id w d op

theorem step_protects {m : ℕ} {op : Operation α κ ι} (hm : m ≤ amount)
    (h : Protects cfg id amount m w d s) (hop : RespectsLock id w d op) :
    Protects cfg id amount m w d (step cfg s op) := by
  obtain ⟨htakes, hreleases⟩ := hop
  suffices hnew : HasLock id amount ((step cfg s op).locksOf w d) ∧
      m ≤ ((step cfg s op).account w d).guarded from
    ⟨step_covered op h.issued, step_locksSound op h.issued h.locks, hnew.1, hnew.2⟩
  rcases commitOrKeep_cases (apply cfg s op) s with ⟨s', hs', hcommit⟩ | ⟨-, hkeep⟩
  · rw [step, hcommit]
    by_cases hlocks : ChangesLocks w d op
    · rcases apply_changesLocks hlocks hs' with rfl | ⟨r, locks, hr, hkey, hchange, rfl, -⟩
      · exact ⟨h.has, h.guarded⟩
      · -- the lock is among the new ones, so what is frozen now covers it, stored or not
        have hhas : HasLock id amount locks :=
          h.has.of_change (fun hrel => hreleases ⟨r, hr, hkey, hrel⟩) h.locks.distinct hchange
        refine ⟨?_, updateLocks_guarded ?_ (hm.trans hhas.le_frozenBy)⟩
        · rw [(updateLocks_eq cfg s d w locks).1.own]
          split
          · exact hhas
          · exact h.has
        · exact h.guarded.trans (Nat.min_le_left _ _)
    · have hkept := apply_kept h.issued hlocks hs'
      rw [hkept.locksOf]
      exact ⟨h.has, h.guarded.trans (hkept.free htakes)⟩
  · rw [step, hkeep]
    exact ⟨h.has, h.guarded⟩

/-- **A lock protects the balance.** In a state that is reached from genesis let an account have a
lock, in a currency without existential deposit or with as much frozen as the lock says. While the
lock is neither replaced nor removed, and apart from `slash`, `set_balance` and
`set_balance_on_hold`, no operation takes the free balance below the amount of the lock, or below
what was free at the beginning if that is less. -/
theorem lock_protects {balances : List ((α × κ) × ℕ)} {before ops : List (Operation α κ ι)}
    {s₀ : State α κ ι} (hwords : ∀ entry ∈ balances, entry.2 < 2 ^ balanceBits)
    (hgenesis : genesisBuild cfg balances = some s₀) (hs : s = Run.run (step cfg) s₀ before)
    (hhas : HasLock id amount (s.locksOf w d))
    (hfrozen : cfg.existentialDeposits d = 0 ∨ amount ≤ (s.account w d).frozen)
    (hops : ∀ op ∈ ops, RespectsLock id w d op) :
    min (s.account w d).free amount ≤ ((Run.run (step cfg) s ops).account w d).free := by
  obtain ⟨hissued, hsound⟩ := locksSound_run (w := w) (d := d) hwords hgenesis before
  rw [← hs] at hissued hsound
  have hcovers : amount ≤ (s.account w d).frozen := by
    rcases hfrozen with hd | hfrozen
    · exact hhas.le_frozenBy.trans (hsound.frozen hd)
    · exact hfrozen
  have hstart : Protects cfg id amount (min (s.account w d).free amount) w d s :=
    ⟨hissued, hsound, hhas, min_le_min_left _ hcovers⟩
  have hrun : Run.Along (step cfg) (fun _ op => RespectsLock id w d op) s ops :=
    .of_mem fun op hop _ => hops op hop
  have hend := Run.invariant (Protects cfg id amount (min (s.account w d).free amount) w d)
    (fun _ op h hop => step_protects (Nat.min_le_right _ _) h hop) hstart hrun
  exact hend.guarded.trans (Nat.min_le_left _ _)

/-- The state after the first account is locked. -/
def lockedPair : State ℕ Unit ℕ :=
  Run.run (step (runtimeConfig ℕ Unit)) pairGenesis [.adapterSetLock 1 0 () 60]

/-- A lock of sixty withstands a withdrawal of all, a reservation of half of the balance and the
removal of another lock. -/
theorem lock_protects_pair : min (lockedPair.account 0 ()).free 60 ≤
    ((Run.run (step (runtimeConfig ℕ Unit)) lockedPair
      [.withdraw 0 () 100, .reserve 0 () 50, .removeLock 2 0 ()]).account 0 ()).free := by
  have hhas : HasLock 1 60 (lockedPair.locksOf 0 ()) :=
    ⟨⟨1, 60⟩, by decide, rfl, Nat.le_refl _⟩
  refine lock_protects (by decide) genesisBuild_pair rfl hhas (.inl rfl) ?_
  intro op hop
  rcases List.mem_cons.mp hop with rfl | hop
  · exact ⟨not_false, fun ⟨_, hr, _⟩ => nomatch hr⟩
  rcases List.mem_cons.mp hop with rfl | hop
  · exact ⟨not_false, fun ⟨_, hr, _⟩ => nomatch hr⟩
  rw [List.mem_singleton.mp hop]
  refine ⟨not_false, ?_⟩
  rintro ⟨r, hr, -, hreleases⟩
  cases hr
  have hid : (1 : LockIdentifier) = 2 := hreleases
  exact absurd hid (by decide)

end Steps

end Reef.Tokens
