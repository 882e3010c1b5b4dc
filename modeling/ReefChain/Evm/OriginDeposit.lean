import Mathlib.Tactic.LinearCombination
import ReefChain.Evm.MeterTree
import ReefChain.Lib.Walk

/-!
# The origin's deposit over a whole execution

A top-level execution reserves the deposit for its storage limit at the origin, lets the frames move
parts of it to the contracts whose storage grows (and back, where it shrinks), and releases what is
left. This file determines when the origin ends up with the reserve it started with.

For a tree of frames the settlements that reach the root handler are a function of the tree alone:
a frame that commits settles what it charged and refunded itself, after the frames below it
(`Body.settledAll`). Those that stay are the ones not inside a rolled back frame
(`Body.settledKept`). The run relates to these lists as follows.

* The root meter's totals are the sums over `settledAll` and the root's own use, because meters are
  not rolled back (`Body.eval_totals`).
* The origin's reserve is a truncated walk over `settledKept`, because the ledger is
  (`Body.run_bank`).

The final release is computed from the meter, by subtractions that stop at zero, and taken from the
walk. `deposit_returned_iff` puts the two together: the claimed equation between limit, settlements
and release holds iff the frames below the root never use more than the limit and their refunds
allow for, and the reserve is what it was iff the walk's shortfall, the settlements that were rolled
back in the ledger but not in the meters, and those that the origin makes with itself cancel out.
`refund_used_by_child` is a run where they do not: the root frame refunds storage, a child uses it,
and the final release takes the amount from reserves that have nothing to do with the execution.
-/

namespace Reef
namespace Evm

open Bounded Walk

/-! ### What a tree of frames settles -/

namespace Body

/-- The storage the frame itself charges. -/
def used : Body → ℕ
  | .done => 0
  | .charge storage next => storage + next.used
  | .refund _ next => next.used
  | .child _ _ _ next => next.used

/-- The storage the frame itself refunds. -/
def refunded : Body → ℕ
  | .done => 0
  | .charge _ next => next.refunded
  | .refund storage next => storage + next.refunded
  | .child _ _ _ next => next.refunded

/-- The settlement of a committing frame of `contract` with this body. -/
def settlement (body : Body) (contract : EvmAddress) : Settlement :=
  ⟨contract, body.used, body.refunded⟩

/-- All settlements of the frames below, in the order in which they are made. -/
def settledAll : Body → List Settlement
  | .done => []
  | .charge _ next => next.settledAll
  | .refund _ next => next.settledAll
  | .child contract body commit next =>
    body.settledAll ++ (if commit then [body.settlement contract] else []) ++ next.settledAll

/-- The settlements of the frames below that are in no rolled back frame. -/
def settledKept : Body → List Settlement
  | .done => []
  | .charge _ next => next.settledKept
  | .refund _ next => next.settledKept
  | .child contract body commit next =>
    (if commit then body.settledKept ++ [body.settlement contract] else []) ++ next.settledKept

end Body

/-! ### The host with a record of its calls -/

/-- A call that reached the root handler: a charge, with the reserve the contract had at that time,
or the release at the end. -/
inductive RootCall
  | charge (e : Settlement) (backing : ℕ)
  | release (unused : ℕ)
  deriving DecidableEq

/-- The ledger, and the calls made to the root handler so far. A rolled back transaction restores
the ledger; that a call was made is not undone. -/
structure Bank (α : Type) where
  ledger : Ledger α
  log : List RootCall

section

variable {α : Type} [DecidableEq α] (D : DepositConfig α) (origin : EvmAddress)

/-- The root handler of an execution by `origin`. -/
def depositHost : Host (Bank α) where
  reserveStorage b limit :=
    let (ledger, result) := D.reserveStorage origin b.ledger limit
    ({ b with ledger }, result)
  unreserveStorage b limit used refunded :=
    let (ledger, result) := D.unreserveStorage origin b.ledger limit used refunded
    ({ ledger, log := b.log ++ [.release (DepositConfig.unused limit used refunded)] }, result)
  chargeStorage b contract used refunded :=
    let (ledger, result) := D.chargeStorage origin b.ledger contract used refunded
    ({ ledger
       log := b.log ++ [.charge ⟨contract, used, refunded⟩
        (b.ledger.reserved (D.getAccountId contract))] }, result)
  rollback start now := { now with ledger := start.ledger }

end

/-! ### The totals of the meters -/

/-- No sum the meters of the frame and of the frames below it take is cut off. -/
def Body.Fits : Body → StorageMeter → Prop
  | .done, _ => True
  | .charge storage next, m =>
    m.totalUsed + storage < 2 ^ storageBits ∧ m.selfUsed + storage < 2 ^ storageBits ∧
      next.Fits (m.charge storage).1
  | .refund storage next, m =>
    m.totalRefunded + storage < 2 ^ storageBits ∧ m.selfRefunded + storage < 2 ^ storageBits ∧
      next.Fits (m.refund storage).1
  | .child contract body commit next, m =>
    body.Fits (.new contract m.availableStorage) ∧
      m.totalUsed + usedSum (childSettlements contract body commit m) < 2 ^ storageBits ∧
      m.totalRefunded + refundedSum (childSettlements contract body commit m) < 2 ^ storageBits ∧
      next.Fits (m.absorbAll (childSettlements contract body commit m))

/-- Every frame below that asks to commit is within its limit. -/
def Body.Within : Body → StorageMeter → Prop
  | .done, _ => True
  | .charge storage next, m => next.Within (m.charge storage).1
  | .refund storage next, m => next.Within (m.refund storage).1
  | .child contract body commit next, m =>
    body.Within (.new contract m.availableStorage) ∧
      (commit = true → (body.eval (.new contract m.availableStorage)).1.withinLimit = true) ∧
      next.Within (m.absorbAll (childSettlements contract body commit m))

/-- What a body does to its own meter `m`, leaving `m'`: it adds its own use and that of the
settlements `es` from below. -/
structure Totals (m m' : StorageMeter) (body : Body) (es : List Settlement) : Prop where
  contract : m'.contract = m.contract
  limit : m'.limit = m.limit
  selfUsed : m'.selfUsed = m.selfUsed + body.used
  selfRefunded : m'.selfRefunded = m.selfRefunded + body.refunded
  totalUsed : m'.totalUsed = m.totalUsed + body.used + usedSum es
  totalRefunded : m'.totalRefunded = m.totalRefunded + body.refunded + refundedSum es

namespace Totals

variable {contract : EvmAddress} {limit : ℕ} {m : StorageMeter} {body : Body}
  {es : List Settlement} (h : Totals (.new contract limit) m body es)

include h

theorem limit_new : m.limit = limit := h.limit

theorem selfUsed_new : m.selfUsed = body.used := h.selfUsed.trans (Nat.zero_add _)

theorem selfRefunded_new : m.selfRefunded = body.refunded := h.selfRefunded.trans (Nat.zero_add _)

theorem totalUsed_new : m.totalUsed = body.used + usedSum es :=
  h.totalUsed.trans (by simp [StorageMeter.new])

theorem totalRefunded_new : m.totalRefunded = body.refunded + refundedSum es :=
  h.totalRefunded.trans (by simp [StorageMeter.new])

end Totals

theorem usedSum_append (es fs : List Settlement) :
    usedSum (es ++ fs) = usedSum es + usedSum fs := by
  unfold usedSum
  rw [List.map_append, List.sum_append]

theorem refundedSum_append (es fs : List Settlement) :
    refundedSum (es ++ fs) = refundedSum es + refundedSum fs := by
  unfold refundedSum
  rw [List.map_append, List.sum_append]

theorem StorageMeter.charge_of_ok {m : StorageMeter} (hm : m.result = .ok ()) {storage : ℕ}
    (htotal : m.totalUsed + storage < 2 ^ storageBits)
    (hself : m.selfUsed + storage < 2 ^ storageBits) :
    (m.charge storage).1.totalUsed = m.totalUsed + storage ∧
      (m.charge storage).1.selfUsed = m.selfUsed + storage ∧
      (m.charge storage).1.totalRefunded = m.totalRefunded ∧
      (m.charge storage).1.selfRefunded = m.selfRefunded ∧
      (m.charge storage).1.limit = m.limit ∧ (m.charge storage).1.contract = m.contract := by
  simp only [charge, handle, hm, satAdd_of_lt htotal, satAdd_of_lt hself, and_self]

theorem StorageMeter.refund_of_ok {m : StorageMeter} (hm : m.result = .ok ()) {storage : ℕ}
    (htotal : m.totalRefunded + storage < 2 ^ storageBits)
    (hself : m.selfRefunded + storage < 2 ^ storageBits) :
    (m.refund storage).1.totalRefunded = m.totalRefunded + storage ∧
      (m.refund storage).1.selfRefunded = m.selfRefunded + storage ∧
      (m.refund storage).1.totalUsed = m.totalUsed ∧
      (m.refund storage).1.selfUsed = m.selfUsed ∧
      (m.refund storage).1.limit = m.limit ∧ (m.refund storage).1.contract = m.contract := by
  simp only [refund, handle, hm, satAdd_of_lt htotal, satAdd_of_lt hself, and_self]

/-- **The totals of a frame.** If no sum is cut off and all committing frames are within their
limits, the settlements passed up are those of the tree, and the meter adds them up. -/
theorem Body.eval_totals (body : Body) (m : StorageMeter) (hm : m.result = .ok ())
    (hfits : body.Fits m) (hwithin : body.Within m) :
    (body.eval m).2 = body.settledAll ∧ Totals m (body.eval m).1 body body.settledAll := by
  induction body generalizing m with
  | done => exact ⟨rfl, rfl, rfl, rfl, rfl, rfl, rfl⟩
  | charge storage next ih =>
    obtain ⟨htotal, hself, hrest⟩ := hfits
    obtain ⟨h₁, h₂, h₃, h₄, h₅, h₆⟩ := StorageMeter.charge_of_ok hm htotal hself
    obtain ⟨hup, hnext⟩ := ih (m.charge storage).1 (by simp [hm]) hrest hwithin
    refine ⟨hup, ⟨?_, ?_, ?_, ?_, ?_, ?_⟩⟩
    · exact hnext.contract.trans h₆
    · exact hnext.limit.trans h₅
    · exact hnext.selfUsed.trans (by rw [h₂, used, Nat.add_assoc])
    · exact hnext.selfRefunded.trans (by rw [h₄, refunded])
    · refine hnext.totalUsed.trans ?_
      rw [h₁, used, settledAll]
      omega
    · exact hnext.totalRefunded.trans (by rw [h₃, refunded, settledAll])
  | refund storage next ih =>
    obtain ⟨htotal, hself, hrest⟩ := hfits
    obtain ⟨h₁, h₂, h₃, h₄, h₅, h₆⟩ := StorageMeter.refund_of_ok hm htotal hself
    obtain ⟨hup, hnext⟩ := ih (m.refund storage).1 (by simp [hm]) hrest hwithin
    refine ⟨hup, ⟨?_, ?_, ?_, ?_, ?_, ?_⟩⟩
    · exact hnext.contract.trans h₆
    · exact hnext.limit.trans h₅
    · exact hnext.selfUsed.trans (by rw [h₄, used])
    · exact hnext.selfRefunded.trans (by rw [h₂, refunded, Nat.add_assoc])
    · exact hnext.totalUsed.trans (by rw [h₃, used, settledAll])
    · refine hnext.totalRefunded.trans ?_
      rw [h₁, refunded, settledAll]
      omega
  | child contract body commit next ihbody ihnext =>
    obtain ⟨hbody, htotalUsed, htotalRefunded, hrest⟩ := hfits
    obtain ⟨hwbody, hwchild, hwrest⟩ := hwithin
    obtain ⟨hbelow, hinner⟩ := ihbody (.new contract m.availableStorage) rfl hbody hwbody
    -- the child passes up what its tree settles, and its own settlement if it commits
    have hup : childSettlements contract body commit m =
        body.settledAll ++ (if commit then [body.settlement contract] else []) := by
      unfold childSettlements StorageMeter.passedUp
      rw [hbelow]
      cases commit with
      | false => rfl
      | true =>
        have hsettle : (body.eval (.new contract m.availableStorage)).1.settlement =
            body.settlement contract := by
          unfold StorageMeter.settlement settlement
          rw [hinner.contract, hinner.selfUsed_new, hinner.selfRefunded_new]
          rfl
        simp [hwchild rfl, hsettle]
    obtain ⟨hself₁, hself₂, hlimit, hcontract⟩ :=
      m.absorbAll_self (childSettlements contract body commit m)
    have hused := m.absorbAll_totalUsed (childSettlements contract body commit m)
    have hrefunded := m.absorbAll_totalRefunded (childSettlements contract body commit m)
    rw [satAdd_of_lt htotalUsed] at hused
    rw [satAdd_of_lt htotalRefunded] at hrefunded
    obtain ⟨hrestUp, hnext⟩ := ihnext _ (by simp [hm]) hrest hwrest
    rw [eval_child]
    have hall : (child contract body commit next).settledAll =
        childSettlements contract body commit m ++ next.settledAll := by
      rw [hup, settledAll]
    refine ⟨by rw [hrestUp, hall], ⟨?_, ?_, ?_, ?_, ?_, ?_⟩⟩
    · exact hnext.contract.trans hcontract
    · exact hnext.limit.trans hlimit
    · exact hnext.selfUsed.trans (by rw [hself₁, used])
    · exact hnext.selfRefunded.trans (by rw [hself₂, refunded])
    · refine hnext.totalUsed.trans ?_
      rw [hused, hall, usedSum_append, used]
      omega
    · refine hnext.totalRefunded.trans ?_
      rw [hrefunded, hall, refundedSum_append, refunded]
      omega

/-! ### Frames that finish -/

section Finish

variable {σ : Type} {H : Host σ}

/-- The chain a child frame of `contract` starts with. -/
def Chain.under (c : Chain) (contract : EvmAddress) : Chain :=
  ⟨.new contract c.self.availableStorage, c.self :: c.above⟩

/-- Every frame below that asks to commit is finished successfully. -/
def Body.Finishes (H : Host σ) : Body → Chain → σ → Prop
  | .done, _, _ => True
  | .charge storage next, c, s => next.Finishes H { c with self := (c.self.charge storage).1 } s
  | .refund storage next, c, s => next.Finishes H { c with self := (c.self.refund storage).1 } s
  | .child contract body commit next, c, s =>
    body.Finishes H (c.under contract) s ∧
      (commit = true → (runChild H contract body commit c s).2.2 = .ok ()) ∧
      next.Finishes H (runChild H contract body commit c s).1
        (runChild H contract body commit c s).2.1

variable {contract : EvmAddress} {s : σ} {c : Chain} {body : Body}

/-- A charge that succeeds has reached the root handler and succeeded there. -/
theorem chargeStorage_ok {used refunded : ℕ} {ms ms' : List StorageMeter} {s' : σ}
    (h : chargeStorage H contract used refunded ms s = (ms', s', .ok ())) :
    H.chargeStorage s contract used refunded = (s', .ok ()) := by
  induction ms generalizing ms' with
  | nil =>
    simp only [chargeStorage, Prod.mk.injEq] at h
    exact Prod.ext h.2.1 h.2.2
  | cons m ms ih =>
    simp only [chargeStorage] at h
    split at h
    · simp at h
    · simp only [Prod.mk.injEq] at h
      obtain ⟨-, hs, hresult⟩ := h
      exact ih (Prod.ext rfl (Prod.ext hs hresult))

/-- A frame below another one that is finished has charged its use at the root handler, and nothing
else happened. -/
theorem Chain.finish_ok {above : List StorageMeter} {s' : σ}
    (h : c.finish H s = (above, s', .ok ())) (hne : above ≠ []) :
    c.self.withinLimit = true ∧
      H.chargeStorage s c.self.contract c.self.selfUsed c.self.selfRefunded = (s', .ok ()) := by
  unfold Chain.finish at h
  split at h
  · simp at h
  · split at h
    · next hlimit =>
      split at h
      · simp at h
      · next ms s₁ u hcharge =>
        simp only [Prod.mk.injEq] at h
        obtain ⟨rfl, hs, -⟩ := h
        obtain ⟨m, ms, rfl⟩ := List.exists_cons_of_ne_nil hne
        obtain rfl : s₁ = s' := hs
        exact ⟨hlimit, chargeStorage_ok hcharge⟩
    · simp at h

theorem absorbAbove_ne_nil (es : List Settlement) (m : StorageMeter) (ms : List StorageMeter) :
    absorbAbove es (m :: ms) ≠ [] := by
  unfold absorbAbove
  split <;> simp

/-- A committed child is within its limit, and has charged its use. -/
theorem runChild_commit (hc : c.self.result = .ok ())
    (h : (runChild H contract body true c s).2.2 = .ok ()) :
    (body.eval (.new contract c.self.availableStorage)).1.withinLimit = true ∧
      H.chargeStorage (body.run H (c.under contract) s).2
        (body.eval (.new contract c.self.availableStorage)).1.contract
        (body.eval (.new contract c.self.availableStorage)).1.selfUsed
        (body.eval (.new contract c.self.availableStorage)).1.selfRefunded =
      ((runChild H contract body true c s).2.1, .ok ()) := by
  have hchild : c.childMeter contract = .ok (c.under contract) := by
    simp only [Chain.childMeter, hc, Chain.under]
  have hchain := body.run_chain H (c.under contract) s rfl
  have hfin := Chain.finish_meters H (body.run H (c.under contract) s).1
    (body.run H (c.under contract) s).2 (by rw [hchain]; exact body.eval_result _)
  simp only [runChild, runSubTransaction, hchild, outcome, if_true] at h ⊢
  split at h
  · next above s' u heq =>
    rw [heq] at hfin
    have hne : above ≠ [] := by
      intro hnil
      rw [hnil, hchain, Chain.under, ← absorbAbove_append] at hfin
      exact absorbAbove_ne_nil _ _ _ hfin.symm
    obtain ⟨hlimit, hcharge⟩ := Chain.finish_ok heq hne
    rw [hchain] at hlimit hcharge
    exact ⟨hlimit, hcharge⟩
  · simp at h

/-- A child that asks to be rolled back leaves the state of the host as a rolled back
transaction does. -/
theorem runChild_rollback (hc : c.self.result = .ok ()) :
    (runChild H contract body false c s).2.1 =
      H.rollback s (body.run H (c.under contract) s).2 := by
  have hchild : c.childMeter contract = .ok (c.under contract) := by
    simp only [Chain.childMeter, hc, Chain.under]
  simp only [runChild, runSubTransaction, hchild, outcome, Bool.false_eq_true, if_false]

/-- The meter of the parent stays alive through a child frame. -/
theorem runChild_result {commit : Bool} (hc : c.self.result = .ok ()) :
    (runChild H contract body commit c s).1.self.result = .ok () := by
  rw [runChild_chain H contract body commit c s hc]
  simp [hc]

/-- Frames that finish are within their limits. -/
theorem Body.Finishes.within (h : body.Finishes H c s) (hc : c.self.result = .ok ()) :
    body.Within c.self := by
  induction body generalizing c s with
  | done => trivial
  | charge storage next ih => exact ih h (by simp [hc])
  | refund storage next ih => exact ih h (by simp [hc])
  | child contract body commit next ihbody ihnext =>
    obtain ⟨hbody, hcommit, hnext⟩ := h
    have hrest := ihnext hnext (runChild_result hc)
    rw [runChild_chain H contract body commit c s hc] at hrest
    refine ⟨ihbody hbody rfl, fun hyes => ?_, hrest⟩
    subst hyes
    exact (runChild_commit hc (hcommit rfl)).1

end Finish

/-! ### The origin's reserve -/

section Reserve

variable {α : Type} [DecidableEq α] (D : DepositConfig α) (origin : EvmAddress)

/-- The storage a settlement adds to its contract. -/
def Settlement.net (e : Settlement) : ℤ := e.used - e.refunded

/-- How a settlement moves the origin's reserve. One with itself takes a net use out and puts it
back; it does nothing with a net refund. -/
def DepositConfig.moves (e : Settlement) : List ℤ :=
  if D.getAccountId e.contract = D.getAccountId origin then
    if e.refunded < e.used then
      [-(D.storageDepositPerByte * e.net), D.storageDepositPerByte * e.net]
    else []
  else [-(D.storageDepositPerByte * e.net)]

/-- The contract has the reserve for its net refund. -/
def DepositConfig.Covered (e : Settlement) (backing : ℕ) : Prop :=
  e.used < e.refunded → D.storageDepositPerByte * (e.refunded - e.used) ≤ backing

variable {D origin}

variable {l : Ledger α} {limit : ℕ} {contract : EvmAddress} {body : Body}

/-- The effect of a charge on the origin's reserve. -/
theorem DepositConfig.chargeStorage_reserved {l' : Ledger α} {e : Settlement}
    (h : D.chargeStorage origin l e.contract e.used e.refunded = (l', .ok ()))
    (hused : e.used < 2 ^ storageBits) (hrefunded : e.refunded < 2 ^ storageBits)
    (hcov : D.Covered e (l.reserved (D.getAccountId e.contract))) :
    l'.reserved (D.getAccountId origin) =
      walk (l.reserved (D.getAccountId origin)) (D.moves origin e) := by
  unfold moves
  obtain ⟨hlt, rfl⟩ | ⟨heq, rfl⟩ | ⟨hgt, l₁, htransfer, hreserve⟩ :=
    chargeStorage_cases h hused hrefunded
  · -- a net refund is repatriated, in full
    have hnet : -(D.storageDepositPerByte * e.net) =
        ((D.storageDepositPerByte * (e.refunded - e.used) : ℕ) : ℤ) := by
      unfold Settlement.net
      push_cast [Nat.cast_sub hlt.le]
      ring
    have hbacked := hcov hlt
    rw [Ledger.repatriateReserved_reserved, hnet]
    split
    · rw [if_neg hlt.not_gt, walk_nil]
    · next hother =>
      rw [if_neg (Ne.symm hother), if_pos rfl, min_eq_right hbacked, walk_cons, walk_nil]
      omega
  · -- nothing to settle
    have hnet : e.net = 0 := by
      unfold Settlement.net
      omega
    rw [hnet]
    split
    · rw [if_neg (by omega), walk_nil]
    · simp
  · -- a net use is unreserved at the origin and reserved at the contract
    have hnet : D.storageDepositPerByte * e.net =
        ((D.storageDepositPerByte * (e.used - e.refunded) : ℕ) : ℤ) := by
      unfold Settlement.net
      push_cast [Nat.cast_sub hgt.le]
      ring
    generalize D.storageDepositPerByte * (e.used - e.refunded) = amount at htransfer hreserve hnet
    rw [hnet, Ledger.reserve_reserved hreserve, Ledger.transfer_reserved htransfer]
    simp only [Ledger.unreserve_reserved]
    by_cases hown : D.getAccountId e.contract = D.getAccountId origin
    · simp only [hown, hgt, if_true, walk_cons, walk_nil]
      omega
    · simp only [hown, Ne.symm hown, if_true, if_false, walk_cons, walk_nil]
      omega

/-- A charge at the root handler: the ledger moves, and the call is recorded. -/
theorem depositHost_charge {b b' : Bank α} {e : Settlement}
    (h : (depositHost D origin).chargeStorage b e.contract e.used e.refunded = (b', .ok ())) :
    D.chargeStorage origin b.ledger e.contract e.used e.refunded = (b'.ledger, .ok ()) ∧
      b'.log = b.log ++ [.charge e (b.ledger.reserved (D.getAccountId e.contract))] := by
  simp only [depositHost, Prod.mk.injEq] at h
  obtain ⟨rfl, hresult⟩ := h
  exact ⟨Prod.ext rfl hresult, rfl⟩

/-- The moves of a list of settlements. -/
def DepositConfig.allMoves (D : DepositConfig α) (origin : EvmAddress) (es : List Settlement) :
    List ℤ := es.flatMap (D.moves origin)

/-- **The origin's reserve over a run.** The charges that reach the root handler are those of the
tree; if all refunds among them are covered, the origin's reserve walks along those that are
kept. -/
theorem Body.run_bank (body : Body) (c : Chain) (b : Bank α) (hc : c.self.result = .ok ())
    (hfits : body.Fits c.self) (hfin : body.Finishes (depositHost D origin) c b) :
    ∃ calls : List (Settlement × ℕ),
      (body.run (depositHost D origin) c b).2.log =
        b.log ++ calls.map (fun p => RootCall.charge p.1 p.2) ∧
      calls.map Prod.fst = body.settledAll ∧
      ((∀ p ∈ calls, D.Covered p.1 p.2) →
        (body.run (depositHost D origin) c b).2.ledger.reserved (D.getAccountId origin) =
          walk (b.ledger.reserved (D.getAccountId origin))
            (D.allMoves origin body.settledKept)) := by
  induction body generalizing c b with
  | done => exact ⟨[], (List.append_nil _).symm, rfl, fun _ => rfl⟩
  | charge storage next ih => exact ih _ b (by simp [hc]) hfits.2.2 hfin
  | refund storage next ih => exact ih _ b (by simp [hc]) hfits.2.2 hfin
  | child contract body commit next ihbody ihnext =>
    obtain ⟨hfbody, -, -, hfnext⟩ := hfits
    obtain ⟨hbody, hcommit, hnext⟩ := hfin
    have hchain := runChild_chain (depositHost D origin) contract body commit c b hc
    obtain ⟨calls₁, hlog₁, hsettled₁, hreserved₁⟩ :=
      ihbody (c.under contract) b rfl hfbody hbody
    obtain ⟨calls₂, hlog₂, hsettled₂, hreserved₂⟩ := ihnext _ _ (runChild_result hc)
      (by rw [hchain]; exact hfnext) hnext
    rw [Body.run_child]
    cases commit with
    | false =>
      -- the ledger is restored, the record of the calls is not
      rw [runChild_rollback hc] at hlog₂ hreserved₂
      refine ⟨calls₁ ++ calls₂, ?_, ?_, ?_⟩
      · rw [runChild_rollback hc, hlog₂, List.map_append, ← List.append_assoc, ← hlog₁]
        rfl
      · rw [List.map_append, hsettled₁, hsettled₂]
        simp [settledAll]
      · intro hcov
        rw [runChild_rollback hc,
          hreserved₂ fun p hp => hcov p (List.mem_append_right _ hp)]
        simp [settledKept, depositHost]
    | true =>
      obtain ⟨-, hcharge⟩ := runChild_commit hc (hcommit rfl)
      obtain ⟨-, htotals⟩ := body.eval_totals (.new contract c.self.availableStorage) rfl hfbody
        (hbody.within (c := c.under contract) rfl)
      rw [htotals.contract, htotals.selfUsed_new, htotals.selfRefunded_new] at hcharge
      obtain ⟨hledger, hlog⟩ := depositHost_charge (e := body.settlement contract) hcharge
      -- the counters of the finished meter bound what it settles
      have hfit₁ := (body.eval (.new contract c.self.availableStorage)).1.totalUsed_le
      have hfit₂ := (body.eval (.new contract c.self.availableStorage)).1.totalRefunded_le
      rw [htotals.totalUsed_new, ← lt_two_pow_iff] at hfit₁
      rw [htotals.totalRefunded_new, ← lt_two_pow_iff] at hfit₂
      refine ⟨calls₁ ++ (body.settlement contract,
        (body.run (depositHost D origin) (c.under contract) b).2.ledger.reserved
          (D.getAccountId contract)) :: calls₂, ?_, ?_, ?_⟩
      · rw [hlog₂, hlog, hlog₁]
        simp [settlement]
      · rw [List.map_append, List.map_cons, hsettled₁, hsettled₂]
        simp [settledAll]
      · intro hcov
        have hhere := DepositConfig.chargeStorage_reserved hledger
          (by simp only [settlement]; omega) (by simp only [settlement]; omega)
          (hcov _ (List.mem_append_right _ List.mem_cons_self))
        rw [hreserved₂ fun p hp =>
            hcov p (List.mem_append_right _ (List.mem_cons_of_mem _ hp)),
          hhere, hreserved₁ fun p hp => hcov p (List.mem_append_left _ hp), ← walk_append,
          ← walk_append]
        simp [DepositConfig.allMoves, settledKept]

/-! ### The whole execution -/

/-- The sum of the net uses of a list of settlements. -/
def netSum (es : List Settlement) : ℤ := (es.map Settlement.net).sum

/-- The sum of the net uses that the origin settles with itself. -/
def DepositConfig.ownNet (D : DepositConfig α) (origin : EvmAddress) (es : List Settlement) : ℤ :=
  (es.map fun e => if D.getAccountId e.contract = D.getAccountId origin then e.net else 0).sum

/-- A top-level execution of `body` for `contract`, by `origin`, with storage limit `limit`. -/
def executeBody (D : DepositConfig α) (origin contract : EvmAddress) (limit : ℕ) (body : Body)
    (l : Ledger α) : Bank α × Except DispatchError Unit :=
  runTransaction (depositHost D origin) contract limit
    (fun c b => ((body.run (depositHost D origin) c b).1, (body.run (depositHost D origin) c b).2,
      .commit ())) ⟨l, []⟩

/-- The net use of the charges in a record of calls. -/
def chargedNet (log : List RootCall) : ℤ :=
  (log.map fun call => match call with
    | .charge e _ => e.net
    | .release _ => 0).sum

/-- The storage whose deposit was released, in a record of calls. -/
def releasedSum (log : List RootCall) : ℤ :=
  (log.map fun call => match call with
    | .charge _ _ => 0
    | .release unused => (unused : ℤ)).sum

/-- The executions in question: the ledger and the tree are such that no sum of the meters is cut
off, every frame that asks to commit is finished successfully, the root included, and every contract
that refunds has the reserve for it. -/
structure Regular (D : DepositConfig α) (origin contract : EvmAddress) (limit : ℕ) (body : Body)
    (l : Ledger α) : Prop where
  fits : body.Fits (.new contract limit)
  finish_fits : limit + (body.eval (.new contract limit)).1.selfUsed +
    (body.eval (.new contract limit)).1.totalRefunded < 2 ^ storageBits
  finishes : body.Finishes (depositHost D origin) ⟨.new contract limit, []⟩
    ⟨(D.reserveStorage origin l limit).1, []⟩
  ok : (executeBody D origin contract limit body l).2 = .ok ()
  covered : ∀ e backing, .charge e backing ∈ (executeBody D origin contract limit body l).1.log →
    D.Covered e backing

/-- The deposit is conserved: the origin's reserve is what it was, and the limit is accounted for by
the charges and the release. -/
def DepositReturned (D : DepositConfig α) (origin contract : EvmAddress) (limit : ℕ) (body : Body)
    (l : Ledger α) : Prop :=
  (executeBody D origin contract limit body l).1.ledger.reserved (D.getAccountId origin) =
    l.reserved (D.getAccountId origin) ∧
  (limit : ℤ) = chargedNet (executeBody D origin contract limit body l).1.log +
    releasedSum (executeBody D origin contract limit body l).1.log

/-- What the origin's reserve gains over the whole execution, were it not cut off at zero: the
shortfall of the walk over the settlements that are kept, and the deposits of the settlements that
are rolled back in the ledger but not in the meters, and of those with itself. -/
def DepositConfig.gain (D : DepositConfig α) (origin contract : EvmAddress) (limit : ℕ)
    (body : Body) (before : ℕ) : ℤ :=
  shortfall (before + D.storageDepositPerByte * limit)
      (D.allMoves origin (body.settledKept ++ [body.settlement contract])) +
    D.storageDepositPerByte *
      (netSum body.settledAll - netSum body.settledKept +
        D.ownNet origin (body.settledKept ++ [body.settlement contract]))

/-! Sums over settlements. -/

theorem netSum_append (es fs : List Settlement) : netSum (es ++ fs) = netSum es + netSum fs := by
  unfold netSum
  rw [List.map_append, List.sum_append]

theorem netSum_eq (es : List Settlement) : netSum es = usedSum es - refundedSum es := by
  induction es with
  | nil => rfl
  | cons e es ih =>
    have hcons : netSum (e :: es) = e.net + netSum es := List.sum_cons
    rw [hcons, ih, usedSum_cons, refundedSum_cons, Settlement.net]
    push_cast
    ring

theorem chargedNet_append (log log' : List RootCall) :
    chargedNet (log ++ log') = chargedNet log + chargedNet log' := by
  unfold chargedNet
  rw [List.map_append, List.sum_append]

theorem releasedSum_append (log log' : List RootCall) :
    releasedSum (log ++ log') = releasedSum log + releasedSum log' := by
  unfold releasedSum
  rw [List.map_append, List.sum_append]

theorem chargedNet_charges (calls : List (Settlement × ℕ)) :
    chargedNet (calls.map fun p => RootCall.charge p.1 p.2) = netSum (calls.map Prod.fst) := by
  unfold chargedNet netSum
  rw [List.map_map, List.map_map]
  rfl

theorem releasedSum_charges (calls : List (Settlement × ℕ)) :
    releasedSum (calls.map fun p => RootCall.charge p.1 p.2) = 0 := by
  unfold releasedSum
  rw [List.map_map]
  refine List.sum_eq_zero fun x hx => ?_
  obtain ⟨p, -, rfl⟩ := List.mem_map.mp hx
  rfl

/-- The moves of the origin's reserve add up to the net use it settles with other accounts. -/
theorem DepositConfig.sum_allMoves (es : List Settlement) :
    (D.allMoves origin es).sum =
      -(D.storageDepositPerByte * (netSum es - D.ownNet origin es)) := by
  induction es with
  | nil => simp [allMoves, netSum, ownNet]
  | cons e es ih =>
    have hhere : (D.moves origin e).sum = -(D.storageDepositPerByte *
        (e.net - if D.getAccountId e.contract = D.getAccountId origin then e.net else 0)) := by
      unfold moves
      split
      · split <;> simp
      · simp
    have hmoves : D.allMoves origin (e :: es) = D.moves origin e ++ D.allMoves origin es :=
      List.flatMap_cons
    rw [hmoves, List.sum_append, hhere, ih]
    simp only [netSum, ownNet, List.map_cons, List.sum_cons]
    ring

/-! The steps of a successful execution. -/

theorem DepositConfig.reserveStorage_reserved {l' : Ledger α}
    (h : D.reserveStorage origin l limit = (l', .ok ())) (hlimit : limit < 2 ^ storageBits) :
    l'.reserved (D.getAccountId origin) =
      l.reserved (D.getAccountId origin) + D.storageDepositPerByte * limit := by
  unfold reserveStorage at h
  split at h
  · next hzero =>
    obtain rfl : l = l' := (Prod.mk.inj h).1
    rw [hzero, Nat.mul_zero, Nat.add_zero]
  · rw [D.deposit_eq hlimit] at h
    split at h
    · next l₁ hreserve =>
      obtain rfl : l₁ = l' := (Prod.mk.inj h).1
      rw [Ledger.reserve_reserved hreserve, if_pos rfl]
    · simp at h

theorem DepositConfig.unreserveStorage_reserved (l : Ledger α) {used refunded : ℕ}
    (hfits : limit + refunded < 2 ^ storageBits) :
    (D.unreserveStorage origin l limit used refunded).1.reserved (D.getAccountId origin) =
      l.reserved (D.getAccountId origin) -
        D.storageDepositPerByte * (limit + refunded - used) := by
  unfold unreserveStorage unused
  rw [satAdd_of_lt hfits]
  split
  · next hzero => rw [hzero, Nat.mul_zero, Nat.sub_zero]
  · rw [Ledger.unreserve_reserved, if_pos rfl, D.deposit_eq (by omega)]

/-- A root meter that is finished has charged its use and released the rest. -/
theorem Chain.finish_root {σ : Type} {H : Host σ} {m : StorageMeter} {above : List StorageMeter}
    {s s' : σ} (h : Chain.finish H ⟨m, []⟩ s = (above, s', .ok ())) :
    m.withinLimit = true ∧ ∃ s₁,
      H.chargeStorage s m.contract m.selfUsed m.selfRefunded = (s₁, .ok ()) ∧
      H.unreserveStorage s₁ m.newLimit m.selfUsed m.selfRefunded = (s', .ok ()) := by
  unfold Chain.finish at h
  split at h
  · simp at h
  · split at h
    · next hlimit =>
      split at h
      · simp at h
      · next ms s₁ u hcharge =>
        simp only [Prod.mk.injEq] at h
        obtain ⟨-, hs, hresult⟩ := h
        have hroot := chargeStorage_ok hcharge
        have hnil : ms = [] := by
          simp only [chargeStorage, Prod.mk.injEq] at hcharge
          exact hcharge.1.symm
        subst hnil
        exact ⟨hlimit, s₁, hroot, Prod.ext hs hresult⟩
    · simp at h

/-- A committing transaction that succeeds has reserved its limit and finished its root meter. -/
theorem runTransaction_ok {σ : Type} {H : Host σ} {f : Chain → σ → Chain × σ} {s s' : σ}
    (h : runTransaction H contract limit (fun c s => ((f c s).1, (f c s).2, .commit ())) s =
      (s', .ok ())) :
    ∃ s₁, H.reserveStorage s limit = (s₁, .ok ()) ∧
      ∃ above, (f ⟨.new contract limit, []⟩ s₁).1.finish H (f ⟨.new contract limit, []⟩ s₁).2 =
        (above, s', .ok ()) := by
  unfold runTransaction at h
  split at h
  · simp at h
  · next s₁ u hreserve =>
    refine ⟨s₁, hreserve, ?_⟩
    simp only at h
    split at h
    · next above s₂ u' hfin =>
      obtain rfl : s₂ = s' := (Prod.mk.inj h).1
      exact ⟨above, hfin⟩
    · simp at h

/-- What a successful execution consists of. -/
theorem executeBody_ok (h : (executeBody D origin contract limit body l).2 = .ok ()) :
    let root := (body.eval (.new contract limit)).1
    ∃ l₁ b₂, D.reserveStorage origin l limit = (l₁, .ok ()) ∧ root.withinLimit = true ∧
      (depositHost D origin).chargeStorage
          (body.run (depositHost D origin) ⟨.new contract limit, []⟩ ⟨l₁, []⟩).2
          root.contract root.selfUsed root.selfRefunded = (b₂, .ok ()) ∧
      (depositHost D origin).unreserveStorage b₂ root.newLimit root.selfUsed root.selfRefunded =
        ((executeBody D origin contract limit body l).1, .ok ()) := by
  intro root
  obtain ⟨b₁, hreserve, above, hfin⟩ := runTransaction_ok
    (show executeBody D origin contract limit body l =
      ((executeBody D origin contract limit body l).1, .ok ()) from Prod.ext rfl h)
  simp only [depositHost, Prod.mk.injEq] at hreserve
  obtain ⟨rfl, hresult⟩ := hreserve
  rw [body.run_chain (depositHost D origin) ⟨.new contract limit, []⟩ _ rfl] at hfin
  obtain ⟨hlimit, b₂, hcharge, hrelease⟩ := Chain.finish_root hfin
  exact ⟨_, b₂, Prod.ext rfl hresult, hlimit, hcharge, hrelease⟩

/-- The storage the root meter of the execution releases, computed as the code does: from the limit,
the use of the frames below (`DU`, `DR`) and the root's own (`u`, `r`). -/
def releasedStorage (limit DU DR u r : ℕ) : ℕ :=
  (limit + u + (r + DR)) - (u + DU) - r + r - u

/-- The release is what is left of the limit, unless the frames below have used more than the limit
and their own refunds: then it is too large. -/
theorem releasedStorage_eq_iff {DU DR u r : ℕ} (hwithin : u + DU - (r + DR) ≤ limit) :
    (limit : ℤ) = (DU - DR) + (u - r) + releasedStorage limit DU DR u r ↔ DU ≤ limit + DR := by
  unfold releasedStorage
  omega

/-- The release at the root handler: the ledger moves, and the call is recorded. -/
theorem depositHost_release {b b' : Bank α} {used refunded : ℕ}
    (h : (depositHost D origin).unreserveStorage b limit used refunded = (b', .ok ()))
    (hfits : limit + refunded < 2 ^ storageBits) :
    b'.ledger.reserved (D.getAccountId origin) = b.ledger.reserved (D.getAccountId origin) -
        D.storageDepositPerByte * (limit + refunded - used) ∧
      b'.log = b.log ++ [.release (limit + refunded - used)] := by
  have hunused : DepositConfig.unused limit used refunded = limit + refunded - used := by
    unfold DepositConfig.unused
    rw [satAdd_of_lt hfits]
  simp only [depositHost, Prod.mk.injEq] at h
  obtain ⟨rfl, -⟩ := h
  exact ⟨DepositConfig.unreserveStorage_reserved b.ledger hfits, by rw [hunused]⟩

/-- The limit a root meter passes on, when its sums are not cut off. -/
theorem Totals.newLimit_eq {m : StorageMeter} {es : List Settlement}
    (h : Totals (.new contract limit) m body es)
    (hfits : limit + m.selfUsed + m.totalRefunded < 2 ^ storageBits) :
    m.newLimit = limit + body.used + (body.refunded + refundedSum es)
      - (body.used + usedSum es) - body.refunded := by
  unfold StorageMeter.newLimit
  rw [h.limit_new, satAdd_of_lt (a := limit) (by omega), satAdd_of_lt hfits, h.selfUsed_new,
    h.selfRefunded_new, h.totalUsed_new, h.totalRefunded_new]

/-- The end of a regular execution: the origin's reserve, the charges and the release. -/
theorem Regular.summary (h : Regular D origin contract limit body l) :
    let final := (executeBody D origin contract limit body l).1
    let released := releasedStorage limit (usedSum body.settledAll) (refundedSum body.settledAll)
      body.used body.refunded
    final.ledger.reserved (D.getAccountId origin) =
      walk (l.reserved (D.getAccountId origin) + D.storageDepositPerByte * limit)
          (D.allMoves origin (body.settledKept ++ [body.settlement contract])) -
        D.storageDepositPerByte * released ∧
    chargedNet final.log = netSum body.settledAll + (body.settlement contract).net ∧
    releasedSum final.log = released ∧
    body.used + usedSum body.settledAll - (body.refunded + refundedSum body.settledAll) ≤
      limit := by
  intro final released
  obtain ⟨l₁, b₂, hreserve, hlimit, hcharge, hrelease⟩ := executeBody_ok h.ok
  have hfinishes := h.finishes
  rw [hreserve] at hfinishes
  obtain ⟨-, htotals⟩ := body.eval_totals (.new contract limit) rfl h.fits
    (hfinishes.within (c := ⟨.new contract limit, []⟩) rfl)
  obtain ⟨calls, hlog, hsettled, hreserved⟩ :=
    body.run_bank ⟨.new contract limit, []⟩ ⟨l₁, []⟩ rfl h.fits hfinishes
  -- the numbers of the root meter, in terms of the tree
  have hwithin := of_decide_eq_true hlimit
  rw [htotals.totalUsed_new, htotals.totalRefunded_new, htotals.limit_new] at hwithin
  have hnew := htotals.newLimit_eq h.finish_fits
  have hfits := h.finish_fits
  rw [htotals.selfUsed_new, htotals.totalRefunded_new] at hfits
  rw [htotals.contract, htotals.selfUsed_new, htotals.selfRefunded_new] at hcharge
  rw [hnew, htotals.selfUsed_new, htotals.selfRefunded_new] at hrelease
  -- the last two calls
  obtain ⟨hledger, hlog₂⟩ := depositHost_charge (e := body.settlement contract) hcharge
  obtain ⟨hfinal, hlog₃⟩ := depositHost_release hrelease (by omega)
  have hrecord : final.log = calls.map (fun p => RootCall.charge p.1 p.2) ++
      [.charge (body.settlement contract) ((body.run (depositHost D origin)
        ⟨.new contract limit, []⟩ ⟨l₁, []⟩).2.ledger.reserved (D.getAccountId contract)),
        .release released] := by
    change (executeBody D origin contract limit body l).1.log = _
    rw [hlog₃, hlog₂, hlog]
    simp [released, releasedStorage, Body.settlement]
  have hcov : ∀ p ∈ calls, D.Covered p.1 p.2 := by
    intro p hp
    refine h.covered p.1 p.2 ?_
    change _ ∈ final.log
    rw [hrecord]
    exact List.mem_append_left _ (List.mem_map.mpr ⟨p, hp, rfl⟩)
  have hcovRoot : D.Covered (body.settlement contract) ((body.run (depositHost D origin)
      ⟨.new contract limit, []⟩ ⟨l₁, []⟩).2.ledger.reserved (D.getAccountId contract)) := by
    refine h.covered _ _ ?_
    change _ ∈ final.log
    rw [hrecord]
    exact List.mem_append_right _ List.mem_cons_self
  refine ⟨?_, ?_, ?_, hwithin⟩
  · change (executeBody D origin contract limit body l).1.ledger.reserved _ = _
    rw [hfinal, DepositConfig.chargeStorage_reserved hledger
        (by simp only [Body.settlement]; omega) (by simp only [Body.settlement]; omega) hcovRoot,
      hreserved hcov, ← walk_append,
      DepositConfig.reserveStorage_reserved hreserve (by omega)]
    simp [DepositConfig.allMoves, released, releasedStorage]
  · rw [hrecord, chargedNet_append, chargedNet_charges, hsettled]
    simp [chargedNet]
  · rw [hrecord, releasedSum_append, releasedSum_charges]
    simp [releasedSum]

/-- If the frames below stay within the limit and their refunds, the origin's reserve ends at what
it was plus the gain, cut off at zero. -/
theorem Regular.reserved_eq (h : Regular D origin contract limit body l)
    (hbelow : usedSum body.settledAll ≤ limit + refundedSum body.settledAll) :
    ((executeBody D origin contract limit body l).1.ledger.reserved (D.getAccountId origin) : ℤ) =
      max 0 (l.reserved (D.getAccountId origin) +
        D.gain origin contract limit body (l.reserved (D.getAccountId origin))) := by
  obtain ⟨hreserved, -, -, hwithin⟩ := h.summary
  have hreleased := (releasedStorage_eq_iff hwithin).mpr hbelow
  have hwalk := walk_eq (l.reserved (D.getAccountId origin) + D.storageDepositPerByte * limit)
    (D.allMoves origin (body.settledKept ++ [body.settlement contract]))
  rw [DepositConfig.sum_allMoves, netSum_append] at hwalk
  have hroot : netSum [body.settlement contract] = body.used - body.refunded :=
    List.sum_singleton
  rw [hroot] at hwalk
  have hall := netSum_eq body.settledAll
  -- the walk and the release differ from the old reserve by the gain
  have hdiff : ((walk (l.reserved (D.getAccountId origin) + D.storageDepositPerByte * limit)
        (D.allMoves origin (body.settledKept ++ [body.settlement contract])) : ℕ) : ℤ) -
      ((D.storageDepositPerByte * releasedStorage limit (usedSum body.settledAll)
        (refundedSum body.settledAll) body.used body.refunded : ℕ) : ℤ) =
      l.reserved (D.getAccountId origin) +
        D.gain origin contract limit body (l.reserved (D.getAccountId origin)) := by
    rw [hwalk]
    unfold DepositConfig.gain
    rw [hall]
    push_cast
    linear_combination (D.storageDepositPerByte : ℤ) * hreleased
  rw [hreserved, ← hdiff]
  omega

/-- **When the deposit is conserved.** For every regular execution the origin's reserve is
afterwards what it was before, with the limit accounted for by the charges that reached the root
handler and the final release, iff the frames below the root have not used more than the limit and
their refunds, and the gain of the origin's reserve is zero (or not positive, if there was no
reserve to lose). -/
theorem deposit_returned_iff {contract : EvmAddress} {limit : ℕ} {body : Body} {l : Ledger α}
    (h : Regular D origin contract limit body l) :
    DepositReturned D origin contract limit body l ↔
      usedSum body.settledAll ≤ limit + refundedSum body.settledAll ∧
      (D.gain origin contract limit body (l.reserved (D.getAccountId origin)) = 0 ∨
        l.reserved (D.getAccountId origin) = 0 ∧
          D.gain origin contract limit body (l.reserved (D.getAccountId origin)) ≤ 0) := by
  obtain ⟨-, hcharged, hreleased, hwithin⟩ := h.summary
  have hequation : (limit : ℤ) = chargedNet (executeBody D origin contract limit body l).1.log +
        releasedSum (executeBody D origin contract limit body l).1.log ↔
      usedSum body.settledAll ≤ limit + refundedSum body.settledAll := by
    rw [hcharged, hreleased, netSum_eq, ← releasedStorage_eq_iff hwithin]
    exact Iff.rfl
  unfold DepositReturned
  rw [hequation, and_comm]
  refine and_congr_right fun hbelow => ?_
  have hfinal := h.reserved_eq hbelow
  omega

end Reserve

/-! ### Two executions -/

section Example

/-- Four accounts, the storage deposit of the runtime. -/
def fourAccounts : DepositConfig (Fin 4) where
  getAccountId a := ⟨a.toNat % 4, Nat.mod_lt _ (by decide)⟩
  storageDepositPerByte := 10 * MILLI_REEF
  minimumBalance := 1
  deposit_le := runtime_deposit_le

/-- The origin `0` has a reserve for other purposes; the other accounts have the deposit for one
storage slot. -/
def reservesElsewhere : Ledger (Fin 4) where
  free _ := 100 * REEF
  reserved a := if a = 0 then REEF else 640 * MILLI_REEF

/-- The root frame writes a slot, and so does a child frame. -/
def writeTwice : Body := .charge 64 (.child 2 (.charge 64 .done) true .done)

/-- The root frame clears a slot, a child frame writes one. -/
def clearThenWrite : Body := .refund 64 (.child 2 (.charge 64 .done) true .done)

/-- With two slots written under a limit for two slots, the deposit is conserved. -/
theorem deposit_returned_writeTwice :
    Regular fourAccounts 0 1 128 writeTwice reservesElsewhere ∧
      DepositReturned fourAccounts 0 1 128 writeTwice reservesElsewhere := by
  have hreg : Regular fourAccounts 0 1 128 writeTwice reservesElsewhere := by
    refine ⟨⟨by decide, by decide, ⟨by decide, by decide, trivial⟩, by decide, by decide, trivial⟩,
      by decide, ⟨trivial, fun _ => by decide, trivial⟩, by decide, fun e backing hmem => ?_⟩
    have hlog : (executeBody fourAccounts 0 1 128 writeTwice reservesElsewhere).1.log =
        [.charge ⟨2, 64, 0⟩ (640 * MILLI_REEF), .charge ⟨1, 64, 0⟩ (640 * MILLI_REEF),
          .release 0] := by decide
    rw [hlog] at hmem
    simp only [List.mem_cons, RootCall.charge.injEq, reduceCtorEq, List.not_mem_nil, or_false]
      at hmem
    rcases hmem with ⟨rfl, rfl⟩ | ⟨rfl, rfl⟩
    · exact fun hrefund => absurd hrefund (by decide)
    · exact fun hrefund => absurd hrefund (by decide)
  exact ⟨hreg, (deposit_returned_iff hreg).mpr ⟨by decide, .inl (by decide)⟩⟩

/-- **A release from other reserves.** The root frame frees a slot and a child frame uses it, under
a limit of zero. Everything is regular, but the origin ends with less than it had reserved before:
the release returns the deposit of the freed slot, which the child has spent. -/
theorem refund_used_by_child :
    Regular fourAccounts 0 1 0 clearThenWrite reservesElsewhere ∧
      ¬ DepositReturned fourAccounts 0 1 0 clearThenWrite reservesElsewhere ∧
      reservesElsewhere.reserved 0 = 1000 * MILLI_REEF ∧
      (executeBody fourAccounts 0 1 0 clearThenWrite reservesElsewhere).1.ledger.reserved 0 =
        360 * MILLI_REEF := by
  refine ⟨⟨⟨by decide, by decide, ⟨by decide, by decide, trivial⟩, by decide, by decide, trivial⟩,
    by decide, ⟨trivial, fun _ => by decide, trivial⟩, by decide, fun e backing hmem => ?_⟩, ?_,
    by decide, by decide⟩
  · have hlog : (executeBody fourAccounts 0 1 0 clearThenWrite reservesElsewhere).1.log =
        [.charge ⟨2, 64, 0⟩ (640 * MILLI_REEF), .charge ⟨1, 0, 64⟩ (640 * MILLI_REEF),
          .release 64] := by decide
    rw [hlog] at hmem
    simp only [List.mem_cons, RootCall.charge.injEq, reduceCtorEq, List.not_mem_nil, or_false]
      at hmem
    rcases hmem with ⟨rfl, rfl⟩ | ⟨rfl, rfl⟩
    · exact fun hrefund => absurd hrefund (by decide)
    · intro _
      decide
  · intro hreturned
    exact absurd hreturned.1 (by decide)

end Example

end Evm
end Reef
