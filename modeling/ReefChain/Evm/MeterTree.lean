import ReefChain.Evm.StorageMeter

/-!
# Trees of metered frames

A frame's use of its storage meter is a `Body`: it charges and refunds storage and runs child
frames, each of which ends by asking to commit or to roll back. `Body.run` runs a body on a chain of
meters over an arbitrary host, with `runSubTransaction` for the children.

Meters do not depend on the host. When a frame finishes, the amounts it passes up are added to every
meter above it *before* the root handler is asked, so they stay there whether or not the root
handler accepts the charge; and a storage transaction that is rolled back restores the host's state,
not the meters. `Body.eval` makes this precise: it computes, without a host, what a body does to its
own meter and the list of settlements it passes up, and `Body.run_chain` says that this is what
happens on every chain and every host.

It follows what a child frame that does not commit leaves behind in the meters of its ancestors: the
settlements of all frames below it that finished within their limits, and its own when it is the
root handler that refused it. Ancestors are untouched exactly when these settlements are void
(`ancestors_untouched_iff`), and a rolled back child with a committed child of its own is enough for
them not to be (`rolled_back_child_charges_ancestors`).
-/

namespace Reef
namespace Evm

open Bounded

/-- What the frames of an execution do with their storage meters. -/
inductive Body
  | done
  | charge (storage : ℕ) (next : Body)
  | refund (storage : ℕ) (next : Body)
  /-- Run a child frame of `contract`, which asks to commit or to roll back. -/
  | child (contract : EvmAddress) (body : Body) (commit : Bool) (next : Body)
  deriving DecidableEq

/-- The outcome a frame asks for. -/
def outcome (commit : Bool) : TransactionOutcome Unit :=
  if commit then .commit () else .rollback ()

/-- The storage a finishing frame charges for its contract. -/
structure Settlement where
  contract : EvmAddress
  used : ℕ
  refunded : ℕ
  deriving DecidableEq

section Run

variable {σ : Type} (H : Host σ)

/-- Run a body on a chain of meters. -/
def Body.run : Body → Chain → σ → Chain × σ
  | .done, c, s => (c, s)
  | .charge storage next, c, s => next.run { c with self := (c.self.charge storage).1 } s
  | .refund storage next, c, s => next.run { c with self := (c.self.refund storage).1 } s
  | .child contract body commit next, c, s =>
    let r := runSubTransaction H contract (fun c s =>
      let (c, s) := body.run c s
      (c, s, outcome commit)) c s
    next.run r.1 r.2.1

/-- Run a body as a child frame. -/
def runChild (contract : EvmAddress) (body : Body) (commit : Bool) (c : Chain) (s : σ) :
    Chain × σ × Except DispatchError Unit :=
  runSubTransaction H contract (fun c s => ((body.run H c s).1, (body.run H c s).2, outcome commit))
    c s

theorem Body.run_child (contract : EvmAddress) (body : Body) (commit : Bool) (next : Body)
    (c : Chain) (s : σ) :
    (Body.child contract body commit next).run H c s =
      next.run H (runChild H contract body commit c s).1
        (runChild H contract body commit c s).2.1 := rfl

end Run

/-! ### Meters without a host -/

namespace StorageMeter

/-- Add settlements to the totals of a meter, one after the other. -/
def absorbAll (m : StorageMeter) (es : List Settlement) : StorageMeter :=
  es.foldl (fun m e => m.absorb e.used e.refunded) m

/-- Settlements are absorbed one after the other. -/
theorem absorbAll_append (m : StorageMeter) (es fs : List Settlement) :
    m.absorbAll (es ++ fs) = (m.absorbAll es).absorbAll fs := List.foldl_append

/-- The settlement of a frame with this meter. -/
def settlement (m : StorageMeter) : Settlement := ⟨m.contract, m.selfUsed, m.selfRefunded⟩

/-- What a frame that asks for `commit` with this meter passes up when it ends. -/
def passedUp (m : StorageMeter) (commit : Bool) : List Settlement :=
  if commit && m.withinLimit then [m.settlement] else []

end StorageMeter

/-- The effect of a body on its own meter, and the settlements it passes up. -/
def Body.eval : Body → StorageMeter → StorageMeter × List Settlement
  | .done, m => (m, [])
  | .charge storage next, m => next.eval (m.charge storage).1
  | .refund storage next, m => next.eval (m.refund storage).1
  | .child contract body commit next, m =>
    let (inner, below) := body.eval (.new contract m.availableStorage)
    let up := below ++ inner.passedUp commit
    let (m, rest) := next.eval (m.absorbAll up)
    (m, up ++ rest)

/-- The settlements a child frame of `contract` passes up to the parent meter `m`. -/
def childSettlements (contract : EvmAddress) (body : Body) (commit : Bool) (m : StorageMeter) :
    List Settlement :=
  (body.eval (.new contract m.availableStorage)).2 ++
    (body.eval (.new contract m.availableStorage)).1.passedUp commit

theorem Body.eval_child (contract : EvmAddress) (body : Body) (commit : Bool) (next : Body)
    (m : StorageMeter) :
    (Body.child contract body commit next).eval m =
      ((next.eval (m.absorbAll (childSettlements contract body commit m))).1,
        childSettlements contract body commit m ++
          (next.eval (m.absorbAll (childSettlements contract body commit m))).2) := rfl

/-- Add settlements to the meters above a frame. A meter whose result is an error stops them. -/
def absorbAbove (es : List Settlement) : List StorageMeter → List StorageMeter
  | [] => []
  | m :: ms =>
    match m.result with
    | .ok _ => m.absorbAll es :: absorbAbove es ms
    | .error _ => m :: ms

/-! ### Meters keep their result and their place -/

@[simp] theorem StorageMeter.charge_result (m : StorageMeter) (storage : ℕ) :
    (m.charge storage).1.result = m.result := by
  unfold charge handle
  split <;> rfl

@[simp] theorem StorageMeter.refund_result (m : StorageMeter) (storage : ℕ) :
    (m.refund storage).1.result = m.result := by
  unfold refund handle
  split <;> rfl

@[simp] theorem StorageMeter.absorbAll_result (m : StorageMeter) (es : List Settlement) :
    (m.absorbAll es).result = m.result := by
  induction es generalizing m with
  | nil => rfl
  | cons e es ih => exact (ih (m.absorb e.used e.refunded)).trans rfl

/-- A body leaves the result of its meter as it is. -/
theorem Body.eval_result (body : Body) (m : StorageMeter) :
    (body.eval m).1.result = m.result := by
  induction body generalizing m with
  | done => rfl
  | charge storage next ih => exact (ih _).trans (m.charge_result storage)
  | refund storage next ih => exact (ih _).trans (m.refund_result storage)
  | child contract body commit next _ ih =>
    rw [Body.eval_child]
    exact (ih _).trans (m.absorbAll_result _)

@[simp] theorem absorbAbove_nil (ms : List StorageMeter) : absorbAbove [] ms = ms := by
  induction ms with
  | nil => rfl
  | cons m ms ih =>
    unfold absorbAbove
    split
    · rw [ih]
      rfl
    · rfl

theorem absorbAbove_append (es fs : List Settlement) (ms : List StorageMeter) :
    absorbAbove (es ++ fs) ms = absorbAbove fs (absorbAbove es ms) := by
  induction ms with
  | nil => rfl
  | cons m ms ih =>
    cases hm : m.result with
    | ok u =>
      have hm' : (m.absorbAll es).result = .ok u := by rw [m.absorbAll_result, hm]
      simp only [absorbAbove, hm, hm', ih, m.absorbAll_append]
    | error e => simp only [absorbAbove, hm]

/-! ### Runs on a host -/

section Run

variable {σ : Type} (H : Host σ)

/-- A charge on its way up adds itself to the meters it passes, whatever the root handler does. -/
theorem chargeStorage_meters (e : Settlement) (ms : List StorageMeter) (s : σ) :
    (chargeStorage H e.contract e.used e.refunded ms s).1 = absorbAbove [e] ms := by
  induction ms with
  | nil => rfl
  | cons m ms ih =>
    cases hm : m.result with
    | ok u =>
      simp only [chargeStorage, absorbAbove, hm, ih]
      rfl
    | error x => simp only [chargeStorage, absorbAbove, hm]

/-- A meter that finishes passes its settlement up if it is within its limit. -/
theorem Chain.finish_meters (c : Chain) (s : σ) (hc : c.self.result = .ok ()) :
    (c.finish H s).1 = absorbAbove (c.self.passedUp true) c.above := by
  have hmeters := chargeStorage_meters H c.self.settlement c.above s
  simp only [StorageMeter.settlement] at hmeters
  unfold Chain.finish StorageMeter.passedUp
  simp only [hc, Bool.true_and]
  split
  · -- both results of the root handler leave the same meters
    split
    · next above s' x hcharge =>
      rw [hcharge] at hmeters
      exact hmeters
    · next above s' u hcharge =>
      rw [hcharge] at hmeters
      exact hmeters
  · rw [absorbAbove_nil]

/-- The meters after a child frame, for a body whose effect on the meters is known. -/
theorem runChild_chain_of {contract : EvmAddress} {body : Body} (commit : Bool) {c : Chain} {s : σ}
    (hc : c.self.result = .ok ())
    (hbody : (body.run H ⟨.new contract c.self.availableStorage, c.self :: c.above⟩ s).1 =
      ⟨(body.eval (.new contract c.self.availableStorage)).1,
        absorbAbove (body.eval (.new contract c.self.availableStorage)).2
          (c.self :: c.above)⟩) :
    (runChild H contract body commit c s).1 =
      ⟨c.self.absorbAll (childSettlements contract body commit c.self),
        absorbAbove (childSettlements contract body commit c.self) c.above⟩ := by
  have hchild : c.childMeter contract =
      .ok ⟨.new contract c.self.availableStorage, c.self :: c.above⟩ := by
    simp only [Chain.childMeter, hc]
  -- what the child leaves above itself, in both outcomes, is the settled chain of the parent
  have hback : ∀ es, c.back (absorbAbove es (c.self :: c.above)) =
      ⟨c.self.absorbAll es, absorbAbove es c.above⟩ := by
    intro es
    simp only [absorbAbove, hc, Chain.back]
  generalize hinner : body.eval (.new contract c.self.availableStorage) = inner at hbody
  have hresult : inner.1.result = .ok () := by
    rw [← hinner]
    exact body.eval_result _
  have hup : childSettlements contract body commit c.self =
      inner.2 ++ inner.1.passedUp commit := by
    rw [childSettlements, hinner]
  rw [hup, ← hback, absorbAbove_append]
  cases commit with
  | false =>
    simp only [runChild, runSubTransaction, hchild, hbody, outcome, StorageMeter.passedUp,
      Bool.false_and, Bool.false_eq_true, if_false, absorbAbove_nil]
  | true =>
    have hfin := Chain.finish_meters H ⟨inner.1, absorbAbove inner.2 (c.self :: c.above)⟩
      (body.run H ⟨.new contract c.self.availableStorage, c.self :: c.above⟩ s).2 hresult
    simp only [runChild, runSubTransaction, hchild, hbody, outcome, if_true]
    split
    · next above s' u heq =>
      rw [heq] at hfin
      rw [← hfin]
    · next above s' x heq =>
      rw [heq] at hfin
      rw [← hfin]

/-- **Meters do not depend on the host.** On every chain and every host, a body leaves its own meter
as `Body.eval` computes it and adds the settlements it passes up to the meters above. -/
theorem Body.run_chain (body : Body) (c : Chain) (s : σ) (hc : c.self.result = .ok ()) :
    (body.run H c s).1 = ⟨(body.eval c.self).1, absorbAbove (body.eval c.self).2 c.above⟩ := by
  induction body generalizing c s with
  | done =>
    change c = ⟨c.self, absorbAbove [] c.above⟩
    rw [absorbAbove_nil]
  | charge storage next ih =>
    exact ih { c with self := (c.self.charge storage).1 } s (by simp [hc])
  | refund storage next ih =>
    exact ih { c with self := (c.self.refund storage).1 } s (by simp [hc])
  | child contract body commit next ihbody ihnext =>
    have hchild := runChild_chain_of H commit hc
      (ihbody ⟨.new contract c.self.availableStorage, c.self :: c.above⟩ s rfl)
    rw [Body.run_child, Body.eval_child, absorbAbove_append]
    have hnext := ihnext (runChild H contract body commit c s).1
      (runChild H contract body commit c s).2.1 (by rw [hchild]; simp [hc])
    rw [hnext, hchild]

/-- The meters of the parent chain after a child frame, on every host. -/
theorem runChild_chain (contract : EvmAddress) (body : Body) (commit : Bool) (c : Chain) (s : σ)
    (hc : c.self.result = .ok ()) :
    (runChild H contract body commit c s).1 =
      ⟨c.self.absorbAll (childSettlements contract body commit c.self),
        absorbAbove (childSettlements contract body commit c.self) c.above⟩ :=
  runChild_chain_of H commit hc
    (body.run_chain H ⟨.new contract c.self.availableStorage, c.self :: c.above⟩ s rfl)

end Run

/-! ### What a frame leaves in the meters above it -/

/-- The storage used by a list of settlements. -/
def usedSum (es : List Settlement) : ℕ := (es.map Settlement.used).sum

/-- The storage refunded by a list of settlements. -/
def refundedSum (es : List Settlement) : ℕ := (es.map Settlement.refunded).sum

@[simp] theorem usedSum_nil : usedSum [] = 0 := rfl

@[simp] theorem refundedSum_nil : refundedSum [] = 0 := rfl

@[simp] theorem usedSum_cons (e : Settlement) (es : List Settlement) :
    usedSum (e :: es) = e.used + usedSum es := List.sum_cons

@[simp] theorem refundedSum_cons (e : Settlement) (es : List Settlement) :
    refundedSum (e :: es) = e.refunded + refundedSum es := List.sum_cons

namespace StorageMeter

/-- The four counters of a meter. -/
def counters (m : StorageMeter) : ℕ × ℕ × ℕ × ℕ :=
  (m.totalUsed, m.totalRefunded, m.selfUsed, m.selfRefunded)

/-- What the children used is added up, and saturates. -/
theorem absorbAll_totalUsed (m : StorageMeter) (es : List Settlement) :
    (m.absorbAll es).totalUsed = satAdd storageBits m.totalUsed (usedSum es) := by
  induction es generalizing m with
  | nil => exact (satAdd_zero m.totalUsed_le).symm
  | cons e es ih =>
    have hrest := ih (m.absorb e.used e.refunded)
    rw [usedSum_cons, ← satAdd_satAdd]
    exact hrest

theorem absorbAll_totalRefunded (m : StorageMeter) (es : List Settlement) :
    (m.absorbAll es).totalRefunded = satAdd storageBits m.totalRefunded (refundedSum es) := by
  induction es generalizing m with
  | nil => exact (satAdd_zero m.totalRefunded_le).symm
  | cons e es ih =>
    have hrest := ih (m.absorb e.used e.refunded)
    rw [refundedSum_cons, ← satAdd_satAdd]
    exact hrest

/-- Settlements of other frames leave everything but the totals. -/
theorem absorbAll_self (m : StorageMeter) (es : List Settlement) :
    (m.absorbAll es).selfUsed = m.selfUsed ∧ (m.absorbAll es).selfRefunded = m.selfRefunded ∧
      (m.absorbAll es).limit = m.limit ∧ (m.absorbAll es).contract = m.contract := by
  induction es generalizing m with
  | nil => exact ⟨rfl, rfl, rfl, rfl⟩
  | cons e es ih => exact ih (m.absorb e.used e.refunded)

/-- The settlements do not show in the counters of the meter: they are void, or the counter they
belong to has reached its largest value. -/
def Unmoved (m : StorageMeter) (es : List Settlement) : Prop :=
  (usedSum es = 0 ∨ m.totalUsed = maxValue storageBits) ∧
  (refundedSum es = 0 ∨ m.totalRefunded = maxValue storageBits)

theorem counters_absorbAll_iff (m : StorageMeter) (es : List Settlement) :
    (m.absorbAll es).counters = m.counters ↔ m.Unmoved es := by
  obtain ⟨hused, hrefunded, -, -⟩ := m.absorbAll_self es
  unfold counters Unmoved
  rw [hused, hrefunded, absorbAll_totalUsed, absorbAll_totalRefunded]
  simp only [Prod.mk.injEq, and_true]
  rw [satAdd_eq_left_iff m.totalUsed_le, satAdd_eq_left_iff m.totalRefunded_le]

end StorageMeter

/-- The meters of a list that a charge from below reaches: those before the first whose result is an
error. -/
def reached (ms : List StorageMeter) : List StorageMeter := ms.takeWhile fun m => m.result.isOk

/-- The meters above stand still if none that is reached moves. -/
theorem counters_absorbAbove_iff (es : List Settlement) (ms : List StorageMeter) :
    (absorbAbove es ms).map StorageMeter.counters = ms.map StorageMeter.counters ↔
      ∀ m ∈ reached ms, m.Unmoved es := by
  induction ms with
  | nil => simp [absorbAbove, reached]
  | cons m ms ih =>
    cases hm : m.result with
    | ok u =>
      have hreached : reached (m :: ms) = m :: reached ms := by
        unfold reached
        rw [List.takeWhile_cons_of_pos (by rw [hm]; rfl)]
      simp only [absorbAbove, hm, List.map_cons, List.cons.injEq, m.counters_absorbAll_iff es, ih,
        hreached, List.forall_mem_cons]
    | error x =>
      have hreached : reached (m :: ms) = [] := by
        unfold reached
        rw [List.takeWhile_cons_of_neg (by rw [hm]; simp [Except.isOk, Except.toBool])]
      simp [absorbAbove, hm, hreached]

section Untouched

variable {σ : Type} (H : Host σ)

/-- The meters of a chain, the frame's own first. -/
def Chain.meters (c : Chain) : List StorageMeter := c.self :: c.above

/-- The child frame does not commit: it asks to be rolled back, or it cannot be finished. -/
def Uncommitted (contract : EvmAddress) (body : Body) (commit : Bool) (c : Chain) (s : σ) : Prop :=
  commit = false ∨ ∃ e, (runChild H contract body commit c s).2.2 = .error e

/-- **What a failed frame leaves behind.** A child frame that does not commit leaves the counters of
all its ancestors as they were exactly when the settlements passed up from it and from the frames
below it show in none of the meters they reach. -/
theorem ancestors_untouched_iff (contract : EvmAddress) (body : Body) (commit : Bool) (c : Chain)
    (s : σ) :
    (Uncommitted H contract body commit c s →
      (runChild H contract body commit c s).1.meters.map StorageMeter.counters =
        c.meters.map StorageMeter.counters) ↔
    (Uncommitted H contract body commit c s →
      ∀ m ∈ reached c.meters, m.Unmoved (childSettlements contract body commit c.self)) := by
  refine imp_congr_right fun _ => ?_
  rw [← counters_absorbAbove_iff]
  cases hc : c.self.result with
  | ok u =>
    have hmeters : (runChild H contract body commit c s).1.meters =
        absorbAbove (childSettlements contract body commit c.self) c.meters := by
      rw [runChild_chain H contract body commit c s hc]
      simp only [Chain.meters, absorbAbove, hc]
    rw [hmeters]
  | error e =>
    -- no child meter is created under a failed meter
    have hchain : (runChild H contract body commit c s).1 = c := by
      simp only [runChild, runSubTransaction, Chain.childMeter, hc]
    have habove : absorbAbove (childSettlements contract body commit c.self) c.meters =
        c.meters := by
      simp only [Chain.meters, absorbAbove, hc]
    rw [hchain, habove]

/-- A root handler that accepts everything. -/
def acceptingHost : Host Unit where
  reserveStorage _ _ := ((), .ok ())
  unreserveStorage _ _ _ _ := ((), .ok ())
  chargeStorage _ _ _ _ := ((), .ok ())
  rollback _ _ := ()

/-- A child frame that is rolled back, after a child of its own used 64 bytes and committed, leaves
these 64 bytes in the total of its parent. -/
theorem rolled_back_child_charges_ancestors :
    let c : Chain := ⟨.new 1 1000, []⟩
    let body : Body := .child 3 (.charge 64 .done) true .done
    Uncommitted acceptingHost 2 body false c () ∧
    c.meters.map StorageMeter.counters = [(0, 0, 0, 0)] ∧
    (runChild acceptingHost 2 body false c ()).1.meters.map StorageMeter.counters =
      [(64, 0, 0, 0)] := by
  refine ⟨.inl rfl, rfl, ?_⟩
  decide

end Untouched

end Evm
end Reef
