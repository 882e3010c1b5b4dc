import ReefChain.Ledger

/-!
# Storage meters

Every frame of an EVM execution has a storage meter. It counts the bytes of storage the frame
itself uses and frees (`selfUsed`, `selfRefunded`) and those of the frame together with all frames
below it that have finished (`totalUsed`, `totalRefunded`). A meter's handler is the meter of the
parent frame; the root meter's handler moves the deposits. When a frame commits, its meter is
*finished*: the frame's own use is charged to the handler, which adds it to the totals of every
meter on the way up and reaches the root handler, and the root meter then releases what is left of
the deposit that was reserved for the whole execution.

In the source a meter holds a mutable reference to its handler. Here the meters from a frame up to
the root are a `Chain`: the frame's own meter and the meters above it, nearest first. The root
handler is a `Host`, which acts on a state `σ` of its own; `rollback` is what a storage transaction
does to that state. Meters are not part of it: they are plain values that a rolled back transaction
leaves as they are.

`DepositConfig` has the operations of the pallet's root handler, over the plain ledger.
-/

namespace Reef
namespace Evm

open Bounded

/-- The errors of the EVM pallet. -/
inductive Error
  | addressNotMapped
  | contractNotFound
  | noPermission
  | numOutOfBound
  | storageExceedsStorageLimit
  | contractDevelopmentNotEnabled
  | contractDevelopmentAlreadyEnabled
  | contractAlreadyDeployed
  | contractExceedsMaxCodeSize
  | outOfStorage
  | chargeFeeFailed
  | conflictContractAddress
  deriving DecidableEq, Repr

/-- What an operation of the pallet fails with. -/
abbrev DispatchError := Reef.DispatchError Error

/-- `DispatchResult`. -/
abbrev DispatchResult := Except DispatchError Unit

/-- The width of the storage counters (`u32`). -/
abbrev storageBits : ℕ := 32

/-- The root of a chain of meters: the operations of the trait `StorageMeterHandler` on a state `σ`,
and the effect of rolling back a storage transaction, `rollback start now`. -/
structure Host (σ : Type) where
  reserveStorage : σ → ℕ → σ × DispatchResult
  unreserveStorage : σ → ℕ → ℕ → ℕ → σ × DispatchResult
  chargeStorage : σ → EvmAddress → ℕ → ℕ → σ × DispatchResult
  rollback : σ → σ → σ

/-! ### One meter -/

/-- The meter of one frame. Its totals are values of their machine type. -/
structure StorageMeter where
  contract : EvmAddress
  limit : ℕ
  totalUsed : ℕ
  selfUsed : ℕ
  totalRefunded : ℕ
  selfRefunded : ℕ
  result : DispatchResult
  totalUsed_le : totalUsed ≤ maxValue storageBits
  totalRefunded_le : totalRefunded ≤ maxValue storageBits

namespace StorageMeter

/-- The meter `StorageMeter::new` builds once the handler has reserved the limit. -/
def new (contract : EvmAddress) (limit : ℕ) : StorageMeter where
  contract := contract
  limit := limit
  totalUsed := 0
  selfUsed := 0
  totalRefunded := 0
  selfRefunded := 0
  result := .ok ()
  totalUsed_le := Nat.zero_le _
  totalRefunded_le := Nat.zero_le _

/-- `available_storage`. -/
def availableStorage (m : StorageMeter) : ℕ :=
  match m.result with
  | .ok _ => satAdd storageBits m.limit m.totalRefunded - m.totalUsed
  | .error _ => 0

/-- `used_storage`, before the cast to `i32`. -/
def usedStorage (m : StorageMeter) : ℤ :=
  if m.totalRefunded < m.totalUsed then ((m.totalUsed - m.totalRefunded : ℕ) : ℤ)
  else -((m.totalRefunded - m.totalUsed : ℕ) : ℤ)

/-- `handle`: a meter whose result is an error does nothing but return it. -/
def handle (m : StorageMeter) (f : StorageMeter → StorageMeter × DispatchResult) :
    StorageMeter × DispatchResult :=
  match m.result with
  | .ok _ => f m
  | .error e => (m, .error e)

/-- `charge`. -/
def charge (m : StorageMeter) (storage : ℕ) : StorageMeter × DispatchResult :=
  m.handle fun this =>
    ({ this with
        totalUsed := satAdd storageBits this.totalUsed storage
        selfUsed := satAdd storageBits this.selfUsed storage
        totalUsed_le := satAdd_le_maxValue _ _ _ }, .ok ())

/-- `uncharge`. -/
def uncharge (m : StorageMeter) (storage : ℕ) : StorageMeter × DispatchResult :=
  m.handle fun this =>
    ({ this with
        totalUsed := this.totalUsed - storage
        selfUsed := this.selfUsed - storage
        totalUsed_le := (Nat.sub_le _ _).trans this.totalUsed_le }, .ok ())

/-- `refund`. -/
def refund (m : StorageMeter) (storage : ℕ) : StorageMeter × DispatchResult :=
  m.handle fun this =>
    ({ this with
        totalRefunded := satAdd storageBits this.totalRefunded storage
        selfRefunded := satAdd storageBits this.selfRefunded storage
        totalRefunded_le := satAdd_le_maxValue _ _ _ }, .ok ())

/-- What `charge_storage` adds to the totals of a meter a finishing frame passes on its way up. -/
def absorb (m : StorageMeter) (used refunded : ℕ) : StorageMeter :=
  { m with
    totalRefunded := satAdd storageBits m.totalRefunded refunded
    totalUsed := satAdd storageBits m.totalUsed used
    totalUsed_le := satAdd_le_maxValue _ _ _
    totalRefunded_le := satAdd_le_maxValue _ _ _ }

/-- The use of storage is within the limit of the meter. -/
def withinLimit (m : StorageMeter) : Bool := decide (m.totalUsed - m.totalRefunded ≤ m.limit)

/-- The limit `finish` passes on to `unreserve_storage`. -/
def newLimit (m : StorageMeter) : ℕ :=
  satAdd storageBits (satAdd storageBits m.limit m.selfUsed) m.totalRefunded
    - m.totalUsed - m.selfRefunded

end StorageMeter

/-! ### Chains of meters -/

/-- The meter of a frame and the meters above it, nearest first. -/
structure Chain where
  self : StorageMeter
  above : List StorageMeter

/-- `TransactionOutcome`. -/
inductive TransactionOutcome (ρ : Type)
  | commit (r : ρ)
  | rollback (r : ρ)

section Chains

variable {σ ρ : Type} (H : Host σ)

/-- `charge_storage` on the handler of a meter with `ms` above it: every meter adds the amounts to
its totals before it passes the call on. -/
def chargeStorage (contract : EvmAddress) (used refunded : ℕ) :
    List StorageMeter → σ → List StorageMeter × σ × DispatchResult
  | [], s =>
    let (s, result) := H.chargeStorage s contract used refunded
    ([], s, result)
  | m :: ms, s =>
    match m.result with
    | .error e => (m :: ms, s, .error e)
    | .ok _ =>
      let (ms, s, result) := chargeStorage contract used refunded ms s
      (m.absorb used refunded :: ms, s, result)

/-- `unreserve_storage` on the handler of a meter with `ms` above it: only the root handler acts. -/
def unreserveStorage (limit used refunded : ℕ) : List StorageMeter → σ → σ × DispatchResult
  | [], s => H.unreserveStorage s limit used refunded
  | _ :: _, s => (s, .ok ())

/-- `child_meter`: the child may use what the parent has available. -/
def Chain.childMeter (c : Chain) (contract : EvmAddress) : Except DispatchError Chain :=
  match c.self.result with
  | .ok _ => .ok ⟨.new contract c.self.availableStorage, c.self :: c.above⟩
  | .error e => .error e

/-- `finish`: the meters above the finished one, the host's state, and the result. -/
def Chain.finish (c : Chain) (s : σ) : List StorageMeter × σ × DispatchResult :=
  match c.self.result with
  | .error e => (c.above, s, .error e)
  | .ok _ =>
    if c.self.withinLimit then
      match chargeStorage H c.self.contract c.self.selfUsed c.self.selfRefunded c.above s with
      | (above, s, .error e) => (above, s, .error e)
      | (above, s, .ok _) =>
        let (s, result) :=
          unreserveStorage H c.self.newLimit c.self.selfUsed c.self.selfRefunded above s
        (above, s, result)
    else (c.above, s, .error (.other "OutOfStorage"))

/-- The chain of the parent frame, given the meters a child leaves above itself. -/
def Chain.back (c : Chain) : List StorageMeter → Chain
  | [] => c
  | m :: ms => ⟨m, ms⟩

/-- `run_sub_transaction`: run `f` as a child frame of `contract` in a storage transaction. -/
def runSubTransaction (contract : EvmAddress)
    (f : Chain → σ → Chain × σ × TransactionOutcome ρ) (c : Chain) (s : σ) :
    Chain × σ × Except DispatchError ρ :=
  match c.childMeter contract with
  | .error e => (c, s, .error e)
  | .ok child =>
    match f child s with
    | (child, s', .commit r) =>
      match child.finish H s' with
      | (above, s'', .ok _) => (c.back above, s'', .ok r)
      | (above, s'', .error e) => (c.back above, H.rollback s s'', .error e)
    | (child, s', .rollback r) => (c.back child.above, H.rollback s s', .ok r)

/-- `run_transaction`: run `f` as the root frame of `contract` in a storage transaction. -/
def runTransaction (contract : EvmAddress) (storageLimit : ℕ)
    (f : Chain → σ → Chain × σ × TransactionOutcome ρ) (s : σ) : σ × Except DispatchError ρ :=
  match H.reserveStorage s storageLimit with
  | (s', .error e) => (H.rollback s s', .error e)
  | (s', .ok _) =>
    match f ⟨.new contract storageLimit, []⟩ s' with
    | (root, s'', .commit r) =>
      match root.finish H s'' with
      | (_, s₃, .ok _) => (s₃, .ok r)
      | (_, s₃, .error e) => (H.rollback s s₃, .error e)
    | (_, s'', .rollback r) => (H.rollback s s'', .ok r)

variable {H} in
/-- **What a transaction that returns has done.** The storage limit was reserved and the body has
run. If it commits its meter was finished, otherwise everything is undone. -/
theorem runTransaction_eq_ok {contract : EvmAddress} {limit : ℕ}
    {body : Chain → σ → Chain × σ × TransactionOutcome ρ} {s s' : σ} {r : ρ}
    (h : runTransaction H contract limit body s = (s', .ok r)) :
    ∃ s₁, H.reserveStorage s limit = (s₁, .ok ()) ∧
      let x := body ⟨.new contract limit, []⟩ s₁
      ((∃ above, x.2.2 = .commit r ∧ x.1.finish H x.2.1 = (above, s', .ok ())) ∨
        (x.2.2 = .rollback r ∧ s' = H.rollback s x.2.1)) := by
  unfold runTransaction at h
  split at h
  · cases h
  · next s₁ u hreserve =>
    refine ⟨s₁, hreserve, ?_⟩
    split at h
    · next root s₂ r' hbody =>
      -- the body commits, and the transaction returns only if its meter can be finished
      split at h
      · next above s₃ v hfin =>
        cases h
        rw [hbody]
        exact .inl ⟨above, rfl, hfin⟩
      · cases h
    · next root s₂ r' hbody =>
      cases h
      rw [hbody]
      exact .inr ⟨rfl, rfl⟩

end Chains

/-! ### The deposits -/

/-- The configuration the deposits depend on. The deposit for the largest amount of storage is a
balance. -/
structure DepositConfig (α : Type) where
  getAccountId : EvmAddress → α
  storageDepositPerByte : ℕ
  minimumBalance : ℕ
  deposit_le : storageDepositPerByte * maxValue storageBits ≤ maxValue balanceBits

/-- The price of the runtime is low enough. -/
theorem runtime_deposit_le :
    10 * MILLI_REEF * maxValue storageBits ≤ maxValue balanceBits := by decide

namespace DepositConfig

variable {α : Type} [DecidableEq α] (D : DepositConfig α)

/-- The deposit for `storage` bytes. -/
def deposit (storage : ℕ) : ℕ := satMul balanceBits D.storageDepositPerByte storage

/-- `StorageMeterHandlerImpl::reserve_storage`. -/
def reserveStorage (origin : EvmAddress) (l : Ledger α) (limit : ℕ) :
    Ledger α × DispatchResult :=
  if limit = 0 then (l, .ok ())
  else
    match l.reserve (D.getAccountId origin) (D.deposit limit) with
    | .ok l => (l, .ok ())
    | .error e => (l, .error (.currency e))

/-- The amount of storage `unreserve_storage` releases the deposit of. -/
def unused (limit used refunded : ℕ) : ℕ := satAdd storageBits limit refunded - used

/-- `StorageMeterHandlerImpl::unreserve_storage`: what cannot be unreserved is ignored. -/
def unreserveStorage (origin : EvmAddress) (l : Ledger α) (limit used refunded : ℕ) :
    Ledger α × DispatchResult :=
  if unused limit used refunded = 0 then (l, .ok ())
  else ((l.unreserve (D.getAccountId origin) (D.deposit (unused limit used refunded))).1, .ok ())

/-- `StorageMeterHandlerImpl::charge_storage`: a net use moves from the origin's reserve to that of
the contract, with the existential deposit on top; a net refund moves back. -/
def chargeStorage (origin : EvmAddress) (l : Ledger α) (contract : EvmAddress)
    (used refunded : ℕ) : Ledger α × DispatchResult :=
  let user := D.getAccountId origin
  let contractAcc := D.getAccountId contract
  if used = refunded then (l, .ok ())
  else if refunded < used then
    let amount := D.deposit (used - refunded)
    let l := (l.unreserve user amount).1
    match l.transfer user contractAcc (satAdd balanceBits amount D.minimumBalance) with
    | .error e => (l, .error (.currency e))
    | .ok l =>
      match l.reserve contractAcc amount with
      | .error e => (l, .error (.currency e))
      | .ok l => (l, .ok ())
  else
    let amount := D.deposit (refunded - used)
    ((l.repatriateReserved contractAcc user amount).1, .ok ())

omit [DecidableEq α] in
/-- The deposit of a storage amount that fits its counter is exact. -/
theorem deposit_eq {storage : ℕ} (h : storage < 2 ^ storageBits) :
    D.deposit storage = D.storageDepositPerByte * storage := by
  unfold deposit satMul
  refine min_eq_left (le_trans (Nat.mul_le_mul_left _ ?_) D.deposit_le)
  exact lt_two_pow_iff.mp h

variable {D} in
/-- **What a settlement does.** A net refund is repatriated from the contract. A net use is taken
from the reserve of the origin, transferred with the existential deposit on top and reserved at the
contract. -/
theorem chargeStorage_cases {origin contract : EvmAddress} {l l' : Ledger α} {used refunded : ℕ}
    (h : D.chargeStorage origin l contract used refunded = (l', .ok ()))
    (hused : used < 2 ^ storageBits) (hrefunded : refunded < 2 ^ storageBits) :
    (used < refunded ∧ l' = (l.repatriateReserved (D.getAccountId contract) (D.getAccountId origin)
      (D.storageDepositPerByte * (refunded - used))).1) ∨
    (used = refunded ∧ l' = l) ∨
    (refunded < used ∧ ∃ l₁,
      (l.unreserve (D.getAccountId origin) (D.storageDepositPerByte * (used - refunded))).1.transfer
        (D.getAccountId origin) (D.getAccountId contract) (satAdd balanceBits
          (D.storageDepositPerByte * (used - refunded)) D.minimumBalance) = .ok l₁ ∧
      l₁.reserve (D.getAccountId contract) (D.storageDepositPerByte * (used - refunded)) =
        .ok l') := by
  unfold chargeStorage at h
  rcases Nat.lt_trichotomy used refunded with hlt | heq | hgt
  · rw [if_neg hlt.ne, if_neg hlt.not_gt, D.deposit_eq (by omega)] at h
    exact .inl ⟨hlt, (Prod.mk.inj h).1.symm⟩
  · rw [if_pos heq] at h
    exact .inr (.inl ⟨heq, (Prod.mk.inj h).1.symm⟩)
  · rw [if_neg hgt.ne', if_pos hgt, D.deposit_eq (by omega)] at h
    simp only [] at h
    split at h
    · cases h
    · next l₁ htransfer =>
      split at h
      · cases h
      · next l₂ hreserve =>
        cases h
        exact .inr (.inr ⟨hgt, l₁, htransfer, hreserve⟩)

end DepositConfig

end Evm
end Reef
