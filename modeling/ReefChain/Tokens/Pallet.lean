import Mathlib.Data.Finmap
import Mathlib.Data.Prod.Basic
import Mathlib.Logic.Function.Basic
import ReefChain.Lib.Bounded
import ReefChain.Lib.Fallible
import ReefChain.Lib.FiniteMap
import ReefChain.Lib.Run
import ReefChain.Lib.SortedVec
import ReefChain.Primitives

/-!
# The pallet `tokens`

The pallet `tokens` holds the balances of all currencies but the native one. For an account and a
currency it stores a free and a reserved balance and the amount that is frozen by locks; for each
currency it stores the total issuance, for each account and currency the locks and the named
reserves.

Every write of a balance goes through `try_mutate_account`: the account is read, changed by a
closure and written back. An account whose total becomes zero is removed (unless the existential
deposit is zero). An account with a total below the existential deposit is *dust*: it is
written, and then a configured handler is told of it, which may transfer or burn the dust with the
operations of the pallet. So the operations call the handler and the handler calls the operations.
Here the mutation has the handler as a parameter, and `dustHandler` ties the knot for as many levels
as it is given fuel; the pallet runs with one level, as the handler never meets new dust
(`dustHandler_succ`, in `ReefChain.Tokens.Dust`).

The closure given to `try_mutate_account` may itself mutate accounts, as `do_transfer` does for the
sender within the mutation of the recipient. It therefore gets the state and returns one.

* Balances are natural numbers; additions saturate or fail at `balanceBits` as in the source.
* Operations that fail without having written anything are in `Except`. Those that can fail after
  they have written something (`update_locks` and the repatriation of a named reserve) return the
  state along with the result.
* Events, weights, `log` messages and the hooks other than `OnDust` are left out.
* `frame_system` is there with the reference counters of the accounts.
-/

namespace Reef.Tokens

open Bounded Fallible

/-- The errors of the pallet. -/
inductive Error
  | balanceTooLow
  | amountIntoBalanceFailed
  | liquidityRestrictions
  | maxLocksExceeded
  | keepAlive
  | existentialDeposit
  | deadAccount
  | tooManyReserves
  deriving DecidableEq, Repr

/-- `sp_runtime::TokenError`, as far as the pallet uses it. -/
inductive TokenError
  | fundsUnavailable
  | onlyProvider
  | belowMinimum
  | frozen
  deriving DecidableEq, Repr

/-- `sp_runtime::DispatchError`, as far as the pallet uses it. -/
inductive Failure
  | module (e : Error)
  | token (e : TokenError)
  | overflow
  | underflow
  | badOrigin
  deriving DecidableEq, Repr

/-- `LockIdentifier`, eight bytes. -/
abbrev LockIdentifier := BitVec 64

/-- A lock on a balance. -/
structure BalanceLock where
  id : LockIdentifier
  amount : ℕ
  deriving DecidableEq, Repr

/-- A named reserve. -/
structure ReserveData (ι : Type) where
  id : ι
  amount : ℕ
  deriving DecidableEq, Repr

/-- The balance information for an account. -/
structure AccountData where
  free : ℕ := 0
  reserved : ℕ := 0
  frozen : ℕ := 0
  deriving DecidableEq, Repr, Inhabited

/-- `AccountData::total`: all of the balance, including what is reserved. -/
def AccountData.total (a : AccountData) : ℕ := satAdd balanceBits a.free a.reserved

/-- `ExistenceRequirement`. -/
inductive ExistenceRequirement
  | keepAlive
  | allowDeath
  deriving DecidableEq, Repr

/-- `BalanceStatus`. -/
inductive BalanceStatus
  | free
  | reserved
  deriving DecidableEq, Repr

/-- The hook `OnDust`: the unit hook, `TransferDust` and `BurnDust`. -/
inductive OnDust (α : Type)
  | ignore
  | transferDust (receiver : α)
  | burnDust
  deriving DecidableEq, Repr

/-- The configuration of the pallet, with the bound of `frame_system` on the consumers of an
account. -/
structure Config (α κ : Type) where
  existentialDeposits : κ → ℕ
  dustRemovalWhitelist : α → Bool
  onDust : OnDust α
  maxLocks : ℕ
  maxReserves : ℕ
  maxConsumers : ℕ
  /-- The existential deposits are balances. -/
  deposit_lt : ∀ c, existentialDeposits c < 2 ^ balanceBits

/-- The configuration of the runtime: no existential deposits, the unit hook, and as many named
reserves as there are identifiers. -/
def runtimeConfig (α κ : Type) : Config α κ where
  existentialDeposits _ := 0
  dustRemovalWhitelist _ := false
  onDust := .ignore
  maxLocks := 50
  maxReserves := 4
  maxConsumers := 16
  deposit_lt _ := Nat.two_pow_pos _

/-- The reference counters `frame_system` keeps for an account. -/
structure Refs where
  providers : ℕ := 0
  consumers : ℕ := 0
  deriving DecidableEq, Repr, Inhabited

/-- The storage of the pallet and the reference counters. -/
structure State (α κ ι : Type) where
  totalIssuance : κ → ℕ
  accounts : Finmap fun _ : α × κ => AccountData
  locks : Finmap fun _ : α × κ => List BalanceLock
  reserves : Finmap fun _ : α × κ => List (ReserveData ι)
  system : α → Refs

variable {α κ ι : Type} [DecidableEq α] [DecidableEq κ]

namespace State

/-- `Accounts::get`, with the default for an account that is not there. -/
def account (s : State α κ ι) (who : α) (c : κ) : AccountData :=
  (s.accounts.lookup (who, c)).getD default

/-- `Accounts::contains_key`. -/
def stored (s : State α κ ι) (who : α) (c : κ) : Bool := (s.accounts.lookup (who, c)).isSome

/-- `Locks::get`. -/
def locksOf (s : State α κ ι) (who : α) (c : κ) : List BalanceLock :=
  (s.locks.lookup (who, c)).getD []

/-- `Reserves::get`. -/
def reservesOf (s : State α κ ι) (who : α) (c : κ) : List (ReserveData ι) :=
  (s.reserves.lookup (who, c)).getD []

/-- `TotalIssuance::insert`. -/
def setIssuance (s : State α κ ι) (c : κ) (v : ℕ) : State α κ ι :=
  { s with totalIssuance := Function.update s.totalIssuance c v }

/-- `Reserves::insert`. -/
def setReserves (s : State α κ ι) (who : α) (c : κ) (rs : List (ReserveData ι)) : State α κ ι :=
  { s with reserves := s.reserves.insert (who, c) rs }

/-! ### The reference counters -/

/-- `frame_system::can_dec_provider`. -/
def canDecProvider (s : State α κ ι) (who : α) : Bool :=
  decide ((s.system who).consumers = 0 ∨ 1 < (s.system who).providers)

/-- Change the counters of an account. -/
def modifyRefs (s : State α κ ι) (who : α) (f : Refs → Refs) : State α κ ι :=
  { s with system := Function.update s.system who (f (s.system who)) }

/-- `frame_system::inc_providers`. -/
def incProviders (s : State α κ ι) (who : α) : State α κ ι :=
  s.modifyRefs who fun r => { r with providers := r.providers + 1 }

/-- `frame_system::dec_providers` with its result ignored: the last provider stays while there are
consumers. -/
def decProviders (s : State α κ ι) (who : α) : State α κ ι :=
  if s.canDecProvider who then
    s.modifyRefs who fun r => { r with providers := r.providers - 1 }
  else s

/-- `frame_system::inc_consumers` with its result ignored. -/
def incConsumers (maxConsumers : ℕ) (s : State α κ ι) (who : α) : State α κ ι :=
  if 0 < (s.system who).providers ∧ (s.system who).consumers < maxConsumers then
    s.modifyRefs who fun r => { r with consumers := r.consumers + 1 }
  else s

/-- `frame_system::dec_consumers`. -/
def decConsumers (s : State α κ ι) (who : α) : State α κ ι :=
  s.modifyRefs who fun r => { r with consumers := r.consumers - 1 }

end State

/-! ### Mutating an account -/

/-- What is done about the dust of an account. -/
abbrev Handler (α κ ι : Type) := State α κ ι → α → κ → ℕ → State α κ ι

variable (cfg : Config α κ)

/-- The account is removed: its total is zero, and below the existential deposit. -/
def reaps (c : κ) (a : AccountData) : Bool :=
  decide (a.total < cfg.existentialDeposits c ∧ a.total = 0)

/-- The dust an account is left with. -/
def dustOf (who : α) (c : κ) (a : AccountData) : Option ℕ :=
  if a.total < cfg.existentialDeposits c ∧ a.total ≠ 0 ∧ !cfg.dustRemovalWhitelist who then
    some a.total
  else none

/-- Write the account back, and count it as a provider as long as it is stored. -/
def settle (s : State α κ ι) (who : α) (c : κ) (existed : Bool) (a : AccountData) : State α κ ι :=
  if reaps cfg c a then
    let s := { s with accounts := s.accounts.erase (who, c) }
    if existed then s.decProviders who else s
  else
    let s := { s with accounts := s.accounts.insert (who, c) a }
    if existed then s else s.incProviders who

/-- What follows the closure in `try_mutate_account`: the account is written, then the handler is
told of its dust. -/
def finish (h : Handler α κ ι) (s : State α κ ι) (who : α) (c : κ) (existed : Bool)
    (a : AccountData) : State α κ ι :=
  let s := settle cfg s who c existed a
  match dustOf cfg who c a with
  | some dust => h s who c dust
  | none => s

/-- `Pallet::try_mutate_account`. The account is read before the closure runs. -/
def tryMutateAccount {ρ : Type} (h : Handler α κ ι) (s : State α κ ι) (who : α) (c : κ)
    (f : State α κ ι → AccountData → Bool → Except Failure (State α κ ι × AccountData × ρ)) :
    Except Failure (State α κ ι × ρ) := do
  let existed := s.stored who c
  let (s', a, r) ← f s (s.account who c) existed
  .ok (finish cfg h s' who c existed a, r)

/-- `Pallet::mutate_account`, for a closure that cannot fail. -/
def mutateAccount (h : Handler α κ ι) (s : State α κ ι) (who : α) (c : κ)
    (f : AccountData → AccountData) : State α κ ι :=
  finish cfg h s who c (s.stored who c) (f (s.account who c))

/-- `Pallet::ensure_can_withdraw`. -/
def ensureCanWithdraw (s : State α κ ι) (c : κ) (who : α) (amount : ℕ) : Except Failure Unit :=
  if amount = 0 then .ok ()
  else do
    let newBalance ← okOr (checkedSub (s.account who c).free amount) (.module .balanceTooLow)
    ensure ((s.account who c).frozen ≤ newBalance) (.module .liquidityRestrictions)

/-- An account with these balances does not survive: it is empty, or its dust is removed. -/
def wouldBeDead (who : α) (c : κ) (a : AccountData) : Bool :=
  decide (a.total < cfg.existentialDeposits c ∧
    (a.total = 0 ∨ cfg.dustRemovalWhitelist who = false))

/-- `Pallet::do_transfer`. The sender is mutated while the recipient is. -/
def doTransfer (h : Handler α κ ι) (s : State α κ ι) (c : κ) (source dest : α) (amount : ℕ)
    (existence : ExistenceRequirement) : Except Failure (State α κ ι) :=
  if amount = 0 ∨ source = dest then .ok s
  else do
    let (s', _) ← tryMutateAccount cfg h s dest c fun s toAccount _ => do
      let (s', toAccount') ← tryMutateAccount cfg h s source c fun s fromAccount _ => do
        let newFrom ← okOr (checkedSub fromAccount.free amount) (.module .balanceTooLow)
        let newTo ← okOr (checkedAdd balanceBits toAccount.free amount) .overflow
        let fromAccount := { fromAccount with free := newFrom }
        let toAccount := { toAccount with free := newTo }
        ensure (cfg.existentialDeposits c ≤ toAccount.total ∨ cfg.dustRemovalWhitelist dest)
          (.module .existentialDeposit)
        ensureCanWithdraw s c source amount
        let allowDeath := decide (existence = .allowDeath) && s.canDecProvider source
        ensure (allowDeath ∨ !wouldBeDead cfg source c fromAccount) (.module .keepAlive)
        .ok (s, fromAccount, toAccount)
      .ok (s', toAccount', ())
    .ok s'

/-- `Pallet::do_withdraw`. -/
def doWithdraw (h : Handler α κ ι) (s : State α κ ι) (c : κ) (who : α) (amount : ℕ)
    (existence : ExistenceRequirement) (changeTotalIssuance : Bool) :
    Except Failure (State α κ ι) :=
  if amount = 0 then .ok s
  else do
    let (s', _) ← tryMutateAccount cfg h s who c fun s account _ => do
      ensureCanWithdraw s c who amount
      let previousTotal := account.total
      let account := { account with free := account.free - amount }
      let ed := cfg.existentialDeposits c
      let wouldKill := wouldBeDead cfg who c account &&
        decide (ed ≤ previousTotal ∨ previousTotal ≠ 0)
      ensure (existence = .allowDeath ∨ !wouldKill) (.module .keepAlive)
      let s := if changeTotalIssuance then s.setIssuance c (s.totalIssuance c - amount) else s
      .ok (s, account, ())
    .ok s'

/-- `Pallet::do_deposit`; the amount it returns is the one it is given. -/
def doDeposit (h : Handler α κ ι) (s : State α κ ι) (c : κ) (who : α) (amount : ℕ)
    (requireExisted changeTotalIssuance : Bool) : Except Failure (State α κ ι) :=
  if amount = 0 then .ok s
  else do
    let (s', _) ← tryMutateAccount cfg h s who c fun s account existed => do
      if requireExisted then ensure (existed = true) (.module .deadAccount)
      else
        ensure (cfg.existentialDeposits c ≤ amount ∨ existed ∨ cfg.dustRemovalWhitelist who)
          (.module .existentialDeposit)
      let newTotalIssuance ← okOr (checkedAdd balanceBits (s.totalIssuance c) amount) .overflow
      let s := if changeTotalIssuance then s.setIssuance c newTotalIssuance else s
      .ok (s, { account with free := satAdd balanceBits account.free amount }, ())
    .ok s'

/-! ### The dust handler -/

/-- `OnDust::on_dust`, when the operations it uses meet dust themselves and hand it to `h`. The
result of the operation is ignored. -/
def onDust (h : Handler α κ ι) : Handler α κ ι := fun s who c amount =>
  match cfg.onDust with
  | .ignore => s
  | .transferDust receiver => commitOrKeep (doTransfer cfg h s c who receiver amount .allowDeath) s
  | .burnDust => commitOrKeep (doWithdraw cfg h s c who amount .allowDeath true) s

/-- The handler, with a bound on how often it is called within itself. -/
def dustHandler : ℕ → Handler α κ ι
  | 0 => fun s _ _ _ => s
  | fuel + 1 => onDust cfg (dustHandler fuel)

/-- The handler the pallet runs with. -/
abbrev handler : Handler α κ ι := dustHandler cfg 1

/-! ### `MultiCurrency` -/

/-- `Pallet::set_free_balance`. -/
def setFreeBalance (s : State α κ ι) (c : κ) (who : α) (amount : ℕ) : State α κ ι :=
  mutateAccount cfg (handler cfg) s who c fun a => { a with free := amount }

/-- `Pallet::set_reserved_balance`. -/
def setReservedBalance (s : State α κ ι) (c : κ) (who : α) (amount : ℕ) : State α κ ι :=
  mutateAccount cfg (handler cfg) s who c fun a => { a with reserved := amount }

/-- `MultiCurrency::deposit`: an account is created if need be. -/
def deposit (s : State α κ ι) (c : κ) (who : α) (amount : ℕ) : Except Failure (State α κ ι) :=
  doDeposit cfg (handler cfg) s c who amount false true

/-- `MultiCurrency::withdraw`, allowing death. -/
def withdraw (s : State α κ ι) (c : κ) (who : α) (amount : ℕ) : Except Failure (State α κ ι) :=
  doWithdraw cfg (handler cfg) s c who amount .allowDeath true

/-- `MultiCurrency::slash`: the free balance first, then the reserved one, both as they are before
the first write. What could not be slashed is returned. -/
def slash (s : State α κ ι) (c : κ) (who : α) (amount : ℕ) : State α κ ι × ℕ :=
  if amount = 0 then (s, amount)
  else
    let account := s.account who c
    let freeSlashed := min account.free amount
    let remaining := amount - freeSlashed
    let s := if freeSlashed ≠ 0 then setFreeBalance cfg s c who (account.free - freeSlashed) else s
    let reservedSlashed := min account.reserved remaining
    let s := if reservedSlashed ≠ 0 then
        setReservedBalance cfg s c who (account.reserved - reservedSlashed) else s
    let remaining := remaining - reservedSlashed
    (s.setIssuance c (s.totalIssuance c - (amount - remaining)), remaining)

/-- The least value of `Amount`, the signed type of the same width as the balances. -/
def amountMin : ℤ := -2 ^ (balanceBits - 1)

/-- The absolute value of an `Amount`; that of the least value does not fit, and the largest one is
taken for it. -/
def amountAbs (amount : ℤ) : ℕ :=
  if amount = amountMin then 2 ^ (balanceBits - 1) - 1 else amount.natAbs

/-- `MultiCurrencyExtended::update_balance`. -/
def updateBalance (s : State α κ ι) (c : κ) (who : α) (byAmount : ℤ) :
    Except Failure (State α κ ι) :=
  if byAmount = 0 then .ok s
  else if 0 < byAmount then deposit cfg s c who (amountAbs byAmount)
  else withdraw cfg s c who (amountAbs byAmount)

/-! ### Locks -/

/-- The amount that the locks freeze together: the largest one, as locks overlap. -/
def frozenBy (locks : List BalanceLock) : ℕ := locks.foldl (fun frozen l => max frozen l.amount) 0

/-- The part of `update_locks` that writes the locks. The account is a consumer of its own while it
has locks. -/
def storeLocks (s : State α κ ι) (c : κ) (who : α) (locks : List BalanceLock) :
    Except Failure (State α κ ι) :=
  let existed := (s.locks.lookup (who, c)).isSome
  if locks = [] then
    let s := { s with locks := s.locks.erase (who, c) }
    .ok (if existed then s.decConsumers who else s)
  else if locks.length ≤ cfg.maxLocks then
    let s := { s with locks := s.locks.insert (who, c) locks }
    .ok (if existed then s else s.incConsumers cfg.maxConsumers who)
  else .error (.module .maxLocksExceeded)

/-- `Pallet::update_locks`. If there are too many locks the frozen amount has been written
already. -/
def updateLocks (s : State α κ ι) (c : κ) (who : α) (locks : List BalanceLock) :
    State α κ ι × Except Failure Unit :=
  let s := mutateAccount cfg (handler cfg) s who c fun a => { a with frozen := frozenBy locks }
  match storeLocks cfg s c who locks with
  | .ok s => (s, .ok ())
  | .error e => (s, .error e)

/-- The first lock with the new lock's identifier is merged with it and further ones are dropped; a
lock with a new identifier goes to the end. -/
def placeLock (merge : BalanceLock → BalanceLock → BalanceLock) (id : LockIdentifier) :
    Option BalanceLock → List BalanceLock → List BalanceLock
  | newLock, [] => newLock.toList
  | newLock, lock :: locks =>
    if lock.id = id then
      match newLock with
      | some l => merge lock l :: placeLock merge id none locks
      | none => placeLock merge id none locks
    else lock :: placeLock merge id newLock locks

/-- Put a lock in place, by whichever way it is merged with one that is there. -/
def putLock (merge : BalanceLock → BalanceLock → BalanceLock) (s : State α κ ι)
    (id : LockIdentifier) (c : κ) (who : α) (amount : ℕ) : State α κ ι × Except Failure Unit :=
  if amount = 0 then (s, .ok ())
  else updateLocks cfg s c who (placeLock merge id (some ⟨id, amount⟩) (s.locksOf who c))

/-- `MultiLockableCurrency::set_lock`. -/
def setLock (s : State α κ ι) (id : LockIdentifier) (c : κ) (who : α) (amount : ℕ) :
    State α κ ι × Except Failure Unit :=
  putLock cfg (fun _ l => l) s id c who amount

/-- `MultiLockableCurrency::extend_lock`. -/
def extendLock (s : State α κ ι) (id : LockIdentifier) (c : κ) (who : α) (amount : ℕ) :
    State α κ ι × Except Failure Unit :=
  putLock cfg (fun lock l => ⟨lock.id, max lock.amount l.amount⟩) s id c who amount

/-- `MultiLockableCurrency::remove_lock`. -/
def removeLock (s : State α κ ι) (id : LockIdentifier) (c : κ) (who : α) :
    State α κ ι × Except Failure Unit :=
  updateLocks cfg s c who ((s.locksOf who c).filter fun lock => lock.id ≠ id)

/-- `LockableCurrency::set_lock` of `CurrencyAdapter`. It returns no result: the error of too many
locks is dropped, and what was written before it stays. -/
def adapterSetLock (s : State α κ ι) (id : LockIdentifier) (c : κ) (who : α) (amount : ℕ) :
    State α κ ι :=
  (setLock cfg s id c who amount).1

/-- `LockableCurrency::extend_lock` of `CurrencyAdapter`. -/
def adapterExtendLock (s : State α κ ι) (id : LockIdentifier) (c : κ) (who : α) (amount : ℕ) :
    State α κ ι :=
  (extendLock cfg s id c who amount).1

/-- `LockableCurrency::remove_lock` of `CurrencyAdapter`. -/
def adapterRemoveLock (s : State α κ ι) (id : LockIdentifier) (c : κ) (who : α) : State α κ ι :=
  (removeLock cfg s id c who).1

/-! ### Reserves -/

/-- `MultiReservableCurrency::slash_reserved`. -/
def slashReserved (s : State α κ ι) (c : κ) (who : α) (value : ℕ) : State α κ ι × ℕ :=
  if value = 0 then (s, value)
  else
    let reservedBalance := (s.account who c).reserved
    let actual := min reservedBalance value
    let s := mutateAccount cfg (handler cfg) s who c fun a =>
      { a with reserved := reservedBalance - actual }
    (s.setIssuance c (s.totalIssuance c - actual), value - actual)

/-- `MultiReservableCurrency::reserve`. -/
def reserve (s : State α κ ι) (c : κ) (who : α) (value : ℕ) : Except Failure (State α κ ι) :=
  if value = 0 then .ok s
  else do
    ensureCanWithdraw s c who value
    .ok (mutateAccount cfg (handler cfg) s who c fun a =>
      { a with free := a.free - value, reserved := satAdd balanceBits a.reserved value })

/-- `MultiReservableCurrency::unreserve`. What could not be unreserved is returned. -/
def unreserve (s : State α κ ι) (c : κ) (who : α) (value : ℕ) : State α κ ι × ℕ :=
  if value = 0 then (s, value)
  else
    let actual := min (s.account who c).reserved value
    (mutateAccount cfg (handler cfg) s who c fun a =>
      { a with reserved := a.reserved - actual, free := satAdd balanceBits a.free actual },
      value - actual)

/-- Credit one of the balances of an account that was read before. -/
def creditStatus (s : State α κ ι) (c : κ) (who : α) (account : AccountData) (amount : ℕ) :
    BalanceStatus → State α κ ι
  | .free => setFreeBalance cfg s c who (satAdd balanceBits account.free amount)
  | .reserved => setReservedBalance cfg s c who (satAdd balanceBits account.reserved amount)

/-- `MultiReservableCurrency::repatriate_reserved`. Both accounts are read before the first write.
It returns what could not be moved, and never fails. -/
def repatriateReserved (s : State α κ ι) (c : κ) (slashed beneficiary : α) (value : ℕ)
    (status : BalanceStatus) : State α κ ι × ℕ :=
  if value = 0 then (s, value)
  else if slashed = beneficiary then
    match status with
    | .free => unreserve cfg s c slashed value
    | .reserved => (s, value - (s.account slashed c).reserved)
  else
    let fromAccount := s.account slashed c
    let toAccount := s.account beneficiary c
    let actual := min fromAccount.reserved value
    let s := creditStatus cfg s c beneficiary toAccount actual status
    (setReservedBalance cfg s c slashed (fromAccount.reserved - actual), value - actual)

/-! ### Named reserves -/

section Named

variable [LinearOrder ι]

/-- `binary_search_by_key` on the named reserves. -/
def findReserve (rs : List (ReserveData ι)) (id : ι) : Except ℕ ℕ :=
  SortedVec.search ReserveData.id rs id

/-- The amount of the reserve at a position. -/
def amountAt (rs : List (ReserveData ι)) (i : ℕ) : ℕ := (rs[i]?.map (·.amount)).getD 0

/-- Overwrite the amount of the reserve at a position. -/
def setAmountAt (rs : List (ReserveData ι)) (i : ℕ) (amount : ℕ) : List (ReserveData ι) :=
  rs.modify i fun d => { d with amount := amount }

/-- `BoundedVec::try_insert`. -/
def tryInsert (rs : List (ReserveData ι)) (i : ℕ) (d : ReserveData ι) :
    Except Failure (List (ReserveData ι)) :=
  if rs.length < cfg.maxReserves then .ok (rs.insertIdx i d) else .error (.module .tooManyReserves)

/-- Add an amount to the reserve of that name, or insert one. -/
def bookNamed (rs : List (ReserveData ι)) (id : ι) (amount : ℕ) :
    Except Failure (List (ReserveData ι)) :=
  match findReserve rs id with
  | .ok i => .ok (setAmountAt rs i (satAdd balanceBits (amountAt rs i) amount))
  | .error i => tryInsert cfg rs i ⟨id, amount⟩

/-- `NamedMultiReservableCurrency::reserved_balance_named`. -/
def reservedBalanceNamed (s : State α κ ι) (id : ι) (c : κ) (who : α) : ℕ :=
  match findReserve (s.reservesOf who c) id with
  | .ok i => amountAt (s.reservesOf who c) i
  | .error _ => 0

/-- `NamedMultiReservableCurrency::reserve_named`. -/
def reserveNamed (s : State α κ ι) (id : ι) (c : κ) (who : α) (value : ℕ) :
    Except Failure (State α κ ι) :=
  if value = 0 then .ok s
  else do
    let rs ← bookNamed cfg (s.reservesOf who c) id value
    let s' ← reserve cfg s c who value
    .ok (s'.setReserves who c rs)

/-- Write the amount of a reserve, or remove the reserve if it is used up, and with the last one the
entry of the account. -/
def writeOrRemove (s : State α κ ι) (who : α) (c : κ) (rs : List (ReserveData ι)) (i amount : ℕ) :
    State α κ ι :=
  if amount = 0 then
    if rs.length = 1 then { s with reserves := s.reserves.erase (who, c) }
    else s.setReserves who c (rs.eraseIdx i)
  else s.setReserves who c (setAmountAt rs i amount)

/-- `NamedMultiReservableCurrency::unreserve_named`. -/
def unreserveNamed (s : State α κ ι) (id : ι) (c : κ) (who : α) (value : ℕ) : State α κ ι × ℕ :=
  if value = 0 then (s, 0)
  else
    match s.reserves.lookup (who, c) with
    | none => (s, value)
    | some rs =>
      match findReserve rs id with
      | .error _ => (s, value)
      | .ok i =>
        let toChange := min (amountAt rs i) value
        let (s, remain) := unreserve cfg s c who toChange
        let actual := toChange - remain
        (writeOrRemove s who c rs i (amountAt rs i - actual), value - actual)

/-- `NamedMultiReservableCurrency::slash_reserved_named`. A reserve that is used up stays with the
amount zero. -/
def slashReservedNamed (s : State α κ ι) (id : ι) (c : κ) (who : α) (value : ℕ) :
    State α κ ι × ℕ :=
  if value = 0 then (s, 0)
  else
    let rs := s.reservesOf who c
    match findReserve rs id with
    | .error _ => (s.setReserves who c rs, value)
    | .ok i =>
      let toChange := min (amountAt rs i) value
      let (s, remain) := slashReserved cfg s c who toChange
      let actual := toChange - remain
      (s.setReserves who c (setAmountAt rs i (amountAt rs i - actual)), value - actual)

/-- The part of `repatriate_reserved_named` that moves the balance, and books it under the same name
if it stays reserved. The balance has been moved when the beneficiary turns out to have too many
reserves. -/
def moveNamed (s : State α κ ι) (id : ι) (c : κ) (slashed beneficiary : α) (toChange : ℕ)
    (status : BalanceStatus) : State α κ ι × Except Failure ℕ :=
  match status with
  | .free =>
    let (s, remain) := repatriateReserved cfg s c slashed beneficiary toChange status
    (s, .ok (toChange - remain))
  | .reserved =>
    let rs := s.reservesOf beneficiary c
    let (s, remain) := repatriateReserved cfg s c slashed beneficiary toChange status
    let actual := toChange - remain
    match bookNamed cfg rs id actual with
    | .ok rs => (s.setReserves beneficiary c rs, .ok actual)
    | .error e => (s, .error e)

/-- `NamedMultiReservableCurrency::repatriate_reserved_named`. -/
def repatriateReservedNamed (s : State α κ ι) (id : ι) (c : κ) (slashed beneficiary : α)
    (value : ℕ) (status : BalanceStatus) : State α κ ι × Except Failure ℕ :=
  if value = 0 then (s, .ok 0)
  else if slashed = beneficiary then
    match status with
    | .free =>
      let (s, rest) := unreserveNamed cfg s id c slashed value
      (s, .ok rest)
    | .reserved => (s, .ok (value - reservedBalanceNamed s id c slashed))
  else
    let rs := s.reservesOf slashed c
    match findReserve rs id with
    | .error _ => (s.setReserves slashed c rs, .ok value)
    | .ok i =>
      let toChange := min (amountAt rs i) value
      match moveNamed cfg s id c slashed beneficiary toChange status with
      | (s, .error e) => (s, .error e)
      | (s, .ok actual) =>
        (s.setReserves slashed c (setAmountAt rs i (amountAt rs i - actual)),
          .ok (value - actual))

end Named

/-! ### `fungibles` -/

/-- `Preservation`. -/
inductive Preservation
  | expendable
  | protect
  | preserve
  deriving DecidableEq, Repr

/-- `Precision`. -/
inductive Precision
  | exact
  | bestEffort
  deriving DecidableEq, Repr

/-- `DepositConsequence`, as far as the pallet uses it. -/
inductive DepositConsequence
  | success
  | overflow
  | belowMinimum
  deriving DecidableEq, Repr

/-- `WithdrawConsequence`, as far as the pallet uses it. -/
inductive WithdrawConsequence
  | success
  | reducedToZero (rest : ℕ)
  | underflow
  | balanceLow
  | wouldDie
  | frozen
  deriving DecidableEq, Repr

/-- `DepositConsequence::into_result`. -/
def DepositConsequence.intoResult : DepositConsequence → Except Failure Unit
  | .success => .ok ()
  | .overflow => .error .overflow
  | .belowMinimum => .error (.token .belowMinimum)

/-- `WithdrawConsequence::into_result` for an account that need not be kept: what is left of an
account that is reduced to zero has to be withdrawn too. -/
def WithdrawConsequence.intoResult : WithdrawConsequence → Except Failure ℕ
  | .success => .ok 0
  | .reducedToZero rest => .ok rest
  | .underflow => .error .underflow
  | .balanceLow => .error (.token .fundsUnavailable)
  | .wouldDie => .error (.token .onlyProvider)
  | .frozen => .error (.token .frozen)

/-- `Pallet::deposit_consequence`, of the account as it is stored. -/
def depositConsequence (s : State α κ ι) (c : κ) (who : α) (amount : ℕ) : DepositConsequence :=
  if amount = 0 then .success
  else
    match checkedAdd balanceBits (s.totalIssuance c) amount with
    | none => .overflow
    | some _ =>
      match checkedAdd balanceBits (s.account who c).total amount with
      | none => .overflow
      | some newTotal => if newTotal < cfg.existentialDeposits c then .belowMinimum else .success

/-- `Pallet::withdraw_consequence`, of the account as it is stored. -/
def withdrawConsequence (s : State α κ ι) (c : κ) (who : α) (amount : ℕ) : WithdrawConsequence :=
  if amount = 0 then .success
  else
    match checkedSub (s.totalIssuance c) amount with
    | none => .underflow
    | some _ =>
      match checkedSub (s.account who c).total amount with
      | none => .balanceLow
      | some newTotal =>
        if newTotal < cfg.existentialDeposits c ∧ !s.canDecProvider who then .wouldDie
        else
          match checkedSub (s.account who c).free amount with
          | none => .balanceLow
          | some newFree =>
            if newFree < (s.account who c).frozen then .frozen
            else if newTotal < cfg.existentialDeposits c then .reducedToZero newTotal
            else .success

/-- `Inspect::reducible_balance`. -/
def reducibleBalance (s : State α κ ι) (c : κ) (who : α) (preservation : Preservation) : ℕ :=
  let a := s.account who c
  let liquid := a.free - a.frozen
  if s.canDecProvider who ∧ preservation ≠ .protect then liquid
  else
    let mustRemainToExist := cfg.existentialDeposits c - (a.total - liquid)
    liquid - mustRemainToExist

/-- `Mutate::mint_into`. -/
def mintInto (s : State α κ ι) (c : κ) (who : α) (amount : ℕ) : Except Failure (State α κ ι) := do
  (depositConsequence cfg s c who amount).intoResult
  doDeposit cfg (handler cfg) s c who amount false true

/-- `Mutate::burn_from`. The amount that was burned is returned. -/
def burnFrom (s : State α κ ι) (c : κ) (who : α) (amount : ℕ) :
    Except Failure (State α κ ι × ℕ) := do
  let extra ← (withdrawConsequence cfg s c who amount).intoResult
  let actual := satAdd balanceBits amount extra
  let s' ← doWithdraw cfg (handler cfg) s c who actual .allowDeath true
  .ok (s', actual)

/-- `Mutate::transfer`. -/
def fungiblesTransfer (s : State α κ ι) (c : κ) (source dest : α) (amount : ℕ)
    (preservation : Preservation) : Except Failure (State α κ ι) :=
  let existence := match preservation with
    | .expendable => .allowDeath
    | .protect | .preserve => .keepAlive
  doTransfer cfg (handler cfg) s c source dest amount existence

/-- `MutateHold::release`. The amount that was released is returned. -/
def release (s : State α κ ι) (c : κ) (who : α) (amount : ℕ) (precision : Precision) :
    Except Failure (State α κ ι × ℕ) :=
  if amount = 0 then .ok (s, amount)
  else
    tryMutateAccount cfg (handler cfg) s who c fun s a _ => do
      let newFree := satAdd balanceBits a.free (min amount a.reserved)
      let actual := newFree - a.free
      ensure (precision = .bestEffort ∨ actual = amount) (.module .balanceTooLow)
      .ok (s, { a with free := newFree, reserved := a.reserved - actual }, actual)

/-- `MutateHold::transfer_on_hold`. The amount that was transferred is returned. -/
def transferOnHold (s : State α κ ι) (c : κ) (source dest : α) (amount : ℕ) (precision : Precision)
    (status : BalanceStatus) : Except Failure (State α κ ι × ℕ) := do
  ensure (amount ≤ (s.account source c).reserved ∨ precision = .bestEffort)
    (.module .balanceTooLow)
  let (s', gap) := repatriateReserved cfg s c source dest amount status
  .ok (s', amount - gap)

/-- `UnbalancedHold::set_balance_on_hold`: the free balance makes up for the difference. -/
def setBalanceOnHold (s : State α κ ι) (c : κ) (who : α) (amount : ℕ) :
    Except Failure (State α κ ι) := do
  let (s', _) ← tryMutateAccount cfg (handler cfg) s who c fun s a _ => do
    let sum ← okOr (checkedAdd balanceBits a.free a.reserved) .overflow
    let newFree ← okOr (checkedSub sum amount) (.token .belowMinimum)
    .ok (s, { a with free := newFree, reserved := amount }, ())
  .ok s'

/-! ### The calls of the pallet -/

/-- The origin of a call. -/
inductive Origin (α : Type)
  | root
  | signed (who : α)
  deriving DecidableEq, Repr

/-- `ensure_signed`. -/
def ensureSigned : Origin α → Except Failure α
  | .signed who => .ok who
  | .root => .error .badOrigin

/-- `ensure_root`. -/
def ensureRoot : Origin α → Except Failure Unit
  | .root => .ok ()
  | .signed _ => .error .badOrigin

/-- The call `transfer`. -/
def transfer (s : State α κ ι) (origin : Origin α) (dest : α) (c : κ) (amount : ℕ) :
    Except Failure (State α κ ι) := do
  let source ← ensureSigned origin
  doTransfer cfg (handler cfg) s c source dest amount .allowDeath

/-- The call `transfer_all`. -/
def transferAll (s : State α κ ι) (origin : Origin α) (dest : α) (c : κ) (keepAlive : Bool) :
    Except Failure (State α κ ι) := do
  let source ← ensureSigned origin
  let preservation := if keepAlive then .protect else .expendable
  fungiblesTransfer cfg s c source dest (reducibleBalance cfg s c source preservation) preservation

/-- The call `transfer_keep_alive`. -/
def transferKeepAlive (s : State α κ ι) (origin : Origin α) (dest : α) (c : κ) (amount : ℕ) :
    Except Failure (State α κ ι) := do
  let source ← ensureSigned origin
  doTransfer cfg (handler cfg) s c source dest amount .keepAlive

/-- The call `force_transfer`. -/
def forceTransfer (s : State α κ ι) (origin : Origin α) (source dest : α) (c : κ) (amount : ℕ) :
    Except Failure (State α κ ι) := do
  ensureRoot origin
  doTransfer cfg (handler cfg) s c source dest amount .allowDeath

/-- Change the issuance along with the total of one account. -/
def adjustIssuance (s : State α κ ι) (c : κ) (oldTotal newTotal : ℕ) :
    Except Failure (State α κ ι) :=
  if oldTotal < newTotal then do
    let issuance ← okOr
      (checkedAdd balanceBits (s.totalIssuance c) (newTotal - oldTotal)) .overflow
    .ok (s.setIssuance c issuance)
  else if newTotal < oldTotal then do
    let issuance ← okOr (checkedSub (s.totalIssuance c) (oldTotal - newTotal)) .underflow
    .ok (s.setIssuance c issuance)
  else .ok s

/-- The call `set_balance`. Balances that are together below the existential deposit are set to
zero. -/
def setBalance (s : State α κ ι) (origin : Origin α) (who : α) (c : κ) (newFree newReserved : ℕ) :
    Except Failure (State α κ ι) := do
  ensureRoot origin
  let (s', _) ← tryMutateAccount cfg (handler cfg) s who c fun s a _ => do
    let newTotal ← okOr (checkedAdd balanceBits newFree newReserved) .overflow
    let dies := decide (newTotal < cfg.existentialDeposits c)
    let newTotal := if dies then 0 else newTotal
    let newFree := if dies then 0 else newFree
    let newReserved := if dies then 0 else newReserved
    let s ← adjustIssuance s c a.total newTotal
    .ok (s, { a with free := newFree, reserved := newReserved }, ())
  .ok s'

/-! ### Runs -/

/-- The operations: the calls of the pallet, and what other pallets do through its traits. The locks
can be reached through `CurrencyAdapter` too, and then a failure goes unnoticed. -/
inductive Operation (α κ ι : Type)
  | transfer (origin : Origin α) (dest : α) (c : κ) (amount : ℕ)
  | transferAll (origin : Origin α) (dest : α) (c : κ) (keepAlive : Bool)
  | transferKeepAlive (origin : Origin α) (dest : α) (c : κ) (amount : ℕ)
  | forceTransfer (origin : Origin α) (source dest : α) (c : κ) (amount : ℕ)
  | setBalance (origin : Origin α) (who : α) (c : κ) (newFree newReserved : ℕ)
  | fungiblesTransfer (source dest : α) (c : κ) (amount : ℕ) (preservation : Preservation)
  | deposit (who : α) (c : κ) (amount : ℕ)
  | withdraw (who : α) (c : κ) (amount : ℕ)
  | slash (who : α) (c : κ) (amount : ℕ)
  | updateBalance (who : α) (c : κ) (byAmount : ℤ)
  | setLock (id : LockIdentifier) (who : α) (c : κ) (amount : ℕ)
  | extendLock (id : LockIdentifier) (who : α) (c : κ) (amount : ℕ)
  | removeLock (id : LockIdentifier) (who : α) (c : κ)
  | adapterSetLock (id : LockIdentifier) (who : α) (c : κ) (amount : ℕ)
  | adapterExtendLock (id : LockIdentifier) (who : α) (c : κ) (amount : ℕ)
  | adapterRemoveLock (id : LockIdentifier) (who : α) (c : κ)
  | slashReserved (who : α) (c : κ) (value : ℕ)
  | reserve (who : α) (c : κ) (value : ℕ)
  | unreserve (who : α) (c : κ) (value : ℕ)
  | repatriateReserved (slashed beneficiary : α) (c : κ) (value : ℕ) (status : BalanceStatus)
  | reserveNamed (id : ι) (who : α) (c : κ) (value : ℕ)
  | unreserveNamed (id : ι) (who : α) (c : κ) (value : ℕ)
  | slashReservedNamed (id : ι) (who : α) (c : κ) (value : ℕ)
  | repatriateReservedNamed (id : ι) (slashed beneficiary : α) (c : κ) (value : ℕ)
      (status : BalanceStatus)
  | mintInto (who : α) (c : κ) (amount : ℕ)
  | burnFrom (who : α) (c : κ) (amount : ℕ)
  | release (who : α) (c : κ) (amount : ℕ) (precision : Precision)
  | transferOnHold (source dest : α) (c : κ) (amount : ℕ) (precision : Precision)
      (status : BalanceStatus)
  | setBalanceOnHold (who : α) (c : κ) (amount : ℕ)

/-- The state of an operation that may have failed after it has written something. -/
def committed {ρ : Type} (x : State α κ ι × Except Failure ρ) : Except Failure (State α κ ι) :=
  match x.2 with
  | .ok _ => .ok x.1
  | .error e => .error e

section Steps

variable [LinearOrder ι]

/-- The state after an operation that succeeds. -/
def apply (s : State α κ ι) : Operation α κ ι → Except Failure (State α κ ι)
  | .transfer origin dest c amount => transfer cfg s origin dest c amount
  | .transferAll origin dest c keepAlive => transferAll cfg s origin dest c keepAlive
  | .transferKeepAlive origin dest c amount => transferKeepAlive cfg s origin dest c amount
  | .forceTransfer origin source dest c amount => forceTransfer cfg s origin source dest c amount
  | .setBalance origin who c newFree newReserved =>
    setBalance cfg s origin who c newFree newReserved
  | .fungiblesTransfer source dest c amount preservation =>
    fungiblesTransfer cfg s c source dest amount preservation
  | .deposit who c amount => deposit cfg s c who amount
  | .withdraw who c amount => withdraw cfg s c who amount
  | .slash who c amount => .ok (slash cfg s c who amount).1
  | .updateBalance who c byAmount => updateBalance cfg s c who byAmount
  | .setLock id who c amount => committed (setLock cfg s id c who amount)
  | .extendLock id who c amount => committed (extendLock cfg s id c who amount)
  | .removeLock id who c => committed (removeLock cfg s id c who)
  | .adapterSetLock id who c amount => .ok (adapterSetLock cfg s id c who amount)
  | .adapterExtendLock id who c amount => .ok (adapterExtendLock cfg s id c who amount)
  | .adapterRemoveLock id who c => .ok (adapterRemoveLock cfg s id c who)
  | .slashReserved who c value => .ok (slashReserved cfg s c who value).1
  | .reserve who c value => reserve cfg s c who value
  | .unreserve who c value => .ok (unreserve cfg s c who value).1
  | .repatriateReserved slashed beneficiary c value status =>
    .ok (repatriateReserved cfg s c slashed beneficiary value status).1
  | .reserveNamed id who c value => reserveNamed cfg s id c who value
  | .unreserveNamed id who c value => .ok (unreserveNamed cfg s id c who value).1
  | .slashReservedNamed id who c value => .ok (slashReservedNamed cfg s id c who value).1
  | .repatriateReservedNamed id slashed beneficiary c value status =>
    committed (repatriateReservedNamed cfg s id c slashed beneficiary value status)
  | .mintInto who c amount => mintInto cfg s c who amount
  | .burnFrom who c amount => (burnFrom cfg s c who amount).map (·.1)
  | .release who c amount precision => (release cfg s c who amount precision).map (·.1)
  | .transferOnHold source dest c amount precision status =>
    (transferOnHold cfg s c source dest amount precision status).map (·.1)
  | .setBalanceOnHold who c amount => setBalanceOnHold cfg s c who amount

/-- An operation in a storage layer of its own, as a dispatch is: an error leaves the state as it
was. This matters for `set_lock`, `extend_lock` and `repatriate_reserved_named`, which may have
written something when they fail. The adapter's operations on locks do not fail, and leave what was
written. -/
def step (s : State α κ ι) (op : Operation α κ ι) : State α κ ι := commitOrKeep (apply cfg s op) s

end Steps

/-! ### Genesis -/

/-- The empty storage. -/
def emptyState : State α κ ι where
  totalIssuance _ := 0
  accounts := ∅
  locks := ∅
  reserves := ∅
  system _ := default

/-- The endowment of one account. There is no result if an assertion of the source fails. -/
def endow (s : State α κ ι) (entry : (α × κ) × ℕ) : Option (State α κ ι) :=
  if entry.2 < cfg.existentialDeposits entry.1.2 then none
  else
    let s := mutateAccount cfg (handler cfg) s entry.1.1 entry.1.2 fun a =>
      { a with free := entry.2 }
    (checkedAdd balanceBits (s.totalIssuance entry.1.2) entry.2).map (s.setIssuance entry.1.2)

/-- `GenesisConfig::build`. -/
def genesisBuild (balances : List ((α × κ) × ℕ)) : Option (State α κ ι) :=
  if (balances.map (·.1)).Nodup then balances.foldlM (endow cfg) emptyState else none

end Reef.Tokens
