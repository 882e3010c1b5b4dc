import Mathlib.Data.FinEnum
import ReefChain.Currencies

/-!
# Tokens that behave

What the pallet `currencies` makes of an ERC20 contract that behaves like a token.

* `Standard` says what such a contract does: it has a balance for every address, a query answers the
  balance or fails, and a transfer that is committed moves the amount and answers the word 1.
* `tokenLedger` reads the balances as a plain ledger over accounts, given their addresses. The free
  balance of an account is that of its address, the reserved balance that of its reserve address.
* The operations of the pallet are compared with those of the ledger. `Separate` is what is assumed
  of the addresses: no two accounts share one, and none is a reserve address. This cannot hold of
  all accounts there could be, as every address is contained in some account of the form
  `evm: ++ …`; it is assumed of the accounts in use (`among`).

Both operations that take tokens out of a reserve read how much is reserved and ask for a transfer
(`release`). What they do to the ledger is then a matter of how far this got: nothing has moved, or
the amount that was read has (`release_cases`).
-/

namespace Reef
namespace Currencies

open Evm EvmBridge Scale

/-! ### Standard tokens -/

/-- The balances after `value` tokens were moved. -/
def move (b : EvmAddress → ℕ) (sender dest : EvmAddress) (value : ℕ) : EvmAddress → ℕ := fun a =>
  (if a = sender then b a - value else b a) + if a = dest then value else 0

/-- Between two states `value` tokens were moved. -/
structure Moves (balances : State → EvmAddress → ℕ) (sender dest : EvmAddress) (value : ℕ)
    (s s' : State) : Prop where
  enough : value ≤ balances s sender
  balances_eq : balances s' = move (balances s) sender dest value

/-- A standard token with the given balances. -/
structure Standard (E : Env) (code : Behaviour) (contract : EvmAddress)
    (balances : State → EvmAddress → ℕ) : Prop where
  /-- The balances are kept in the storage of contracts. -/
  congr : ∀ {s s' : State}, s'.accountStorages = s.accountStorages → balances s' = balances s
  /-- A query fails or answers the balance. -/
  query : ∀ a w, (∃ w' e, EvmBridge.balanceOf E code (.query contract) a w = some (w', .error e)) ∨
    ∃ w', EvmBridge.balanceOf E code (.query contract) a w =
      some (w', .ok (min (balances w.state a) (Bounded.maxValue balanceBits)))
  /-- A transfer that is committed returns or stops with the word 1 and has moved the amount. -/
  transfer : ∀ sender origin dest value w info, value ≤ Bounded.maxValue balanceBits →
    (transferCall E code ⟨contract, sender, origin⟩ dest value w).2 = .ok info →
    info.exitReason.isSucceed = true →
    info.exitReason ≠ .succeed .suicided ∧ info.output = word 1 ∧
      Moves balances sender dest value w.state
        (transferCall E code ⟨contract, sender, origin⟩ dest value w).1.state

/-- The address an account has, or will be given. -/
def addressOf (C : Evm.Config) (s : State) (who : AccountId) : EvmAddress :=
  (s.getEvmAddress who).getD (C.defaultAddress who)

/-- What is assumed of the addresses `σ` of accounts: accounts do not share one, and the reserve
addresses of accounts are different from each other and from the addresses of accounts. -/
structure Separate (reserveAddress : EvmAddress → EvmAddress) (σ : AccountId → Option EvmAddress) :
    Prop where
  address_injective : ∀ {who who' a}, σ who = some a → σ who' = some a → who = who'
  reserve_injective : ∀ {who who' a a'}, σ who = some a → σ who' = some a' →
    reserveAddress a = reserveAddress a' → a = a'
  disjoint : ∀ {who who' a a'}, σ who = some a → σ who' = some a' → a ≠ reserveAddress a'

/-- The address at which an account with the given address has its free or its reserved tokens. -/
def slot (reserveAddress : EvmAddress → EvmAddress) : BalanceStatus → EvmAddress → EvmAddress
  | .free => id
  | .reserved => reserveAddress

/-- The addresses of the accounts among `users`. -/
def among (users : Finset AccountId) (σ : AccountId → Option EvmAddress) :
    AccountId → Option EvmAddress := fun who => if who ∈ users then σ who else none

/-- The balances as a plain ledger over accounts with the addresses `σ`. An account without an
address has nothing. -/
def tokenLedger (balances : State → EvmAddress → ℕ) (reserveAddress : EvmAddress → EvmAddress)
    (σ : AccountId → Option EvmAddress) (s : State) : Ledger AccountId :=
  .plain (fun who => ((σ who).map (balances s)).getD 0)
    fun who => ((σ who).map fun a => balances s (reserveAddress a)).getD 0

theorem among_of_mem {users : Finset AccountId} {who : AccountId} (h : who ∈ users)
    (σ : AccountId → Option EvmAddress) : among users σ who = σ who := if_pos h

section Addresses

variable {C : Evm.Config} {reserveAddress : EvmAddress → EvmAddress} {s s' : State}
  {who : AccountId} {address : EvmAddress}

theorem addressOf_of_mapped (h : s.getEvmAddress who = some address) :
    addressOf C s who = address := by
  rw [addressOf, h]
  rfl

/-- Giving an account its address. -/
theorem getOrCreateEvmAddress_spec (C : Evm.Config) (s : State) (who : AccountId) :
    (s.getOrCreateEvmAddress C who).2 = addressOf C s who ∧
    (s.getOrCreateEvmAddress C who).1.accountStorages = s.accountStorages ∧
    ∀ x, (s.getOrCreateEvmAddress C who).1.getEvmAddress x =
      if x = who then some (addressOf C s who) else s.getEvmAddress x := by
  unfold State.getOrCreateEvmAddress EvmAccounts.AddressMapping.getOrCreateEvmAddress
  have hmapping : s.mapping.getEvmAddress who = s.getEvmAddress who := rfl
  cases h : s.getEvmAddress who with
  | some address =>
    rw [hmapping, h]
    refine ⟨(addressOf_of_mapped h).symm, rfl, fun x => ?_⟩
    change s.getEvmAddress x = _
    by_cases hx : x = who
    · rw [if_pos hx, hx, addressOf_of_mapped h]
      exact h
    · rw [if_neg hx]
  | none =>
    -- the default address is claimed for `who`, the other entries stay
    rw [hmapping, h]
    have hdefault : addressOf C s who = C.defaultAddress who := by
      rw [addressOf, h]
      rfl
    refine ⟨hdefault.symm, rfl, fun x => ?_⟩
    rw [hdefault]
    change ((s.mapping.evmAddresses.insert who (C.defaultAddress who)).lookup x).or
      (EvmAccounts.embedded x) = _
    by_cases hx : x = who
    · subst hx
      rw [Finmap.lookup_insert, if_pos rfl]
      rfl
    · rw [Finmap.lookup_insert_of_ne _ hx, if_neg hx]
      rfl

end Addresses

/-! ### Moving balances in a ledger -/

end Currencies

namespace Ledger

open Currencies

variable {α : Type} [DecidableEq α]

/-- The free or the reserved balance. -/
def balance (l : Ledger α) : BalanceStatus → α → ℕ
  | .free => l.free
  | .reserved => l.reserved

/-- Take `v` from a balance. -/
def take (l : Ledger α) (status : BalanceStatus) (a : α) (v : ℕ) : Ledger α :=
  match status with
  | .free => { l with free := Function.update l.free a (l.free a - v) }
  | .reserved => { l with reserved := Function.update l.reserved a (l.reserved a - v) }

/-- Add `v` to a balance. -/
def give (l : Ledger α) (status : BalanceStatus) (a : α) (v : ℕ) : Ledger α :=
  match status with
  | .free => { l with free := Function.update l.free a (l.free a + v) }
  | .reserved => { l with reserved := Function.update l.reserved a (l.reserved a + v) }

/-- What `repatriate_reserved` is for: move up to `v` from the reserved balance of `slashed` to a
balance of `beneficiary`, and return the rest. -/
def repatriate (l : Ledger α) (slashed beneficiary : α) (v : ℕ) (status : BalanceStatus) :
    Ledger α × ℕ :=
  let actual := min (l.reserved slashed) v
  ((l.take .reserved slashed actual).give status beneficiary actual, v - actual)

variable {l l' : Ledger α} {a b : α} {v : ℕ} {status status' : BalanceStatus}

omit [DecidableEq α] in
/-- Two ledgers with the same balances and the same providers are the same. -/
theorem ext_balance (hprovided : l.provided = l'.provided)
    (h : ∀ status a, l.balance status a = l'.balance status a) : l = l' := by
  obtain ⟨free, reserved, provided⟩ := l
  obtain ⟨free', reserved', provided'⟩ := l'
  obtain rfl : provided = provided' := hprovided
  have hfree : free = free' := funext (h .free)
  have hreserved : reserved = reserved' := funext (h .reserved)
  rw [hfree, hreserved]

theorem provided_moved (l : Ledger α) (status status' : BalanceStatus) (a b : α) (v v' : ℕ) :
    ((l.take status a v).give status' b v').provided = l.provided := by
  cases status <;> cases status' <;> rfl

theorem balance_take (l : Ledger α) (status status' : BalanceStatus) (a b : α) (v : ℕ) :
    (l.take status a v).balance status' b =
      if status' = status ∧ b = a then l.balance status' b - v else l.balance status' b := by
  cases status <;> cases status' <;> by_cases hab : b = a <;>
    simp [take, balance, hab]

theorem balance_give (l : Ledger α) (status status' : BalanceStatus) (a b : α) (v : ℕ) :
    (l.give status a v).balance status' b =
      l.balance status' b + if status' = status ∧ b = a then v else 0 := by
  cases status <;> cases status' <;> by_cases hab : b = a <;>
    simp [give, balance, hab]

/-- Reserving what is there moves it to the own reserve, in a ledger in which an account may give up
its free balance. -/
theorem reserve_eq_moved (hprovided : l.provided a = true) (h : v ≤ l.free a) :
    l.reserve a v = .ok ((l.take .free a v).give .reserved a v) := reserve_of_provided hprovided h

/-- Unreserving is repatriating to one's own free balance. -/
theorem unreserve_eq_repatriate (l : Ledger α) (a : α) (v : ℕ) :
    l.unreserve a v = l.repatriate a a v .free := rfl

/-- Moving nothing changes nothing. -/
theorem moved_zero (l : Ledger α) (status status' : BalanceStatus) (a b : α) :
    (l.take status a 0).give status' b 0 = l := by
  refine ext_balance (provided_moved l status status' a b 0 0) fun status'' c => ?_
  rw [balance_give, balance_take]
  split <;> split <;> rfl

/-- Nothing is moved from a reserve that is empty. -/
theorem repatriate_of_min_eq_zero (h : min (l.reserved a) v = 0) (b : α) (status : BalanceStatus) :
    l.repatriate a b v status = (l, v) := by
  unfold repatriate
  rw [h]
  simp only [moved_zero, Nat.sub_zero]

/-- If all of the value is left, nothing was to be moved. -/
theorem min_eq_zero_of_repatriate_rest (h : (l.repatriate a b v status).2 = v) :
    min (l.reserved a) v = 0 := by
  have hrest : v - min (l.reserved a) v = v := h
  omega

/-- What was moved is what should have been, if the rest is right. -/
theorem repatriate_eq_moved_iff {actual : ℕ} (hactual : actual ≤ v)
    (h : l' = (l.take .reserved a actual).give status b actual) :
    l.repatriate a b v status = (l', v - actual) ↔ actual = min (l.reserved a) v := by
  constructor
  · intro heq
    have hrest : v - min (l.reserved a) v = v - actual := congrArg Prod.snd heq
    omega
  · intro hall
    rw [repatriate, ← hall, h]

/-- Repatriating to the own reserve moves nothing. -/
theorem repatriate_self_reserved (l : Ledger α) (a : α) (v : ℕ) :
    l.repatriate a a v .reserved = (l, v - l.reserved a) := by
  have hle := Nat.min_le_left (l.reserved a) v
  have hsame : (l.take .reserved a (min (l.reserved a) v)).give .reserved a
      (min (l.reserved a) v) = l := by
    refine ext_balance (provided_moved l .reserved .reserved a a _ _) fun status c => ?_
    rw [balance_give, balance_take]
    split
    · next hc =>
      rw [hc.1, hc.2]
      exact Nat.sub_add_cancel hle
    · exact Nat.add_zero _
  unfold repatriate
  simp only [hsame]
  congr 1
  omega

variable [Fintype α]

theorem take_totalIssuance (h : v ≤ l.balance status a) :
    (l.take status a v).totalIssuance + v = l.totalIssuance := by
  cases status with
  | free =>
    have hsum := sum_update l.free a (l.free a - v)
    have hle : v ≤ l.free a := h
    simp only [take, totalIssuance]
    omega
  | reserved =>
    have hsum := sum_update l.reserved a (l.reserved a - v)
    have hle : v ≤ l.reserved a := h
    simp only [take, totalIssuance]
    omega

theorem give_totalIssuance (l : Ledger α) (status : BalanceStatus) (a : α) (v : ℕ) :
    (l.give status a v).totalIssuance = l.totalIssuance + v := by
  cases status with
  | free =>
    have hsum := sum_update l.free a (l.free a + v)
    simp only [give, totalIssuance]
    omega
  | reserved =>
    have hsum := sum_update l.reserved a (l.reserved a + v)
    simp only [give, totalIssuance]
    omega

/-- Moving what is there keeps the total. -/
theorem moved_totalIssuance (h : v ≤ l.balance status a) (status' : BalanceStatus) (b : α) :
    ((l.take status a v).give status' b v).totalIssuance = l.totalIssuance := by
  rw [give_totalIssuance, take_totalIssuance h]

end Ledger

namespace Currencies

open Evm EvmBridge Scale

/-! ### Moving tokens -/

section Ledgers

variable {reserveAddress : EvmAddress → EvmAddress} {balances : State → EvmAddress → ℕ}
  {σ : AccountId → Option EvmAddress} {s s' : State} {who who' : AccountId} {a a' : EvmAddress}
  {status status' : BalanceStatus}

theorem balance_tokenLedger (status : BalanceStatus) (who : AccountId) :
    (tokenLedger balances reserveAddress σ s).balance status who =
      ((σ who).map fun a => balances s (slot reserveAddress status a)).getD 0 := by
  cases status <;> rfl

theorem balance_tokenLedger_of_mapped (h : σ who = some a) (status : BalanceStatus) :
    (tokenLedger balances reserveAddress σ s).balance status who =
      balances s (slot reserveAddress status a) := by
  rw [balance_tokenLedger, h]
  rfl

theorem reserved_tokenLedger_of_unmapped (h : σ who = none) :
    (tokenLedger balances reserveAddress σ s).reserved who = 0 := by
  change ((σ who).map fun a => balances s (reserveAddress a)).getD 0 = 0
  rw [h]
  rfl

/-- Different balances are at different addresses. -/
theorem Separate.slot_eq_iff (hsep : Separate reserveAddress σ) (h : σ who = some a)
    (h' : σ who' = some a') :
    slot reserveAddress status a = slot reserveAddress status' a' ↔
      status = status' ∧ who = who' := by
  constructor
  · intro heq
    cases status <;> cases status'
    · obtain rfl : a = a' := heq
      exact ⟨rfl, hsep.address_injective h h'⟩
    · exact absurd heq (hsep.disjoint h h')
    · exact absurd heq.symm (hsep.disjoint h' h)
    · obtain rfl := hsep.reserve_injective h h' heq
      exact ⟨rfl, hsep.address_injective h h'⟩
  · rintro ⟨rfl, rfl⟩
    rw [Option.some.inj (h.symm.trans h')]

/-- Tokens that are moved between the addresses of accounts are moved in the ledger. -/
theorem Moves.tokenLedger {v : ℕ} (hsep : Separate reserveAddress σ) (h : σ who = some a)
    (h' : σ who' = some a')
    (hmoves : Moves balances (slot reserveAddress status a) (slot reserveAddress status' a') v s
      s') :
    v ≤ (tokenLedger balances reserveAddress σ s).balance status who ∧
    Currencies.tokenLedger balances reserveAddress σ s' =
      ((Currencies.tokenLedger balances reserveAddress σ s).take status who v).give
        status' who' v := by
  refine ⟨?_, Ledger.ext_balance ?_ fun status'' x => ?_⟩
  · rw [balance_tokenLedger_of_mapped h]
    exact hmoves.enough
  · rw [Ledger.provided_moved]
    rfl
  · rw [Ledger.balance_give, Ledger.balance_take, balance_tokenLedger, balance_tokenLedger]
    cases hx : σ x with
    | none =>
      -- an account without an address has nothing and takes no part
      have hne : x ≠ who := fun he => by rw [he, h] at hx; cases hx
      have hne' : x ≠ who' := fun he => by rw [he, h'] at hx; cases hx
      simp [hne, hne']
    | some y =>
      rw [hmoves.balances_eq]
      simp only [Option.map_some, Option.getD_some, move, hsep.slot_eq_iff hx h,
        hsep.slot_eq_iff hx h']

end Ledgers

/-! ### What a transfer does -/

section Effects

variable {E : Env} {reserveAddress : EvmAddress → EvmAddress} {code : Behaviour}
  {contract : EvmAddress} {balances : State → EvmAddress → ℕ}
    (hstd : Standard E code contract balances)

include hstd

/-- A transfer through the bridge moves the amount, or fails and changes nothing. -/
theorem bridgeTransfer_cases {amount : ℕ} (hamount : amount ≤ Bounded.maxValue balanceBits)
    (sender origin dest : EvmAddress) (w : World) :
    (∃ w', bridgeTransfer E code contract sender origin dest amount w = (w', .ok ()) ∧
      Moves balances sender dest amount w.state w'.state) ∨
    ∃ w' e, bridgeTransfer E code contract sender origin dest amount w = (w', .error e) ∧
      w'.state = w.state := by
  obtain ⟨e, herror, hstate, -⟩ | ⟨info, r, hcall, hr, hstate, hok⟩ :=
    transfer_cases E code ⟨contract, sender, origin⟩ dest amount w
  · refine .inr ⟨_, .bridge e, ?_, hstate⟩
    simp only [bridgeTransfer, herror]
    rfl
  · -- the run is committed, so the contract has answered the word 1
    have hsucceed : info.exitReason.isSucceed = true := by
      rw [hr]
      rfl
    obtain ⟨halive, hanswer, hmoves⟩ :=
        hstd.transfer sender origin dest amount w info hamount hcall hsucceed
    rw [hr] at halive
    have hresult := hok.mpr ⟨fun h => halive (by rw [h]), hanswer⟩
    refine .inl ⟨(EvmBridge.transfer E code ⟨contract, sender, origin⟩ dest amount w).1, ?_, ?_⟩
    · simp only [bridgeTransfer, hresult]
      rfl
    · rw [hstate]
      refine ⟨hmoves.enough, ?_⟩
      rw [← hmoves.balances_eq]
      exact hstd.congr rfl

/-- A query through the bridge answers the balance, or zero if it fails. -/
theorem bridgeBalance_cases (a : EvmAddress) (w : World) :
    ∃ w' n, bridgeBalance E code contract a w = some (w', n) ∧ w'.state = w.state ∧
      (n = 0 ∨ n = min (balances w.state a) (Bounded.maxValue balanceBits)) := by
  obtain ⟨w', e, h⟩ | ⟨w', h⟩ := hstd.query a w
  · refine ⟨w', 0, ?_, balanceOf_state h, .inl rfl⟩
    unfold bridgeBalance
    rw [h]
    rfl
  · refine ⟨w', _, ?_, balanceOf_state h, .inr rfl⟩
    unfold bridgeBalance
    rw [h]
    rfl

end Effects

/-! ### Releasing from a reserve -/

/-- How tokens are taken out of the reserve of an account with the given `address`: see how many
there are and transfer up to `value` of them to `dest`. The amount that was asked for is returned
with the result of the transfer. -/
def release (E : Env) (reserveAddress : EvmAddress → EvmAddress) (code : Behaviour)
    (contract address dest : EvmAddress) (value : ℕ) (w : World) :
    Option (World × ℕ × Except Currencies.Error Unit) := do
  let (w, reserved) ← bridgeBalance E code contract (reserveAddress address) w
  let actual := min reserved value
  let (w, result) :=
    bridgeTransfer E code contract (reserveAddress address) address dest actual w
  return (w, actual, result)

/-- The release comes through: everything that is reserved, up to `value`, is transferred. -/
def Releases (E : Env) (reserveAddress : EvmAddress → EvmAddress) (code : Behaviour)
    (contract : EvmAddress) (balances : State → EvmAddress → ℕ) (address dest : EvmAddress)
    (value : ℕ) (w : World) : Prop :=
  ∃ w', release E reserveAddress code contract address dest value w =
    some (w', min (balances w.state (reserveAddress address)) value, .ok ())

section Release

variable {E : Env} {reserveAddress : EvmAddress → EvmAddress} {code : Behaviour}
  {contract : EvmAddress} {balances : State → EvmAddress → ℕ} {who slashed beneficiary : AccountId}
  {address : EvmAddress} {value : ℕ} {w : World}

theorem unreserve_eq_release (hvalue : value ≠ 0) (h : w.state.getEvmAddress who = some address) :
    unreserve E reserveAddress code contract who value w =
      (release E reserveAddress code contract address address value w).map
        fun (w, actual, result) => (w, match result with
          | .ok _ => value - actual
          | .error _ => value) := by
  unfold unreserve release
  rw [if_neg hvalue, h]
  simp only []
  cases bridgeBalance E code contract (reserveAddress address) w with
  | none => rfl
  | some x =>
    obtain ⟨w, reserved⟩ := x
    simp only [Option.bind_eq_bind, Option.bind_some]
    split
    · next heq => rw [heq]; rfl
    · next heq => rw [heq]; rfl

theorem repatriateReserved_eq_release (hvalue : value ≠ 0) (hne : slashed ≠ beneficiary)
    (h : w.state.getEvmAddress slashed = some address) (status : BalanceStatus) :
    repatriateReserved E reserveAddress code contract slashed beneficiary value status w =
      (release E reserveAddress code contract address
        (slot reserveAddress status (addressOf E.toConfig w.state beneficiary)) value
        { w with state := (w.state.getOrCreateEvmAddress E.toConfig beneficiary).1 }).map
          fun (w, actual, result) => (w, result.map fun _ => value - actual) := by
  unfold repatriateReserved release
  rw [if_neg hvalue, if_neg hne, h, ← (getOrCreateEvmAddress_spec E.toConfig w.state beneficiary).1]
  cases status <;>
  · simp only [slot, id_eq]
    cases bridgeBalance E code contract (reserveAddress address)
        { w with state := (w.state.getOrCreateEvmAddress E.toConfig beneficiary).1 } with
    | none => rfl
    | some x =>
      obtain ⟨w, reserved⟩ := x
      simp only [Option.bind_eq_bind, Option.bind_some]
      split
      · next heq => rw [heq]; rfl
      · next heq => rw [heq]; rfl

/-- **What a release does.** It asks for nothing or for what is there, and the transfer of this
amount succeeds or changes nothing. -/
theorem release_cases (hstd : Standard E code contract balances)
    (hvalue : value ≤ Bounded.maxValue balanceBits) (reserveAddress : EvmAddress → EvmAddress)
    (address dest : EvmAddress) (w : World) :
    ∃ w' actual r, release E reserveAddress code contract address dest value w =
        some (w', actual, r) ∧
      (actual = 0 ∨ actual = min (balances w.state (reserveAddress address)) value) ∧
      ((r = .ok () ∧ Moves balances (reserveAddress address) dest actual w.state w'.state) ∨
        ∃ e, r = .error e ∧ w'.state = w.state) := by
  obtain ⟨w₁, n, hread, hsame, hn⟩ := bridgeBalance_cases hstd (reserveAddress address) w
  -- a query that fails reads as zero
  have hactual : min n value = 0 ∨
      min n value = min (balances w.state (reserveAddress address)) value := by
    rcases hn with hn | hn
    · exact .inl (by rw [hn, Nat.zero_min])
    · exact .inr (by rw [hn]; omega)
  have hrelease : release E reserveAddress code contract address dest value w =
      some ((bridgeTransfer E code contract (reserveAddress address) address dest (min n value)
        w₁).1, min n value, (bridgeTransfer E code contract (reserveAddress address) address dest
        (min n value) w₁).2) := by
    unfold release
    rw [hread]
    rfl
  refine ⟨_, _, _, hrelease, hactual, ?_⟩
  obtain ⟨w₂, hok, hmoves⟩ | ⟨w₂, e, herror, hstate⟩ := bridgeTransfer_cases hstd
    ((Nat.min_le_right n value).trans hvalue) (reserveAddress address) address dest w₁
  · rw [hok]
    rw [hsame] at hmoves
    exact .inl ⟨rfl, hmoves⟩
  · rw [herror]
    exact .inr ⟨e, rfl, hstate.trans hsame⟩

end Release

end Currencies
end Reef
