import ReefChain.Evm.Pallet
import ReefChain.EvmBridge

/-!
# Currencies

The pallet `currencies` gives all currencies one interface. The native currency and the tokens of
the chain have ledgers of their own (`backend`); a token that is a contract is used through the
bridge.

A transfer of an ERC20 token is a call of the contract from the address of the sender. Contracts
know no reserves: what an account reserves is moved to an address that is derived from that of the
account (`reserveAddress`), and moved back when it is released.

The queries of the interface change nothing and are functions of the state (`Query`). A query of a
contract is a view, which is run from an empty trace.
-/

namespace Reef
namespace Currencies

open Evm EvmBridge

/-- The errors of the pallet, and those of the bridge it passes on. -/
inductive Error
  | evmAccountNotFound
  | realOriginNotFound
  | bridge (e : EvmBridge.Error)
  deriving DecidableEq, Repr

/-- `BalanceStatus`. -/
inductive BalanceStatus
  | free
  | reserved
  deriving DecidableEq, Repr

variable (E : Env) (reserveAddress : EvmAddress → EvmAddress) (code : Behaviour)
  (contract : EvmAddress)

/-- A transfer through the bridge. -/
def bridgeTransfer (sender origin dest : EvmAddress) (amount : ℕ) (w : World) :
    World × Except Currencies.Error Unit :=
  let x := EvmBridge.transfer E code ⟨contract, sender, origin⟩ dest amount w
  (x.1, x.2.mapError .bridge)

/-- `balance_of` through the bridge, where an error counts as zero. -/
def bridgeBalance (address : EvmAddress) (w : World) : Option (World × ℕ) := do
  let (w, balance) ← balanceOf E code (.query contract) address w
  match balance with
  | .ok balance => return (w, balance)
  | .error _ => return (w, 0)

/-- `MultiCurrency::transfer`. The real `origin` of the extrinsic pays for storage. -/
def transfer (source dest : AccountId) (amount : ℕ) (origin : Option AccountId) (w : World) :
    World × Except Currencies.Error Unit :=
  if amount = 0 ∨ source = dest then (w, .ok ())
  else
    match w.state.getEvmAddress source with
    | none => (w, .error .evmAccountNotFound)
    | some sender =>
      match origin with
      | none => (w, .error .realOriginNotFound)
      | some who =>
        let (s, originAddress) := w.state.getOrCreateEvmAddress E.toConfig who
        let (s, address) := s.getOrCreateEvmAddress E.toConfig dest
        bridgeTransfer E code contract sender originAddress address amount { w with state := s }

/-- `MultiReservableCurrency::reserve`. -/
def reserve (who : AccountId) (value : ℕ) (w : World) : World × Except Currencies.Error Unit :=
  if value = 0 then (w, .ok ())
  else
    match w.state.getEvmAddress who with
    | none => (w, .error .evmAccountNotFound)
    | some address =>
      bridgeTransfer E code contract address address (reserveAddress address) value w

/-- `MultiReservableCurrency::unreserve`. The part that was not released is returned. -/
def unreserve (who : AccountId) (value : ℕ) (w : World) : Option (World × ℕ) :=
  if value = 0 then some (w, value)
  else
    match w.state.getEvmAddress who with
    | none => some (w, value)
    | some address => do
      let sender := reserveAddress address
      let (w, reserved) ← bridgeBalance E code contract sender w
      let actual := min reserved value
      match bridgeTransfer E code contract sender address address actual w with
      | (w, .ok _) => return (w, value - actual)
      | (w, .error _) => return (w, value)

/-- `MultiReservableCurrency::reserved_balance`. -/
def reservedBalance (who : AccountId) (w : World) : Option (World × ℕ) :=
  match w.state.getEvmAddress who with
  | none => some (w, 0)
  | some address => bridgeBalance E code contract (reserveAddress address) w

/-- `MultiReservableCurrency::repatriate_reserved`. The part that was not moved is returned. -/
def repatriateReserved (slashed beneficiary : AccountId) (value : ℕ) (status : BalanceStatus)
    (w : World) : Option (World × Except Currencies.Error ℕ) :=
  if value = 0 then some (w, .ok value)
  else if slashed = beneficiary then
    match status with
    | .free => do
      let (w, rest) ← unreserve E reserveAddress code contract slashed value w
      return (w, .ok rest)
    | .reserved => do
      let (w, reserved) ← reservedBalance E reserveAddress code contract slashed w
      return (w, .ok (value - reserved))
  else
    match w.state.getEvmAddress slashed with
    | none => some (w, .error .evmAccountNotFound)
    | some slashedAddress => do
      let (s, beneficiaryAddress) := w.state.getOrCreateEvmAddress E.toConfig beneficiary
      let sender := reserveAddress slashedAddress
      let (w, reserved) ← bridgeBalance E code contract sender { w with state := s }
      let actual := min reserved value
      let dest := match status with
        | .free => beneficiaryAddress
        | .reserved => reserveAddress beneficiaryAddress
      match bridgeTransfer E code contract sender slashedAddress dest actual w with
      | (w, .ok _) => return (w, .ok (value - actual))
      | (w, .error e) => return (w, .error e)

/-! ### All currencies -/

/-- The ledger of a currency that is not a contract. -/
def backend (s : State) : CurrencyId → Ledger AccountId
  | .token .reef => s.ledger
  | id => s.outer.tokens id

/-- Put `l` in place of that ledger, after an operation on the account `who`. -/
def setBackend (C : Evm.Config) (s : State) (id : CurrencyId) (who : AccountId)
    (l : Ledger AccountId) : State :=
  match id with
  | .token .reef => s.setLedger C l [who]
  | id => { s with outer := { s.outer with tokens := Function.update s.outer.tokens id l } }

namespace Query

/-- `balance_of` through the bridge as a query. -/
def balanceOf (address : EvmAddress) (s : State) : Option ℕ :=
  (bridgeBalance E code contract address ⟨s, []⟩).map (·.2)

/-- `MultiCurrency::total_balance`. -/
def totalBalance (id : CurrencyId) (who : AccountId) (s : State) : Option ℕ :=
  match id with
  | .erc20 contract =>
    match s.getEvmAddress who with
    | some address => balanceOf E code contract address s
    | none => some 0
  | id => some ((backend s id).total who)

/-- `MultiCurrency::free_balance`. -/
def freeBalance (id : CurrencyId) (who : AccountId) (s : State) : Option ℕ :=
  match id with
  | .erc20 contract =>
    match s.getEvmAddress who with
    | some address => balanceOf E code contract address s
    | none => some 0
  | id => some ((backend s id).free who)

/-- `MultiReservableCurrency::reserved_balance`. -/
def reservedBalance (id : CurrencyId) (who : AccountId) (s : State) : Option ℕ :=
  match id with
  | .erc20 contract =>
    match s.getEvmAddress who with
    | some address => balanceOf E code contract (reserveAddress address) s
    | none => some 0
  | id => some ((backend s id).reserved who)

end Query

/-- `MultiCurrency::slash`. A token that is a contract cannot be slashed. -/
def slash (id : CurrencyId) (who : AccountId) (amount : ℕ) (s : State) : State × ℕ :=
  match id with
  | .erc20 _ => (s, 0)
  | id =>
    let (l, rest) := (backend s id).slash who amount
    (setBackend E.toConfig s id who l, rest)

/-- `MultiReservableCurrency::slash_reserved`. For a token that is a contract the result is bounded
by the balance of the account. -/
def slashReserved (id : CurrencyId) (who : AccountId) (value : ℕ) (s : State) :
    Option (State × ℕ) :=
  match id with
  | .erc20 contract =>
    match s.getEvmAddress who with
    | some address => do
      let balance ← Query.balanceOf E code contract address s
      return (s, if value < balance then value else balance)
    | none => some (s, value)
  | id =>
    let (l, rest) := (backend s id).slashReserved who value
    some (setBackend E.toConfig s id who l, rest)

end Currencies
end Reef
