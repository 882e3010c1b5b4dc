import ReefChain.Erc20.Acceptance
import ReefChain.Erc20.Balances
import ReefChain.Lib.Run

/-!
# Reserves of standard tokens

The operations on reserves, for a token that is `Standard`, compared with those of a plain ledger.

An operation is compared with the ledger at the addresses it works with (`Operation.addresses`):
these are the addresses that accounts have, and the one that repatriating to another account gives
to it. The ledger is that of any set of users whose addresses are `Separate`.

* `Operation.Law` says what the operation is for: reserving moves the value or changes nothing,
  releasing moves as much of the value as is reserved and returns the rest.
* Reserving always meets this. Releasing meets it if and only if it is `Operation.Granted`: the
  token answers how much is reserved and accepts the transfer out of the reserve (`LetsGo`). The
  deposit for the storage is put up by the owner of the reserve, and that it lacks the funds for it
  is not told apart from an empty reserve (`unreserve_law_iff`, `repatriate_other_law_iff`).
* In a run of operations the tokens of all accounts stay the same, as long as no tokens come into
  sight with an address that an account is given (`Operation.InSight`) and no account loses its
  address by being reaped.
-/

namespace Reef
namespace Currencies

open Evm EvmBridge Scale

/-! ### Releases that a token accepts -/

section LettingGo

variable (E : Env) (code : Behaviour) (contract : EvmAddress)

/-- The token answers the query of a balance. -/
def Answers (a : EvmAddress) (w : World) : Prop :=
  Accepted E code (.query contract) (balanceOfInput a) 0 w

/-- The world after the query of a balance. A query is always undone, so the state is the same. -/
def asked (a : EvmAddress) (w : World) : World :=
  (evmExecute E code (.query contract) (balanceOfInput a) gasLimit 0 true w).1

/-- The token accepts a transfer, for whose storage the `origin` puts up a deposit. -/
def Accepts (sender origin dest : EvmAddress) (amount : ℕ) (w : World) : Prop :=
  Accepted E code ⟨contract, sender, origin⟩ (transferInput dest amount)
    (if origin = 0 then 0 else 1_000) w

/-- The token lets go of up to `value` tokens in the reserve of the account with the given address:
it answers how many there are, unless there is nothing to release, and accepts their transfer, with
the owner of the reserve as the origin. -/
def LetsGo (reserveAddress : EvmAddress → EvmAddress) (balances : State → EvmAddress → ℕ)
    (address dest : EvmAddress) (value : ℕ) (w : World) : Prop :=
  (min (balances w.state (reserveAddress address)) value = 0 ∨
    Answers E code contract (reserveAddress address) w) ∧
  Accepts E code contract (reserveAddress address) address dest
    (min (balances w.state (reserveAddress address)) value)
    (asked E code contract (reserveAddress address) w)

end LettingGo

section Accepting

variable {E : Env} {code : Behaviour} {contract : EvmAddress} {balances : State → EvmAddress → ℕ}
  (hstd : Standard E code contract balances) {a : EvmAddress} {w : World}

include hstd

/-- What a query reports: the balance if the token answers, and zero otherwise. -/
theorem bridgeBalance_spec (a : EvmAddress) (w : World) :
    (Answers E code contract a w ∧ bridgeBalance E code contract a w =
      some (asked E code contract a w, min (balances w.state a) (Bounded.maxValue balanceBits))) ∨
    (¬Answers E code contract a w ∧ bridgeBalance E code contract a w =
      some (asked E code contract a w, 0)) := by
  have hiff : (∃ w' info, evmExecute E code (.query contract) (balanceOfInput a) gasLimit 0 true w =
      (w', .ok info) ∧ handleExitReason info.exitReason = .ok ()) ↔ Answers E code contract a w :=
    evmExecute_iff
  have hquery := hstd.query a w
  unfold bridgeBalance asked
  unfold EvmBridge.balanceOf at hquery ⊢
  rcases hcall : evmExecute E code (.query contract) (balanceOfInput a) gasLimit 0 true w with
    ⟨w', e | info⟩
  · refine .inr ⟨fun h => ?_, rfl⟩
    obtain ⟨w'', info, heq, -⟩ := hiff.mpr h
    rw [hcall] at heq
    cases heq
  · rw [hcall] at hquery hiff
    cases hreason : handleExitReason info.exitReason with
    | error e =>
      refine .inr ⟨fun h => ?_, by simp only [hreason]; rfl⟩
      obtain ⟨w'', info', heq, hok⟩ := hiff.mpr h
      cases heq
      rw [hreason] at hok
      cases hok
    | ok u =>
      -- the answer is the balance, as the token is standard
      refine .inl ⟨hiff.mp ⟨w', info, rfl, hreason⟩, ?_⟩
      simp only [hreason] at hquery ⊢
      split at hquery
      · next hlength =>
        rw [if_pos hlength]
        obtain ⟨w'', e, heq⟩ | ⟨w'', heq⟩ := hquery
        · cases heq
        · obtain ⟨-, hanswer⟩ := Prod.mk.inj (Option.some.inj heq)
          rw [Except.ok.inj hanswer]
          rfl
      · obtain ⟨w'', e, heq⟩ | ⟨w'', heq⟩ := hquery <;> cases heq

omit hstd in
/-- A query changes nothing. -/
theorem asked_state (a : EvmAddress) (w : World) : (asked E code contract a w).state = w.state := by
  unfold asked evmExecute executed
  simp only [Bool.not_true, Bool.and_false]
  split <;> rfl

/-- A transfer comes through exactly if the token accepts it: a standard token then answers what the
bridge expects. -/
theorem bridgeTransfer_ok_iff {amount : ℕ} (hamount : amount ≤ Bounded.maxValue balanceBits)
    {sender origin dest : EvmAddress} :
    (bridgeTransfer E code contract sender origin dest amount w).2 = .ok () ↔
      Accepts E code contract sender origin dest amount w := by
  have hiff : (∃ w' info, evmExecute E code ⟨contract, sender, origin⟩ (transferInput dest amount)
      gasLimit (if origin = 0 then 0 else 1_000) false w = (w', .ok info) ∧
      handleExitReason info.exitReason = .ok ()) ↔
      Accepts E code contract sender origin dest amount w := evmExecute_iff
  rw [← hiff]
  unfold bridgeTransfer EvmBridge.transfer
  simp only []
  rcases hcall : evmExecute E code ⟨contract, sender, origin⟩ (transferInput dest amount)
      gasLimit (if origin = 0 then 0 else 1_000) false w with ⟨w', e | info⟩
  · simp [Except.mapError]
  · cases hreason : handleExitReason info.exitReason with
    | error e => simp [hreason, Except.mapError]
    | ok u =>
      -- the call was committed, so the token has answered the word 1
      have hsucceed : info.exitReason.isSucceed = true := by
        rcases handleExitReason_eq_ok.mp hreason with hr | hr <;> rw [hr] <;> rfl
      have hresult : (transferCall E code ⟨contract, sender, origin⟩ dest amount w).2 =
          .ok info := congrArg Prod.snd hcall
      obtain ⟨-, hanswer, -⟩ := hstd.transfer sender origin dest amount w info hamount hresult
        hsucceed
      simp [hreason, hanswer, Except.mapError]

/-- **Releases.** A release comes through exactly if the token lets go of what is reserved. -/
theorem releases_iff_letsGo {reserveAddress : EvmAddress → EvmAddress} {address dest : EvmAddress}
    {value : ℕ} (hvalue : value ≤ Bounded.maxValue balanceBits) :
    Releases E reserveAddress code contract balances address dest value w ↔
      LetsGo E code contract reserveAddress balances address dest value w := by
  have hamount : min (balances w.state (reserveAddress address)) value ≤
      Bounded.maxValue balanceBits := (Nat.min_le_right _ _).trans hvalue
  unfold Releases LetsGo release
  rw [← bridgeTransfer_ok_iff hstd hamount]
  rcases bridgeBalance_spec hstd (reserveAddress address) w with ⟨hanswers, hread⟩ |
    ⟨hanswers, hread⟩
  · -- the query tells how many tokens there are, up to the largest balance
    have hmin : min (min (balances w.state (reserveAddress address))
        (Bounded.maxValue balanceBits)) value =
        min (balances w.state (reserveAddress address)) value := by omega
    rw [hread]
    simp only [Option.bind_eq_bind, Option.bind_some, hmin, hanswers, or_true, true_and]
    constructor
    · rintro ⟨w', heq⟩
      exact congrArg (·.2.2) (Option.some.inj heq)
    · intro hok
      exact ⟨_, congrArg some (Prod.ext rfl (Prod.ext rfl hok))⟩
  · -- nothing is asked for
    rw [hread]
    simp only [Option.bind_eq_bind, Option.bind_some, Nat.zero_min, hanswers, or_false]
    constructor
    · rintro ⟨w', heq⟩
      have hzero : 0 = min (balances w.state (reserveAddress address)) value :=
        congrArg (·.2.1) (Option.some.inj heq)
      rw [← hzero]
      exact ⟨rfl, congrArg (·.2.2) (Option.some.inj heq)⟩
    · rintro ⟨hzero, hok⟩
      rw [hzero] at hok ⊢
      exact ⟨_, congrArg some (Prod.ext rfl (Prod.ext rfl hok))⟩

end Accepting

/-! ### The operations -/

/-- The operations on reserves. -/
inductive Operation
  | reserve (who : AccountId) (value : ℕ)
  | unreserve (who : AccountId) (value : ℕ)
  | repatriate (slashed beneficiary : AccountId) (value : ℕ) (status : BalanceStatus)
  deriving DecidableEq, Repr

namespace Operation

/-- The amount of an operation. -/
def value : Operation → ℕ
  | .reserve _ value => value
  | .unreserve _ value => value
  | .repatriate _ _ value _ => value

/-- The accounts of an operation are among the users. -/
def On (users : Finset AccountId) : Operation → Prop
  | .reserve who _ => who ∈ users
  | .unreserve who _ => who ∈ users
  | .repatriate slashed beneficiary _ _ => slashed ∈ users ∧ beneficiary ∈ users

/-- The addresses an operation works with. -/
def addresses (C : Evm.Config) (s : State) : Operation → AccountId → Option EvmAddress
  | .reserve _ _ => s.getEvmAddress
  | .unreserve _ _ => s.getEvmAddress
  | .repatriate slashed beneficiary value _ =>
    if value = 0 ∨ slashed = beneficiary ∨ s.getEvmAddress slashed = none then s.getEvmAddress
    else (s.getOrCreateEvmAddress C beneficiary).1.getEvmAddress

variable (E : Env) (reserveAddress : EvmAddress → EvmAddress) (code : Behaviour)
  (contract : EvmAddress) (balances : State → EvmAddress → ℕ) (users : Finset AccountId)

/-- Carry out an operation. A panic undoes it. -/
def step (w : World) : Operation → World
  | .reserve who value => (Currencies.reserve E reserveAddress code contract who value w).1
  | .unreserve who value =>
    ((Currencies.unreserve E reserveAddress code contract who value w).map (·.1)).getD w
  | .repatriate slashed beneficiary value status =>
    ((repatriateReserved E reserveAddress code contract slashed beneficiary value status w).map
      (·.1)).getD w

/-- The ledger of an operation in the state `s`, when it starts in the state `start`. -/
abbrev ledger (op : Operation) (start s : State) : Ledger AccountId :=
  tokenLedger balances reserveAddress (among users (op.addresses E.toConfig start)) s

/-- What the operation is for. -/
def Law (w : World) (op : Operation) : Prop :=
  let ledger := op.ledger E reserveAddress balances users w.state
  match op with
  | .reserve who value =>
    (∃ w', Currencies.reserve E reserveAddress code contract who value w = (w', .ok ()) ∧
      (ledger w.state).reserve who value = .ok (ledger w'.state)) ∨
    ∃ w' e, Currencies.reserve E reserveAddress code contract who value w = (w', .error e) ∧
      w'.state = w.state
  | .unreserve who value =>
    ∃ w' rest, Currencies.unreserve E reserveAddress code contract who value w = some (w', rest) ∧
      (ledger w.state).unreserve who value = (ledger w'.state, rest)
  | .repatriate slashed beneficiary value status =>
    ∃ w' rest, repatriateReserved E reserveAddress code contract slashed beneficiary value status
        w = some (w', .ok rest) ∧
      (ledger w.state).repatriate slashed beneficiary value status = (ledger w'.state, rest)

/-- Nothing is reserved, or the token lets go of it to its owner. -/
def Unreserves (w : World) (who : AccountId) (value : ℕ) : Prop :=
  ∀ address, w.state.getEvmAddress who = some address →
    min (balances w.state (reserveAddress address)) value = 0 ∨
      LetsGo E code contract reserveAddress balances address address value w

/-- When the operation meets its law: a condition on the state before it and on the code of the
token. -/
def Granted (w : World) : Operation → Prop
  | .reserve _ _ => True
  | .unreserve who value => Unreserves E reserveAddress code contract balances w who value
  | .repatriate slashed beneficiary value status =>
    value = 0 ∨
    (slashed = beneficiary ∧ status = .free ∧
      Unreserves E reserveAddress code contract balances w slashed value) ∨
    (slashed = beneficiary ∧ status = .reserved ∧
      ∀ address, w.state.getEvmAddress slashed = some address →
        min (balances w.state (reserveAddress address)) value = 0 ∨
          Answers E code contract (reserveAddress address) w) ∨
    (slashed ≠ beneficiary ∧ ∃ address, w.state.getEvmAddress slashed = some address ∧
      LetsGo E code contract reserveAddress balances address
        (slot reserveAddress status (addressOf E.toConfig w.state beneficiary)) value
        { w with state := (w.state.getOrCreateEvmAddress E.toConfig beneficiary).1 })

end Operation

/-! ### What the operations do to the ledger -/

section Laws

variable {E : Env} {reserveAddress : EvmAddress → EvmAddress} {code : Behaviour}
  {contract : EvmAddress} {balances : State → EvmAddress → ℕ}
  (hstd : Standard E code contract balances) {w : World} {value : ℕ}
  (hvalue : value ≤ Bounded.maxValue balanceBits) {users : Finset AccountId}

/-- What a release from the reserve of `slashed` has made of a ledger: it has asked for nothing or
for what is there, and this was moved or the transfer has failed. -/
structure Released (l l' : Ledger AccountId) (slashed beneficiary : AccountId) (value : ℕ)
    (status : BalanceStatus) (actual : ℕ) (r : Except Currencies.Error Unit) : Prop where
  asked : actual = 0 ∨ actual = min (l.reserved slashed) value
  moved_or_same :
    (r = .ok () ∧ l' = (l.take .reserved slashed actual).give status beneficiary actual) ∨
      ∃ e, r = .error e ∧ l' = l

variable {slashed beneficiary who : AccountId} {a : EvmAddress}

/-- Never more than the value is asked for. -/
theorem Released.le_value {l l' : Ledger AccountId} {status : BalanceStatus} {value actual : ℕ}
    {r : Except Currencies.Error Unit}
    (h : Released l l' slashed beneficiary value status actual r) : actual ≤ value := by
  have := h.asked
  omega

/-- A release keeps the total. -/
theorem Released.totalIssuance {l l' : Ledger AccountId} {status : BalanceStatus} {value actual : ℕ}
    {r : Except Currencies.Error Unit}
    (h : Released l l' slashed beneficiary value status actual r) :
    l'.totalIssuance = l.totalIssuance := by
  rcases h.moved_or_same with ⟨-, hmoved⟩ | ⟨e, -, hsame⟩
  · have henough : actual ≤ l.balance .reserved slashed := by
      have hasked := h.asked
      show actual ≤ l.reserved slashed
      omega
    rw [hmoved, Ledger.moved_totalIssuance henough]
  · rw [hsame]

section Release

variable {σ : AccountId → Option EvmAddress} (hsep : Separate reserveAddress σ)

include hstd hvalue hsep

/-- A release in the ledger. -/
theorem release_ledger {slashed beneficiary : AccountId} {a b : EvmAddress}
    (hslashed : σ slashed = some a) (hbeneficiary : σ beneficiary = some b)
    (status : BalanceStatus) (w : World) :
    ∃ w' actual r, release E reserveAddress code contract a (slot reserveAddress status b) value w =
        some (w', actual, r) ∧
      Released (tokenLedger balances reserveAddress σ w.state)
        (tokenLedger balances reserveAddress σ w'.state) slashed beneficiary value status actual
        r := by
  have hread : (tokenLedger balances reserveAddress σ w.state).reserved slashed =
      balances w.state (reserveAddress a) := balance_tokenLedger_of_mapped hslashed .reserved
  obtain ⟨w', actual, r, hrelease, hactual, hend⟩ :=
    release_cases hstd hvalue reserveAddress a (slot reserveAddress status b) w
  rw [← hread] at hactual
  refine ⟨w', actual, r, hrelease, hactual, ?_⟩
  rcases hend with ⟨rfl, hmoves⟩ | ⟨e, rfl, hsame⟩
  · have hslot : Moves balances (slot reserveAddress .reserved a) (slot reserveAddress status b)
        actual w.state w'.state := hmoves
    exact .inl ⟨rfl, (hslot.tokenLedger hsep hslashed hbeneficiary).2⟩
  · exact .inr ⟨e, rfl, by rw [hsame]⟩

end Release

include hstd hvalue in
/-- An account with an address gets its tokens back if there are none or the release comes
through. -/
theorem unreserves_iff (h : w.state.getEvmAddress who = some a) :
    Operation.Unreserves E reserveAddress code contract balances w who value ↔
      min (balances w.state (reserveAddress a)) value = 0 ∨
        Releases E reserveAddress code contract balances a a value w := by
  rw [releases_iff_letsGo hstd hvalue]
  constructor
  · intro hall
    exact hall a h
  · intro hone b hb
    obtain rfl : a = b := Option.some.inj (h.symm.trans hb)
    exact hone

/-- A release that comes through has asked for all there is. -/
theorem releases_iff {dest : EvmAddress} {actual : ℕ} {w' : World}
    {r : Except Currencies.Error Unit}
    (h : release E reserveAddress code contract a dest value w = some (w', actual, r)) :
    Releases E reserveAddress code contract balances a dest value w ↔
      r = .ok () ∧ actual = min (balances w.state (reserveAddress a)) value := by
  unfold Releases
  rw [h]
  constructor
  · rintro ⟨w'', heq⟩
    cases heq
    exact ⟨rfl, rfl⟩
  · rintro ⟨rfl, rfl⟩
    exact ⟨w', rfl⟩

include hstd hvalue

/-- `reserve` moves the value, or fails and changes nothing. -/
theorem reserve_law (hsep : Separate reserveAddress (among users w.state.getEvmAddress))
    (hwho : who ∈ users) :
    (Operation.reserve who value).Law E reserveAddress code contract balances users w := by
  show (∃ w', Currencies.reserve E reserveAddress code contract who value w = (w', .ok ()) ∧ _) ∨ _
  by_cases hzero : value = 0
  · refine .inl ⟨w, ?_, ?_⟩
    · rw [Currencies.reserve, if_pos hzero]
    · rw [hzero, Ledger.reserve_eq_moved rfl (Nat.zero_le _), Ledger.moved_zero]
  · cases haddress : w.state.getEvmAddress who with
    | none =>
      refine .inr ⟨w, .evmAccountNotFound, ?_, rfl⟩
      rw [Currencies.reserve, if_neg hzero, haddress]
    | some a =>
      have hreserve : Currencies.reserve E reserveAddress code contract who value w =
          bridgeTransfer E code contract a a (reserveAddress a) value w := by
        rw [Currencies.reserve, if_neg hzero, haddress]
      rw [hreserve]
      obtain ⟨w', hok, hmoves⟩ | ⟨w', e, herror, hsame⟩ :=
        bridgeTransfer_cases hstd hvalue a a (reserveAddress a) w
      · have hslot : Moves balances (slot reserveAddress .free a) (slot reserveAddress .reserved a)
            value w.state w'.state := hmoves
        -- the two addresses of `who` are told apart, so the transfer is a move in the ledger
        have hmapped := (among_of_mem hwho w.state.getEvmAddress).trans haddress
        obtain ⟨henough, hmoved⟩ := hslot.tokenLedger hsep hmapped hmapped
        refine .inl ⟨w', hok, (Ledger.reserve_eq_moved rfl henough).trans ?_⟩
        exact congrArg Except.ok hmoved.symm
      · exact .inr ⟨w', e, herror, hsame⟩

/-- How unreserving ends for an account with an address: with a release to that address. -/
theorem unreserve_release (hsep : Separate reserveAddress (among users w.state.getEvmAddress))
    (hzero : value ≠ 0) (hwho : who ∈ users) (haddress : w.state.getEvmAddress who = some a) :
    ∃ w' actual r,
      Currencies.unreserve E reserveAddress code contract who value w = some (w', match r with
        | .ok _ => value - actual
        | .error _ => value) ∧
      (Releases E reserveAddress code contract balances a a value w ↔ r = .ok () ∧
        actual = min ((Operation.unreserve who value).ledger E reserveAddress balances users w.state
          w.state |>.reserved who) value) ∧
      Released
        ((Operation.unreserve who value).ledger E reserveAddress balances users w.state w.state)
        ((Operation.unreserve who value).ledger E reserveAddress balances users w.state w'.state)
        who who value .free actual r := by
  have hmapped := (among_of_mem hwho w.state.getEvmAddress).trans haddress
  have hread : ((Operation.unreserve who value).ledger E reserveAddress balances users w.state
      w.state).reserved who = balances w.state (reserveAddress a) :=
    balance_tokenLedger_of_mapped hmapped .reserved
  obtain ⟨w', actual, r, hrelease, hend⟩ :=
    release_ledger hstd hvalue hsep hmapped hmapped .free w
  have hrun : release E reserveAddress code contract a a value w = some (w', actual, r) := hrelease
  refine ⟨w', actual, r, ?_, ?_, hend⟩
  · rw [unreserve_eq_release hzero haddress, hrun]
    rfl
  · rw [releases_iff hrun, hread]

/-- **Unreserving** meets its law if and only if nothing is to be released or the release comes
through. -/
theorem unreserve_law_iff (hsep : Separate reserveAddress (among users w.state.getEvmAddress))
    (hwho : who ∈ users) :
    (Operation.unreserve who value).Law E reserveAddress code contract balances users w ↔
      Operation.Unreserves E reserveAddress code contract balances w who value := by
  unfold Operation.Law
  simp only [Ledger.unreserve_eq_repatriate]
  by_cases hzero : value = 0
  · refine iff_of_true ⟨w, value, ?_, ?_⟩ fun a _ => .inl ?_
    · rw [Currencies.unreserve, if_pos hzero]
    · exact Ledger.repatriate_of_min_eq_zero (by rw [hzero, Nat.min_zero]) who .free
    · rw [hzero, Nat.min_zero]
  · cases haddress : w.state.getEvmAddress who with
    | none =>
      -- without an address nothing is reserved
      refine iff_of_true ⟨w, value, ?_, ?_⟩ fun a h => ?_
      · rw [Currencies.unreserve, if_neg hzero, haddress]
      · have hunmapped : (tokenLedger balances reserveAddress
            (among users w.state.getEvmAddress) w.state).reserved who = 0 :=
          reserved_tokenLedger_of_unmapped ((among_of_mem hwho _).trans haddress)
        refine Ledger.repatriate_of_min_eq_zero ?_ who .free
        change min ((tokenLedger balances reserveAddress _ w.state).reserved who) value = 0
        exact (congrArg (min · value) hunmapped).trans (Nat.zero_min value)
      · rw [haddress] at h
        cases h
    | some a =>
      have hread : ((Operation.unreserve who value).ledger E reserveAddress balances users w.state
          w.state).reserved who = balances w.state (reserveAddress a) :=
        balance_tokenLedger_of_mapped
          ((among_of_mem hwho w.state.getEvmAddress).trans haddress) .reserved
      obtain ⟨w', actual, r, hrun, hreleases, hreleased⟩ :=
        unreserve_release hstd hvalue hsep hzero hwho haddress
      rw [unreserves_iff hstd hvalue haddress, hreleases, hrun, ← hread]
      rcases hreleased.moved_or_same with ⟨rfl, hmoved⟩ | ⟨e, rfl, hsame⟩
      · have hiff := Ledger.repatriate_eq_moved_iff hreleased.le_value hmoved
        constructor
        · rintro ⟨w'', rest, heq, hlaw⟩
          cases heq
          exact .inr ⟨rfl, hiff.mp hlaw⟩
        · intro h
          refine ⟨w', value - actual, rfl, hiff.mpr ?_⟩
          rcases h with hnone | ⟨-, hall⟩
          · have := hreleased.asked
            omega
          · exact hall
      · -- a failed transfer is reported like an empty reserve
        constructor
        · rintro ⟨w'', rest, heq, hlaw⟩
          cases heq
          exact .inl (Ledger.min_eq_zero_of_repatriate_rest (congrArg Prod.snd hlaw))
        · rintro (hnone | ⟨hok, -⟩)
          · refine ⟨w', value, rfl, ?_⟩
            rw [Ledger.repatriate_of_min_eq_zero hnone, hsame]
          · cases hok

omit hvalue in
/-- Repatriating to the own reserve only looks at it. -/
theorem repatriateReserved_self_reserved (reserveAddress : EvmAddress → EvmAddress) (w : World)
    (hzero : value ≠ 0) (who : AccountId) :
    ∃ w' rest, repatriateReserved E reserveAddress code contract who who value .reserved w =
        some (w', .ok rest) ∧ w'.state = w.state := by
  cases haddress : w.state.getEvmAddress who with
  | none =>
    refine ⟨w, value - 0, ?_, rfl⟩
    simp only [repatriateReserved, if_neg hzero, if_pos, reservedBalance, haddress]
    rfl
  | some a =>
    obtain ⟨w', n, hn, hsame, -⟩ := bridgeBalance_cases hstd (reserveAddress a) w
    refine ⟨w', value - n, ?_, hsame⟩
    simp only [repatriateReserved, if_neg hzero, if_pos, reservedBalance, haddress, hn]
    rfl

/-- Repatriating to the own reserve meets its law if and only if nothing is reserved or the token
answers. -/
theorem repatriate_self_reserved_law_iff (hzero : value ≠ 0) (hwho : who ∈ users) :
    (Operation.repatriate who who value .reserved).Law E reserveAddress code contract balances users
        w ↔
      ∀ a, w.state.getEvmAddress who = some a →
        min (balances w.state (reserveAddress a)) value = 0 ∨
          Answers E code contract (reserveAddress a) w := by
  have haddresses : (Operation.repatriate who who value .reserved).addresses E.toConfig w.state =
      w.state.getEvmAddress := if_pos (.inr (.inl rfl))
  unfold Operation.Law Operation.ledger
  simp only [haddresses, Ledger.repatriate_self_reserved]
  cases haddress : w.state.getEvmAddress who with
  | none =>
    have hunmapped : (tokenLedger balances reserveAddress (among users w.state.getEvmAddress)
        w.state).reserved who = 0 :=
      reserved_tokenLedger_of_unmapped ((among_of_mem hwho _).trans haddress)
    refine iff_of_true ⟨w, value, ?_, ?_⟩ fun a h => by cases h
    · simp only [repatriateReserved, if_neg hzero, if_pos, reservedBalance, haddress]
      rfl
    · rw [hunmapped, Nat.sub_zero]
  | some a =>
    -- the ledger leaves over what the reserve lacks, the code what the query says it lacks
    have hread : (tokenLedger balances reserveAddress (among users w.state.getEvmAddress)
        w.state).reserved who = balances w.state (reserveAddress a) :=
      balance_tokenLedger_of_mapped
        ((among_of_mem hwho w.state.getEvmAddress).trans haddress) .reserved
    have hrun : ∀ w' n, bridgeBalance E code contract (reserveAddress a) w = some (w', n) →
        repatriateReserved E reserveAddress code contract who who value .reserved w =
          some (w', .ok (value - n)) := by
      intro w' n hn
      simp only [repatriateReserved, if_neg hzero, if_pos, reservedBalance, haddress, hn]
      rfl
    rw [hread]
    rcases bridgeBalance_spec hstd (reserveAddress a) w with ⟨hanswers, hn⟩ | ⟨hanswers, hn⟩
    · refine iff_of_true ⟨_, _, hrun _ _ hn, ?_⟩ fun b hb => .inr ?_
      · rw [asked_state]
        congr 1
        omega
      · cases hb
        exact hanswers
    · rw [hrun _ _ hn]
      constructor
      · rintro ⟨w', rest, heq, hlaw⟩ b hb
        cases heq
        cases hb
        have hrest : value - balances w.state (reserveAddress a) = value - 0 :=
          congrArg Prod.snd hlaw
        exact .inl (by omega)
      · intro h
        have hnone := (h a rfl).resolve_right hanswers
        refine ⟨_, _, rfl, ?_⟩
        rw [asked_state]
        congr 1
        omega

/-- How repatriating from an account with an address to another account ends: with a release to the
address that the other account has or is given. -/
theorem repatriate_release (hzero : value ≠ 0) (hne : slashed ≠ beneficiary)
    (haddress : w.state.getEvmAddress slashed = some a) (status : BalanceStatus)
    (hon : (Operation.repatriate slashed beneficiary value status).On users)
    (hsep : Separate reserveAddress (among users
      ((Operation.repatriate slashed beneficiary value status).addresses E.toConfig w.state))) :
    ∃ w' actual r,
      repatriateReserved E reserveAddress code contract slashed beneficiary value status w =
        some (w', r.map fun _ => value - actual) ∧
      (Releases E reserveAddress code contract balances a
          (slot reserveAddress status (addressOf E.toConfig w.state beneficiary)) value
          { w with state := (w.state.getOrCreateEvmAddress E.toConfig beneficiary).1 } ↔
        r = .ok () ∧ actual = min ((Operation.repatriate slashed beneficiary value status).ledger E
          reserveAddress balances users w.state w.state |>.reserved slashed) value) ∧
      Released
        ((Operation.repatriate slashed beneficiary value status).ledger E reserveAddress balances
          users w.state w.state)
        ((Operation.repatriate slashed beneficiary value status).ledger E reserveAddress balances
          users w.state w'.state)
        slashed beneficiary value status actual r := by
  obtain ⟨-, hstorages, hcreated⟩ := getOrCreateEvmAddress_spec E.toConfig w.state beneficiary
  have haddresses : (Operation.repatriate slashed beneficiary value status).addresses E.toConfig
      w.state = (w.state.getOrCreateEvmAddress E.toConfig beneficiary).1.getEvmAddress := by
    refine if_neg ?_
    rw [haddress]
    rintro (h | h | h)
    · exact hzero h
    · exact hne h
    · cases h
  unfold Operation.ledger
  rw [haddresses] at hsep ⊢
  rw [repatriateReserved_eq_release hzero hne haddress status]
  generalize (w.state.getOrCreateEvmAddress E.toConfig beneficiary).1 = s₁ at *
  have hslashed : among users s₁.getEvmAddress slashed = some a := by
    rw [among_of_mem hon.1, hcreated, if_neg hne, haddress]
  have hbeneficiary : among users s₁.getEvmAddress beneficiary =
      some (addressOf E.toConfig w.state beneficiary) := by
    rw [among_of_mem hon.2, hcreated, if_pos rfl]
  -- giving an address moves no tokens
  have hbalances : balances s₁ = balances w.state := hstd.congr hstorages
  have hsame : tokenLedger balances reserveAddress (among users s₁.getEvmAddress) w.state =
      tokenLedger balances reserveAddress (among users s₁.getEvmAddress) s₁ := by
    unfold tokenLedger
    rw [hbalances]
  have hread : (tokenLedger balances reserveAddress (among users s₁.getEvmAddress)
      s₁).reserved slashed = balances s₁ (reserveAddress a) :=
    balance_tokenLedger_of_mapped hslashed .reserved
  obtain ⟨w', actual, r, hrelease, hend⟩ :=
    release_ledger hstd hvalue hsep hslashed hbeneficiary status { w with state := s₁ }
  refine ⟨w', actual, r, ?_, ?_, ?_⟩
  · rw [hrelease]
    rfl
  · rw [releases_iff hrelease, hsame, hread]
  · rw [hsame]
    exact hend

/-- Repatriating to another account meets its law if and only if the slashed account has an address
and the release comes through. -/
theorem repatriate_other_law_iff (hzero : value ≠ 0) (hne : slashed ≠ beneficiary)
    (status : BalanceStatus)
    (hon : (Operation.repatriate slashed beneficiary value status).On users)
    (hsep : Separate reserveAddress (among users
      ((Operation.repatriate slashed beneficiary value status).addresses E.toConfig w.state))) :
    (Operation.repatriate slashed beneficiary value status).Law E reserveAddress code contract
        balances users w ↔
      ∃ a, w.state.getEvmAddress slashed = some a ∧
        Releases E reserveAddress code contract balances a
          (slot reserveAddress status (addressOf E.toConfig w.state beneficiary)) value
          { w with state := (w.state.getOrCreateEvmAddress E.toConfig beneficiary).1 } := by
  cases haddress : w.state.getEvmAddress slashed with
  | none =>
    -- an account without an address has nothing reserved, but an error is returned
    have hrun : repatriateReserved E reserveAddress code contract slashed beneficiary value status
        w = some (w, .error .evmAccountNotFound) := by
      simp only [repatriateReserved, if_neg hzero, if_neg hne, haddress]
    refine iff_of_false ?_ ?_
    · rintro ⟨w', rest, heq, -⟩
      rw [hrun] at heq
      cases heq
    · rintro ⟨a, h, -⟩
      cases h
  | some a =>
    obtain ⟨w', actual, r, hrun, hreleases, hreleased⟩ :=
      repatriate_release hstd hvalue hzero hne haddress status hon hsep
    have hone : (∃ b, some a = some b ∧ Releases E reserveAddress code contract balances b
        (slot reserveAddress status (addressOf E.toConfig w.state beneficiary)) value
        { w with state := (w.state.getOrCreateEvmAddress E.toConfig beneficiary).1 }) ↔
        r = .ok () ∧ actual = min ((Operation.repatriate slashed beneficiary value status).ledger E
          reserveAddress balances users w.state w.state |>.reserved slashed) value := by
      rw [← hreleases]
      constructor
      · rintro ⟨b, hb, h⟩
        cases hb
        exact h
      · intro h
        exact ⟨a, rfl, h⟩
    rw [hone]
    unfold Operation.Law
    simp only [hrun]
    rcases hreleased.moved_or_same with ⟨rfl, hmoved⟩ | ⟨e, rfl, -⟩
    · have hiff := Ledger.repatriate_eq_moved_iff hreleased.le_value hmoved
      constructor
      · rintro ⟨w'', rest, heq, hlaw⟩
        cases heq
        exact ⟨rfl, hiff.mp hlaw⟩
      · rintro ⟨-, hall⟩
        exact ⟨w', value - actual, rfl, hiff.mpr hall⟩
    · -- the error of the transfer is returned
      refine iff_of_false ?_ ?_
      · rintro ⟨w'', rest, heq, -⟩
        cases heq
      · rintro ⟨hok, -⟩
        cases hok

/-- Unreserving keeps the total. -/
theorem unreserve_totalIssuance (hsep : Separate reserveAddress (among users w.state.getEvmAddress))
    (hwho : who ∈ users) :
    ∃ w' rest, Currencies.unreserve E reserveAddress code contract who value w = some (w', rest) ∧
      (tokenLedger balances reserveAddress (among users w.state.getEvmAddress)
        w'.state).totalIssuance =
      (tokenLedger balances reserveAddress (among users w.state.getEvmAddress)
        w.state).totalIssuance := by
  by_cases hzero : value = 0
  · exact ⟨w, value, if_pos hzero, rfl⟩
  · cases haddress : w.state.getEvmAddress who with
    | none =>
      refine ⟨w, value, ?_, rfl⟩
      rw [Currencies.unreserve, if_neg hzero, haddress]
    | some a =>
      obtain ⟨w', actual, r, hrun, -, hreleased⟩ :=
        unreserve_release hstd hvalue hsep hzero hwho haddress
      exact ⟨w', _, hrun, hreleased.totalIssuance⟩

omit hstd hvalue in
/-- Repatriating to the own free balance is unreserving, and returns what that returns. -/
theorem repatriateReserved_self_free (hzero : value ≠ 0) (who : AccountId) :
    repatriateReserved E reserveAddress code contract who who value .free w =
      (Currencies.unreserve E reserveAddress code contract who value w).map
        fun x => (x.1, .ok x.2) := by
  rw [repatriateReserved, if_neg hzero, if_pos rfl]
  cases Currencies.unreserve E reserveAddress code contract who value w with
  | none => rfl
  | some x => rfl

omit hstd hvalue in
/-- Repatriating to the own free balance is unreserving. -/
theorem repatriate_self_free_law_iff (hzero : value ≠ 0) (who : AccountId) :
    (Operation.repatriate who who value .free).Law E reserveAddress code contract balances users w ↔
      (Operation.unreserve who value).Law E reserveAddress code contract balances users w := by
  have haddresses : (Operation.repatriate who who value .free).addresses E.toConfig w.state =
      w.state.getEvmAddress := if_pos (.inr (.inl rfl))
  unfold Operation.Law Operation.ledger
  simp only [repatriateReserved_self_free hzero, haddresses, Ledger.unreserve_eq_repatriate]
  simp only [Operation.addresses]
  cases Currencies.unreserve E reserveAddress code contract who value w with
  | none => simp
  | some x =>
    obtain ⟨w', rest⟩ := x
    simp

omit hstd hvalue in
/-- Repatriating nothing changes nothing. -/
theorem repatriate_zero_law (slashed beneficiary : AccountId) (status : BalanceStatus) :
    (Operation.repatriate slashed beneficiary 0 status).Law E reserveAddress code contract balances
      users w := by
  refine ⟨w, 0, ?_, ?_⟩
  · exact if_pos rfl
  · exact Ledger.repatriate_of_min_eq_zero (Nat.min_zero _) beneficiary status

end Laws

namespace Operation

variable {E : Env} {reserveAddress : EvmAddress → EvmAddress} {code : Behaviour}
  {contract : EvmAddress} {balances : State → EvmAddress → ℕ} {users : Finset AccountId}
  (hstd : Standard E code contract balances) {w : World} {op : Operation} (hon : op.On users)
  (hvalue : op.value ≤ Bounded.maxValue balanceBits)
  (hsep : Separate reserveAddress (among users (op.addresses E.toConfig w.state)))

include hstd hon hvalue hsep

/-- An operation keeps the total of the ledger it works on. -/
theorem step_totalIssuance :
    (op.ledger E reserveAddress balances users w.state
      (op.step E reserveAddress code contract w).state).totalIssuance =
    (op.ledger E reserveAddress balances users w.state w.state).totalIssuance := by
  cases op with
  | reserve who value =>
    have hbound : value ≤ Bounded.maxValue balanceBits := hvalue
    obtain ⟨w', hrun, hlaw⟩ | ⟨w', e, hrun, hsame⟩ := reserve_law hstd hbound hsep hon
    · rw [step, hrun]
      exact Ledger.reserve_totalIssuance hlaw
    · rw [step, hrun, hsame]
  | unreserve who value =>
    have hbound : value ≤ Bounded.maxValue balanceBits := hvalue
    obtain ⟨w', rest, hrun, htotal⟩ := unreserve_totalIssuance hstd hbound hsep hon
    rw [step, hrun]
    exact htotal
  | repatriate slashed beneficiary value status =>
    have hbound : value ≤ Bounded.maxValue balanceBits := hvalue
    by_cases hzero : value = 0
    · simp only [step, repatriateReserved, if_pos hzero]
      rfl
    · by_cases hself : slashed = beneficiary
      · -- an account that repatriates to itself needs no new address
        subst hself
        have haddresses : (repatriate slashed slashed value status).addresses E.toConfig w.state =
            w.state.getEvmAddress := if_pos (.inr (.inl rfl))
        rw [haddresses] at hsep
        unfold ledger
        rw [haddresses]
        cases status with
        | free =>
          obtain ⟨w', rest, hrun, htotal⟩ := unreserve_totalIssuance hstd hbound hsep hon.1
          rw [step, repatriateReserved_self_free hzero, hrun]
          exact htotal
        | reserved =>
          -- nothing is transferred at all, the reserve is only looked at
          obtain ⟨w', rest, hrun, hsame⟩ :=
            repatriateReserved_self_reserved hstd reserveAddress w hzero slashed
          rw [step, hrun]
          change (tokenLedger balances reserveAddress _ w'.state).totalIssuance = _
          rw [hsame]
      · cases haddress : w.state.getEvmAddress slashed with
        | none =>
          simp only [step, repatriateReserved, if_neg hzero, if_neg hself, haddress]
          rfl
        | some a =>
          obtain ⟨w', actual, r, hrun, -, hreleased⟩ :=
            repatriate_release hstd hbound hzero hself haddress status hon hsep
          rw [step, hrun]
          exact hreleased.totalIssuance

/-- An operation meets its law if and only if it is granted. -/
theorem law_iff :
    op.Law E reserveAddress code contract balances users w ↔
      op.Granted E reserveAddress code contract balances w := by
  cases op with
  | reserve who value => exact iff_of_true (reserve_law hstd hvalue hsep hon) trivial
  | unreserve who value => exact unreserve_law_iff hstd hvalue hsep hon
  | repatriate slashed beneficiary value status =>
    have hbound : value ≤ Bounded.maxValue balanceBits := hvalue
    by_cases hzero : value = 0
    · subst hzero
      exact iff_of_true (repatriate_zero_law slashed beneficiary status) (.inl rfl)
    · by_cases hne : slashed = beneficiary
      · -- the case where the code answers without a transfer, or unreserves
        subst hne
        have haddresses : (repatriate slashed slashed value status).addresses E.toConfig w.state =
            w.state.getEvmAddress := if_pos (.inr (.inl rfl))
        rw [haddresses] at hsep
        cases status with
        | free =>
          rw [repatriate_self_free_law_iff hzero, unreserve_law_iff hstd hbound hsep hon.1]
          simp [Granted, hzero]
        | reserved =>
          rw [repatriate_self_reserved_law_iff hstd hbound hzero hon.1]
          simp [Granted, hzero]
      · rw [repatriate_other_law_iff hstd hbound hzero hne status hon hsep]
        simp [Granted, hzero, hne, releases_iff_letsGo hstd hbound]

/-! ### Runs -/

/-- The tokens of users, as they see them. -/
def seen (balances : State → EvmAddress → ℕ) (reserveAddress : EvmAddress → EvmAddress)
    (users : Finset AccountId) (s : State) : Ledger AccountId :=
  tokenLedger balances reserveAddress (among users s.getEvmAddress) s

/-- No tokens come into sight with the address of a user: the addresses that the operation works
with are separate, and a user that is given an address has no tokens there. This is a condition on
the state before the operation. -/
structure InSight (C : Evm.Config) (reserveAddress : EvmAddress → EvmAddress)
    (balances : State → EvmAddress → ℕ) (users : Finset AccountId) (w : World) (op : Operation) :
    Prop where
  on : op.On users
  value_le : op.value ≤ Bounded.maxValue balanceBits
  separate : Separate reserveAddress (among users (op.addresses C w.state))
  given : ∀ who ∈ users, w.state.getEvmAddress who = none → ∀ a status,
    op.addresses C w.state who = some a → balances w.state (slot reserveAddress status a) = 0

omit hstd hon hvalue hsep in
/-- A transfer keeps the addresses of accounts, where these are not reaped. -/
theorem bridgeTransfer_getEvmAddress (hhook : E.killHook = false)
    (sender origin dest : EvmAddress) (amount : ℕ) (w : World) (who : AccountId) :
    (bridgeTransfer E code contract sender origin dest amount w).1.state.getEvmAddress who =
      w.state.getEvmAddress who := by
  have hkept : (evmExecute E code ⟨contract, sender, origin⟩ (transferInput dest amount) gasLimit
      (if origin = 0 then 0 else 1_000) false w).1.state.getEvmAddress who =
      w.state.getEvmAddress who := evmExecute_getEvmAddress hhook who
  unfold bridgeTransfer EvmBridge.transfer
  simp only []
  rcases hcall : evmExecute E code ⟨contract, sender, origin⟩ (transferInput dest amount)
      gasLimit (if origin = 0 then 0 else 1_000) false w with ⟨w', e | info⟩
  · rw [hcall] at hkept
    exact hkept
  · rw [hcall] at hkept
    simp only []
    split
    · exact hkept
    · split
      · exact hkept
      · exact hkept

omit hon hvalue hsep in
/-- So does a release. -/
theorem release_getEvmAddress (hhook : E.killHook = false) {address dest : EvmAddress} {value : ℕ}
    {w' : World} {actual : ℕ} {r : Except Currencies.Error Unit}
    (h : release E reserveAddress code contract address dest value w = some (w', actual, r))
    (who : AccountId) : w'.state.getEvmAddress who = w.state.getEvmAddress who := by
  obtain ⟨w₁, n, hread, hsame, -⟩ := bridgeBalance_cases hstd (reserveAddress address) w
  unfold release at h
  rw [hread] at h
  have hend : (bridgeTransfer E code contract (reserveAddress address) address dest
      (min n value) w₁).1 = w' := congrArg Prod.fst (Option.some.inj h)
  rw [← hend, bridgeTransfer_getEvmAddress hhook, hsame]

omit hon hvalue hsep in
/-- So does unreserving. -/
theorem unreserve_getEvmAddress (hhook : E.killHook = false) {value : ℕ}
    (hvalue : value ≤ Bounded.maxValue balanceBits) (owner who : AccountId) :
    ∃ w' rest, Currencies.unreserve E reserveAddress code contract owner value w = some (w', rest) ∧
      w'.state.getEvmAddress who = w.state.getEvmAddress who := by
  by_cases hzero : value = 0
  · exact ⟨w, value, if_pos hzero, rfl⟩
  · cases haddress : w.state.getEvmAddress owner with
    | none =>
      refine ⟨w, value, ?_, rfl⟩
      rw [Currencies.unreserve, if_neg hzero, haddress]
    | some a =>
      obtain ⟨w', actual, r, hrelease, -⟩ := release_cases hstd hvalue reserveAddress a a w
      rw [unreserve_eq_release hzero haddress, hrelease]
      exact ⟨w', _, rfl, release_getEvmAddress hstd hhook hrelease who⟩

omit hon hvalue hsep in
/-- **Addresses.** Where accounts are not reaped, the accounts have the addresses the operation has
worked with when it ends. -/
theorem step_getEvmAddress (hhook : E.killHook = false)
    (hvalue : op.value ≤ Bounded.maxValue balanceBits) (who : AccountId) :
    (op.step E reserveAddress code contract w).state.getEvmAddress who =
      op.addresses E.toConfig w.state who := by
  cases op with
  | reserve owner value =>
    change (Currencies.reserve E reserveAddress code contract owner value w).1.state.getEvmAddress
      who = w.state.getEvmAddress who
    unfold Currencies.reserve
    split
    · rfl
    · split
      · rfl
      · exact bridgeTransfer_getEvmAddress hhook _ _ _ _ w who
  | unreserve owner value =>
    have hbound : value ≤ Bounded.maxValue balanceBits := hvalue
    obtain ⟨w', rest, hrun, hkept⟩ := unreserve_getEvmAddress hstd hhook hbound owner who
    rw [step, hrun]
    exact hkept
  | repatriate slashed beneficiary value status =>
    have hbound : value ≤ Bounded.maxValue balanceBits := hvalue
    by_cases hzero : value = 0
    · rw [addresses, if_pos (.inl hzero)]
      simp only [step, repatriateReserved, if_pos hzero]
      rfl
    · by_cases hself : slashed = beneficiary
      · -- no address is given, whether the reserve is released or only looked at
        subst hself
        rw [addresses, if_pos (.inr (.inl rfl))]
        cases status with
        | free =>
          obtain ⟨w', rest, hrun, hkept⟩ :=
            unreserve_getEvmAddress hstd hhook hbound slashed who
          rw [step, repatriateReserved_self_free hzero, hrun]
          exact hkept
        | reserved =>
          obtain ⟨w', rest, hrun, hsame⟩ :=
            repatriateReserved_self_reserved hstd reserveAddress w hzero slashed
          rw [step, hrun]
          exact congrArg (·.getEvmAddress who) hsame
      · cases haddress : w.state.getEvmAddress slashed with
        | none =>
          rw [addresses, if_pos (.inr (.inr haddress))]
          simp only [step, repatriateReserved, if_neg hzero, if_neg hself, haddress]
          rfl
        | some a =>
          have hgiven : ¬(value = 0 ∨ slashed = beneficiary ∨
              w.state.getEvmAddress slashed = none) := by
            rw [haddress]
            rintro (h | h | h)
            · exact hzero h
            · exact hself h
            · cases h
          obtain ⟨w', actual, r, hrelease, -⟩ := release_cases hstd hbound reserveAddress a
            (slot reserveAddress status (addressOf E.toConfig w.state beneficiary))
            { w with state := (w.state.getOrCreateEvmAddress E.toConfig beneficiary).1 }
          rw [addresses, if_neg hgiven, step,
            repatriateReserved_eq_release hzero hself haddress, hrelease]
          exact release_getEvmAddress hstd hhook hrelease who

omit hstd hon hvalue hsep in
/-- An account that has an address is not given another one. -/
theorem addresses_of_mapped {C : Evm.Config} {s : State} {who : AccountId} {a : EvmAddress}
    (h : s.getEvmAddress who = some a) : op.addresses C s who = some a := by
  cases op with
  | reserve who' value => exact h
  | unreserve who' value => exact h
  | repatriate slashed beneficiary value status =>
    rw [addresses]
    split
    · exact h
    · obtain ⟨-, -, hcreated⟩ := getOrCreateEvmAddress_spec C s beneficiary
      rw [hcreated]
      split
      · next hwho => rw [← hwho, addressOf_of_mapped h]
      · exact h

omit hstd hon hvalue hsep in
/-- What users see before an operation is the ledger it starts from. -/
theorem InSight.ledger_eq
    (h : InSight E.toConfig reserveAddress balances users w op) :
    op.ledger E reserveAddress balances users w.state w.state =
      seen balances reserveAddress users w.state := by
  refine Ledger.ext_balance rfl fun status who => ?_
  unfold seen
  rw [balance_tokenLedger, balance_tokenLedger]
  by_cases hwho : who ∈ users
  · rw [among_of_mem hwho, among_of_mem hwho]
    cases haddress : w.state.getEvmAddress who with
    | some a => rw [addresses_of_mapped haddress]
    | none =>
      cases hgiven : op.addresses E.toConfig w.state who with
      | none => rfl
      | some a => exact h.given who hwho haddress a status hgiven
  · rw [among, among, if_neg hwho, if_neg hwho]

omit hon hvalue hsep in
/-- A step in which all tokens stay in sight keeps the tokens that users see. -/
theorem InSight.totalIssuance_seen (hhook : E.killHook = false)
    (h : InSight E.toConfig reserveAddress balances users w op) :
    (seen balances reserveAddress users
      (op.step E reserveAddress code contract w).state).totalIssuance =
    (seen balances reserveAddress users w.state).totalIssuance := by
  -- the users keep the addresses the operation has worked with
  have hkept : among users (op.step E reserveAddress code contract w).state.getEvmAddress =
      among users (op.addresses E.toConfig w.state) := by
    funext who
    by_cases hwho : who ∈ users
    · rw [among_of_mem hwho, among_of_mem hwho, step_getEvmAddress hstd hhook h.value_le]
    · rw [among, among, if_neg hwho, if_neg hwho]
  rw [← h.ledger_eq, seen, hkept]
  exact step_totalIssuance hstd h.on h.value_le h.separate

omit hon hvalue hsep in
/-- A run of operations keeps the tokens that users see. -/
theorem run_totalIssuance (hhook : E.killHook = false) {ops : List Operation}
    (h : Run.Along (step E reserveAddress code contract)
      (InSight E.toConfig reserveAddress balances users) w ops) :
    (seen balances reserveAddress users
      (Run.run (step E reserveAddress code contract) w ops).state).totalIssuance =
    (seen balances reserveAddress users w.state).totalIssuance := by
  apply Run.conserved
    (fun w' : World => (seen balances reserveAddress users w'.state).totalIssuance)
    _ h
  intro w' op hsight
  exact hsight.totalIssuance_seen hstd hhook

end Operation

open Operation (seen)

/-- A single user has separate addresses if its reserve address is another one. -/
theorem separate_singleton {reserveAddress : EvmAddress → EvmAddress} {who : AccountId}
    {a : EvmAddress} {σ : AccountId → Option EvmAddress} (h : σ who = some a)
    (hne : a ≠ reserveAddress a) : Separate reserveAddress (among {who} σ) := by
  have hall : ∀ {x b}, among {who} σ x = some b → x = who ∧ b = a := by
    intro x b hx
    by_cases hmem : x ∈ ({who} : Finset AccountId)
    · rw [among_of_mem hmem] at hx
      have hwho := Finset.mem_singleton.mp hmem
      rw [hwho, h] at hx
      exact ⟨hwho, (Option.some.inj hx).symm⟩
    · rw [among, if_neg hmem] at hx
      cases hx
  refine ⟨fun hx hy => (hall hx).1.trans (hall hy).1.symm,
    fun hx hy _ => (hall hx).2.trans (hall hy).2.symm, fun hx hy => ?_⟩
  rw [(hall hx).2, (hall hy).2]
  exact hne

/-- All tokens of a single user that has an address stay in sight. -/
theorem inSight_singleton {C : Evm.Config} {reserveAddress : EvmAddress → EvmAddress}
    {balances : State → EvmAddress → ℕ} {who : AccountId} {a : EvmAddress} {w : World}
    {op : Operation} (hon : op.On {who}) (hvalue : op.value ≤ Bounded.maxValue balanceBits)
    (hne : a ≠ reserveAddress a) (haddress : w.state.getEvmAddress who = some a) :
    op.InSight C reserveAddress balances {who} w where
  on := hon
  value_le := hvalue
  separate := separate_singleton (Operation.addresses_of_mapped haddress) hne
  given x hx hnone := by
    rw [Finset.mem_singleton.mp hx, haddress] at hnone
    cases hnone

/-- **Reserves of standard tokens.** For users with separate addresses, every operation meets its
law if and only if it is granted: reserving always; releasing if there is nothing to release, or if
the token answers how much is reserved and accepts its transfer, for which the owner of the reserve
has to have the deposit. And where accounts are not reaped, every run of operations in which all
tokens stay in sight keeps the tokens of all users together. -/
theorem reserves_of_standard_token {E : Env} {code : Behaviour} {contract : EvmAddress}
    {balances : State → EvmAddress → ℕ} (hstd : Standard E code contract balances)
    (reserveAddress : EvmAddress → EvmAddress) (users : Finset AccountId) :
    (∀ (w : World) (op : Operation), op.On users → op.value ≤ Bounded.maxValue balanceBits →
      Separate reserveAddress (among users (op.addresses E.toConfig w.state)) →
      (op.Law E reserveAddress code contract balances users w ↔
        op.Granted E reserveAddress code contract balances w)) ∧
    (E.killHook = false → ∀ (w : World) (ops : List Operation),
      Run.Along (Operation.step E reserveAddress code contract)
        (Operation.InSight E.toConfig reserveAddress balances users) w ops →
      (seen balances reserveAddress users
        (Run.run (Operation.step E reserveAddress code contract) w ops).state).totalIssuance =
      (seen balances reserveAddress users w.state).totalIssuance) :=
  ⟨fun _ _ hon hvalue hsep => Operation.law_iff hstd hon hvalue hsep,
    fun hhook _ _ h => Operation.run_totalIssuance hstd hhook h⟩

/-- A transfer of the sample token writes to storage and touches nothing else. -/
theorem sampleToken_frame {E : Env} {context : InvokeContext} {dest : EvmAddress} {value limit : ℕ}
    {w : World} (hvalue : value < 2 ^ 256)
    (hsucceed : (frameOf E sampleToken context (transferInput dest value) limit
      w).reason.isSucceed = true) :
    (frameOf E sampleToken context (transferInput dest value) limit w).world.state.ledger =
        (Runner.started E.toConfig context.sender context.origin limit w).state.ledger ∧
    (frameOf E sampleToken context (transferInput dest value) limit w).world.state.mapping =
        w.state.mapping := by
  unfold frameOf Runner.ran at hsucceed ⊢
  simp only [sampleToken_transferInput context.contract context.sender dest hvalue] at hsucceed ⊢
  split at hsucceed
  · next hcan =>
    rw [if_pos hcan]
    obtain ⟨x, hx, -, -, hstate⟩ := exec_two_writes hsucceed
    rw [hx, hstate]
    exact ⟨rfl, rfl⟩
  · cases hsucceed

/-- The sample token answers how many of the thirty tokens are reserved. -/
theorem sampleToken_answers :
    Answers mockEnv sampleToken 7 (sampleReserveAddress 8) thirtyReserved.1 where
  permitted := by decide +kernel
  affords := .inl rfl
  gas := by decide +kernel
  returns := by decide +kernel
  within := by decide +kernel
  chargeable := .inl (by decide +kernel)

/-- The sample token accepts the transfer of ten of them, as the owner has funds. -/
theorem sampleToken_accepts :
    Accepts mockEnv sampleToken 7 (sampleReserveAddress 8) 8 8 10
      (asked mockEnv sampleToken 7 (sampleReserveAddress 8) thirtyReserved.1) := by
  have hsucceed : (frameOf mockEnv sampleToken ⟨7, sampleReserveAddress 8, 8⟩ (transferInput 8 10)
      1_000 (asked mockEnv sampleToken 7 (sampleReserveAddress 8)
        thirtyReserved.1)).reason.isSucceed = true := by
    decide +kernel
  obtain ⟨hledger, hmapping⟩ := sampleToken_frame (by decide) hsucceed
  have hfrugal : Frugal mockEnv sampleToken ⟨7, sampleReserveAddress 8, 8⟩ (transferInput 8 10)
      1_000 (asked mockEnv sampleToken 7 (sampleReserveAddress 8) thirtyReserved.1) :=
    { ledger := hledger
      mapping := hmapping
      own := by decide +kernel
      funds := by decide +kernel
      apart := by decide +kernel }
  exact hfrugal.accepted (by decide) (by decide) (by decide +kernel) (by decide +kernel)
    (by decide +kernel) (by decide +kernel)

/-- The owner of thirty reserved tokens gets ten of them back, and nothing is lost on the way. -/
theorem reserves_of_sample_token :
    (Operation.unreserve 1 10).Law mockEnv sampleReserveAddress sampleToken 7 (storedBalance 7) {1}
      thirtyReserved.1 ∧
    (seen (storedBalance 7) sampleReserveAddress {1}
      (Run.run (Operation.step mockEnv sampleReserveAddress sampleToken 7) ⟨tokenState, []⟩
        [.reserve 1 30, .unreserve 1 10]).state).totalIssuance =
      (seen (storedBalance 7) sampleReserveAddress {1} tokenState).totalIssuance := by
  have haddress : tokenState.getEvmAddress 1 = some 8 := by decide +kernel
  have haddress₁ : thirtyReserved.1.state.getEvmAddress 1 = some 8 := by decide +kernel
  have hne : (8 : EvmAddress) ≠ sampleReserveAddress 8 := by decide +kernel
  have hreserved : storedBalance 7 thirtyReserved.1.state (sampleReserveAddress 8) = 30 := by
    decide +kernel
  have hstd := sampleToken_standard mockEnv rfl 7
  -- the law is met as the token lets go of ten, and the run keeps the tokens in sight
  constructor
  · refine ((reserves_of_standard_token hstd sampleReserveAddress {1}).1 thirtyReserved.1
      (.unreserve 1 10) (Finset.mem_singleton_self 1) (by decide)
      (separate_singleton (Operation.addresses_of_mapped haddress₁) hne)).mpr ?_
    intro a ha
    obtain rfl : (8 : EvmAddress) = a := Option.some.inj (haddress₁.symm.trans ha)
    refine .inr ⟨.inr sampleToken_answers, ?_⟩
    rw [hreserved]
    exact sampleToken_accepts
  · have hfirst : Operation.step mockEnv sampleReserveAddress sampleToken 7 ⟨tokenState, []⟩
        (.reserve 1 30) = thirtyReserved.1 := by
      rw [Operation.step, thirtyReserved]
    refine (reserves_of_standard_token hstd sampleReserveAddress {1}).2 rfl ⟨tokenState, []⟩
      [.reserve 1 30, .unreserve 1 10] ⟨?_, ?_, trivial⟩
    · exact inSight_singleton (Finset.mem_singleton_self 1) (by decide) hne haddress
    · rw [hfirst]
      exact inSight_singleton (Finset.mem_singleton_self 1) (by decide) hne haddress₁

/-- A state in which thirty tokens of the account 1 are reserved, and nobody can pay the storage
deposit of a transfer. -/
def poorState : State :=
  { tokenState with
    accountStorages := fun a =>
      if a = 7 then Finmap.singleton (tokenSlot (sampleReserveAddress 8)) 30 else ∅
    ledger := .ofFree fun _ => 5 * REEF }

/-- The owner of thirty reserved tokens wants them back and is told that there were none. -/
theorem poor_owner_unreserves_nothing :
    Standard mockEnv sampleToken 7 (storedBalance 7) ∧
    Query.reservedBalance mockEnv sampleReserveAddress sampleToken (.erc20 7) 1 poorState =
      some 30 ∧
    (Currencies.unreserve mockEnv sampleReserveAddress sampleToken 7 1 30 ⟨poorState, []⟩).map
      (fun x => (x.2, storedBalance 7 x.1.state 8)) = some (30, 0) ∧
    ¬(Operation.unreserve 1 30).Law mockEnv sampleReserveAddress sampleToken 7 (storedBalance 7) {1}
      ⟨poorState, []⟩ := by
  have hrun : (Currencies.unreserve mockEnv sampleReserveAddress sampleToken 7 1 30
      ⟨poorState, []⟩).map (fun x => (x.2, storedBalance 7 x.1.state 8)) = some (30, 0) := by
    decide +kernel
  have hrest : (((Operation.unreserve 1 30).ledger mockEnv sampleReserveAddress (storedBalance 7)
      {1} poorState poorState).unreserve 1 30).2 = 0 := by
    decide +kernel
  refine ⟨sampleToken_standard mockEnv rfl 7, by decide +kernel, hrun, ?_⟩
  rintro ⟨w', rest, hresult, hlaw⟩
  rw [hresult] at hrun
  have hthirty : rest = 30 := congrArg Prod.fst (Option.some.inj hrun)
  have hzero : 0 = rest := hrest.symm.trans (congrArg Prod.snd hlaw)
  omega

end Currencies
end Reef
