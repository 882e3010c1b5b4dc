import ReefChain.Erc20.Sample

/-!
# Balances of all currencies

The interface `MultiCurrency` promises that the total balance of an account is its free and its
reserved balance, and that slashing returns what could not be slashed. For the currencies with a
ledger of their own this is a fact about ledgers. For a token that is a contract it fails:

* The total balance is that of the address of the account. What the account has reserved is at
  another address and is not counted (`balances_decompose_iff`).
* Nothing is slashed, but all of the amount is reported as slashed, or what exceeds the balance of
  the account (`slash_reports_iff`).
-/

namespace Reef
namespace Currencies

open Evm EvmBridge

/-! ### Currencies with a ledger -/

section LedgerCurrencies

variable (E : Env) (reserveAddress : EvmAddress → EvmAddress) (code : Behaviour)
  {id : CurrencyId} (hid : ∀ contract, id ≠ .erc20 contract) (who : AccountId) (s : State)

include hid

/-- The queries read the ledger of the currency. -/
theorem query_ledger :
    Query.freeBalance E code id who s = some ((backend s id).free who) ∧
    Query.reservedBalance E reserveAddress code id who s = some ((backend s id).reserved who) ∧
    Query.totalBalance E code id who s = some ((backend s id).total who) := by
  cases id with
  | token symbol => exact ⟨rfl, rfl, rfl⟩
  | dexShare left right => exact ⟨rfl, rfl, rfl⟩
  | erc20 contract => exact absurd rfl (hid contract)

theorem slash_ledger (amount : ℕ) :
    slash E id who amount s =
      (setBackend E.toConfig s id who ((backend s id).slash who amount).1,
        ((backend s id).slash who amount).2) := by
  cases id with
  | token symbol => rfl
  | dexShare left right => rfl
  | erc20 contract => exact absurd rfl (hid contract)

theorem slashReserved_ledger (value : ℕ) :
    slashReserved E code id who value s =
      some (setBackend E.toConfig s id who ((backend s id).slashReserved who value).1,
        ((backend s id).slashReserved who value).2) := by
  cases id with
  | token symbol => rfl
  | dexShare left right => rfl
  | erc20 contract => exact absurd rfl (hid contract)

theorem backend_setBackend (C : Evm.Config) (l : Ledger AccountId) :
    backend (setBackend C s id who l) id = l := by
  by_cases hreef : id = .token .reef
  · subst hreef
    exact State.setLedger_ledger C s l [who]
  · -- every other currency has its ledger among the tokens
    cases id with
    | token symbol =>
      cases symbol with
      | reef => exact absurd rfl hreef
      | rusd => exact Function.update_self (.token .rusd) l s.outer.tokens
    | dexShare left right => exact Function.update_self (.dexShare left right) l s.outer.tokens
    | erc20 contract => exact absurd rfl (hid contract)

end LedgerCurrencies

/-! ### The decomposition of balances -/

/-- The total balance is the free and the reserved balance, and all of them can be read. -/
def Decomposes (E : Env) (reserveAddress : EvmAddress → EvmAddress) (code : Behaviour)
    (id : CurrencyId) (who : AccountId) (s : State) : Prop :=
  ∃ free reserved, Query.freeBalance E code id who s = some free ∧
    Query.reservedBalance E reserveAddress code id who s = some reserved ∧
    Query.totalBalance E code id who s = some (free + reserved)

/-- The queries of a contract do not tell the total from the free balance. -/
theorem totalBalance_erc20 (E : Env) (code : Behaviour) (contract : EvmAddress) (who : AccountId)
    (s : State) : Query.totalBalance E code (.erc20 contract) who s =
      Query.freeBalance E code (.erc20 contract) who s := rfl

/-- **Decomposition of balances.** The total balance of an account in a currency is its free and its
reserved balance if and only if the currency is not a contract, or the contract answers and the
account has reserved nothing. -/
theorem balances_decompose_iff (E : Env) (reserveAddress : EvmAddress → EvmAddress)
    (code : Behaviour) (id : CurrencyId) (who : AccountId) (s : State) :
    Decomposes E reserveAddress code id who s ↔
      ∀ contract, id = .erc20 contract →
        (∃ free, Query.freeBalance E code id who s = some free) ∧
          Query.reservedBalance E reserveAddress code id who s = some 0 := by
  constructor
  · rintro ⟨free, reserved, hfree, hreserved, htotal⟩ contract rfl
    -- the total is the free balance, so nothing is left for the reserved one
    rw [totalBalance_erc20, hfree] at htotal
    have hsum : free = free + reserved := Option.some.inj htotal
    have hzero : reserved = 0 := Nat.left_eq_add.mp hsum
    exact ⟨⟨free, hfree⟩, by rw [hreserved, hzero]⟩
  · intro h
    by_cases hid : ∀ contract, id ≠ .erc20 contract
    · obtain ⟨hfree, hreserved, htotal⟩ := query_ledger E reserveAddress code hid who s
      exact ⟨_, _, hfree, hreserved, htotal⟩
    · push Not at hid
      obtain ⟨contract, rfl⟩ := hid
      obtain ⟨⟨free, hfree⟩, hreserved⟩ := h contract rfl
      refine ⟨free, 0, hfree, hreserved, ?_⟩
      rw [totalBalance_erc20, hfree, Nat.add_zero]

/-- The owner of a hundred tokens reserves thirty of them. -/
def thirtyReserved : World × Except Currencies.Error Unit :=
  Currencies.reserve mockEnv sampleReserveAddress sampleToken 7 1 30 ⟨tokenState, []⟩

/-- The total balance is then seventy, as is the free balance. -/
theorem reserved_tokens_not_in_total :
    Standard mockEnv sampleToken 7 (storedBalance 7) ∧
    thirtyReserved.2 = .ok () ∧
    Query.freeBalance mockEnv sampleToken (.erc20 7) 1 thirtyReserved.1.state = some 70 ∧
    Query.reservedBalance mockEnv sampleReserveAddress sampleToken (.erc20 7) 1
      thirtyReserved.1.state = some 30 ∧
    Query.totalBalance mockEnv sampleToken (.erc20 7) 1 thirtyReserved.1.state = some 70 ∧
    ¬Decomposes mockEnv sampleReserveAddress sampleToken (.erc20 7) 1 thirtyReserved.1.state := by
  have hreads : thirtyReserved.2 = .ok () ∧
      Query.freeBalance mockEnv sampleToken (.erc20 7) 1 thirtyReserved.1.state = some 70 ∧
      Query.reservedBalance mockEnv sampleReserveAddress sampleToken (.erc20 7) 1
        thirtyReserved.1.state = some 30 ∧
      Query.totalBalance mockEnv sampleToken (.erc20 7) 1 thirtyReserved.1.state = some 70 := by
    decide +kernel
  obtain ⟨hok, hfree, hreserved, htotal⟩ := hreads
  refine ⟨sampleToken_standard mockEnv rfl 7, hok, hfree, hreserved, htotal, ?_⟩
  rintro ⟨free, reserved, hfree', hreserved', htotal'⟩
  rw [hfree] at hfree'
  rw [hreserved] at hreserved'
  rw [htotal] at htotal'
  cases hfree'
  cases hreserved'
  cases htotal'

/-! ### Slashing -/

/-- `slash` returns the amount without what was taken from the total balance. -/
def SlashReports (E : Env) (code : Behaviour) (id : CurrencyId) (who : AccountId) (amount : ℕ)
    (s : State) : Prop :=
  ∃ before after, Query.totalBalance E code id who s = some before ∧
    Query.totalBalance E code id who (slash E id who amount s).1 = some after ∧
    (slash E id who amount s).2 + before = amount + after

/-- `slash_reserved` returns the amount without what was taken from the reserved balance. -/
def SlashReservedReports (E : Env) (reserveAddress : EvmAddress → EvmAddress) (code : Behaviour)
    (id : CurrencyId) (who : AccountId) (amount : ℕ) (s : State) : Prop :=
  ∃ s' rest before after, slashReserved E code id who amount s = some (s', rest) ∧
    Query.reservedBalance E reserveAddress code id who s = some before ∧
    Query.reservedBalance E reserveAddress code id who s' = some after ∧
    rest + before = amount + after

section Slashing

variable (E : Env) (reserveAddress : EvmAddress → EvmAddress) (code : Behaviour) (id : CurrencyId)
  (who : AccountId) (amount : ℕ) (s : State)

theorem slashReports_iff :
    SlashReports E code id who amount s ↔
      ∀ contract, id = .erc20 contract →
        amount = 0 ∧ ∃ before, Query.totalBalance E code id who s = some before := by
  by_cases hid : ∀ contract, id ≠ .erc20 contract
  · -- the ledger of the currency keeps the law
    refine ⟨fun _ contract h => absurd h (hid contract), fun _ => ?_⟩
    obtain ⟨-, -, hbefore⟩ := query_ledger E (fun a => a) code hid who s
    obtain ⟨-, -, hafter⟩ := query_ledger E (fun a => a) code hid who (slash E id who amount s).1
    refine ⟨_, _, hbefore, hafter, ?_⟩
    rw [slash_ledger E hid, backend_setBackend hid]
    exact Ledger.slash_rest (backend s id) who amount
  · push Not at hid
    obtain ⟨contract, rfl⟩ := hid
    constructor
    · -- nothing is slashed and zero is returned
      rintro ⟨before, after, hbefore, hafter, hlaw⟩ _ -
      have hsame : before = after := Option.some.inj (hbefore.symm.trans hafter)
      have hzero : 0 + before = amount + after := hlaw
      exact ⟨by omega, before, hbefore⟩
    · intro h
      obtain ⟨hzero, before, hbefore⟩ := h contract rfl
      refine ⟨before, before, hbefore, hbefore, ?_⟩
      rw [hzero]
      rfl

/-- A contract that is asked to slash a reserve leaves everything as it is. -/
theorem slashReserved_erc20 {contract address : EvmAddress} {balance : ℕ}
    (haddress : s.getEvmAddress who = some address)
    (hbalance : Query.balanceOf E code contract address s = some balance) :
    slashReserved E code (.erc20 contract) who amount s = some (s, min amount balance) := by
  simp only [slashReserved, haddress, hbalance]
  show some (s, if amount < balance then amount else balance) = _
  split
  · next hlt => rw [Nat.min_eq_left hlt.le]
  · next hge => rw [Nat.min_eq_right (Nat.le_of_not_lt hge)]

theorem slashReservedReports_iff :
    SlashReservedReports E reserveAddress code id who amount s ↔
      ∀ contract address, id = .erc20 contract → s.getEvmAddress who = some address →
        (∃ balance, Query.balanceOf E code contract address s = some balance ∧
          amount ≤ balance) ∧
        ∃ before, Query.reservedBalance E reserveAddress code id who s = some before := by
  by_cases hid : ∀ contract, id ≠ .erc20 contract
  · -- the other currencies are kept in a ledger, which reports what it slashes
    refine ⟨fun _ contract _ h => absurd h (hid contract), fun _ => ?_⟩
    obtain ⟨-, hbefore, -⟩ := query_ledger E reserveAddress code hid who s
    obtain ⟨-, hafter, -⟩ := query_ledger E reserveAddress code hid who
      (setBackend E.toConfig s id who ((backend s id).slashReserved who amount).1)
    refine ⟨_, _, _, _, slashReserved_ledger E code hid who s amount, hbefore, hafter, ?_⟩
    rw [backend_setBackend hid]
    exact Ledger.slashReserved_rest (backend s id) who amount
  · push Not at hid
    obtain ⟨contract, rfl⟩ := hid
    constructor
    · rintro ⟨s', rest, before, after, hslash, hbefore, hafter, hlaw⟩ _ address ⟨⟩ haddress
      cases hbalance : Query.balanceOf E code contract address s with
      | none =>
        simp only [slashReserved, haddress, hbalance] at hslash
        cases hslash
      | some balance =>
        rw [slashReserved_erc20 E code who amount s haddress hbalance] at hslash
        cases hslash
        -- nothing is slashed, so the law says that all of `amount` is left over
        have hsame : before = after := Option.some.inj (hbefore.symm.trans hafter)
        exact ⟨⟨balance, rfl, by omega⟩, before, hbefore⟩
    · intro h
      cases haddress : s.getEvmAddress who with
      | none =>
        have hslash : slashReserved E code (.erc20 contract) who amount s = some (s, amount) := by
          simp only [slashReserved, haddress]
        have hread : Query.reservedBalance E reserveAddress code (.erc20 contract) who s =
            some 0 := by
          simp only [Query.reservedBalance, haddress]
        exact ⟨s, amount, 0, 0, hslash, hread, hread, rfl⟩
      | some address =>
        obtain ⟨⟨balance, hbalance, hle⟩, before, hbefore⟩ := h contract address rfl haddress
        have hslash := slashReserved_erc20 E code who amount s haddress hbalance
        rw [Nat.min_eq_left hle] at hslash
        exact ⟨s, amount, before, before, hslash, hbefore, hbefore, rfl⟩

/-- **What slashing reports.** `slash` reports what it has done if and only if the currency is not a
contract, or the amount is zero. `slash_reserved` does so if and only if the currency is not a
contract, or the account has no address, or the amount is at most the balance at its address.
Contracts have to answer what they are asked for this. -/
theorem slash_reports_iff :
    (SlashReports E code id who amount s ↔
      ∀ contract, id = .erc20 contract →
        amount = 0 ∧ ∃ before, Query.totalBalance E code id who s = some before) ∧
    (SlashReservedReports E reserveAddress code id who amount s ↔
      ∀ contract address, id = .erc20 contract → s.getEvmAddress who = some address →
        (∃ balance, Query.balanceOf E code contract address s = some balance ∧
          amount ≤ balance) ∧
        ∃ before, Query.reservedBalance E reserveAddress code id who s = some before) :=
  ⟨slashReports_iff E code id who amount s,
    slashReservedReports_iff E reserveAddress code id who amount s⟩

end Slashing

/-- Fifty tokens of a hundred are to be slashed, and zero is returned. A hundred and fifty are to be
slashed from the reserve, in which there are none, and a hundred is returned. Nothing has
changed. -/
theorem slash_reports_too_much :
    Query.totalBalance mockEnv sampleToken (.erc20 7) 1 tokenState = some 100 ∧
    slash mockEnv (.erc20 7) 1 50 tokenState = (tokenState, 0) ∧
    ¬SlashReports mockEnv sampleToken (.erc20 7) 1 50 tokenState ∧
    Query.reservedBalance mockEnv sampleReserveAddress sampleToken (.erc20 7) 1 tokenState =
      some 0 ∧
    slashReserved mockEnv sampleToken (.erc20 7) 1 150 tokenState = some (tokenState, 100) ∧
    ¬SlashReservedReports mockEnv sampleReserveAddress sampleToken (.erc20 7) 1 150 tokenState := by
  have hbalance : Query.balanceOf mockEnv sampleToken 7 8 tokenState = some 100 := by
    decide +kernel
  have haddress : tokenState.getEvmAddress 1 = some 8 := by decide +kernel
  have htotal : Query.totalBalance mockEnv sampleToken (.erc20 7) 1 tokenState = some 100 := by
    decide +kernel
  have hreserved : Query.reservedBalance mockEnv sampleReserveAddress sampleToken (.erc20 7) 1
      tokenState = some 0 := by
    decide +kernel
  refine ⟨htotal, rfl, ?_, hreserved, ?_, ?_⟩
  · intro h
    have hzero := ((slashReports_iff _ _ _ _ _ _).mp h 7 rfl).1
    cases hzero
  · rw [slashReserved_erc20 mockEnv sampleToken 1 150 tokenState haddress hbalance]
    rfl
  · intro h
    obtain ⟨⟨balance, hread, hle⟩, -⟩ :=
      (slashReservedReports_iff _ _ _ _ _ _ _).mp h 7 8 rfl haddress
    rw [hbalance] at hread
    cases hread
    omega

end Currencies
end Reef
