import ReefChain.Evm.CodeRefs

/-!
# Code that nobody uses

The other direction of the reference counts. That no count is too low keeps the code of every
contract; that no count is too *high* is what makes the code go away with its last contract. The
invariant (`NoLeak`) is that every stored code is counted, with its size and at least once, and that
no count is above the number of contracts that have the code.

Removals keep the invariant in every state. They give back at least the reference of the contract
they remove, and `remove_contract`, which may give it back twice, only errs to the low side. In
between, while a contract has given back its reference and still has its record, the counts are
bounded by the *other* contracts (`Covered`).

References are lost where one is taken without a new user. `set_code` takes one for the new code and
leaves the record of the contract as it is, and a creation at the address of a contract replaces the
record without giving back what it referred to. Both do no harm only if the count was too low
before, by a removal that gave back too much: then it has room for one more (`HasRoom`). In every
run in which it has, no code is leaked (`no_leaked_code`).
-/

namespace Reef
namespace Evm

open Bounded FiniteMap

/-! ### The invariant -/

/-- The counts are at most `n`, and the stored codes are those that are counted, with their
sizes. -/
structure Covered (n : H256 → ℕ) (s : State) : Prop where
  covered : ∀ h, s.refCount h ≤ n h
  /-- An entry has a reference. -/
  positive : ∀ h info, s.codeInfos.lookup h = some info → 0 < info.refCount
  /-- There is an entry exactly for every stored code, and it has its size. -/
  sized : ∀ h, (s.codeInfos.lookup h).map (·.codeSize) = (s.codes.lookup h).map List.length

/-- **No leak**: no code is counted more often than it is used. -/
def NoLeak (s : State) : Prop := Covered s.users s

variable {C : Config} {s s' : State} {n n' : H256 → ℕ}

/-- What is stored under a hash that some contract has. -/
theorem NoLeak.entry (h : NoLeak s) {k : H256} {info : CodeInfo}
    (hinfo : s.codeInfos.lookup k = some info) :
    info.refCount ≤ s.users k ∧ 0 < s.users k ∧
      ∃ code, s.codes.lookup k = some code ∧ info.codeSize = code.length := by
  have hcount := h.covered k
  rw [s.refCount_of_lookup hinfo] at hcount
  have hsize := h.sized k
  rw [hinfo, Option.map_some] at hsize
  obtain ⟨code, hcode, hlength⟩ := Option.map_eq_some_iff.mp hsize.symm
  exact ⟨hcount, (h.positive k info hinfo).trans_le hcount, code, hcode, hlength.symm⟩

/-- A stored code has an entry. -/
theorem Covered.exists_entry (h : Covered n s) {k : H256} {code : Bytes}
    (hcode : s.codes.lookup k = some code) : ∃ info, s.codeInfos.lookup k = some info := by
  have hsize := h.sized k
  rw [hcode, Option.map_some] at hsize
  obtain ⟨info, hinfo, -⟩ := Option.map_eq_some_iff.mp hsize
  exact ⟨info, hinfo⟩

/-- Code that no contract has is not stored. -/
theorem NoLeak.unused (h : NoLeak s) {k : H256} (hunused : s.users k = 0) :
    s.codeInfos.lookup k = none ∧ s.codes.lookup k = none := by
  have hinfo : s.codeInfos.lookup k = none := by
    cases hlookup : s.codeInfos.lookup k with
    | none => rfl
    | some info =>
      have hpos := (h.entry hlookup).2.1
      omega
  have hsize := h.sized k
  rw [hinfo] at hsize
  exact ⟨hinfo, Option.map_eq_none_iff.mp hsize.symm⟩

/-- Only codes and counts matter, and a larger bound is a bound. -/
theorem Covered.congr (h : Covered n s) (hcodes : s'.codes = s.codes)
    (hinfos : s'.codeInfos = s.codeInfos) (hn : ∀ k, s.refCount k ≤ n' k) : Covered n' s' := by
  refine ⟨fun k => ?_, ?_, ?_⟩
  · unfold State.refCount
    rw [hinfos]
    exact hn k
  · rw [hinfos]
    exact h.positive
  · rw [hinfos, hcodes]
    exact h.sized

/-- Only accounts, codes and counts matter. -/
theorem NoLeak.of_sameCode (h : NoLeak s) (hsame : SameCode s s') : NoLeak s' :=
  Covered.congr h hsame.codes hsame.codeInfos fun k => (h.covered k).trans (hsame.users k).ge

theorem NoLeak.congr (h : NoLeak s) (haccounts : s'.accounts = s.accounts)
    (hcodes : s'.codes = s.codes) (hinfos : s'.codeInfos = s.codeInfos) : NoLeak s' :=
  h.of_sameCode (.of_eq haccounts hcodes hinfos)

/-! ### Taking and giving back references -/

theorem Covered.derefCode (h : Covered n s) (k : H256)
    (hn : ∀ j, (if j = k then s.refCount k - 1 else s.refCount j) ≤ n' j) :
    Covered n' (s.derefCode k) := by
  refine ⟨fun j => ?_, fun j info => ?_, fun j => ?_⟩
  · rw [State.derefCode_refCount]
    exact hn j
  · unfold State.derefCode
    split
    · exact h.positive j info
    · split
      · exact fun hinfo => h.positive j info (lookup_erase_eq_some_iff.mp hinfo).2
      · next info₀ _ hleft =>
        intro hinfo
        by_cases hj : j = k
        · subst hj
          obtain rfl := Option.some.inj ((Finmap.lookup_insert _).symm.trans hinfo)
          exact Nat.pos_of_ne_zero hleft
        · exact h.positive j info (lookup_of_lookup_insert hj hinfo)
  · unfold State.derefCode
    split
    · exact h.sized j
    · next info₀ hinfo₀ =>
      by_cases hj : j = k
      · subst hj
        split
        · rw [Finmap.lookup_erase, Finmap.lookup_erase]
          rfl
        · -- the entry keeps its size
          rw [Finmap.lookup_insert, ← h.sized j, hinfo₀]
          rfl
      · split
        · rw [Finmap.lookup_erase_ne hj, Finmap.lookup_erase_ne hj]
          exact h.sized j
        · rw [Finmap.lookup_insert_of_ne _ hj]
          exact h.sized j

theorem Covered.refCode (h : Covered n s) (k : H256) {code : Bytes} (hlength : code.length < 2 ^ 32)
    (hn : ∀ j, (if j = k then s.refCount k + 1 else s.refCount j) ≤ n' j) :
    Covered n' (s.refCode k code) := by
  refine ⟨fun j => ?_, fun j info => ?_, fun j => ?_⟩
  · rw [State.refCode_refCount]
    refine le_trans ?_ (hn j)
    split
    · exact satAdd_le_add 32 _ 1
    · exact le_rfl
  · intro hinfo
    unfold State.refCode at hinfo
    split at hinfo
    · next info₀ hinfo₀ =>
      by_cases hj : j = k
      · subst hj
        obtain rfl := Option.some.inj ((Finmap.lookup_insert _).symm.trans hinfo)
        -- a saturated count is positive too
        exact lt_min (Nat.succ_pos _) (by decide)
      · exact h.positive j info (lookup_of_lookup_insert hj hinfo)
    · by_cases hj : j = k
      · subst hj
        obtain rfl := Option.some.inj ((Finmap.lookup_insert _).symm.trans hinfo)
        exact Nat.one_pos
      · exact h.positive j info (lookup_of_lookup_insert hj hinfo)
  · unfold State.refCode
    split
    · next info₀ hinfo₀ =>
      by_cases hj : j = k
      · subst hj
        rw [Finmap.lookup_insert, ← h.sized j, hinfo₀]
        rfl
      · rw [Finmap.lookup_insert_of_ne _ hj]
        exact h.sized j
    · by_cases hj : j = k
      · subst hj
        rw [Finmap.lookup_insert, Finmap.lookup_insert]
        exact congrArg some (Nat.mod_eq_of_lt hlength)
      · rw [Finmap.lookup_insert_of_ne _ hj, Finmap.lookup_insert_of_ne _ hj]
        exact h.sized j

/-! ### Removing contracts -/

theorem Covered.removeAccount (h : Covered n s) (address : EvmAddress)
    (hn : ∀ k, s.refCount k - (if s.codeOf address = some k then 1 else 0) ≤ n' k) :
    Covered n' (s.removeAccount address) := by
  have hderef : ∀ k, (s.removeAccount address).refCount k ≤ n' k := by
    intro k
    rw [removeAccount_refCount]
    exact hn k
  unfold State.removeAccount at hderef ⊢
  split
  · next info hinfo =>
    rw [hinfo] at hderef
    have hgiven : Covered n' (s.derefCode info.codeHash) :=
      h.derefCode info.codeHash fun k => by
        rw [← State.derefCode_refCount]
        exact hderef k
    exact hgiven.congr rfl rfl hgiven.covered
  · next hinfo =>
    rw [hinfo] at hderef
    exact h.congr rfl rfl hderef

/-- Removing an account gives up one user with one reference. -/
theorem NoLeak.removeAccount (h : NoLeak s) (address : EvmAddress) :
    NoLeak (s.removeAccount address) := by
  refine Covered.removeAccount h address fun k => ?_
  have husers := removeAccount_users s address k
  have hcount := h.covered k
  omega

/-- Counts that are covered by the contracts besides the one at `contract` stay so when an account
is removed, be it that of `contract` or another one. -/
theorem Covered.removeAccount_others {contract : EvmAddress}
    (h : Covered (s.others contract) s) (address : EvmAddress) :
    Covered ((s.removeAccount address).others contract) (s.removeAccount address) := by
  refine h.removeAccount address fun k => ?_
  have hcount := h.covered k
  unfold State.others at hcount ⊢
  rw [State.removeAccount_accounts]
  by_cases ha : address = contract
  · subst ha
    rw [erase_of_notMem Finmap.notMem_erase_self]
    exact (Nat.sub_le _ _).trans hcount
  · have hcode : weightAt (State.usesCode k) (s.accounts.erase contract) address =
        if s.codeOf address = some k then 1 else 0 := by
      rw [← State.weightAt_usesCode]
      unfold weightAt
      rw [Finmap.lookup_erase_ne ha]
    have herase := total_erase (State.usesCode k) (s.accounts.erase contract) address
    rw [hcode] at herase
    rw [Finmap.erase_erase]
    omega

/-- **Removing a contract leaks nothing**, whether or not its account is reaped. -/
theorem NoLeak.removeContract {caller contract : EvmAddress} (h : NoLeak s)
    (hok : s.removeContract C caller contract = .ok s') : NoLeak s' := by
  obtain ⟨info, contractInfo, s₁, hinfo, hcontract, htransfer, rfl⟩ :=
    State.removeContract_eq_ok hok
  have hcode : s.codeOf contract = some contractInfo.codeHash := by
    rw [State.codeOf, State.contractInfo, hinfo, Option.bind_some, hcontract]
    rfl
  -- the reference of the contract is given back, so the others cover the counts
  have hunlink : Covered ((s.unlink contract contractInfo.codeHash).others contract)
      (s.unlink contract contractInfo.codeHash) := by
    have hcleared : NoLeak
        { s with accountStorages := Function.update s.accountStorages contract ∅ } :=
      h.congr rfl rfl rfl
    have hderef : Covered (s.others contract) (State.derefCode
        { s with accountStorages := Function.update s.accountStorages contract ∅ }
        contractInfo.codeHash) :=
      Covered.derefCode hcleared contractInfo.codeHash fun k => by
        have hadd := s.others_add contract k
        have hcount := h.covered k
        change (if k = contractInfo.codeHash then s.refCount contractInfo.codeHash - 1
          else s.refCount k) ≤ _
        by_cases hk : k = contractInfo.codeHash
        · subst hk
          rw [if_pos hcode] at hadd
          rw [if_pos rfl]
          omega
        · rw [hcode, if_neg fun heq => hk (Option.some.inj heq).symm] at hadd
          rw [if_neg hk]
          omega
    refine hderef.congr rfl rfl fun k => (hderef.covered k).trans ?_
    unfold State.others
    rw [State.unlink_accounts]
  have hmoved : Covered (s₁.others contract) s₁ := by
    obtain ⟨l, -, rfl⟩ := State.transferAll_eq_ok htransfer
    exact State.setLedger_induction (P := fun s => Covered (s.others contract) s)
      (fun _ address h => h.removeAccount_others address)
      (fun _ _ h => h.congr rfl rfl h.covered) (fun _ _ h => h.congr rfl rfl h.covered)
      hunlink _ _
  refine hmoved.congr rfl rfl fun k => (hmoved.covered k).trans ?_
  exact (s₁.users_insert_none rfl k).ge

/-! ### Changing and creating contracts -/

/-- The count of the code hash `h` is too low, and can be raised without a new user. -/
def HasRoom (s : State) (h : H256) : Prop := s.refCount h < s.users h

/-- `set_code` takes a reference without a new user. -/
theorem NoLeak.refCode (h : NoLeak s) {k : H256} {code : Bytes} (hroom : HasRoom s k)
    (hlength : code.length < 2 ^ 32) : NoLeak (s.refCode k code) := by
  refine Covered.refCode h k hlength fun j => ?_
  have husers : (s.refCode k code).users j = s.users j := by
    unfold State.users
    rw [State.refCode_accounts]
  rw [husers]
  split
  · next hj =>
    subst hj
    exact hroom
  · exact h.covered j

/-- A creation takes a reference for the new contract, and drops that of the contract it
replaces. -/
theorem NoLeak.onContractInitialization {address maintainer : EvmAddress} {code : Bytes}
    {used : ℕ × ℤ} (h : NoLeak s) (hroom : ∀ k ∈ s.codeOf address, HasRoom s k)
    (hlength : code.length < 2 ^ 32)
    (hok : s.onContractInitialization C address maintainer code used = .ok s') : NoLeak s' := by
  obtain ⟨info, hinfo, -, hs'⟩ := State.onContractInitialization_eq_ok hok
  have huses : ∀ k, State.usesCode k address info = if k = C.codeHash code then 1 else 0 := by
    intro k
    simp [State.usesCode, hinfo, eq_comm]
  have htaken : Covered (fun k => total (State.usesCode k) (s.accounts.insert address info))
      (s.refCode (C.codeHash code) code) := by
    refine Covered.refCode h _ hlength fun k => ?_
    have hins := s.users_insert address info k
    rw [huses] at hins
    -- the contract that is replaced leaves its reference behind
    have hreplaced : s.refCount k + (if s.codeOf address = some k then 1 else 0) ≤ s.users k := by
      split
      · next hcode => exact hroom k hcode
      · exact h.covered k
    by_cases hk : k = C.codeHash code
    · subst hk
      rw [if_pos rfl] at hins ⊢
      omega
    · rw [if_neg hk] at hins ⊢
      omega
  rw [hs']
  exact htaken.congr rfl rfl htaken.covered

/-! ### The rule -/

/-- A creation that replaces a contract finds its count too low, and the length of the new code is
one of the lengths `code_size` can hold. -/
def Replaceable : Observation → Prop
  | .initialised before _ address code =>
    (∀ k ∈ before.codeOf address, HasRoom before k) ∧ code.length < 2 ^ 32
  | _ => True

theorem noLeak_stateOps : StateOps NoLeak where
  writeStorage _ _ _ _ h := h.congr rfl rfl rfl
  incNonce s address h := h.of_sameCode (.incNonce s address)
  removeAccount _ address h := h.removeAccount address
  setContractInfo _ _ _ _ hinfo hhash h := h.of_sameCode (.setContractInfo hinfo hhash)
  setDeveloperDeposit s address deposit h := h.of_sameCode (.setDeveloperDeposit s address deposit)
  destroyed _ _ _ h := h.congr rfl rfl rfl
  other _ _ _ _ _ _ h := h.congr rfl rfl rfl

/-- **The operations on the state leak no code.** -/
theorem noLeak_stateRule (E : Env) : StateRule E Replaceable NoLeak where
  toStateOps := noLeak_stateOps
  initialise _ _ _ _ _ _ _ hok h hinit :=
    (h.onContractInitialization hok.1 hok.2 hinit).congr rfl rfl rfl
  execute _ _ _ _ _ h := noLeak_stateOps.execute (fun _ _ h => h.congr rfl rfl rfl) h _ _ _ _
  index _ _ h := h.congr rfl rfl rfl

/-! ### Genesis -/

/-- A genesis account at an address without a contract leaks nothing, and leaves the contracts of
the other addresses. -/
theorem NoLeak.addGenesisAccount {address : EvmAddress} {account : GenesisAccount} (h : NoLeak s)
    (hfree : s.codeOf address = none) (hlength : account.code.length < 2 ^ 32)
    (hok : s.addGenesisAccount C address account = .ok s') :
    NoLeak s' ∧ ∀ a, a ≠ address → s'.codeOf a = s.codeOf a := by
  obtain ⟨l, s₀, hs₀, hdone⟩ := State.addGenesisAccount_cases hok
  have hempty : (EvmAccountInfo.new account.nonce none).contractInfo.map (·.codeHash) =
      s.codeOf address := hfree.symm
  -- the record without a contract is written first
  have hinv : NoLeak s₀ := by
    rw [hs₀]
    exact (h.of_sameCode (.insert hempty s.history)).congr rfl rfl rfl
  have hcodes : ∀ a, s₀.contractInfo a = if a = address then none else s.contractInfo a := by
    have hinsert : s₀.accounts = s.accounts.insert address (.new account.nonce none) := by rw [hs₀]
    exact State.contractInfo_insert hinsert
  have hothers : ∀ a, a ≠ address → s₀.contractInfo a = s.contractInfo a := fun a ha => by
    rw [hcodes, if_neg ha]
  rcases hdone with rfl | ⟨s₁, info, storages, hinit, hinfo, rfl⟩
  · exact ⟨hinv, fun a ha => congrArg _ (hothers a ha)⟩
  · -- then the contract is created, at an address that had none
    have hnone : ∀ k ∈ s₀.codeOf address, HasRoom s₀ k := by
      intro k hk
      rw [State.codeOf, hcodes, if_pos rfl] at hk
      cases hk
    have hcreated := hinv.onContractInitialization hnone hlength hinit
    have hdeployed : NoLeak (s₁.setContractInfo address { info with deployed := true }) :=
      hcreated.of_sameCode (.setContractInfo hinfo rfl)
    refine ⟨hdeployed.congr rfl rfl rfl, fun a ha => ?_⟩
    obtain ⟨record, -, -, hs₁⟩ := State.onContractInitialization_eq_ok hinit
    have hcreatedAt : s₁.contractInfo a = s₀.contractInfo a := by
      have hinsert : s₁.accounts = s₀.accounts.insert address record := by rw [hs₁]
      rw [State.contractInfo_insert hinsert, if_neg ha]
    -- and marked as deployed, which other addresses do not notice
    have hmarked : (s₁.setContractInfo address { info with deployed := true }).contractInfo a =
        s₁.contractInfo a := s₁.setContractInfo_contractInfo_of_ne _ ha
    exact congrArg (Option.map _) (hmarked.trans (hcreatedAt.trans (hothers a ha)))

/-- The accounts of the genesis configuration have different addresses, so each finds its address
without a contract. -/
theorem NoLeak.addGenesisAccounts {accounts : List (EvmAddress × GenesisAccount)} (h : NoLeak s)
    (hdistinct : (accounts.map Prod.fst).Nodup) (hfree : ∀ e ∈ accounts, s.codeOf e.1 = none)
    (hlength : ∀ e ∈ accounts, e.2.code.length < 2 ^ 32)
    (hok : accounts.foldlM (fun s e => s.addGenesisAccount C e.1 e.2) s = .ok s') : NoLeak s' := by
  induction accounts generalizing s with
  | nil =>
    cases hok
    exact h
  | cons e accounts ih =>
    obtain ⟨s₁, hs₁, hok⟩ := Fallible.bind_eq_ok.mp hok
    rw [List.map_cons, List.nodup_cons] at hdistinct
    obtain ⟨h₁, hothers⟩ := h.addGenesisAccount (hfree e List.mem_cons_self)
      (hlength e List.mem_cons_self) hs₁
    refine ih h₁ hdistinct.2 (fun e' he' => ?_)
      (fun e' he' => hlength e' (List.mem_cons_of_mem e he')) hok
    have hne : e'.1 ≠ e.1 := fun heq => hdistinct.1 (heq ▸ List.mem_map_of_mem he')
    rw [hothers e'.1 hne]
    exact hfree e' (List.mem_cons_of_mem e he')

/-- Nothing is leaked at genesis. -/
theorem noLeak_genesis {ledger : Ledger AccountId} {accounts : List (EvmAddress × GenesisAccount)}
    (hdistinct : (accounts.map Prod.fst).Nodup)
    (hlength : ∀ e ∈ accounts, e.2.code.length < 2 ^ 32)
    (hok : genesis C ledger accounts = .ok s) : NoLeak s := by
  obtain ⟨s₁, hs₁, hok⟩ := Fallible.bind_eq_ok.mp hok
  cases hok
  have hempty : NoLeak { State.empty with ledger := ledger } :=
    ⟨fun _ => le_rfl, (fun _ _ hinfo => nomatch hinfo), fun _ => rfl⟩
  exact (hempty.addGenesisAccounts hdistinct (fun _ _ => rfl) hlength hs₁).congr rfl rfl rfl

/-! ### All runs -/

instance (s : State) (h : H256) : Decidable (HasRoom s h) :=
  inferInstanceAs (Decidable (s.refCount h < s.users h))

instance : (e : Observation) → Decidable (Replaceable e)
  | .initialised before _ address code =>
    -- by looking at the hash of the replaced contract, not at all hashes
    have : Decidable (∀ k ∈ before.codeOf address, HasRoom before k) := Option.decidableForallMem _
    inferInstanceAs (Decidable
      ((∀ k ∈ before.codeOf address, HasRoom before k) ∧ code.length < 2 ^ 32))
  | .dispatched _ _ _ _ _ | .metered _ _ | .settled _ _ _ _ => inferInstanceAs (Decidable True)

/-- A `set_code` that is allowed and changes the code, and a creation that replaces a contract, find
the count too low; and the length of the code is one that `code_size` can hold. -/
def LeakOk (E : Env) (w : World) (i : Input) : Prop :=
  (match i with
    | .setCode signer contract code =>
      ∀ info ∈ w.state.contractInfo contract, w.state.checkSetCode signer info = .ok () →
        E.codeHash code ≠ info.codeHash → code.length % 2 ^ 32 ≤ E.maxCodeSize →
        HasRoom w.state (E.codeHash code) ∧ code.length < 2 ^ 32
    | _ => True) ∧
  ∀ e ∈ (step E w i).trace, Replaceable e

/-- **One input** that meets the condition leaks no code. -/
theorem noLeak_step {E : Env} {w : World} {i : Input} (h : NoLeak w.state) (hok : LeakOk E w i) :
    NoLeak (step E w i).state := by
  obtain ⟨hinput, hreplaceable⟩ := hok
  refine ((noLeak_stateRule E).step ?_ ?_).keeps hreplaceable h
  · intro signer contract code s₁ hi h hset
    subst hi
    obtain ⟨info, hinfo, hcheck, ⟨-, rfl⟩ | ⟨hne, hsize, rfl⟩⟩ := State.doSetCode_eq_ok hset
    · exact h
    · obtain ⟨hroom, hlength⟩ := hinput info hinfo hcheck hne hsize
      exact h.refCode hroom hlength
  · intro who contract caller s₁ _ h _ hdestruct
    exact h.removeContract (State.doSelfdestruct_eq_ok hdestruct).2

/-- **No leaked code.** In every state reached from genesis by inputs that meet the condition, every
entry of `codeInfos` counts at most the contracts that have the code, at least one has it, and the
entry has the size of the stored code; every stored code is used; and code that no contract uses is
gone. -/
theorem no_leaked_code (E : Env) {ledger : Ledger AccountId}
    {accounts : List (EvmAddress × GenesisAccount)} {s₀ : State}
    (hgenesis : genesis E.toConfig ledger accounts = .ok s₀)
    (hdistinct : (accounts.map Prod.fst).Nodup)
    (hlength : ∀ e ∈ accounts, e.2.code.length < 2 ^ 32)
    (is : List Input) (hok : Run.Along (step E) (LeakOk E) ⟨s₀, []⟩ is) :
    let s := (Run.run (step E) ⟨s₀, []⟩ is).state
    (∀ h info, s.codeInfos.lookup h = some info → info.refCount ≤ s.users h ∧ 0 < s.users h ∧
      ∃ code, s.codes.lookup h = some code ∧ info.codeSize = code.length) ∧
    (∀ h code, s.codes.lookup h = some code → 0 < s.users h) ∧
    ∀ h, s.users h = 0 → s.codeInfos.lookup h = none ∧ s.codes.lookup h = none := by
  intro s
  have hinv : NoLeak s :=
    Run.invariant (fun w : World => NoLeak w.state) (fun _ _ h hok => noLeak_step h hok)
      (noLeak_genesis hdistinct hlength hgenesis) hok
  refine ⟨fun h info hinfo => hinv.entry hinfo, fun h code hcode => ?_, fun h => hinv.unused⟩
  obtain ⟨info, hinfo⟩ := hinv.exists_entry hcode
  exact (hinv.entry hinfo).2.1

/-- The first account creates two contracts and destroys one of them, whose code is then gone. -/
theorem no_leaked_code_selfdestruct :
    let s := (Run.run (step sampleEnv) ⟨funded, []⟩
      [creation [1], creation [2], .selfdestruct 1 (createdAt 0)]).state
    s.users (sampleEnv.codeHash [2]) = 1 ∧ s.codes.lookup (sampleEnv.codeHash [1]) = none := by
  refine ⟨by decide, ?_⟩
  have hrun := no_leaked_code sampleEnv (show genesis _ funds [] = .ok funded from rfl)
    List.nodup_nil (by decide) [creation [1], creation [2], .selfdestruct 1 (createdAt 0)]
    ⟨⟨trivial, by decide⟩, ⟨trivial, by decide⟩, ⟨trivial, by decide⟩, trivial⟩
  exact (hrun.2.2 (sampleEnv.codeHash [1]) (by decide)).2

/-- The first account creates a contract at an address that depends on the init code only. -/
def creation2 (code : Bytes) : Input :=
  .create 1 [] (some 0) 0 1_000_000 2_000 (.exit (.succeed .returned) code)

/-- Code is leaked when the maintainer sets another code for a contract, and when a contract is
created in place of another one. No contract has the code, and it is still there. -/
theorem set_code_leaks :
    let s₁ := (Run.run (step sampleEnv) ⟨funded, []⟩
      [creation [1], .setCode (some 1) (createdAt 0) [2]]).state
    let s₂ := (Run.run (step sampleEnv) ⟨funded, []⟩ [creation2 [1], creation2 [2]]).state
    genesis sampleEnv.toConfig funds [] = .ok funded ∧
    s₁.codeInfos.lookup (sampleEnv.codeHash [2]) = some ⟨1, 1⟩ ∧
    s₁.users (sampleEnv.codeHash [2]) = 0 ∧
    s₂.codeInfos.lookup (sampleEnv.codeHash [1]) = some ⟨1, 1⟩ ∧
    s₂.users (sampleEnv.codeHash [1]) = 0 := by
  exact ⟨rfl, by decide, by decide, by decide +kernel, by decide +kernel⟩

/-! ### Code that is set -/

/-- **Setting code.** After a successful `set_code` the contract has the given code and its hash,
and nothing else has changed, if and only if the contract had that code before. The record of the
contract keeps the old hash, so code that is new to the contract is stored without taking effect. -/
theorem set_code_takes_effect_iff (C : Config) (s s' : State) (signer : Option AccountId)
    (contract : EvmAddress) (code : Bytes)
    (hok : s.admin C (.setCode signer contract code) = .ok s') :
    (s'.codeAtAddress C contract = code ∧ s'.codeHashAtAddress C contract = C.codeHash code ∧
      (∀ a, a ≠ contract → s'.codeAtAddress C a = s.codeAtAddress C a) ∧
      (∀ a, s'.nonce a = s.nonce a ∧
        (s'.contractInfo a).map (fun info => (info.maintainer, info.deployed)) =
          (s.contractInfo a).map (fun info => (info.maintainer, info.deployed))) ∧
      s'.accountStorages = s.accountStorages) ↔
    s.codeAtAddress C contract = code ∧ s.codeHashAtAddress C contract = C.codeHash code := by
  obtain ⟨s₁, hset, hok⟩ := Fallible.bind_eq_ok.mp hok
  obtain rfl : s₁.depositEvent (.contractSetCode contract) = s' := Except.ok.inj hok
  obtain ⟨info, hinfo, -, ⟨heq, rfl⟩ | ⟨hne, -, rfl⟩⟩ := State.doSetCode_eq_ok hset
  · -- the hash is the contract's: nothing happens
    constructor
    · rintro ⟨hcode, hhash, -⟩
      exact ⟨hcode, hhash⟩
    · rintro ⟨hcode, hhash⟩
      exact ⟨hcode, hhash, fun _ _ => rfl, fun _ => ⟨rfl, rfl⟩, rfl⟩
  · -- the hash of the contract is another one, before and after
    have hbefore : s.codeHashAtAddress C contract = info.codeHash := by
      rw [State.codeHashAtAddress, hinfo]
    have hafter : ((s.refCode (C.codeHash code) code).depositEvent
        (.contractSetCode contract)).codeHashAtAddress C contract = info.codeHash := by
      have hkept : ((s.refCode (C.codeHash code) code).depositEvent
          (.contractSetCode contract)).contractInfo contract = some info := by
        rw [← hinfo]
        unfold State.contractInfo State.depositEvent
        rw [State.refCode_accounts]
      rw [State.codeHashAtAddress, hkept]
    refine iff_of_false ?_ ?_
    · rintro ⟨-, hhash, -⟩
      exact hne (hhash.symm.trans hafter)
    · rintro ⟨-, hhash⟩
      exact hne (hhash.symm.trans hbefore)

/-- A state with a contract of the first account, in development. -/
def inDevelopment : State := (Run.run (step sampleEnv) ⟨funded, []⟩ [creation [1]]).state

/-- The code the contract has already is set again. -/
theorem set_code_takes_effect_same :
    ∃ s', inDevelopment.admin sampleEnv.toConfig (.setCode (some 1) (createdAt 0) [1]) = .ok s' ∧
      s'.codeAtAddress sampleEnv.toConfig (createdAt 0) = [1] :=
  ⟨_, rfl, ((set_code_takes_effect_iff sampleEnv.toConfig inDevelopment _ (some 1)
    (createdAt 0) [1] rfl).mpr ⟨by decide, by decide⟩).1⟩

/-- Another code is set by the maintainer, and the contract keeps the one it has. -/
theorem set_code_without_effect :
    let s := (Run.run (step sampleEnv) ⟨funded, []⟩
      [creation [1], .setCode (some 1) (createdAt 0) [2]]).state
    genesis sampleEnv.toConfig funds [] = .ok funded ∧
      s.events.getLast? = some (.contractSetCode (createdAt 0)) ∧
      s.codeAtAddress sampleEnv.toConfig (createdAt 0) = [1] ∧
      s.codeHashAtAddress sampleEnv.toConfig (createdAt 0) = sampleEnv.codeHash [1] := by
  exact ⟨rfl, by decide, by decide, by decide⟩

end Evm
end Reef
