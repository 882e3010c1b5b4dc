import ReefChain.Evm.StateRule
import ReefChain.Lib.Run

/-!
# The addresses of new contracts

A creation writes the record of the new contract at an address derived from a key: the creator and
its nonce, the creator with a salt and the hash of the init code, or the next index of the network
contracts. Nothing looks whether there is a contract already. What keeps a creation from replacing
one is that a key is not used twice, and this file says how far that goes.

* A **nonce** only grows, and a creation uses it before it is increased. So keys of `CREATE` differ
  as long as the record of the creator is not deleted and its nonce does not wrap around.
* The **index** of the network contracts only grows, and every creation that returns increases it.
  So these keys differ until it saturates.
* A **salt** is chosen by the creator, and nothing makes it differ from the one before.

A key may be used again once the contract made from it is gone, so what matters is whether a key is
*in use* (`State.InUse`): it was used, and the record of the address has not been deleted nor the
contract destroyed since.

The history of the state records creations, destructions and lost nonces. The proof has one relation
(`Moves`) between an earlier and a later state, which every operation satisfies: nonces grow unless
they are lost, keys of `CREATE` that were used in between come from the nonces in between, and the
contracts that appeared in between come from keys in use. It is stated between two states, because a
creation fixes its key before the init code runs and uses it afterwards. That the key is then still
unused follows from the relation between the two points (`Accounted.legacy_unused`).

With addresses derived without collisions, a creation finds no contract at its address if its key is
not in use, which is so for the first two kinds of keys (`creation_finds_no_contract`). Both ways to
use a key twice do occur: `CREATE2` can be repeated, and so can `CREATE` after the account of the
creator was reaped (`creations_replace_contracts`).
-/

namespace Reef
namespace Evm

open Bounded EvmAccounts

/-! ### The history of a state -/

/-- A contract was created from the key. -/
def State.HasCreated (s : State) (key : CreateKey) : Prop := .created key ∈ s.history

/-- The address has lost its nonce: its record was deleted, or the nonce has wrapped around. -/
def State.NonceLost (s : State) (address : EvmAddress) : Prop :=
  .removed address ∈ s.history ∨ .wrapped address ∈ s.history

instance (s : State) (key : CreateKey) : Decidable (s.HasCreated key) :=
  inferInstanceAs (Decidable (_ ∈ s.history))

instance (s : State) (address : EvmAddress) : Decidable (s.NonceLost address) :=
  inferInstanceAs (Decidable (_ ∨ _))

/-- Whether a key has been used for an address without the contract being gone since, by the
history of a state, newest entry first. -/
def inUse (key : CreateKey) (address : EvmAddress) : List Entry → Bool
  | [] => false
  | .created key' :: history => key' = key || inUse key address history
  | .destroyed a :: history => a ≠ address && inUse key address history
  | .removed a :: history => a ≠ address && inUse key address history
  | .wrapped _ :: history => inUse key address history

/-- A contract was created from the key, and it has not been destroyed nor its record deleted
since. -/
def State.InUse (s : State) (key : CreateKey) (address : EvmAddress) : Prop :=
  inUse key address s.history = true

instance (s : State) (key : CreateKey) (address : EvmAddress) : Decidable (s.InUse key address) :=
  inferInstanceAs (Decidable (_ = true))

variable {address : EvmAddress} {s s' : State}

theorem mem_of_inUse {key : CreateKey} {history : List Entry}
    (h : inUse key address history = true) : .created key ∈ history := by
  induction history with
  | nil => cases h
  | cons entry history ih =>
    cases entry with
    | created key' =>
      simp only [inUse, Bool.or_eq_true, decide_eq_true_iff] at h
      rcases h with rfl | h
      · exact List.mem_cons_self
      · exact List.mem_cons_of_mem _ (ih h)
    | destroyed | removed =>
      simp only [inUse, Bool.and_eq_true] at h
      exact List.mem_cons_of_mem _ (ih h.2)
    | wrapped a => exact List.mem_cons_of_mem _ (ih h)

/-- A key in use has been used. -/
theorem State.InUse.hasCreated {key : CreateKey} (h : s.InUse key address) : s.HasCreated key :=
  mem_of_inUse h

/-- An entry that is not about the end of a contract at the address leaves a key in use. -/
theorem State.InUse.cons {key : CreateKey} {entry : Entry} (h : s.InUse key address)
    (hhistory : s'.history = entry :: s.history) (hdestroyed : entry ≠ .destroyed address)
    (hremoved : entry ≠ .removed address) : s'.InUse key address := by
  unfold State.InUse at h ⊢
  rw [hhistory]
  cases entry with
  | created key' => simp [inUse, h]
  | destroyed a =>
    have hne : a ≠ address := fun heq => hdestroyed (heq ▸ rfl)
    simp [inUse, h, hne]
  | removed a =>
    have hne : a ≠ address := fun heq => hremoved (heq ▸ rfl)
    simp [inUse, h, hne]
  | wrapped a => exact h

theorem State.NonceLost.mono (h : s.NonceLost address) (hsub : s.history ⊆ s'.history) :
    s'.NonceLost address :=
  h.imp (fun h => hsub h) fun h => hsub h

/-! ### Records -/

/-- A record with the same nonce leaves all nonces. -/
theorem State.nonce_insert_same {info : EvmAccountInfo}
    (h : s'.accounts = s.accounts.insert address info) (hnonce : info.nonce = s.nonce address)
    (a : EvmAddress) : s'.nonce a = s.nonce a := by
  rw [State.nonce_insert h]
  split
  · next ha => rw [ha, hnonce]
  · rfl

/-- A record without a new contract leaves the addresses without contracts. -/
theorem State.contractInfo_insert_same {info : EvmAccountInfo}
    (h : s'.accounts = s.accounts.insert address info)
    (hcontract : info.contractInfo ≠ none → s.contractInfo address ≠ none) (a : EvmAddress)
    (ha : s'.contractInfo a ≠ none) : s.contractInfo a ≠ none := by
  rw [State.contractInfo_insert h] at ha
  split at ha
  · next heq =>
    rw [heq]
    exact hcontract ha
  · exact ha

/-! ### Quiet steps -/

/-- Between `s` and `s'` no contract was created. -/
structure Quiet (s s' : State) : Prop where
  history : s.history ⊆ s'.history
  index : s'.networkContractIndex = s.networkContractIndex
  created : ∀ key, s'.HasCreated key → s.HasCreated key
  nonces : ∀ a, s'.NonceLost a ∨ s.nonce a ≤ s'.nonce a
  contracts : ∀ address, s'.contractInfo address ≠ none → s.contractInfo address ≠ none
  /-- The keys of the contracts that are still there stay in use. -/
  inUse : ∀ key address, s'.contractInfo address ≠ none → s.InUse key address →
    s'.InUse key address

namespace Quiet

variable {s s₁ s₂ : State}

theorem refl (s : State) : Quiet s s :=
  ⟨fun _ h => h, rfl, fun _ h => h, fun _ => .inr le_rfl, fun _ h => h, fun _ _ _ h => h⟩

theorem trans (h₁ : Quiet s s₁) (h₂ : Quiet s₁ s₂) : Quiet s s₂ where
  history := fun _ h => h₂.history (h₁.history h)
  index := h₂.index.trans h₁.index
  created := fun key h => h₁.created key (h₂.created key h)
  nonces := by
    intro a
    rcases h₂.nonces a with hlost | hle₂
    · exact .inl hlost
    rcases h₁.nonces a with hlost | hle₁
    · exact .inl (hlost.mono h₂.history)
    · exact .inr (hle₁.trans hle₂)
  contracts := fun address h => h₁.contracts address (h₂.contracts address h)
  inUse := fun key address h huse =>
    h₂.inUse key address h (h₁.inUse key address (h₂.contracts address h) huse)

variable {address : EvmAddress}

/-- What leaves the history leaves the keys in use. -/
theorem inUse_of_history (hhistory : s₁.history = s.history) {key : CreateKey}
    (h : s.InUse key address) : s₁.InUse key address := by
  unfold State.InUse at h ⊢
  rw [hhistory]
  exact h

/-- A step that writes a record with the same nonce and no new contract. -/
theorem of_insert {info : EvmAccountInfo} (haccounts : s₁.accounts = s.accounts.insert address info)
    (hhistory : s₁.history = s.history) (hindex : s₁.networkContractIndex = s.networkContractIndex)
    (hnonce : info.nonce = s.nonce address)
    (hcontract : info.contractInfo ≠ none → s.contractInfo address ≠ none) : Quiet s s₁ := by
  refine ⟨fun _ h => hhistory ▸ h, hindex, fun key h => ?_, fun a => .inr ?_, ?_,
    fun _ _ _ h => inUse_of_history hhistory h⟩
  · rw [State.HasCreated, hhistory] at h
    exact h
  · exact (State.nonce_insert_same haccounts hnonce a).ge
  · exact State.contractInfo_insert_same haccounts hcontract

/-- A step that does not touch the records. -/
theorem of_accounts_eq (haccounts : s₁.accounts = s.accounts) (hhistory : s₁.history = s.history)
    (hindex : s₁.networkContractIndex = s.networkContractIndex) : Quiet s s₁ := by
  refine ⟨fun _ h => hhistory ▸ h, hindex, fun key h => ?_, fun a => .inr ?_, fun a h => ?_,
    fun _ _ _ h => inUse_of_history hhistory h⟩
  · rw [State.HasCreated, hhistory] at h
    exact h
  · unfold State.nonce
    rw [haccounts]
  · rw [State.contractInfo, haccounts] at h
    exact h

/-- Recording a self-destruction is quiet, once the contract is gone. -/
theorem destroyed (hgone : s.contractInfo address = none) :
    Quiet s { s with history := .destroyed address :: s.history } := by
  refine ⟨fun _ h => List.mem_cons_of_mem _ h, rfl, fun key h => ?_, fun a => .inr le_rfl,
    fun a h => h, fun key a ha h => ?_⟩
  · -- the new entry is not a creation
    exact (List.mem_cons.mp h).resolve_left Entry.noConfusion
  · -- and the contract it is about is another one
    refine h.cons rfl (fun heq => ?_) Entry.noConfusion
    cases heq
    exact ha hgone

/-- A step that records the loss of a nonce and changes no other one. -/
theorem of_lost {entry : Entry} (hhistory : s₁.history = entry :: s.history)
    (hentry : entry = .removed address ∨ entry = .wrapped address)
    (hindex : s₁.networkContractIndex = s.networkContractIndex)
    (hnonces : ∀ a, a ≠ address → s₁.nonce a = s.nonce a)
    (hcontracts : ∀ a, s₁.contractInfo a ≠ none → s.contractInfo a ≠ none ∧ entry ≠ .removed a) :
    Quiet s s₁ := by
  refine ⟨fun _ h => ?_, hindex, fun key h => ?_, fun a => ?_, fun a h => (hcontracts a h).1,
    fun key a ha h => ?_⟩
  · rw [hhistory]
    exact List.mem_cons_of_mem _ h
  · rw [State.HasCreated, hhistory] at h
    rcases List.mem_cons.mp h with heq | h
    · -- the entry is not a creation
      rcases hentry with rfl | rfl <;> cases heq
    · exact h
  · by_cases ha : a = address
    · have hmem : entry ∈ s₁.history := by
        rw [hhistory]
        exact List.mem_cons_self
      rw [ha]
      rcases hentry with rfl | rfl
      · exact .inl (.inl hmem)
      · exact .inl (.inr hmem)
    · exact .inr (hnonces a ha).ge
  · refine h.cons hhistory ?_ (hcontracts a ha).2
    rcases hentry with rfl | rfl <;> exact Entry.noConfusion

theorem incNonce (s : State) (address : EvmAddress) : Quiet s (s.incNonce address) := by
  have hcontracts : ∀ a, (s.incNonce address).contractInfo a ≠ none → s.contractInfo a ≠ none := by
    intro a h
    rw [s.incNonce_contractInfo] at h
    exact h
  by_cases hfits : s.nonce address + 1 < 2 ^ nonceBits
  · have hhistory : (s.incNonce address).history = s.history := by
      rw [s.incNonce_history, if_pos hfits]
    refine ⟨fun _ h => hhistory ▸ h, rfl, fun key h => ?_, fun a => .inr ?_, hcontracts,
      fun _ _ _ h => inUse_of_history hhistory h⟩
    · rw [State.HasCreated, hhistory] at h
      exact h
    · rw [s.incNonce_nonce, wrapAdd_of_lt hfits]
      split
      · next ha =>
        rw [ha]
        exact Nat.le_succ _
      · exact le_rfl
  · -- the nonce wraps around
    have hhistory : (s.incNonce address).history = .wrapped address :: s.history := by
      rw [s.incNonce_history, if_neg hfits]
    refine of_lost hhistory (.inr rfl) rfl (fun a ha => ?_) fun a h =>
      ⟨hcontracts a h, Entry.noConfusion⟩
    rw [s.incNonce_nonce, if_neg ha]

/-- An increased nonce has grown, or it is lost. -/
theorem incNonce_grows (s : State) (address : EvmAddress) :
    (s.incNonce address).NonceLost address ∨
      s.nonce address < (s.incNonce address).nonce address := by
  by_cases hfits : s.nonce address + 1 < 2 ^ nonceBits
  · rw [s.incNonce_nonce, if_pos rfl, wrapAdd_of_lt hfits]
    exact .inr (Nat.lt_succ_self _)
  · refine .inl (.inr ?_)
    rw [s.incNonce_history, if_neg hfits]
    exact List.mem_cons_self

theorem removeAccount (s : State) (address : EvmAddress) : Quiet s (s.removeAccount address) := by
  refine of_lost (s.removeAccount_history address) (.inl rfl)
    (s.removeAccount_networkContractIndex address) (fun a ha => ?_) fun a h => ?_
  · unfold State.nonce
    rw [s.removeAccount_accounts, Finmap.lookup_erase_ne ha]
  · rw [s.removeAccount_contractInfo] at h
    split at h
    · exact absurd rfl h
    · next hne =>
      refine ⟨h, fun heq => hne ?_⟩
      cases heq
      rfl

theorem setContractInfo {info : ContractInfo} (info' : ContractInfo)
    (hinfo : s.contractInfo address = some info) : Quiet s (s.setContractInfo address info') := by
  unfold State.setContractInfo
  split
  · next account hlookup =>
    refine of_insert rfl rfl rfl ?_ fun _ => ?_
    · rw [State.nonce, hlookup]
      rfl
    · rw [hinfo]
      exact Option.some_ne_none info
  · exact refl s

theorem setDeveloperDeposit (s : State) (address : EvmAddress) (deposit : Option ℕ) :
    Quiet s (s.setDeveloperDeposit address deposit) := by
  refine of_insert rfl rfl rfl (s.getD_nonce address) ?_
  rw [← s.getD_contractInfo]
  exact fun h => h

/-- **The basic operations are quiet**, and with them everything derived from them. -/
theorem stateOps (s : State) : StateOps (Quiet s) where
  writeStorage _ _ _ _ h := h.trans (of_accounts_eq rfl rfl rfl)
  incNonce s₁ address h := h.trans (incNonce s₁ address)
  removeAccount s₁ address h := h.trans (removeAccount s₁ address)
  setContractInfo _ _ _ info' hinfo _ h := h.trans (setContractInfo info' hinfo)
  setDeveloperDeposit s₁ address deposit h := h.trans (setDeveloperDeposit s₁ address deposit)
  destroyed _ _ hgone h := h.trans (destroyed hgone)
  other _ _ _ _ _ _ h := h.trans (of_accounts_eq rfl rfl rfl)

/-- Taking a reference to code is quiet. -/
theorem doSetCode {C : Config} {signer : Option AccountId} {contract : EvmAddress} {code : Bytes}
    (hok : s.doSetCode C signer contract code = .ok s₁) : Quiet s s₁ := by
  obtain ⟨info, -, -, ⟨-, rfl⟩ | ⟨-, -, rfl⟩⟩ := State.doSetCode_eq_ok hok
  · exact refl _
  · exact of_accounts_eq (State.refCode_accounts s _ code) (State.refCode_history s _ code)
      (State.refCode_networkContractIndex s _ code)

/-- Removing a contract is quiet. The record that is written back has the old nonce, even if the
account was reaped in the meantime. -/
theorem removeContract {E : Env} {caller contract : EvmAddress}
    (hok : s.removeContract E.toConfig caller contract = .ok s₁) : Quiet s s₁ := by
  obtain ⟨info, contractInfo, s₂, hinfo, -, htransfer, hs₁⟩ := State.removeContract_eq_ok hok
  have hunlink : Quiet s (s.unlink contract contractInfo.codeHash) :=
    of_accounts_eq (s.unlink_accounts contract _) (State.derefCode_history _ _)
      (State.derefCode_networkContractIndex _ _)
  have hmoved : Quiet s s₂ := (stateOps s).transferAll hunlink htransfer
  -- the record that is written back was read before the funds moved
  have hnonce : s.nonce contract = info.nonce := by
    rw [State.nonce, hinfo]
    rfl
  have haccounts : s₁.accounts =
      s₂.accounts.insert contract { info with contractInfo := none } := by rw [hs₁]
  have hwritten : s₁.history = s₂.history ∧ s₁.networkContractIndex = s₂.networkContractIndex := by
    rw [hs₁]
    exact ⟨rfl, rfl⟩
  have hcontracts : ∀ a, s₁.contractInfo a ≠ none → s₂.contractInfo a ≠ none := by
    intro a h
    rw [State.contractInfo_insert haccounts] at h
    split at h
    · exact absurd rfl h
    · exact h
  refine ⟨?_, hwritten.2.trans hmoved.index, fun key h => ?_, fun a => ?_,
    fun a h => hmoved.contracts a (hcontracts a h), fun key a ha h => ?_⟩
  · rw [hwritten.1]
    exact hmoved.history
  · rw [State.HasCreated, hwritten.1] at h
    exact hmoved.created key h
  · -- the nonce of the contract is written back with its old value
    rw [State.nonce_insert haccounts, State.NonceLost, hwritten.1]
    by_cases ha : a = contract
    · rw [if_pos ha, ha, hnonce]
      exact .inr le_rfl
    · rw [if_neg ha]
      exact hmoved.nonces a
  · exact inUse_of_history hwritten.1 (hmoved.inUse key a (hcontracts a ha) h)

/-- **The inputs that execute no code are quiet.** -/
theorem admin {E : Env} {i : Input} (hok : s.admin E.toConfig i = .ok s₁) : Quiet s s₁ :=
  (stateOps s).admin (fun _ _ _ _ _ hset => doSetCode hset)
    (fun _ _ _ _ _ _ hdestruct => removeContract (State.doSelfdestruct_eq_ok hdestruct).2)
    (refl s) hok

end Quiet

/-! ### How a state moves -/

/-- The state has moved from `s` to `s'`. Contracts may have been created at assigned addresses that
are `assignable`. -/
structure Moves (C : Config) (assignable : EvmAddress → Prop) (s s' : State) : Prop where
  history : s.history ⊆ s'.history
  index : s'.networkContractIndex = s.networkContractIndex
  /-- A nonce is lost, or it has grown and the keys used in between come from the nonces in
  between. -/
  nonces : ∀ a, s'.NonceLost a ∨
    (s.nonce a ≤ s'.nonce a ∧ ∀ n, s'.HasCreated (.legacy a n) →
      s.HasCreated (.legacy a n) ∨ (s.nonce a ≤ n ∧ n < s'.nonce a))
  /-- A contract was there before, and its key has stayed in use, or it comes from a key in use. -/
  contracts : ∀ address, s'.contractInfo address ≠ none →
    (s.contractInfo address ≠ none ∧ ∀ key, s.InUse key address → s'.InUse key address) ∨
      ∃ key, s'.InUse key address ∧ C.keyAddress key = address
  assigned : ∀ address, s'.HasCreated (.assigned address) →
    s.HasCreated (.assigned address) ∨ assignable address

namespace Moves

variable {C : Config} {P : EvmAddress → Prop} {s s₁ s₂ : State}

theorem refl (C : Config) (P : EvmAddress → Prop) (s : State) : Moves C P s s where
  history := fun _ h => h
  index := rfl
  nonces := fun _ => .inr ⟨le_rfl, fun _ h => .inl h⟩
  contracts := fun _ h => .inl ⟨h, fun _ h => h⟩
  assigned := fun _ h => .inl h

theorem trans (h₁ : Moves C P s s₁) (h₂ : Moves C P s₁ s₂) : Moves C P s s₂ where
  history := fun _ h => h₂.history (h₁.history h)
  index := h₂.index.trans h₁.index
  nonces := by
    intro a
    rcases h₂.nonces a with hlost | ⟨hle₂, hnew₂⟩
    · exact .inl hlost
    rcases h₁.nonces a with hlost | ⟨hle₁, hnew₁⟩
    · exact .inl (hlost.mono h₂.history)
    refine .inr ⟨hle₁.trans hle₂, fun n hn => ?_⟩
    -- the key was used in the second part, in the first part or before
    rcases hnew₂ n hn with hn | ⟨hlow, hhigh⟩
    · rcases hnew₁ n hn with hn | ⟨hlow, hhigh⟩
      · exact .inl hn
      · exact .inr ⟨hlow, hhigh.trans_le hle₂⟩
    · exact .inr ⟨hle₁.trans hlow, hhigh⟩
  contracts := by
    intro address haddress
    rcases h₂.contracts address haddress with ⟨hold, hkept₂⟩ | hnew
    · rcases h₁.contracts address hold with ⟨hold, hkept₁⟩ | ⟨key, hkey, hderived⟩
      · exact .inl ⟨hold, fun key h => hkept₂ key (hkept₁ key h)⟩
      · exact .inr ⟨key, hkept₂ key hkey, hderived⟩
    · exact .inr hnew
  assigned := by
    intro address haddress
    rcases h₂.assigned address haddress with hold | hnew
    · exact h₁.assigned address hold
    · exact .inr hnew

theorem mono {Q : EvmAddress → Prop} (h : Moves C P s s₁) (hPQ : ∀ a, P a → Q a) :
    Moves C Q s s₁ where
  history := h.history
  index := h.index
  nonces := h.nonces
  contracts := h.contracts
  assigned := fun address haddress => (h.assigned address haddress).imp_right (hPQ address)

/-- A step that creates no contract. -/
theorem of_quiet (h : Quiet s s₁) : Moves C P s s₁ where
  history := h.history
  index := h.index
  nonces := fun a => (h.nonces a).imp_right fun hle => ⟨hle, fun _ hn => .inl (h.created _ hn)⟩
  contracts := fun address haddress =>
    .inl ⟨h.contracts address haddress, fun key => h.inUse key address haddress⟩
  assigned := fun _ haddress => .inl (h.created _ haddress)

/-- What is required of the key of a creation that is followed from `s` on and finds the state
`before`: a nonce comes from in between, an assigned address is assignable. -/
def KeyFits (P : EvmAddress → Prop) (s before : State) : CreateKey → Prop
  | .legacy a n => before.NonceLost a ∨ (s.nonce a ≤ n ∧ n < before.nonce a)
  | .create2 _ _ _ => True
  | .assigned address => P address

/-- Creating a contract moves the state. -/
theorem create {key : CreateKey} {address maintainer : EvmAddress} {code : Bytes} {used : ℕ × ℤ}
    (h : Moves C P s s₁) (hkey : KeyFits P s s₁ key) (haddress : C.keyAddress key = address)
    (hok : s₁.onContractInitialization C address maintainer code used = .ok s₂) :
    Moves C P s { s₂ with history := .created key :: s₂.history } := by
  obtain ⟨info, -, hnonce, hs₂⟩ := State.onContractInitialization_eq_ok hok
  have haccounts : s₂.accounts = s₁.accounts.insert address info := by rw [hs₂]
  have hhistory : s₂.history = s₁.history := by
    rw [hs₂]
    exact State.refCode_history s₁ _ code
  have hindex : s₂.networkContractIndex = s₁.networkContractIndex := by
    rw [hs₂]
    exact State.refCode_networkContractIndex s₁ _ code
  have hnonces : ∀ a, s₂.nonce a = s₁.nonce a := State.nonce_insert_same haccounts hnonce
  have hsub : s₁.history ⊆ .created key :: s₂.history := by
    rw [hhistory]
    exact fun _ h => List.mem_cons_of_mem _ h
  -- a key that was used is the new one or was used before
  have hcreated : ∀ k, .created k ∈ .created key :: s₂.history → k = key ∨ s₁.HasCreated k := by
    intro k hk
    rw [hhistory] at hk
    exact (List.mem_cons.mp hk).imp_left fun heq => Entry.created.inj heq
  refine ⟨fun _ hx => hsub (h.history hx), hindex.trans h.index, fun a => ?_, fun a ha => ?_,
    fun a ha => ?_⟩
  · by_cases hlost : s₁.NonceLost a
    · exact .inl (hlost.mono hsub)
    obtain ⟨hle, hnew⟩ := (h.nonces a).resolve_left hlost
    have hsame : State.nonce { s₂ with history := .created key :: s₂.history } a = s₁.nonce a :=
      hnonces a
    rw [hsame]
    refine .inr ⟨hle, fun n hn => ?_⟩
    rcases hcreated _ hn with rfl | hold
    · exact .inr (hkey.resolve_left hlost)
    · exact hnew n hold
  · have hinfo := State.contractInfo_insert haccounts a
    -- the new entry takes no key out of use
    have hkept : ∀ k, s₁.InUse k a →
        State.InUse { s₂ with history := .created key :: s₂.history } k a := fun k hk =>
      hk.cons (by rw [← hhistory]) Entry.noConfusion Entry.noConfusion
    by_cases heq : a = address
    · refine .inr ⟨key, ?_, heq ▸ haddress⟩
      simp [State.InUse, inUse]
    · rw [if_neg heq] at hinfo
      have hbefore : s₁.contractInfo a ≠ none := fun hnone => ha (hinfo.trans hnone)
      rcases h.contracts a hbefore with ⟨hold, hkept₁⟩ | ⟨k, hk, hderived⟩
      · exact .inl ⟨hold, fun k hk => hkept k (hkept₁ k hk)⟩
      · exact .inr ⟨k, hkept k hk, hderived⟩
  · rcases hcreated _ ha with rfl | hold
    · exact .inr hkey
    · exact h.assigned a hold

end Moves

/-! ### Accounting for contracts -/

/-- Every contract comes from genesis or from a key in use, and the nonces are above those of the
keys. -/
structure Accounted (C : Config) (G : EvmAddress → Prop) (s : State) : Prop where
  contracts : ∀ address, s.contractInfo address ≠ none →
    G address ∨ ∃ key, s.InUse key address ∧ C.keyAddress key = address
  nonces : ∀ a n, s.HasCreated (.legacy a n) → s.NonceLost a ∨ n < s.nonce a

section Accounted

variable {C : Config} {G P : EvmAddress → Prop} {s s₁ : State}

theorem Accounted.moves (h : Accounted C G s) (hmoves : Moves C P s s₁) : Accounted C G s₁ := by
  constructor
  · intro address haddress
    rcases hmoves.contracts address haddress with ⟨hold, hkept⟩ | hnew
    · rcases h.contracts address hold with hG | ⟨key, hkey, hderived⟩
      · exact .inl hG
      · exact .inr ⟨key, hkept key hkey, hderived⟩
    · exact .inr hnew
  · intro a n hn
    rcases hmoves.nonces a with hlost | ⟨hle, hnew⟩
    · exact .inl hlost
    rcases hnew n hn with hold | ⟨-, hlt⟩
    · rcases h.nonces a n hold with hlost | hlt
      · exact .inl (hlost.mono hmoves.history)
      · exact .inr (hlt.trans_le hle)
    · exact .inr hlt

/-- **Nonces make keys.** When a creator has increased its nonce, the key made of the old one is
unused, and it stays unused until the creation uses it. -/
theorem Accounted.legacy_unused {a : EvmAddress} (h : Accounted C G s)
    (hmoves : Moves C P (s.incNonce a) s₁) (hkept : ¬ s₁.NonceLost a) :
    ¬ s₁.HasCreated (.legacy a (s.nonce a)) := by
  intro hused
  have hgrown := (Quiet.incNonce_grows s a).resolve_left fun hlost =>
    hkept (hlost.mono hmoves.history)
  obtain ⟨-, hnew⟩ := (hmoves.nonces a).resolve_left hkept
  rcases hnew _ hused with hold | ⟨hle, -⟩
  · rcases h.nonces a _ ((Quiet.incNonce s a).created _ hold) with hlost | hlt
    · exact hkept ((hlost.mono (Quiet.incNonce s a).history).mono hmoves.history)
    · exact lt_irrefl _ hlt
  · exact absurd hgrown (not_lt.mpr hle)

end Accounted

/-! ### What creations find -/

/-- The key of a creation, if the entry records one. -/
def Entry.key : Entry → Option CreateKey
  | .created key => some key
  | _ => none

/-- The derivation of addresses does not collide where a contract is created: the address is not
that of a contract of genesis, and no other key that was used gives it. -/
def Distinct (C : Config) (s₀ : State) : Observation → Prop
  | .initialised before key _ _ =>
    s₀.contractInfo (C.keyAddress key) = none ∧
      ∀ entry ∈ before.history, ∀ key' ∈ entry.key, C.keyAddress key' = C.keyAddress key →
        key' = key
  | _ => True

/-- The key of a creation is not in use: it has not been used before, or the contract made from it
is gone. For `CREATE` this is required only of creators that have lost their nonce, for network
contracts only that the index is not saturated. -/
def KeyOnce : Observation → Prop
  | .initialised before (.legacy creator nonce) address _ =>
    before.NonceLost creator → ¬ before.InUse (.legacy creator nonce) address
  | .initialised before (.create2 creator salt codeHash) address _ =>
    ¬ before.InUse (.create2 creator salt codeHash) address
  | .initialised before (.assigned _) _ _ => before.networkContractIndex < maxValue 64
  | _ => True

/-- A creation finds no contract at its address. -/
def Vacant : Observation → Prop
  | .initialised before _ address _ => before.contractInfo address = none
  | _ => True

section Vacant

variable {C : Config} {s₀ s : State}

/-- The contracts of genesis. -/
abbrev State.HasContract (s : State) (address : EvmAddress) : Prop := s.contractInfo address ≠ none

/-- A creation from a key that is not in use finds no contract. -/
theorem Accounted.vacant {key : CreateKey} {address : EvmAddress} {code : Bytes}
    (h : Accounted C s₀.HasContract s) (haddress : C.keyAddress key = address)
    (hdistinct : Distinct C s₀ (.initialised s key address code))
    (hunused : ¬ s.InUse key address) :
    Vacant (.initialised s key address code) := by
  by_contra hcontract
  rcases h.contracts address hcontract with hgenesis | ⟨key', hkey', hderived⟩
  · apply hgenesis
    rw [← haddress]
    exact hdistinct.1
  · have hsame : key' = key :=
      hdistinct.2 _ hkey'.hasCreated key' rfl (hderived.trans haddress.symm)
    exact hunused (hsame ▸ hkey')

end Vacant

/-! ### Executions -/

/-- Between two worlds the state has moved, and the creations observed in between have found no
contract if their keys are as required. An assignable address has to be unused at the start. -/
structure Creates (C : Config) (s₀ : State) (P : EvmAddress → Prop) (w w' : World) : Prop where
  moves : Moves C P w.state w'.state
  vacant : ∀ e ∈ w'.trace, e ∈ w.trace ∨
    (Distinct C s₀ e → KeyOnce e → Accounted C s₀.HasContract w.state →
      (w.state.networkContractIndex < maxValue 64 →
        ∀ a, P a → ¬ w.state.HasCreated (.assigned a)) → Vacant e)

/-- No address is assignable. -/
abbrev unassignable : EvmAddress → Prop := fun _ => False

namespace Creates

variable {C : Config} {s₀ : State} {P : EvmAddress → Prop} {w w₁ w₂ : World}

/-- A later part of an execution, in which no address is assigned, may be added. -/
theorem trans (h₁ : Creates C s₀ P w w₁) (h₂ : Creates C s₀ unassignable w₁ w₂) :
    Creates C s₀ P w w₂ := by
  refine ⟨h₁.moves.trans (h₂.moves.mono fun _ h => h.elim), fun e he => ?_⟩
  rcases h₂.vacant e he with hold | hnew
  · exact h₁.vacant e hold
  · refine .inr fun hdistinct honce haccounted _ => ?_
    exact hnew hdistinct honce (haccounted.moves h₁.moves) fun _ _ h => h.elim

theorem undo (h : Creates C s₀ P w w₁) : Creates C s₀ P w { w₁ with state := w.state } :=
  ⟨.refl C P w.state, h.vacant⟩

theorem mono (h : Creates C s₀ unassignable w w₁) : Creates C s₀ P w w₁ := by
  refine ⟨h.moves.mono fun _ h => h.elim, fun e he => ?_⟩
  refine (h.vacant e he).imp_right fun hnew hdistinct honce haccounted _ => ?_
  exact hnew hdistinct honce haccounted fun _ _ h => h.elim

/-- A quiet step, with or without an observation that is not of a creation. -/
theorem of_quiet (h : Quiet w.state w₁.state)
    (htrace : ∀ e ∈ w₁.trace, e ∈ w.trace ∨ Vacant e) : Creates C s₀ P w w₁ :=
  ⟨.of_quiet h, fun e he => (htrace e he).imp_right fun hvacant _ _ _ _ => hvacant⟩

/-- A quiet step on the state. -/
theorem of_state {s : State} (h : Quiet w.state s) : Creates C s₀ P w { w with state := s } :=
  of_quiet h fun _ he => .inl he

/-- A quiet step with one observation. -/
theorem of_observed {s : State} {e : Observation} (h : Quiet w.state s) (he : Vacant e) :
    Creates C s₀ P w ⟨s, e :: w.trace⟩ := by
  refine of_quiet h fun e' he' => ?_
  rcases List.mem_cons.mp he' with rfl | hold
  · exact .inr he
  · exact .inl hold

theorem incNonce (a : EvmAddress) (w : World) :
    Creates C s₀ P w { w with state := w.state.incNonce a } :=
  of_state (.incNonce w.state a)

variable {address : EvmAddress} {c c' : Chain} {r : Except ExitError Unit}

/-- The end of a creation, followed from before its key was fixed. -/
theorem initialise {key : CreateKey} {creator maintainer : EvmAddress} {code : Bytes}
    {used : StorageMeter → ℕ × ℤ}
    (hran : Creates C s₀ unassignable { w with state := w.state.incNonce creator } w₁)
    (haddress : C.keyAddress key = address)
    (hkey : ∀ s, Moves C P (w.state.incNonce creator) s → Moves.KeyFits P w.state s key)
    (hunused : ∀ s, Moves C unassignable (w.state.incNonce creator) s →
      KeyOnce (.initialised s key address code) → Accounted C s₀.HasContract w.state →
      (w.state.networkContractIndex < maxValue 64 →
        ∀ a, P a → ¬ w.state.HasCreated (.assigned a)) → ¬ s.InUse key address)
    (h : Evm.initialise C key address maintainer code used c w₁ = (c', w₂, r)) :
    Creates C s₀ P w w₂ := by
  have hstart : Creates C s₀ P w w₁ := (incNonce creator w).trans hran
  have hmetered : Creates C s₀ unassignable w₁ ⟨w₁.state.incNonce address,
      .metered c.self.selfUsed (C.contractStorage code) :: w₁.trace⟩ :=
    of_observed (.incNonce w₁.state address) trivial
  rcases initialise_cases h with ⟨-, ⟨rfl, -⟩ | ⟨s, u, hs, rfl⟩⟩
  · exact hstart.trans hmetered
  · have hbefore := hran.moves.trans hmetered.moves
    have hmoves := (hstart.trans hmetered).moves
    refine ⟨hmoves.create (hkey _ (hbefore.mono fun _ h => h.elim)) haddress hs, fun e he => ?_⟩
    rcases List.mem_cons.mp he with rfl | hold
    · refine .inr fun hdistinct honce haccounted hassignable => ?_
      exact (haccounted.moves hmoves).vacant haddress hdistinct
        (hunused _ hbefore honce haccounted hassignable)
    · exact (hstart.trans hmetered).vacant e hold

theorem setStorage {b : Bool} {index value : H256}
    (h : Evm.setStorage b address index value c w = (c', w₁, r)) : Creates C s₀ P w w₁ := by
  have hwrite : Quiet w.state (w.state.writeStorage address index value) :=
    .of_accounts_eq rfl rfl rfl
  obtain ⟨s, tr⟩ := w₁
  rcases setStorage_cases h with
    ⟨-, h⟩ | ⟨rfl, ⟨-, -, -, rfl⟩ | ⟨-, -, -, rfl⟩ | ⟨-, -, rfl⟩⟩
  · rw [h]
    exact of_state (.refl w.state)
  · exact of_observed hwrite trivial
  · exact of_observed hwrite trivial
  · exact of_state hwrite

theorem finish {E : Env} {origin : EvmAddress} {above : List StorageMeter} {r : DispatchResult}
    (h : c.finish (World.host E.toConfig origin) w = (above, w₁, r)) : Creates C s₀ P w w₁ := by
  rcases finish_world h with rfl | ⟨l, accounts, l', rfl⟩
  · exact of_state (.refl w₁.state)
  · have hops := Quiet.stateOps w.state
    refine of_observed ?_ trivial
    exact hops.other _ _ l' _ _ List.prefix_rfl (hops.setLedger (.refl w.state) l accounts)

/-- A creation by an opcode or an extrinsic uses the nonce or a salt of the creator. -/
theorem initialise_scheme {E : Env} {creator maintainer : EvmAddress} {salt : Option H256}
    {initCode code : Bytes} {used : StorageMeter → ℕ × ℤ}
    (haddress : createAddress E.toConfig (createScheme E.toConfig creator salt initCode) w.state =
      .ok address)
    (hran : Creates E.toConfig s₀ unassignable { w with state := w.state.incNonce creator } w₁)
    (h : Evm.initialise E.toConfig ((createScheme E.toConfig creator salt initCode).key w.state)
      address maintainer code used c w₁ = (c', w₂, r)) :
    Creates E.toConfig s₀ unassignable w w₂ := by
  have hderived : E.keyAddress ((createScheme E.toConfig creator salt initCode).key w.state) =
      address := by
    unfold createAddress at haddress
    simp only [] at haddress
    split at haddress
    · cases haddress
    · exact Except.ok.inj haddress
  cases salt with
  | none =>
    refine hran.initialise hderived (fun s hmoves => ?_) (fun s hmoves honce hacc _ => ?_) h
    · -- the nonce the key was made of has been increased
      by_cases hlost : s.NonceLost creator
      · exact .inl hlost
      have hgrown := (Quiet.incNonce_grows w.state creator).resolve_left fun h =>
        hlost (h.mono hmoves.history)
      obtain ⟨hle, -⟩ := (hmoves.nonces creator).resolve_left hlost
      exact .inr ⟨le_rfl, hgrown.trans_le hle⟩
    · by_cases hlost : s.NonceLost creator
      · exact honce hlost
      · exact fun huse => hacc.legacy_unused hmoves hlost huse.hasCreated
  | some salt =>
    exact hran.initialise hderived (fun _ _ => trivial) (fun _ _ honce _ _ => honce) h

/-- **Executions** create contracts where there are none. -/
theorem worldRule (E : Env) (s₀ : State) :
    WorldRule E (Creates E.toConfig s₀ unassignable) where
  refl w := of_state (.refl w.state)
  trans := trans
  undo := undo
  setStorage := setStorage
  markDelete hok := of_state ((Quiet.stateOps _).markDelete (.refl _) hok)
  incNonce := incNonce
  moveFunds hok := of_state ((Quiet.stateOps _).moveFunds (.refl _) hok)
  dispatch _ _ _ _ _ _ w :=
    of_observed ((Quiet.stateOps w.state).execute
      (fun _ _ h => h.trans (.of_accounts_eq rfl rfl rfl)) (.refl w.state) _ _ _ _) trivial
  other _ _ _ _ _ _ := of_state (.of_accounts_eq rfl rfl rfl)
  initialise := initialise_scheme
  finish := finish

/-- A creation at an assigned address, which was unused at the start. -/
theorem initialise_assigned {source : EvmAddress} {code : Bytes} {used : StorageMeter → ℕ × ℤ}
    (hP : P address)
    (hran : Creates C s₀ unassignable { w with state := w.state.incNonce source } w₁)
    (h : Evm.initialise C (.assigned address) address source code used c w₁ = (c', w₂, r)) :
    Creates C s₀ P w w₂ := by
  have hderived : C.keyAddress (.assigned address) = address := rfl
  refine hran.initialise hderived (fun _ _ => hP) (fun s hmoves honce _ hassignable huse => ?_) h
  rcases hmoves.assigned _ huse.hasCreated with hold | hnone
  · have hindex : w.state.networkContractIndex < maxValue 64 := by
      have heq : s.networkContractIndex = w.state.networkContractIndex := hmoves.index
      rw [← heq]
      exact honce
    exact hassignable hindex _ hP ((Quiet.incNonce w.state _).created _ hold)
  · exact hnone

/-- **Transactions** that may create a contract at an assignable address. -/
theorem runRule (E : Env) (s₀ : State) (P : EvmAddress → Prop) :
    RunRule E Request.any P (fun _ _ _ w _ w' => Creates E.toConfig s₀ unassignable w w')
      (Creates E.toConfig s₀ P) :=
  (worldRule E s₀).runRule_of mono trans undo initialise_assigned

end Creates

/-! ### All runs -/

theorem fromLowU64_inj {m n : ℕ} (hm : m ≤ maxValue 64) (hn : n ≤ maxValue 64)
    (h : fromLowU64 m = fromLowU64 n) : m = n := by
  have hm' := lt_two_pow_iff.mpr hm
  have hn' := lt_two_pow_iff.mpr hn
  have hnat := congrArg BitVec.toNat h
  unfold fromLowU64 at hnat
  rw [BitVec.toNat_ofNat, BitVec.toNat_ofNat, Nat.mod_eq_of_lt hm', Nat.mod_eq_of_lt hn'] at hnat
  omega

/-- The invariant of runs: contracts are accounted for, the network contracts were created at
indices that have been passed, and the creations so far have found no contract. -/
structure FreshInv (C : Config) (s₀ : State) (w : World) : Prop where
  accounted : Accounted C s₀.HasContract w.state
  index_le : w.state.networkContractIndex ≤ maxValue 64
  indices : ∀ a, w.state.HasCreated (.assigned a) → ∃ i, a = fromLowU64 i ∧ i ≤ maxValue 64 ∧
    (i < w.state.networkContractIndex ∨ w.state.networkContractIndex = maxValue 64)
  vacant : ∀ e ∈ w.trace, Distinct C s₀ e → KeyOnce e → Vacant e

section FreshInv

variable {E : Env} {s₀ : State} {w w' : World}

/-- What creates contracts at unassigned addresses only keeps the invariant. -/
theorem FreshInv.creates (h : FreshInv E.toConfig s₀ w)
    (hcreates : Creates E.toConfig s₀ unassignable w w') : FreshInv E.toConfig s₀ w' := by
  refine ⟨h.accounted.moves hcreates.moves, ?_, fun a ha => ?_, fun e he hdistinct honce => ?_⟩
  · rw [hcreates.moves.index]
    exact h.index_le
  · rw [hcreates.moves.index]
    exact h.indices a ((hcreates.moves.assigned a ha).resolve_right fun h => h)
  · rcases hcreates.vacant e he with hold | hnew
    · exact h.vacant e hold hdistinct honce
    · exact hnew hdistinct honce h.accounted fun _ _ h => h.elim

/-- The next index of the network contracts is unused until it saturates. -/
theorem FreshInv.index_unused (h : FreshInv E.toConfig s₀ w)
    (hindex : w.state.networkContractIndex < maxValue 64) (a : EvmAddress)
    (ha : a = fromLowU64 w.state.networkContractIndex) :
    ¬ w.state.HasCreated (.assigned a) := by
  intro hused
  obtain ⟨i, hi, hle, hpassed⟩ := h.indices a hused
  have hsame := fromLowU64_inj hle h.index_le (hi.symm.trans ha)
  rcases hpassed with hlt | hfull
  · omega
  · omega

/-- An index that is moved on has passed the addresses it had passed before, and its own. -/
theorem passed_satAdd {i n : ℕ} (h : i ≤ n ∨ n = maxValue 64) :
    i < satAdd 64 n 1 ∨ satAdd 64 n 1 = maxValue 64 := by
  unfold satAdd
  omega

/-- The end of the creation of a network contract keeps the invariant: the index moves past the
address. -/
theorem FreshInv.networkDone {source : EvmAddress} {gasLimit : ℕ}
    {x : World × Except DispatchError CreateInfo} (h : FreshInv E.toConfig s₀ w)
    (hx : Creates E.toConfig s₀ (· = fromLowU64 w.state.networkContractIndex) w x.1) :
    FreshInv E.toConfig s₀ (createDone w source gasLimit
      (fun s => { s with networkContractIndex := satAdd 64 s.networkContractIndex 1 }) x) := by
  have hvacant : ∀ e ∈ x.1.trace, Distinct E.toConfig s₀ e → KeyOnce e → Vacant e := by
    intro e he hdistinct honce
    rcases hx.vacant e he with hold | hnew
    · exact h.vacant e hold hdistinct honce
    · exact hnew hdistinct honce h.accounted h.index_unused
  have haccounted := h.accounted.moves hx.moves
  have hindices : ∀ a, x.1.state.HasCreated (.assigned a) → ∃ i, a = fromLowU64 i ∧
      i ≤ maxValue 64 ∧ (i < satAdd 64 x.1.state.networkContractIndex 1 ∨
        satAdd 64 x.1.state.networkContractIndex 1 = maxValue 64) := by
    intro a ha
    rw [hx.moves.index]
    rcases hx.moves.assigned a ha with hold | hnew
    · obtain ⟨i, hi, hle, hpassed⟩ := h.indices a hold
      exact ⟨i, hi, hle, passed_satAdd (hpassed.imp_left le_of_lt)⟩
    · exact ⟨_, hnew, h.index_le, passed_satAdd (.inl le_rfl)⟩
  unfold createDone
  split
  · -- an error undoes the extrinsic
    exact ⟨h.accounted, h.index_le, h.indices, hvacant⟩
  · -- the events do not matter
    split
    · exact ⟨⟨haccounted.contracts, haccounted.nonces⟩, satAdd_le_maxValue 64 _ 1, hindices,
        hvacant⟩
    · exact ⟨⟨haccounted.contracts, haccounted.nonces⟩, satAdd_le_maxValue 64 _ 1, hindices,
        hvacant⟩

/-- **One input** keeps the invariant. -/
theorem FreshInv.step (h : FreshInv E.toConfig s₀ w) (i : Input) :
    FreshInv E.toConfig s₀ (Evm.step E w i) := by
  by_cases hi : ∃ initCode value gasLimit storageLimit prog,
      i = .createNetworkContract initCode value gasLimit storageLimit prog
  · obtain ⟨initCode, value, gasLimit, storageLimit, prog, rfl⟩ := hi
    exact h.networkDone ((Creates.runRule E s₀ _).createAtAddress prog.only_any rfl)
  · refine h.creates ((Creates.worldRule E s₀).step (fun s hok => ?_) ?_)
    · exact .of_state (.admin hok)
    · intro initCode value gasLimit storageLimit prog heq
      exact absurd ⟨initCode, value, gasLimit, storageLimit, prog, heq⟩ hi

end FreshInv

theorem State.setContractInfo_history (s : State) (address : EvmAddress) (info : ContractInfo) :
    (s.setContractInfo address info).history = s.history := by
  obtain ⟨accounts, heq⟩ := s.setContractInfo_eq address info
  rw [heq]

theorem addGenesisAccount_history {C : Config} {account : GenesisAccount}
    (hok : s.addGenesisAccount C address account = .ok s') : s'.history = s.history := by
  obtain ⟨l, s₀, hs₀, rfl | ⟨s₁, info, storages, hinit, -, rfl⟩⟩ :=
    State.addGenesisAccount_cases hok
  · rw [hs₀]
  · obtain ⟨_, -, -, heq⟩ := State.onContractInitialization_eq_ok hinit
    have hsame : s₁.history = s.history := by
      rw [heq]
      refine (State.refCode_history _ _ _).trans ?_
      rw [hs₀]
    exact (s₁.setContractInfo_history address _).trans hsame

theorem addGenesisAccounts_history {C : Config} {accounts : List (EvmAddress × GenesisAccount)}
    (hok : accounts.foldlM (fun s e => s.addGenesisAccount C e.1 e.2) s = .ok s') :
    s'.history = s.history := by
  induction accounts generalizing s with
  | nil =>
    cases hok
    rfl
  | cons e accounts ih =>
    obtain ⟨s₁, hs₁, hok⟩ := Fallible.bind_eq_ok.mp hok
    exact (ih hok).trans (addGenesisAccount_history hs₁)

/-- The invariant holds at genesis, where nothing has been recorded. -/
theorem freshInv_genesis {C : Config} {ledger : Ledger AccountId}
    {accounts : List (EvmAddress × GenesisAccount)} {s₀ : State}
    (hok : genesis C ledger accounts = .ok s₀) : FreshInv C s₀ ⟨s₀, []⟩ := by
  obtain ⟨s₁, hs₁, heq⟩ := Fallible.bind_eq_ok.mp hok
  cases heq
  have hhistory : s₁.history = [] := addGenesisAccounts_history hs₁
  have hnone : ∀ key, ¬ State.HasCreated
      { s₁ with networkContractIndex := NETWORK_CONTRACT_START } key := by
    intro key hkey
    change _ ∈ s₁.history at hkey
    rw [hhistory] at hkey
    cases hkey
  refine ⟨⟨fun _ h => .inl h, fun a n h => absurd h (hnone _)⟩, ?_,
    fun a h => absurd h (hnone _), ?_⟩
  · change NETWORK_CONTRACT_START ≤ maxValue 64
    decide
  · intro e he
    cases he

/-- **Creations find no contract** at their address, in every run from genesis, if their key is not
in use. -/
theorem creation_finds_no_contract (E : Env) {ledger : Ledger AccountId}
    {accounts : List (EvmAddress × GenesisAccount)} {s₀ : State}
    (hgenesis : genesis E.toConfig ledger accounts = .ok s₀) (is : List Input) :
    ∀ e ∈ (Run.run (step E) ⟨s₀, []⟩ is).trace,
      Distinct E.toConfig s₀ e → KeyOnce e → Vacant e :=
  (Run.invariant_of_step (FreshInv E.toConfig s₀) (fun _ i h => h.step i)
    (freshInv_genesis hgenesis)).vacant

instance (C : Config) (s₀ : State) : (e : Observation) → Decidable (Distinct C s₀ e)
  | .initialised before key _ _ => inferInstanceAs (Decidable (
      s₀.contractInfo (C.keyAddress key) = none ∧
        ∀ entry ∈ before.history, ∀ key' ∈ entry.key, C.keyAddress key' = C.keyAddress key →
          key' = key))
  | .dispatched _ _ _ _ _ | .metered _ _ | .settled _ _ _ _ => inferInstanceAs (Decidable True)

instance : (e : Observation) → Decidable (KeyOnce e)
  | .initialised before (.legacy creator nonce) address _ => inferInstanceAs (Decidable (
      before.NonceLost creator → ¬ before.InUse (.legacy creator nonce) address))
  | .initialised before (.create2 creator salt codeHash) address _ =>
    inferInstanceAs (Decidable (¬ before.InUse (.create2 creator salt codeHash) address))
  | .initialised before (.assigned _) _ _ =>
    inferInstanceAs (Decidable (before.networkContractIndex < maxValue 64))
  | .dispatched _ _ _ _ _ | .metered _ _ | .settled _ _ _ _ => inferInstanceAs (Decidable True)

instance : (e : Observation) → Decidable (Vacant e)
  | .initialised before _ address _ =>
    inferInstanceAs (Decidable (before.contractInfo address = none))
  | .dispatched _ _ _ _ _ | .metered _ _ | .settled _ _ _ _ => inferInstanceAs (Decidable True)

/-- The first account creates a contract, with or without a salt. The init code returns `code`,
which may depend on the block it is run in. -/
def createBy (salt : Option H256) (code : Bytes) : Input :=
  .create 1 [] salt 0 1_000_000 2_000 (.exit (.succeed .returned) code)

/-- The address the first account gets with the salt `5` for empty init code. -/
def saltedAddress : EvmAddress :=
  sampleEnv.create2Address (sampleEnv.defaultAddress 1) 5 (sampleEnv.codeHash [])

/-- The first account creates two contracts with its nonce and one with a salt. It destroys the
last one and creates another with the same salt. -/
def createAndRecreate : List Input :=
  [createBy none [1], createBy none [1], createBy (some 5) [1], .selfdestruct 1 saltedAddress,
    createBy (some 5) [2]]

/-- All four creations find no contract. The key of the last one has been used before, but it is no
longer in use. -/
theorem creation_finds_no_contract_recreated :
    List.Forall Vacant (Run.run (step sampleEnv) ⟨funded, []⟩ createAndRecreate).trace ∧
    (Run.run (step sampleEnv) ⟨funded, []⟩ createAndRecreate).state.contractInfo saltedAddress =
      some ⟨sampleEnv.codeHash [2], sampleEnv.defaultAddress 1, false⟩ := by
  have hdistinct : ∀ e ∈ (Run.run (step sampleEnv) ⟨funded, []⟩ createAndRecreate).trace,
      Distinct sampleEnv.toConfig funded e := by decide +kernel
  have honce : ∀ e ∈ (Run.run (step sampleEnv) ⟨funded, []⟩ createAndRecreate).trace,
      KeyOnce e := by decide +kernel
  have hgenesis : genesis sampleEnv.toConfig funds [] = .ok funded := rfl
  refine ⟨List.forall_iff_forall_mem.mpr fun e he => ?_, by decide +kernel⟩
  exact creation_finds_no_contract sampleEnv hgenesis _ e he (hdistinct e he) (honce e he)

/-- A contract created with a salt is replaced when the creation is repeated, and one created with a
nonce when the account of the creator is reaped and its nonce starts anew. -/
theorem creations_replace_contracts :
    genesis sampleEnv.toConfig funds [] = .ok funded ∧
    ((Run.run (step sampleEnv) ⟨funded, []⟩ [createBy (some 5) [1]]).state.contractInfo
        saltedAddress = some ⟨sampleEnv.codeHash [1], sampleEnv.defaultAddress 1, false⟩ ∧
      (Run.run (step sampleEnv) ⟨funded, []⟩
        [createBy (some 5) [1], createBy (some 5) [2]]).state.contractInfo saltedAddress =
        some ⟨sampleEnv.codeHash [2], sampleEnv.defaultAddress 1, false⟩) ∧
    ∃ e ∈ (Run.run (step sampleEnv) ⟨funded, []⟩
      [createBy none [1], .reap 1, createBy none [2]]).trace, ¬ Vacant e := by
  refine ⟨rfl, ⟨?_, ?_⟩, ?_⟩
  · decide
  · decide +kernel
  · decide

end Evm
end Reef
