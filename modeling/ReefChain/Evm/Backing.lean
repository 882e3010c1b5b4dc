import ReefChain.Evm.RunCost
import ReefChain.Evm.StateRule
import ReefChain.Lib.Run
import ReefChain.Precompile.Core

/-!
# The deposit behind the storage of a contract

A contract is *exactly backed* if what is reserved on its account is the deposit for its record, its
code and its storage slots. Between executions this is meant to be so for every contract. During an
execution it is not: a frame settles what it has charged and refunded when it ends, and several
frames of one contract can be open at a time.

The invariant that holds throughout is `Backing`: for every contract the reserve *and what the open
frames of the contract have yet to settle* are the deposit for what the contract occupies. An SSTORE
changes the slots and the counter of the frame by the same amount; a settlement moves an amount from
the counter into the reserve. The end of a frame that is undone restores the state from before it,
and the counters of the frames around it have not moved in the meantime.

The invariant is kept by every execution whose observations are as `Backable` requires
(`exactly_backed_of_backable`). A settlement that refunds more than the contract has in reserve is
the requirement that fails in practice: a constructor has no reserve before it ends, so a nested
frame that clears a slot of the constructor refunds nothing (`constructor_not_exactly_backed`).
-/

namespace Reef
namespace Evm

open Bounded EvmAccounts

/-! ### What a contract occupies -/

namespace State

variable (C : Config) (s : State)

/-- The slots of an address that hold a value. -/
def usedSlots (address : EvmAddress) : Finset H256 :=
  (s.accountStorages address).keys.filter fun index => s.storage address index ≠ 0

/-- `Handler::code_size`. -/
def codeSize (address : EvmAddress) : ℕ := (s.codeAtAddress C address).length

/-- The bytes that the record and the code of an address occupy. -/
def recordBytes (address : EvmAddress) : ℕ :=
  match (s.contractInfo address).map (·.codeHash) with
  | some h => C.newContractExtraBytes + ((s.codes.lookup h).getD []).length
  | none => 0

/-- The contract is exactly backed. -/
def ExactlyBacked (address : EvmAddress) : Prop :=
  s.ledger.reserved (s.getAccountId address) =
    C.storageDepositPerByte * (C.newContractExtraBytes + s.codeSize C address +
      STORAGE_SIZE * (s.usedSlots address).card)

variable {C s}

theorem mem_usedSlots {address : EvmAddress} {index : H256} :
    index ∈ s.usedSlots address ↔ s.storage address index ≠ 0 := by
  unfold usedSlots
  rw [Finset.mem_filter, Finmap.mem_keys]
  refine ⟨fun h => h.2, fun h => ⟨?_, h⟩⟩
  -- a slot without an entry reads zero
  by_contra hnone
  apply h
  unfold State.storage
  rw [Finmap.lookup_eq_none.mpr hnone]
  rfl

/-- A write changes the slots of its address at its index only. -/
theorem usedSlots_writeStorage (address : EvmAddress) (index value : H256) (a : EvmAddress) :
    (s.writeStorage address index value).usedSlots a =
      if a = address then
        if value = 0 then (s.usedSlots a).erase index else insert index (s.usedSlots a)
      else s.usedSlots a := by
  ext i
  rw [mem_usedSlots, storage_writeStorage]
  by_cases ha : a = address
  · subst ha
    rw [if_pos rfl]
    by_cases hvalue : value = 0
    · rw [if_pos hvalue, Finset.mem_erase, mem_usedSlots]
      by_cases hi : i = index
      · simp [hi, hvalue]
      · simp [hi]
    · rw [if_neg hvalue, Finset.mem_insert, mem_usedSlots]
      by_cases hi : i = index
      · rw [if_pos ⟨rfl, hi⟩]
        exact ⟨fun _ => .inl hi, fun _ => hvalue⟩
      · simp [hi]
  · rw [if_neg ha, if_neg fun h => ha h.1, mem_usedSlots]

end State

/-! ### What the open frames have yet to settle -/

/-- The storage that the open frames of a contract have used and not refunded. -/
def pending (ms : List StorageMeter) (a : EvmAddress) : ℤ :=
  (ms.map fun m => if m.contract = a then (m.selfUsed : ℤ) - m.selfRefunded else 0).sum

theorem pending_cons (m : StorageMeter) (ms : List StorageMeter) (a : EvmAddress) :
    pending (m :: ms) a =
      (if m.contract = a then (m.selfUsed : ℤ) - m.selfRefunded else 0) + pending ms a :=
  List.sum_cons

/-- Frames that wait have nothing more to settle. -/
theorem pending_kept {ms ms' : List StorageMeter} (h : List.Forall₂ StorageMeter.Kept ms ms')
    (a : EvmAddress) : pending ms' a = pending ms a := by
  induction h with
  | nil => rfl
  | cons h _ ih => rw [pending_cons, pending_cons, ih, h.contract, h.selfUsed, h.selfRefunded]

/-- A meter after the wait is one from before. -/
theorem exists_kept {ms ms' : List StorageMeter} (h : List.Forall₂ StorageMeter.Kept ms ms')
    {m' : StorageMeter} (hm' : m' ∈ ms') : ∃ m ∈ ms, m.Kept m' := by
  induction h with
  | nil => cases hm'
  | cons h _ ih =>
    rcases List.mem_cons.mp hm' with rfl | hm'
    · exact ⟨_, List.mem_cons_self, h⟩
    · obtain ⟨m, hm, hkept⟩ := ih hm'
      exact ⟨m, List.mem_cons_of_mem _ hm, hkept⟩

/-- The meter of a frame and those above it. -/
def Chain.all (c : Chain) : List StorageMeter := c.self :: c.above

/-! ### The invariant -/

/-- **Backing.** With open frames `ms`, the reserve of every contract and what its open frames have
yet to settle are the deposit for what it occupies. `T` holds the addresses of contracts, and `μ` is
the address mapping. -/
structure Backing (C : Config) (T : Finset EvmAddress) (μ : AddressMapping)
    (ms : List StorageMeter) (s : State) : Prop where
  mapping : s.mapping = μ
  listed : ∀ a info, s.contractInfo a = some info → a ∈ T
  /-- The code of a contract is counted, so that it is not replaced under its hash. -/
  coded : ∀ a info, s.contractInfo a = some info → (s.codeInfos.lookup info.codeHash).isSome
  /-- No counter was cut off. -/
  fits : ∀ m ∈ ms, m.selfUsed < 2 ^ storageBits ∧ m.selfRefunded < 2 ^ storageBits
  backed : ∀ a ∈ T, (s.ledger.reserved (μ.getAccountId a) : ℤ) +
      C.storageDepositPerByte * pending ms a =
    C.storageDepositPerByte * (s.recordBytes C a + STORAGE_SIZE * (s.usedSlots a).card : ℕ)

namespace Backing

variable {C : Config} {T : Finset EvmAddress} {μ : AddressMapping} {ms ms' : List StorageMeter}
  {s s' : State}

/-- Outside of executions, contracts are exactly backed. -/
theorem exactlyBacked (h : Backing C T μ [] s) {a : EvmAddress} {info : ContractInfo}
    (hinfo : s.contractInfo a = some info) : s.ExactlyBacked C a := by
  have hbacked := h.backed a (h.listed a info hinfo)
  have hrecord : s.recordBytes C a = C.newContractExtraBytes + s.codeSize C a := by
    unfold State.recordBytes State.codeSize State.codeAtAddress State.codeHashAtAddress
    rw [hinfo]
    rfl
  unfold State.ExactlyBacked State.getAccountId
  rw [h.mapping, ← hrecord]
  have hnone : pending [] a = 0 := rfl
  rw [hnone, mul_zero, add_zero] at hbacked
  exact_mod_cast hbacked

/-- What does not concern contracts, their storage and their reserves keeps the invariant. -/
theorem of_same (h : Backing C T μ ms s) (hmapping : s'.mapping = s.mapping)
    (hinfo : ∀ a, (s'.contractInfo a).map (·.codeHash) = (s.contractInfo a).map (·.codeHash))
    (hcodes : s'.codes = s.codes) (hinfos : s'.codeInfos = s.codeInfos)
    (hstorages : s'.accountStorages = s.accountStorages)
    (hreserved : ∀ a ∈ T, s'.ledger.reserved (μ.getAccountId a) =
      s.ledger.reserved (μ.getAccountId a)) : Backing C T μ ms s' where
  mapping := hmapping.trans h.mapping
  listed a info hsome := by
    have hsame := hinfo a
    rw [hsome, Option.map_some, eq_comm, Option.map_eq_some_iff] at hsame
    obtain ⟨info', hinfo', -⟩ := hsame
    exact h.listed a info' hinfo'
  coded a info hsome := by
    have hsame := hinfo a
    rw [hsome, Option.map_some, eq_comm, Option.map_eq_some_iff] at hsame
    obtain ⟨info', hinfo', hhash⟩ := hsame
    rw [hinfos, ← hhash]
    exact h.coded a info' hinfo'
  fits := h.fits
  backed a ha := by
    have hrecord : s'.recordBytes C a = s.recordBytes C a := by
      unfold State.recordBytes
      rw [hinfo, hcodes]
    have hslots : s'.usedSlots a = s.usedSlots a := by
      unfold State.usedSlots State.storage
      rw [hstorages]
    rw [hreserved a ha, hrecord, hslots]
    exact h.backed a ha

/-- Frames that wait do not matter. -/
theorem kept (h : Backing C T μ ms s) (hms : List.Forall₂ StorageMeter.Kept ms ms') :
    Backing C T μ ms' s where
  mapping := h.mapping
  listed := h.listed
  coded := h.coded
  fits m hm := by
    obtain ⟨m₀, hm₀, hkept⟩ := exists_kept hms hm
    rw [hkept.selfUsed, hkept.selfRefunded]
    exact h.fits m₀ hm₀
  backed a ha := by
    rw [pending_kept hms]
    exact h.backed a ha

/-- A new frame has nothing to settle. -/
theorem new (h : Backing C T μ ms s) (contract : EvmAddress) (limit : ℕ) :
    Backing C T μ (.new contract limit :: ms) s where
  mapping := h.mapping
  listed := h.listed
  coded := h.coded
  fits m hm := by
    rcases List.mem_cons.mp hm with rfl | hm
    · exact ⟨Nat.two_pow_pos _, Nat.two_pow_pos _⟩
    · exact h.fits m hm
  backed a ha := by
    have hnothing : pending (.new contract limit :: ms) a = pending ms a := by
      rw [pending_cons]
      simp [StorageMeter.new]
    rw [hnothing]
    exact h.backed a ha

/-! The counters of a frame and the slots it writes. -/

/-- A write keeps the invariant if the frame counts by how much the slots change. -/
theorem writeStorage {m m' : StorageMeter} (h : Backing C T μ (m :: ms) s) {index value : H256}
    (hcontract : m'.contract = m.contract)
    (hfits : m'.selfUsed < 2 ^ storageBits ∧ m'.selfRefunded < 2 ^ storageBits)
    (hcount : (m'.selfUsed : ℤ) - m'.selfRefunded = m.selfUsed - m.selfRefunded + STORAGE_SIZE *
      (((s.writeStorage m.contract index value).usedSlots m.contract).card -
        ((s.usedSlots m.contract).card : ℤ))) :
    Backing C T μ (m' :: ms) (s.writeStorage m.contract index value) where
  mapping := h.mapping
  listed := h.listed
  coded := h.coded
  fits m₁ hm₁ := by
    rcases List.mem_cons.mp hm₁ with rfl | hm₁
    · exact hfits
    · exact h.fits m₁ (List.mem_cons_of_mem m hm₁)
  backed a ha := by
    have hbefore := h.backed a ha
    have hrecord : (s.writeStorage m.contract index value).recordBytes C a = s.recordBytes C a :=
      rfl
    have hledger : (s.writeStorage m.contract index value).ledger = s.ledger := rfl
    rw [pending_cons] at hbefore ⊢
    rw [hcontract, hrecord, hledger]
    by_cases hown : m.contract = a
    · -- the frame counts what its own slots change by
      subst hown
      rw [if_pos rfl] at hbefore ⊢
      rw [hcount]
      push_cast at hbefore ⊢
      linear_combination hbefore
    · have hslots : (s.writeStorage m.contract index value).usedSlots a = s.usedSlots a := by
        rw [State.usedSlots_writeStorage, if_neg (Ne.symm hown)]
      rw [if_neg hown] at hbefore ⊢
      rw [hslots]
      exact hbefore

end Backing

variable {c : Chain} {above : List StorageMeter}

/-- A charge of a live meter that is not cut off. -/
theorem Chain.charge_self (hc : c.self.result = .ok ()) {storage : ℕ}
    (hfits : c.self.selfUsed + storage < 2 ^ storageBits) :
    (c.charge storage).1.self.contract = c.self.contract ∧
      (c.charge storage).1.self.selfUsed = c.self.selfUsed + storage ∧
      (c.charge storage).1.self.selfRefunded = c.self.selfRefunded := by
  simp only [charge, StorageMeter.charge, StorageMeter.handle, hc, satAdd_of_lt hfits, and_self]

/-- A refund of a live meter that is not cut off. -/
theorem Chain.refund_self (hc : c.self.result = .ok ()) {storage : ℕ}
    (hfits : c.self.selfRefunded + storage < 2 ^ storageBits) :
    (c.refund storage).1.self.contract = c.self.contract ∧
      (c.refund storage).1.self.selfUsed = c.self.selfUsed ∧
      (c.refund storage).1.self.selfRefunded = c.self.selfRefunded + storage := by
  simp only [refund, StorageMeter.refund, StorageMeter.handle, hc, satAdd_of_lt hfits, and_self]

/-- What an observation has to be like for contracts to stay exactly backed. -/
def Backable (C : Config) (T : Finset EvmAddress) : Observation → Prop
  -- calls are not scheduled: this reserves funds of the sender
  | .dispatched _ _ _ _ route => route ≠ .core .scheduleCall
  -- no counter is cut off
  | .metered counter storage => counter + storage < 2 ^ storageBits
  -- the contract is new, and what is stored under the hash of its code has the size of the code
  | .initialised before _ address code =>
    address ∈ T ∧ before.contractInfo address = none ∧
      code.length + C.newContractExtraBytes < 2 ^ storageBits ∧
      ((before.codeInfos.lookup (C.codeHash code)).isSome →
        (before.codes.lookup (C.codeHash code)).map List.length = some code.length)
  -- the contract has the reserve for what it refunds
  | .settled before contract used refunded => used < refunded →
    C.storageDepositPerByte * (refunded - used) ≤
      before.ledger.reserved (before.getAccountId contract)

namespace Backing

variable {C : Config} {T : Finset EvmAddress} {μ : AddressMapping} {c c' : Chain} {w w' : World}

/-- An SSTORE keeps the invariant. -/
theorem setStorage (h : Backing C T μ c.all w.state) (halive : c.self.result = .ok ())
    {index value : H256} {r : Except ExitError Unit}
    (hset : Evm.setStorage false c.self.contract index value c w = (c', w', r))
    (hok : ∀ e ∈ w'.trace, Backable C T e) : Backing C T μ c'.all w'.state := by
  have hslots := w.state.usedSlots_writeStorage c.self.contract index value c.self.contract
  rw [if_pos rfl] at hslots
  have hfits := h.fits c.self List.mem_cons_self
  rcases setStorage_cases hset with
    ⟨rfl, rfl⟩ | ⟨hstate, ⟨hzero, hprevious, rfl, htrace⟩ | ⟨hvalue, hprevious, rfl, htrace⟩ |
      ⟨hsame, rfl, -⟩⟩
  · exact h
  · -- a slot is cleared
    have hcounter : Backable C T (.metered c.self.selfRefunded STORAGE_SIZE) :=
      hok _ (by rw [htrace]; exact List.mem_cons_self)
    obtain ⟨hcontract, hused, hrefunded⟩ := Chain.refund_self halive hcounter
    have hcard := Finset.card_erase_add_one (State.mem_usedSlots.mpr hprevious)
    rw [hstate]
    refine h.writeStorage hcontract ⟨hused ▸ hfits.1, hrefunded ▸ hcounter⟩ ?_
    rw [hslots, if_pos hzero, hused, hrefunded, ← hcard]
    push_cast
    ring
  · -- a slot is filled
    have hcounter : Backable C T (.metered c.self.selfUsed STORAGE_SIZE) :=
      hok _ (by rw [htrace]; exact List.mem_cons_self)
    obtain ⟨hcontract, hused, hrefunded⟩ := Chain.charge_self halive hcounter
    have hnew : index ∉ w.state.usedSlots c.self.contract := by
      rw [State.mem_usedSlots, hprevious]
      exact fun hne => hne rfl
    rw [hstate]
    refine h.writeStorage hcontract ⟨hused ▸ hcounter, hrefunded ▸ hfits.2⟩ ?_
    rw [hslots, if_neg hvalue, hused, hrefunded, Finset.card_insert_of_notMem hnew]
    push_cast
    ring
  · -- whether the slot is in use does not change
    have hcard : (w.state.writeStorage c'.self.contract index value).usedSlots c'.self.contract =
        w.state.usedSlots c'.self.contract := by
      rw [hslots]
      split
      · next hzero =>
        exact Finset.erase_eq_of_notMem fun hmem => State.mem_usedSlots.mp hmem (hsame.mp hzero)
      · next hvalue =>
        exact Finset.insert_eq_of_mem (State.mem_usedSlots.mpr fun hne => hvalue (hsame.mpr hne))
    rw [hstate]
    refine h.writeStorage rfl hfits ?_
    rw [hcard, sub_self, mul_zero, add_zero]

end Backing

/-! Settlements. -/

section

variable {α : Type} [DecidableEq α] {D : DepositConfig α} {origin : EvmAddress} {who : α}

/-- Reserving the deposit of a limit concerns the origin only. -/
theorem DepositConfig.reserveStorage_other (hwho : who ≠ D.getAccountId origin) (l : Ledger α)
    (limit : ℕ) : (D.reserveStorage origin l limit).1.reserved who = l.reserved who := by
  unfold reserveStorage
  split
  · rfl
  · split
    · next l' hl => rw [Ledger.reserve_reserved hl, if_neg hwho]
    · rfl

/-- So does the release of what is left. -/
theorem DepositConfig.unreserveStorage_other (hwho : who ≠ D.getAccountId origin) (l : Ledger α)
    (limit used refunded : ℕ) :
    (D.unreserveStorage origin l limit used refunded).1.reserved who = l.reserved who := by
  unfold unreserveStorage
  split
  · rfl
  · rw [Ledger.unreserve_reserved, if_neg hwho]

/-- The effect of a charge on the reserve of any account but that of the origin. -/
theorem DepositConfig.chargeStorage_other {contract : EvmAddress} {used refunded : ℕ}
    {l l' : Ledger α} (h : D.chargeStorage origin l contract used refunded = (l', .ok ()))
    (hwho : who ≠ D.getAccountId origin) (hused : used < 2 ^ storageBits)
    (hrefunded : refunded < 2 ^ storageBits)
    (hcov : used < refunded →
      D.storageDepositPerByte * (refunded - used) ≤ l.reserved (D.getAccountId contract)) :
    (l'.reserved who : ℤ) = l.reserved who +
      if D.getAccountId contract = who then D.storageDepositPerByte * ((used : ℤ) - refunded)
      else 0 := by
  obtain ⟨hlt, rfl⟩ | ⟨heq, rfl⟩ | ⟨hgt, l₁, htransfer, hreserve⟩ :=
    chargeStorage_cases h hused hrefunded
  · -- a net refund leaves the contract, in full
    have hbacked := hcov hlt
    rw [Ledger.repatriateReserved_reserved]
    by_cases hcontract : D.getAccountId contract = who
    · rw [if_neg (by rw [hcontract]; exact hwho), if_pos hcontract.symm, if_pos hcontract]
      rw [hcontract] at hbacked ⊢
      push_cast [Nat.cast_sub hbacked, Nat.cast_sub hlt.le]
      ring
    · rw [if_neg hcontract, if_neg (Ne.symm hcontract), if_neg hwho]
      split <;> simp
  · rw [heq]
    simp
  · -- a net use arrives at the contract
    rw [Ledger.reserve_reserved hreserve, Ledger.transfer_reserved htransfer]
    simp only [Ledger.unreserve_reserved]
    by_cases hcontract : D.getAccountId contract = who
    · rw [hcontract, if_pos rfl, if_neg hwho, if_pos rfl]
      push_cast [Nat.cast_sub hgt.le]
      ring
    · rw [if_neg (Ne.symm hcontract), if_neg hwho, if_neg hcontract, add_zero]

end

/-- The accounts of the addresses in `T` are theirs alone. -/
def Separates (T : Finset EvmAddress) (μ : AddressMapping) : Prop :=
  ∀ a ∈ T, ∀ b, μ.getAccountId b = μ.getAccountId a → b = a

theorem Separates.ne {T : Finset EvmAddress} {μ : AddressMapping} (h : Separates T μ)
    {a b : EvmAddress} (ha : a ∈ T) (hb : b ≠ a) : μ.getAccountId a ≠ μ.getAccountId b :=
  fun heq => hb (h a ha b heq.symm)

namespace Backing

section

variable {C : Config} {T : Finset EvmAddress} {μ : AddressMapping} {ms : List StorageMeter}
  {s : State} {w w' : World} {origin : EvmAddress}

/-- A change of the ledger that leaves the reserves of contracts alone. -/
theorem ledger (h : Backing C T μ ms s) {l : Ledger AccountId}
    (hreserved : ∀ a ∈ T, l.reserved (μ.getAccountId a) =
      s.ledger.reserved (μ.getAccountId a)) : Backing C T μ ms { s with ledger := l } :=
  h.of_same rfl (fun _ => rfl) rfl rfl rfl hreserved

/-- The origin has another account than a contract. -/
theorem ne_origin (h : Backing C T μ ms s) (hsep : Separates T μ) (horigin : origin ∉ T)
    {a : EvmAddress} (ha : a ∈ T) : μ.getAccountId a ≠ s.getAccountId origin := by
  unfold State.getAccountId
  rw [h.mapping]
  exact hsep.ne ha fun heq => horigin (heq ▸ ha)

/-- A transfer does not touch reserves. -/
theorem moveFunds (hhook : C.killHook = false) (h : Backing C T μ ms s)
    {source target : EvmAddress} {value : ℕ} {s' : State}
    (hmove : s.moveFunds C source target value = .ok s') : Backing C T μ ms s' := by
  obtain ⟨l, hl, rfl⟩ := State.moveFunds_eq_ok hmove
  rw [State.setLedger_of_not_killHook hhook]
  exact h.ledger fun a _ => congrFun (Ledger.transfer_reserved hl) _

/-- The origin reserves the deposit of its limit. -/
theorem reserve (h : Backing C T μ ms w.state) (hsep : Separates T μ) (horigin : origin ∉ T)
    {limit : ℕ} (hreserve : (World.host C origin).reserveStorage w limit = (w', .ok ())) :
    Backing C T μ ms w'.state := by
  obtain ⟨rfl, -⟩ := Prod.mk.inj hreserve
  refine h.ledger fun a ha => ?_
  exact DepositConfig.reserveStorage_other (h.ne_origin hsep horigin ha) w.state.ledger limit

/-- The origin gets back what is left. -/
theorem release (h : Backing C T μ ms w.state) (hsep : Separates T μ) (horigin : origin ∉ T)
    {limit used refunded : ℕ}
    (hrelease : (World.host C origin).unreserveStorage w limit used refunded = (w', .ok ())) :
    Backing C T μ ms w'.state := by
  obtain ⟨rfl, -⟩ := Prod.mk.inj hrelease
  refine h.ledger fun a ha => ?_
  exact DepositConfig.unreserveStorage_other (h.ne_origin hsep horigin ha) w.state.ledger limit used
    refunded

/-- The end of a frame: what it had yet to settle is in the reserve of its contract. -/
theorem settle (hhook : C.killHook = false) {m : StorageMeter}
    (h : Backing C T μ (m :: ms) w.state) (hsep : Separates T μ) (horigin : origin ∉ T)
    (hcharge : (World.host C origin).chargeStorage w m.contract m.selfUsed m.selfRefunded =
      (w', .ok ()))
    (hok : ∀ e ∈ w'.trace, Backable C T e) : Backing C T μ ms w'.state := by
  have hmapping : w.state.getAccountId = μ.getAccountId := by
    funext a
    unfold State.getAccountId
    rw [h.mapping]
  have hcovered : Backable C T (.settled w.state m.contract m.selfUsed m.selfRefunded) := by
    refine hok _ ?_
    rw [← (Prod.mk.inj hcharge).1]
    exact List.mem_cons_self
  obtain ⟨hused, hrefunded⟩ := h.fits m List.mem_cons_self
  obtain ⟨rfl, hresult⟩ := Prod.mk.inj hcharge
  simp only [State.setLedger_of_not_killHook hhook]
  refine ⟨h.mapping, h.listed, h.coded, fun m' hm' => h.fits m' (List.mem_cons_of_mem m hm'),
    fun a ha => ?_⟩
  have hbefore := h.backed a ha
  have hreserved := DepositConfig.chargeStorage_other
    (show (w.state.deposits C).chargeStorage origin w.state.ledger m.contract m.selfUsed
      m.selfRefunded = (_, .ok ()) from Prod.ext rfl hresult) (h.ne_origin hsep horigin ha) hused
    hrefunded hcovered
  -- the account of the contract is that of no other address
  have hcontract : w.state.getAccountId m.contract = μ.getAccountId a ↔ m.contract = a := by
    rw [hmapping]
    exact ⟨fun heq => hsep a ha m.contract heq, fun heq => heq ▸ rfl⟩
  rw [pending_cons] at hbefore
  change (((w.state.deposits C).chargeStorage origin w.state.ledger m.contract m.selfUsed
    m.selfRefunded).1.reserved (μ.getAccountId a) : ℤ) + _ = _
  rw [hreserved]
  change _ + (if w.state.getAccountId m.contract = μ.getAccountId a then
    (C.storageDepositPerByte : ℤ) * (m.selfUsed - m.selfRefunded) else 0) + _ = _
  rw [if_congr hcontract rfl rfl]
  refine Eq.trans ?_ hbefore
  split <;> ring

/-- A nonce does not matter. -/
theorem incNonce (h : Backing C T μ ms s) (address : EvmAddress) :
    Backing C T μ ms (s.incNonce address) :=
  h.of_same rfl (fun a => by rw [s.incNonce_contractInfo]) rfl rfl rfl fun _ _ => rfl

/-- Nor does a log. -/
theorem log (h : Backing C T μ ms s) (address : EvmAddress) (topics : List H256) (data : Bytes) :
    Backing C T μ ms (s.log address topics data) :=
  h.of_same rfl (fun _ => rfl) rfl rfl rfl fun _ _ => rfl

/-- Replacing a contract's record by one with the same code does not matter. -/
theorem setContractInfo (h : Backing C T μ ms s) {address : EvmAddress}
    {info info' : ContractInfo} (hinfo : s.contractInfo address = some info)
    (hhash : info'.codeHash = info.codeHash) :
    Backing C T μ ms (s.setContractInfo address info') := by
  unfold State.setContractInfo
  split
  · next account haccount =>
    refine h.of_same rfl (fun a => ?_) rfl rfl rfl fun _ _ => rfl
    refine (congrArg _ (State.contractInfo_insert rfl a)).trans ?_
    split
    · next ha =>
      rw [ha, hinfo, Option.map_some, Option.map_some, hhash]
    · rfl
  · exact h

/-- A transfer of maintenance does not matter. -/
theorem doTransferMaintainer (h : Backing C T μ ms s) {who : AccountId}
    {contract newMaintainer : EvmAddress} {s' : State}
    (hok : s.doTransferMaintainer who contract newMaintainer = .ok s') :
    Backing C T μ ms s' ∧ s'.ledger = s.ledger := by
  obtain ⟨info, hinfo, rfl⟩ := State.doTransferMaintainer_eq_ok hok
  refine ⟨h.setContractInfo hinfo rfl, ?_⟩
  obtain ⟨accounts, heq⟩ := s.setContractInfo_eq contract { info with maintainer := newMaintainer }
  rw [heq]

end

end Backing

/-- The core precompiles, apart from the scheduler, leave reserves alone. -/
def Env.KeepsReserves (E : Env) : Prop :=
  ∀ p input gas context s l accounts, p ≠ CorePrecompile.scheduleCall →
    .setLedger l accounts ∈ (E.core p input gas context s).1 → l.reserved = s.ledger.reserved

section Runtime

open Precompile

/-- The operations leave the reserves of `s` alone. -/
def SparesReserves (s : State) (a : Answer) : Prop :=
  ∀ l accounts, .setLedger l accounts ∈ a.1 → l.reserved = s.ledger.reserved

theorem sparesReserves_none (s : State) (result : PrecompileResult) :
    SparesReserves s ([], result) := by
  intro l accounts hmem
  cases hmem

theorem sparesReserves_transferCurrency {s : State} {id : CurrencyId} {source dest : AccountId}
    {amount : ℕ} {ops : List NativeOp} (h : transferCurrency s id source dest amount = .ok ops)
    (result : PrecompileResult) : SparesReserves s (ops, result) := by
  intro l accounts hmem
  unfold transferCurrency at h
  split at h
  · cases h
    cases hmem
  · split at h
    · obtain ⟨l', htransfer, hops⟩ := Fallible.bind_eq_ok.mp h
      cases hops
      obtain ⟨rfl, -⟩ := NativeOp.setLedger.inj (List.mem_singleton.mp hmem)
      exact Ledger.transfer_reserved htransfer
    · obtain ⟨l', -, hops⟩ := Fallible.bind_eq_ok.mp h
      cases hops
      cases List.mem_singleton.mp hmem

/-- The core precompiles of the runtime, apart from the scheduler, leave reserves alone. -/
theorem wire_keepsReserves (K : CoreConfig) (E : Env) : (wire K E).KeepsReserves := by
  intro p input gas context s l accounts hp
  have hanswers : Answers (SparesReserves s) (run E.toConfig K p input s) := by
    cases p with
    | multiCurrency =>
      refine Answers.bind fun a _ => Answers.bind fun id _ => ?_
      cases a with
      | queryTotalIssuance => exact .of (sparesReserves_none s _)
      | queryBalance => exact Answers.bind fun who _ => .of (sparesReserves_none s _)
      | transfer =>
        -- the one action here that writes the ledger, and it moves free balances
        refine Answers.bind fun source _ => Answers.bind fun dest _ => Answers.bind fun v _ => ?_
        cases htransfer : transferCurrency s id source dest v with
        | error e => exact .of (sparesReserves_none s _)
        | ok ops => exact .of (sparesReserves_transferCurrency htransfer _)
    | stateRent =>
      refine Answers.bind fun a _ => ?_
      cases a with
      | queryNewContractExtraBytes => exact .of (sparesReserves_none s _)
      | queryStorageDepositPerByte => exact .of (sparesReserves_none s _)
      | queryMaintainer =>
        refine Answers.bind fun contract _ => ?_
        cases s.contractInfo contract with
        | none => exact .of (sparesReserves_none s _)
        | some info => exact .of (sparesReserves_none s _)
      | queryDeveloperDeposit => exact .of (sparesReserves_none s _)
      | queryDeploymentFee => exact .of (sparesReserves_none s _)
      | transferMaintainer =>
        refine Answers.bind fun source _ => Answers.bind fun contract _ =>
          Answers.bind fun newMaintainer _ => ?_
        cases s.doTransferMaintainer source contract newMaintainer with
        | error e => exact .of (sparesReserves_none s _)
        | ok s' =>
          refine .of fun l accounts hmem => ?_
          cases List.mem_singleton.mp hmem
    | scheduleCall => exact absurd rfl hp
  exact hanswers.answer (sparesReserves_none s) l accounts

end Runtime

namespace Backing

variable {E : Env} {T : Finset EvmAddress} {μ : AddressMapping} {ms : List StorageMeter}
  {s : State}

/-- Native operations that leave reserves alone keep the invariant. -/
theorem native (hhook : E.killHook = false) (ops : List NativeOp) {s₀ : State}
    (h : Backing E.toConfig T μ ms s) (hledger : s.ledger.reserved = s₀.ledger.reserved)
    (hops : ∀ l accounts, .setLedger l accounts ∈ ops → l.reserved = s₀.ledger.reserved) :
    Backing E.toConfig T μ ms (ops.foldl (State.native E.toConfig) s) := by
  -- each operation finds the reserves that the first one found
  induction ops generalizing s with
  | nil => exact h
  | cons op ops ih =>
    have hrest : ∀ l accounts, .setLedger l accounts ∈ ops → l.reserved = s₀.ledger.reserved :=
      fun l accounts hmem => hops l accounts (List.mem_cons_of_mem op hmem)
    cases op with
    | setLedger l accounts =>
      have hl := hops l accounts List.mem_cons_self
      refine ih (s := s.setLedger E.toConfig l accounts) ?_ ?_ hrest
      · rw [State.setLedger_of_not_killHook hhook]
        exact h.ledger fun a _ => by rw [hl, hledger]
      · rw [State.setLedger_ledger, hl]
    | transferMaintainer who contract newMaintainer =>
      rw [List.foldl_cons]
      change Backing E.toConfig T μ ms (ops.foldl (State.native E.toConfig)
        (Fallible.commitOrKeep (s.doTransferMaintainer who contract newMaintainer) s))
      rcases Fallible.commitOrKeep_cases (s.doTransferMaintainer who contract newMaintainer) s with
        ⟨s', hok, heq⟩ | ⟨-, heq⟩
      · obtain ⟨hback, hsame⟩ := h.doTransferMaintainer hok
        rw [heq]
        exact ih hback (by rw [hsame, hledger]) hrest
      · rw [heq]
        exact ih h hledger hrest
    | setOuter o => exact ih (h.of_same rfl (fun _ => rfl) rfl rfl rfl fun _ _ => rfl) hledger hrest

/-- A precompile keeps the invariant, unless it is the scheduler. -/
theorem execute (hhook : E.killHook = false) (hcore : E.KeepsReserves)
    (h : Backing E.toConfig T μ ms s) {address : EvmAddress} {input : Bytes} {gas : ℕ}
    {context : Context} (hroute : route address context.caller ≠ .core .scheduleCall) :
    Backing E.toConfig T μ ms (E.execute address input gas context s).1 := by
  unfold Env.execute
  split
  · exact h
  · exact h
  · next p hp =>
    refine native hhook _ h rfl fun l accounts hmem => ?_
    refine hcore p input gas context s l accounts ?_ hmem
    rintro rfl
    exact hroute hp
  · exact h

end Backing

/-! Creations. -/

/-- A reference to code: nothing that is counted changes, and the code is counted. -/
theorem State.refCode_spec (s : State) (h : H256) (code : Bytes) :
    (∀ k, ((s.refCode h code).codeInfos.lookup k).isSome ↔
      k = h ∨ (s.codeInfos.lookup k).isSome) ∧
    (∀ k, (s.codeInfos.lookup k).isSome →
      (s.refCode h code).codes.lookup k = s.codes.lookup k) ∧
    ((s.codeInfos.lookup h).isSome = false → (s.refCode h code).codes.lookup h = some code) := by
  unfold State.refCode
  split
  · next info hinfo =>
    -- the code is known: only its count goes up
    refine ⟨fun k => ?_, fun _ _ => rfl, fun hnone => ?_⟩
    · by_cases hk : k = h
      · rw [hk, Finmap.lookup_insert]
        simp
      · simp [hk, Finmap.lookup_insert_of_ne _ hk]
    · rw [hinfo] at hnone
      cases hnone
  · next hnone =>
    -- the code is new, and stored under a hash that was free
    refine ⟨fun k => ?_, fun k hk => ?_, fun _ => Finmap.lookup_insert _⟩
    · by_cases hk : k = h
      · rw [hk, Finmap.lookup_insert]
        simp
      · simp [hk, Finmap.lookup_insert_of_ne _ hk]
    · refine Finmap.lookup_insert_of_ne _ ?_
      rintro rfl
      rw [hnone] at hk
      cases hk

/-- What the creation of a contract does to the state. -/
theorem State.onContractInitialization_spec {C : Config} {s s' : State}
    {address maintainer : EvmAddress} {code : Bytes} {used : ℕ × ℤ}
    (h : s.onContractInitialization C address maintainer code used = .ok s') :
    s'.mapping = s.mapping ∧ s'.ledger = s.ledger ∧ s'.accountStorages = s.accountStorages ∧
      s'.codes = (s.refCode (C.codeHash code) code).codes ∧
      s'.codeInfos = (s.refCode (C.codeHash code) code).codeInfos ∧
      ∀ a, s'.contractInfo a =
        if a = address then some ⟨C.codeHash code, maintainer, false⟩ else s.contractInfo a := by
  obtain ⟨info, hinfo, -, heq⟩ := State.onContractInitialization_eq_ok h
  obtain ⟨codes, infos, hcode⟩ := s.refCode_eq (C.codeHash code) code
  have haccounts : s'.accounts = s.accounts.insert address info := by rw [heq]
  refine ⟨?_, ?_, ?_, ?_, ?_, fun a => ?_⟩
  · rw [heq, hcode]
  · rw [heq, hcode]
  · rw [heq, hcode]
  · rw [heq]
  · rw [heq]
  · rw [State.contractInfo_insert haccounts, hinfo]

/-- A new contract occupies the bytes of its code and of a record, all others occupy what they
did. -/
theorem State.recordBytes_created {C : Config} {s s' : State} {address maintainer : EvmAddress}
    {code : Bytes} {used : ℕ × ℤ}
    (h : s.onContractInitialization C address maintainer code used = .ok s')
    (hcoded : ∀ a info, s.contractInfo a = some info → (s.codeInfos.lookup info.codeHash).isSome)
    (hstored : (s.codeInfos.lookup (C.codeHash code)).isSome →
      (s.codes.lookup (C.codeHash code)).map List.length = some code.length) (a : EvmAddress) :
    s'.recordBytes C a =
      if a = address then C.newContractExtraBytes + code.length else s.recordBytes C a := by
  obtain ⟨-, -, -, hcodes, -, hinfo⟩ := State.onContractInitialization_spec h
  obtain ⟨-, hkept, hfresh⟩ := s.refCode_spec (C.codeHash code) code
  unfold State.recordBytes
  rw [hinfo, hcodes]
  by_cases ha : a = address
  · rw [if_pos ha, if_pos ha]
    change C.newContractExtraBytes + _ = _
    congr 1
    cases hcounted : (s.codeInfos.lookup (C.codeHash code)).isSome with
    | false => rw [hfresh hcounted, Option.getD_some]
    | true =>
      -- the code is there already
      have hlength := hstored hcounted
      rw [Option.map_eq_some_iff] at hlength
      obtain ⟨stored, hlookup, hsame⟩ := hlength
      rw [hkept _ hcounted, hlookup, Option.getD_some, hsame]
  · rw [if_neg ha, if_neg ha]
    cases hsome : s.contractInfo a with
    | none => rfl
    | some info =>
      change C.newContractExtraBytes + _ = C.newContractExtraBytes + _
      rw [hkept _ (hcoded a info hsome)]

namespace Backing

variable {C : Config} {T : Finset EvmAddress} {μ : AddressMapping} {c c' : Chain} {w w' : World}

/-- The creation of a contract keeps the invariant: its record and its code are counted. -/
theorem initialise (h : Backing C T μ c.all w.state) (halive : c.self.result = .ok ())
    {key : CreateKey} {address maintainer : EvmAddress} {code : Bytes}
    {used : StorageMeter → ℕ × ℤ} (hcontract : c.self.contract = address)
    (hinit : Evm.initialise C key address maintainer code used c w = (c', w', .ok ()))
    (hok : ∀ e ∈ w'.trace, Backable C T e) : Backing C T μ c'.all w'.state := by
  obtain ⟨rfl, ⟨-, e, he⟩ | ⟨s, used', hs, rfl⟩⟩ := initialise_cases hinit
  · cases he
  -- the conditions on the two observations
  obtain ⟨hlisted, hnone, hsize, hstored⟩ :
      Backable C T (.initialised (w.state.incNonce address) key address code) :=
    hok _ List.mem_cons_self
  have hcounter : Backable C T (.metered c.self.selfUsed (C.contractStorage code)) :=
    hok _ (List.mem_cons_of_mem _ List.mem_cons_self)
  have hstorage : C.contractStorage code = code.length + C.newContractExtraBytes := by
    have hlength : code.length < 2 ^ 32 := lt_of_le_of_lt (Nat.le_add_right _ _) hsize
    unfold Config.contractStorage
    rw [Nat.mod_eq_of_lt hlength, satAdd_of_lt hsize]
  obtain ⟨hself, hused, hrefunded⟩ := Chain.charge_self halive hcounter
  have hbefore := h.incNonce address
  have hrecords := State.recordBytes_created hs hbefore.coded hstored
  obtain ⟨hmapping, hledger, hstorages, -, hinfos, hinfo⟩ := State.onContractInitialization_spec hs
  have hslots : ∀ a, s.usedSlots a = (w.state.incNonce address).usedSlots a := by
    intro a
    unfold State.usedSlots State.storage
    rw [hstorages]
  have hafter : Backing C T μ (c.charge (C.contractStorage code)).1.all s := {
    mapping := hmapping.trans hbefore.mapping
    listed := fun a info hsome => by
      rw [hinfo] at hsome
      split at hsome
      · next ha => exact ha ▸ hlisted
      · exact hbefore.listed a info hsome
    coded := fun a info hsome => by
      rw [hinfo] at hsome
      rw [hinfos, (State.refCode_spec _ _ _).1]
      split at hsome
      · cases hsome
        exact .inl rfl
      · exact .inr (hbefore.coded a info hsome)
    fits := fun m hm => by
      rcases List.mem_cons.mp hm with rfl | hm
      · rw [hused, hrefunded]
        exact ⟨hcounter, (h.fits c.self List.mem_cons_self).2⟩
      · exact h.fits m (List.mem_cons_of_mem _ hm)
    backed := fun a ha => by
      have hold := hbefore.backed a ha
      have hpending : pending (c.charge (C.contractStorage code)).1.all a =
          pending c.all a + if a = address then ((C.contractStorage code : ℕ) : ℤ) else 0 := by
        change pending ((c.charge (C.contractStorage code)).1.self :: c.above) a =
          pending (c.self :: c.above) a + _
        rw [pending_cons, pending_cons, hself, hused, hrefunded, hcontract]
        by_cases ha : a = address
        · rw [if_pos ha.symm, if_pos ha.symm, if_pos ha]
          push_cast
          ring
        · rw [if_neg (Ne.symm ha), if_neg (Ne.symm ha), if_neg ha, add_zero]
      rw [hledger, hslots, hrecords, hpending, hstorage]
      by_cases ha : a = address
      · -- there was no contract before
        have hempty : (w.state.incNonce address).recordBytes C a = 0 := by
          unfold State.recordBytes
          rw [ha, hnone]
          rfl
        rw [hempty] at hold
        rw [if_pos ha, if_pos ha]
        push_cast at hold ⊢
        linear_combination hold
      · rw [if_neg ha, if_neg ha, add_zero]
        exact hold }
  exact hafter.of_same rfl (fun _ => rfl) rfl rfl rfl fun _ _ => rfl

end Backing

/-! ### Executions -/

/-- What is known of any frame: no observation is forgotten, and no meter fails. -/
structure Follows (c : Chain) (w : World) (c' : Chain) (w' : World) : Prop where
  trace : w.trace ⊆ w'.trace
  alive : c.Alive → c'.Alive

/-- What is known of a frame that may commit: it keeps the invariant, if all observations are as
required. -/
structure Carries (C : Config) (T : Finset EvmAddress) (μ : AddressMapping) (c : Chain) (w : World)
    (c' : Chain) (w' : World) : Prop extends Follows c w c' w' where
  keeps : (∀ e ∈ w'.trace, Backable C T e) → c.Alive → Backing C T μ c.all w.state →
    Backing C T μ c'.all w'.state

namespace Carries

variable {C : Config} {T : Finset EvmAddress} {μ : AddressMapping} {c c₁ c₂ : Chain}
  {w w₁ w₂ : World}

theorem refl (c : Chain) (w : World) : Carries C T μ c w c w :=
  ⟨⟨fun _ he => he, fun hc => hc⟩, fun _ _ h => h⟩

theorem trans (h₁ : Carries C T μ c w c₁ w₁) (h₂ : Carries C T μ c₁ w₁ c₂ w₂) :
    Carries C T μ c w c₂ w₂ where
  trace _ he := h₂.trace (h₁.trace he)
  alive hc := h₂.alive (h₁.alive hc)
  keeps hok hc h := h₂.keeps hok (h₁.alive hc) (h₁.keeps (fun e he => hok e (h₂.trace he)) hc h)

/-- A step on the state that keeps the invariant. -/
theorem of_state {s : State} (h : ∀ ms, Backing C T μ ms w.state → Backing C T μ ms s) (c : Chain) :
    Carries C T μ c w c { w with state := s } :=
  ⟨⟨fun _ he => he, fun hc => hc⟩, fun _ _ hI => h c.all hI⟩

end Carries

theorem Chain.Alive.charge (hc : c.Alive) (storage : ℕ) : (c.charge storage).1.Alive :=
  ⟨(c.self.charge_result storage).trans hc.1, hc.2⟩

theorem Chain.Alive.refund (hc : c.Alive) (storage : ℕ) : (c.refund storage).1.Alive :=
  ⟨(c.self.refund_result storage).trans hc.1, hc.2⟩

/-- The meters above a frame outlive it. -/
theorem Chain.Alive.finish {σ : Type} {H : Host σ} (hc : c.Alive) {s s' : σ} {r : DispatchResult}
    (hfin : c.finish H s = (above, s', r)) : ∀ m ∈ above, m.result = .ok () := by
  have hmeters := Chain.finish_meters H c s hc.1
  rw [hfin, absorbAbove_of_alive hc.2] at hmeters
  obtain rfl : above = _ := hmeters
  intro m hm
  obtain ⟨m₀, hm₀, rfl⟩ := List.mem_map.mp hm
  rw [m₀.absorbAll_result]
  exact hc.2 m₀ hm₀

/-- Back in the frame that has waited. -/
theorem Chain.back_all (h : List.Forall₂ StorageMeter.Kept c.all above) :
    (c.back above).all = above := by
  cases h with
  | cons _ _ => rfl

theorem Chain.back_alive (h : List.Forall₂ StorageMeter.Kept c.all above)
    (halive : ∀ m ∈ above, m.result = .ok ()) : (c.back above).Alive := by
  cases h with
  | cons _ _ => exact List.forall_mem_cons.mp halive

/-- Undoing a nested frame leads back to the state from before, and the frame around it has
waited. -/
theorem Carries.undo {C : Config} {T : Finset EvmAddress} {μ : AddressMapping} {w w' : World}
    (htrace : w.trace ⊆ w'.trace) (hkept : List.Forall₂ StorageMeter.Kept c.all above)
    (halive : c.Alive → ∀ m ∈ above, m.result = .ok ()) :
    Carries C T μ c w (c.back above) { w' with state := w.state } where
  trace := htrace
  alive hc := Chain.back_alive hkept (halive hc)
  keeps _ _ h := by
    rw [Chain.back_all hkept]
    exact h.kept hkept

/-- Every request but that to destroy the contract. -/
def Request.notSelfdestruct : Request → Bool
  | .create => true
  | .selfdestruct => false

section Executions

variable {E : Env} {T : Finset EvmAddress} {μ : AddressMapping} {origin : EvmAddress}

variable {w : World}

/-- The end of a frame does not forget observations. -/
theorem finish_trace {C : Config} {c : Chain} {w' : World} {above : List StorageMeter}
    {r : DispatchResult} (hfin : c.finish (World.host C origin) w = (above, w', r)) :
    w.trace ⊆ w'.trace := by
  rcases finish_world hfin with rfl | ⟨l, accounts, l', rfl⟩
  · exact fun _ he => he
  · exact List.subset_cons_self _ _

/-- A creation charges the meter, whether or not there is a contract in the end. -/
theorem initialise_follows {C : Config} {key : CreateKey} {address maintainer : EvmAddress}
    {code : Bytes} {used : StorageMeter → ℕ × ℤ} {c c' : Chain} {w' : World}
    {r : Except ExitError Unit}
    (h : initialise C key address maintainer code used c w = (c', w', r)) : Follows c w c' w' := by
  obtain ⟨rfl, ⟨rfl, -⟩ | ⟨s, used', -, rfl⟩⟩ := initialise_cases h
  · exact ⟨List.subset_cons_self _ _, fun hc => hc.charge _⟩
  · exact ⟨fun e he => List.mem_cons_of_mem _ (List.mem_cons_of_mem _ he), fun hc => hc.charge _⟩

/-- **Frames keep the invariant.** -/
theorem carries_execRule (hhook : E.killHook = false) (hcore : E.KeepsReserves)
    (hsep : Separates T μ) (horigin : origin ∉ T) :
    ExecRule E origin Request.notSelfdestruct (fun _ => Carries E.toConfig T μ)
      (fun _ => Follows) where
  refl _ c w := .refl c w
  trans h₁ h₂ := h₁.trans h₂
  weaken h := h.toFollows
  setStorage index value c w := by
    intro c' w' r hset
    refine ⟨?_, fun hok hc h => h.setStorage hc.1 hset hok⟩
    rcases setStorage_cases hset with
      ⟨rfl, rfl⟩ | ⟨-, ⟨-, -, rfl, htrace⟩ | ⟨-, -, rfl, htrace⟩ | ⟨-, rfl, htrace⟩⟩
    · exact (Carries.refl c' w' : Carries E.toConfig T μ _ _ _ _).toFollows
    · refine ⟨?_, fun hc => hc.refund _⟩
      rw [htrace]
      exact List.subset_cons_self _ _
    · refine ⟨?_, fun hc => hc.charge _⟩
      rw [htrace]
      exact List.subset_cons_self _ _
    · refine ⟨?_, fun hc => hc⟩
      rw [htrace]
      exact fun _ he => he
  log _ topics data c w := .of_state (fun _ h => h.log c.self.contract topics data) c
  markDelete hA := by cases hA
  incNonce caller c w := .of_state (fun _ h => h.incNonce caller) c
  moveFunds source target value c w := fun hmove => .of_state (fun _ h => h.moveFunds hhook hmove) c
  dispatch _ issuer scheme dest value input gas c w := by
    refine ⟨⟨List.subset_cons_self _ _, fun hc => hc⟩, fun hok _ h => ?_⟩
    have hroute : Backable E.toConfig T (.dispatched issuer scheme dest
      (scheme.context issuer dest value) (route dest (scheme.context issuer dest value).caller)) :=
      hok _ List.mem_cons_self
    exact h.execute hhook hcore hroute
  initialise _ := by
    intro caller salt initCode address code used child w c₁ w₁ c₂ w₂ _ hcontract hover hrun hinit
    have hstart : Carries E.toConfig T μ child w child
        { w with state := w.state.incNonce caller } :=
      .of_state (fun _ h => h.incNonce caller) child
    refine hstart.trans (hrun.trans ⟨initialise_follows hinit, fun hok hc h => ?_⟩)
    exact h.initialise hc.1 (hover.contract.trans hcontract) hinit hok
  aborted _ := by
    intro caller salt initCode address code used child w c₁ w₁ c₂ w₂ e _ hcontract hover hrun hinit
    have hrest := initialise_follows hinit
    exact ⟨fun _ he => hrest.trace (hrun.trace he), fun hc => hrest.alive (hrun.alive hc)⟩
  commit := by
    intro b b' contract c w child child' w' above w'' _ hchild hover hrun hfin
    have hkept : List.Forall₂ StorageMeter.Kept c.all above := by
      obtain rfl := Chain.childMeter_eq_ok hchild
      exact keptAll_trans hover.above (Chain.finish_kept hfin)
    refine ⟨⟨fun _ he => finish_trace hfin (hrun.trace he), fun hc => ?_⟩, fun hok hc h => ?_⟩
    · exact Chain.back_alive hkept ((hrun.alive (hc.child hchild)).finish hfin)
    · -- the frame settles what it has counted
      have hne : above ≠ [] := by
        rintro rfl
        cases hkept
      obtain ⟨-, hcharge⟩ := Chain.finish_ok hfin hne
      have hinner : Backing E.toConfig T μ child'.all w'.state := by
        refine hrun.keeps (fun e he => hok e (finish_trace hfin he)) (hc.child hchild) ?_
        obtain rfl := Chain.childMeter_eq_ok hchild
        exact h.new contract c.self.availableStorage
      rw [Chain.back_all hkept]
      exact (hinner.settle hhook hsep horigin hcharge hok).kept (Chain.finish_kept hfin)
  refused := by
    intro b b' contract c w child child' w' above w'' e _ hchild hover hrun hfin
    obtain rfl := Chain.childMeter_eq_ok hchild
    refine .undo (fun _ he => finish_trace hfin (hrun.trace he))
      (keptAll_trans hover.above (Chain.finish_kept hfin)) fun hc => ?_
    exact (hrun.alive (hc.child hchild)).finish hfin
  rollback := by
    intro b b' contract c w child child' w' _ hchild hover hrun
    obtain rfl := Chain.childMeter_eq_ok hchild
    exact .undo hrun.trace hover.above fun hc => (hrun.alive (hc.child hchild)).2

/-- The end of a transaction: the root frame settles, and the origin gets back what is left. -/
theorem Backing.finish_root {w' : World} {c : Chain} {above : List StorageMeter}
    (hhook : E.killHook = false) (hsep : Separates T μ) (horigin : origin ∉ T)
    (h : Backing E.toConfig T μ c.all w.state) (hroot : c.above = [])
    (hfin : c.finish (World.host E.toConfig origin) w = (above, w', .ok ()))
    (hok : ∀ e ∈ w'.trace, Backable E.toConfig T e) : Backing E.toConfig T μ [] w'.state := by
  obtain ⟨m, ms⟩ := c
  obtain rfl : ms = [] := hroot
  obtain ⟨-, w₁, hcharge, hrelease⟩ := Chain.finish_root hfin
  -- the release is not observed
  have htrace : w₁.trace = w'.trace := by
    rw [← (Prod.mk.inj hrelease).1]
  have hsettled : Backing E.toConfig T μ [] w₁.state := by
    refine Backing.settle hhook h hsep horigin hcharge ?_
    rw [htrace]
    exact hok
  exact hsettled.release hsep horigin hrelease

/-- **Transactions keep the invariant**, if their body carries it to where it commits. -/
theorem keeps_runTransaction (hhook : E.killHook = false) (hsep : Separates T μ)
    (horigin : origin ∉ T) {ρ : Type} {contract : EvmAddress} {limit : ℕ}
    {body : Chain → World → Chain × World × TransactionOutcome ρ}
    (hbody : ∀ w₁,
      ((∃ r, (body (.root contract limit) w₁).2.2 = .commit r) →
        FrameRule.Holds (fun _ => Carries E.toConfig T μ) false (.root contract limit) w₁
          (body (.root contract limit) w₁).1 (body (.root contract limit) w₁).2.1) ∧
      FrameRule.Holds (fun _ => Follows) false (.root contract limit) w₁
        (body (.root contract limit) w₁).1 (body (.root contract limit) w₁).2.1) :
    Keeps (Backable E.toConfig T) (Backing E.toConfig T μ []) w
      (runTransaction (World.host E.toConfig origin) contract limit body w).1 := by
  have halive : (Chain.root contract limit).Alive := ⟨rfl, fun m hm => by cases hm⟩
  unfold runTransaction
  split
  · next w₁ e hreserve =>
    -- without the reserve nothing is executed
    have htrace : w.trace = w₁.trace := by
      rw [← (Prod.mk.inj hreserve).1]
    exact ⟨fun _ he => htrace ▸ he, fun _ h => h⟩
  · next w₁ u hreserve =>
    have htrace : w.trace = w₁.trace := by
      rw [← (Prod.mk.inj hreserve).1]
    obtain ⟨hcommit, hfollows⟩ := hbody w₁
    split
    · next c w₂ r heq =>
      rw [heq] at hcommit
      obtain ⟨hover, hcarries⟩ := hcommit ⟨r, rfl⟩
      split
      · next above w₃ v hfin =>
        -- the meter of the root is settled, and nothing is pending any more
        refine ⟨fun _ he => finish_trace hfin (hcarries.trace (htrace ▸ he)), fun hok h => ?_⟩
        have hstart := (h.reserve hsep horigin hreserve).new contract limit
        have hran := hcarries.keeps (fun e he => hok e (finish_trace hfin he)) halive hstart
        refine hran.finish_root hhook hsep horigin ?_ hfin hok
        exact List.forall₂_nil_left_iff.mp hover.above
      · next above w₃ e hfin =>
        exact ⟨fun _ he => finish_trace hfin (hcarries.trace (htrace ▸ he)), fun _ h => h⟩
    · next c w₂ r heq =>
      -- the body rolls back, only the trace is kept
      rw [heq] at hfollows
      exact ⟨fun _ he => hfollows.2.trace (htrace ▸ he), fun _ h => h⟩

/-- Calls keep the invariant. -/
theorem keeps_call (hhook : E.killHook = false) (hcore : E.KeepsReserves) (hsep : Separates T μ)
    (horigin : origin ∉ T) {sender target : EvmAddress} {value gasLimit storageLimit : ℕ}
    {prog : Prog} (hprog : prog.Only Request.notSelfdestruct = true) (w : World) :
    Keeps (Backable E.toConfig T) (Backing E.toConfig T μ []) w
      (Runner.call E sender origin target value gasLimit storageLimit prog w).1 := by
  have hR := carries_execRule hhook hcore hsep horigin
  have hnonce : Keeps (Backable E.toConfig T) (Backing E.toConfig T μ []) w
      { w with state := w.state.incNonce sender } := .of_state fun h => h.incNonce sender
  have hrun : Keeps (Backable E.toConfig T) (Backing E.toConfig T μ [])
      { w with state := w.state.incNonce sender }
      (runTransaction (World.host E.toConfig origin) target storageLimit
        (Runner.callBody E sender origin target value gasLimit prog)
        { w with state := w.state.incNonce sender }).1 := by
    refine keeps_runTransaction hhook hsep horigin fun w₁ => ?_
    obtain ⟨hfailed, hran⟩ := hR.executeRoot sender target value gasLimit storageLimit
      (fun s => E.transactionCost (s.codeAtAddress E.toConfig target)) prog hprog w₁
    unfold Runner.callBody
    simp only []
    split
    · next w₂ e h => exact hR.either (hfailed w₂ e h)
    · next x h =>
      split
      · exact hR.either (hran x h)
      · exact hR.either (hran x h)
  rcases Runner.call_world E sender origin target value gasLimit storageLimit prog w with heq | heq
  · rw [heq]
    exact .refl w
  · -- the nonce is raised outside of the transaction
    rw [heq]
    exact hnonce.trans hrun

/-- Creations keep the invariant. -/
theorem keeps_create (hhook : E.killHook = false) (hcore : E.KeepsReserves) (hsep : Separates T μ)
    (horigin : origin ∉ T) {initCode : Bytes} {salt : Option H256}
    {value gasLimit storageLimit : ℕ} {prog : Prog}
    (hprog : prog.Only Request.notSelfdestruct = true) (w : World) :
    Keeps (Backable E.toConfig T) (Backing E.toConfig T μ []) w
      (Runner.create E origin initCode salt value gasLimit storageLimit prog w).1 := by
  have hR := carries_execRule hhook hcore hsep horigin
  have hnonce : Keeps (Backable E.toConfig T) (Backing E.toConfig T μ []) w
      { w with state := w.state.incNonce origin } := .of_state fun h => h.incNonce origin
  have hrun : ∀ key address, Keeps (Backable E.toConfig T) (Backing E.toConfig T μ [])
      { w with state := w.state.incNonce origin }
      (runTransaction (World.host E.toConfig origin) address storageLimit
        (Runner.createBody E key origin address initCode value gasLimit prog)
        { w with state := w.state.incNonce origin }).1 := by
    intro key address
    refine keeps_runTransaction hhook hsep horigin fun w₁ => ?_
    obtain ⟨hfailed, hran⟩ := hR.executeRoot origin address value gasLimit storageLimit
      (fun _ => E.transactionCost initCode) prog hprog w₁
    unfold Runner.createBody
    split
    · next w₂ e h => exact hR.either (hfailed w₂ e h)
    · next x h =>
      have hx := hran x h
      simp only []
      split
      · split
        · exact hR.either hx
        · split
          · next c w₂ e hinit =>
            -- there is no contract, and the transaction is undone
            have hrest := initialise_follows hinit
            refine ⟨fun hcommit => ?_, hx.1.trans (initialise_over hinit), ?_⟩
            · obtain ⟨r, hr⟩ := hcommit
              cases hr
            · exact ⟨fun _ he => hrest.trace (hx.2.trace he),
                fun hc => hrest.alive (hx.2.alive hc)⟩
          · next c w₂ u hinit =>
            refine hR.either ⟨hx.1.trans (initialise_over hinit), hx.2.trans ?_⟩
            exact ⟨initialise_follows hinit,
              fun hok hc h => h.initialise hc.1 hx.1.contract hinit hok⟩
      · exact hR.either hx
  unfold Runner.create
  simp only []
  split
  · exact .refl w
  · next address haddress =>
    rw [Runner.createAt_world]
    exact hnonce.trans (hrun _ address)

/-- The executions in question: calls and creations that a user makes, by programs that do not
destroy contracts. -/
def Execution.Builds (T : Finset EvmAddress) : Execution → Prop
  | .call _ origin _ _ _ _ prog => origin ∉ T ∧ prog.Only Request.notSelfdestruct = true
  | .create source _ _ _ _ _ prog => source ∉ T ∧ prog.Only Request.notSelfdestruct = true
  | _ => False

/-- **A step.** -/
theorem keeps_step (hhook : E.killHook = false) (hcore : E.KeepsReserves) (hsep : Separates T μ)
    (w : World) {x : Execution} (hx : x.Builds T) :
    Keeps (Backable E.toConfig T) (Backing E.toConfig T μ []) w (x.step E w) := by
  have htransactional : ∀ {ρ : Type} {y : World × Except DispatchError ρ},
      Keeps (Backable E.toConfig T) (Backing E.toConfig T μ []) w y.1 →
      Keeps (Backable E.toConfig T) (Backing E.toConfig T μ []) w (transactional w y) := by
    intro ρ y hy
    unfold transactional
    split
    · exact hy
    · exact hy.undo
  cases x with
  | call sender origin target value gasLimit storageLimit prog =>
    exact htransactional (keeps_call hhook hcore hsep hx.1 hx.2 w)
  | execute sender origin target value gasLimit storageLimit isView prog => cases hx
  | create source initCode salt value gasLimit storageLimit prog =>
    exact htransactional (keeps_create hhook hcore hsep hx.1 hx.2 w)
  | createAtAddress source initCode value address gasLimit storageLimit prog => cases hx

/-- **A run.** -/
theorem keeps_run (hhook : E.killHook = false) (hcore : E.KeepsReserves) (hsep : Separates T μ)
    (es : List Execution) (hes : ∀ x ∈ es, x.Builds T) (w : World) :
    Keeps (Backable E.toConfig T) (Backing E.toConfig T μ []) w
      (Run.run (Execution.step E) w es) := by
  induction es generalizing w with
  | nil => exact .refl w
  | cons x es ih =>
    have hfirst := keeps_step hhook hcore hsep w (hes x List.mem_cons_self)
    exact hfirst.trans (ih (fun y hy => hes y (List.mem_cons_of_mem x hy)) _)

end Executions

/-- A state without contracts, in which the addresses of `T` have accounts of their own, with
nothing reserved, and no storage. -/
structure Unbuilt (T : Finset EvmAddress) (s : State) : Prop where
  none : ∀ a, s.contractInfo a = .none
  separates : Separates T s.mapping
  reserved : ∀ a ∈ T, s.ledger.reserved (s.getAccountId a) = 0
  slots : ∀ a ∈ T, s.usedSlots a = ∅

theorem Unbuilt.backing {T : Finset EvmAddress} {s : State} (h : Unbuilt T s) (C : Config) :
    Backing C T s.mapping [] s where
  mapping := rfl
  listed a info hinfo := by
    rw [h.none] at hinfo
    cases hinfo
  coded a info hinfo := by
    rw [h.none] at hinfo
    cases hinfo
  fits m hm := by cases hm
  backed a ha := by
    have hrecord : s.recordBytes C a = 0 := by
      unfold State.recordBytes
      rw [h.none]
      rfl
    have hreserved : s.ledger.reserved (s.mapping.getAccountId a) = 0 := h.reserved a ha
    rw [hreserved, hrecord, h.slots a ha]
    simp [pending]

/-! ### Two runs -/

/-- An environment with the precompiles of the runtime and a plain ledger. -/
def plainEnv : Env :=
  Precompile.wire Precompile.sampleCore
    { sampleEnv with
      killHook := false
      deposit_le := runtime_deposit_le }

/-- No contracts, and everyone has funds. -/
def unbuilt : State := { State.empty with ledger := .ofFree fun _ => 100 * REEF }

/-- The address of the first contract that the address `5` creates. -/
def firstContract : EvmAddress := sampleEnv.legacyAddress 5 0

/-- The address of the second one. -/
def secondContract : EvmAddress := sampleEnv.legacyAddress 5 1

theorem unbuilt_unbuilt : Unbuilt {firstContract} unbuilt where
  none _ := rfl
  separates a _ b hb := by
    have hpadded : padded b = padded a := hb
    exact padded_injective hpadded
  reserved _ _ := rfl
  slots _ _ := rfl

instance (C : Config) (T : Finset EvmAddress) : DecidablePred (Backable C T)
  | .dispatched _ _ _ _ route => inferInstanceAs (Decidable (route ≠ .core .scheduleCall))
  | .metered counter storage => inferInstanceAs (Decidable (counter + storage < 2 ^ storageBits))
  | .initialised before _ address code => inferInstanceAs (Decidable (
    address ∈ T ∧ before.contractInfo address = none ∧
      code.length + C.newContractExtraBytes < 2 ^ storageBits ∧
      ((before.codeInfos.lookup (C.codeHash code)).isSome →
        (before.codes.lookup (C.codeHash code)).map List.length = some code.length)))
  | .settled before contract used refunded => inferInstanceAs (Decidable (used < refunded →
    C.storageDepositPerByte * (refunded - used) ≤
      before.ledger.reserved (before.getAccountId contract)))

/-- A constructor fills a slot, and a call fills another one. -/
def buildAndWrite : List Execution :=
  [.create 5 [] none 0 1_000_000 2_000 (.setStorage 0 1 (.exit (.succeed .returned) [1])),
    .call 5 5 firstContract 0 1_000_000 64 (writeSlot 1 1)]

/-- The first contract clears a slot. The constructor of the second one fills a slot and calls the
code of the first, in its own context. -/
def buildAndClear : List Execution :=
  [.create 5 [] none 0 1_000_000 2_000 (.exit (.succeed .returned) [1]),
    .create 5 [] none 0 1_000_000 2_000
      (.setStorage 0 1 (.call .delegateCall firstContract 0 [] none (writeSlot 0 0)
        (.exit (.succeed .returned) [2])))]

/-- **Exact backing.** From a state without contracts, after any sequence of calls and creations by
users, every contract is exactly backed, if everything observed is as `Backable` requires: refunds
are covered by the reserve of the contract, contracts are created at addresses of `T` that have
none, with code of the size stored under its hash, and no counter is cut off. -/
theorem exactly_backed_of_backable (E : Env) (hhook : E.killHook = false) (hcore : E.KeepsReserves)
    (T : Finset EvmAddress) (s : State) (hs : Unbuilt T s) (es : List Execution)
    (hes : ∀ x ∈ es, x.Builds T)
    (hok : ∀ o ∈ (Run.run (Execution.step E) ⟨s, []⟩ es).trace, Backable E.toConfig T o)
    (a : EvmAddress) (info : ContractInfo)
    (hinfo : (Run.run (Execution.step E) ⟨s, []⟩ es).state.contractInfo a = some info) :
    (Run.run (Execution.step E) ⟨s, []⟩ es).state.ExactlyBacked E.toConfig a := by
  have hkeeps := keeps_run hhook hcore hs.separates es hes ⟨s, []⟩
  exact (hkeeps.keeps hok (hs.backing E.toConfig)).exactlyBacked hinfo

/-- Two slots, the record and one byte of code are backed. -/
theorem buildAndWrite_exactly_backed :
    (Run.run (Execution.step plainEnv) ⟨unbuilt, []⟩ buildAndWrite).state.ExactlyBacked
      plainEnv.toConfig firstContract := by
  have hcontract : (Run.run (Execution.step plainEnv) ⟨unbuilt, []⟩
      buildAndWrite).state.contractInfo firstContract = some ⟨plainEnv.codeHash [1], 5, false⟩ := by
    decide +kernel
  refine exactly_backed_of_backable plainEnv rfl (wire_keepsReserves _ _) {firstContract} unbuilt
    unbuilt_unbuilt buildAndWrite ?_ ?_ firstContract _ hcontract
  · intro x hx
    have horigin : (5 : EvmAddress) ∉ ({firstContract} : Finset EvmAddress) := by decide
    rcases List.mem_cons.mp hx with rfl | hx
    · exact ⟨horigin, rfl⟩
    · obtain rfl := List.mem_singleton.mp hx
      exact ⟨horigin, rfl⟩
  · decide +kernel

/-- The second contract has no slot in use, but the deposit for one. -/
theorem constructor_not_exactly_backed :
    let s := (Run.run (Execution.step plainEnv) ⟨unbuilt, []⟩ buildAndClear).state
    (∀ a, unbuilt.contractInfo a = none) ∧
      s.contractInfo secondContract = some ⟨plainEnv.codeHash [2], 5, false⟩ ∧
      s.codeSize plainEnv.toConfig secondContract = 1 ∧ s.usedSlots secondContract = ∅ ∧
      s.ledger.reserved (s.getAccountId secondContract) = 1_065 * (10 * MILLI_REEF) ∧
      ¬ s.ExactlyBacked plainEnv.toConfig secondContract := by
  refine ⟨fun _ => rfl, by decide +kernel, by decide +kernel, by decide +kernel, by decide +kernel,
    ?_⟩
  unfold State.ExactlyBacked
  decide +kernel

end Evm
end Reef
