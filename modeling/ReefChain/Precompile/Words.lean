import ReefChain.Precompile.Core

/-!
# What the words of an input mean

A contract passes the arguments of a core precompile as numbers of 256 bits, each in a word of 32
bytes. The runtime works with smaller types. A reader of `Input` takes the last bytes of the word
and never looks at those in front of them, so it returns the number the contract has passed exactly
if they are zero (`Fits`), and a part of it otherwise. Nothing is rejected for being too large.

* `typed_readers_exact_iff` says this of the readers, and of the transfer of a currency: it moves
  the amount the contract has passed exactly if that fits a balance.
* Currencies are encoded in a word as well. `currencyId`, which reads them, does look at all of the
  word: it accepts no word but the encoding of what it returns. The currencies that are contracts
  have no encoding of their own, they are written as the native one
  (`currency_encoding_exact_iff`).
-/

namespace Reef
namespace Precompile

open Evm Scale

/-! ### Words -/

section Word

variable {input w : Bytes} {index len : ℕ}

/-- A parameter is a whole word. -/
theorem length_of_nthParam (h : nthParam input index = .ok w) : w.length = PER_PARAM_BYTES := by
  unfold nthParam at h
  simp only [] at h
  split at h
  · next hinside =>
    cases h
    rw [List.length_take, List.length_drop]
    omega
  · cases h

/-- The number in a word is that of its last bytes, and what stands in front of them. -/
theorem beNat_split (hw : w.length = PER_PARAM_BYTES) (hlen : len ≤ PER_PARAM_BYTES) :
    beNat w = beNat (w.take (PER_PARAM_BYTES - len)) * 256 ^ len +
      beNat (w.drop (PER_PARAM_BYTES - len)) := by
  have hlow : (w.drop (PER_PARAM_BYTES - len)).length = len := by
    rw [List.length_drop, hw]
    omega
  conv_lhs => rw [← List.take_append_drop (PER_PARAM_BYTES - len) w]
  rw [beNat_append, hlow]

/-- **Truncation.** The last bytes are the whole number exactly if the others are zero. -/
theorem beNat_drop_eq_iff (hw : w.length = PER_PARAM_BYTES) (hlen : len ≤ PER_PARAM_BYTES) :
    beNat w = beNat (w.drop (PER_PARAM_BYTES - len)) ↔
      w.take (PER_PARAM_BYTES - len) = List.replicate (PER_PARAM_BYTES - len) 0 := by
  have hfront : (w.take (PER_PARAM_BYTES - len)).length = PER_PARAM_BYTES - len := by
    rw [List.length_take, hw]
    omega
  have hpos : 0 < 256 ^ len := Nat.pow_pos (by decide)
  have hzero : beNat (w.take (PER_PARAM_BYTES - len)) = 0 ↔
      w.take (PER_PARAM_BYTES - len) = List.replicate (PER_PARAM_BYTES - len) 0 := by
    rw [beNat_eq_zero, hfront]
  rw [← hzero, beNat_split hw hlen]
  constructor
  · intro h
    have hprod : beNat (w.take (PER_PARAM_BYTES - len)) * 256 ^ len = 0 := by omega
    exact (Nat.mul_eq_zero.mp hprod).resolve_right hpos.ne'
  · intro h
    rw [h, Nat.zero_mul, Nat.zero_add]

/-- The same as a bound on the number. -/
theorem beNat_lt_iff (hw : w.length = PER_PARAM_BYTES) (hlen : len ≤ PER_PARAM_BYTES) :
    beNat w < 256 ^ len ↔
      w.take (PER_PARAM_BYTES - len) = List.replicate (PER_PARAM_BYTES - len) 0 := by
  have hlow : (w.drop (PER_PARAM_BYTES - len)).length = len := by
    rw [List.length_drop, hw]
    omega
  rw [← beNat_drop_eq_iff hw hlen]
  constructor
  · intro h
    have hsplit := beNat_split hw hlen
    -- a front other than zero would be worth at least `256 ^ len`
    have hfront : beNat (w.take (PER_PARAM_BYTES - len)) = 0 := by
      by_contra hne
      have hone := Nat.mul_le_mul_right (256 ^ len) (Nat.one_le_iff_ne_zero.mpr hne)
      omega
    rw [hsplit, hfront, Nat.zero_mul, Nat.zero_add]
  · intro h
    rw [h]
    have hlt := beNat_lt (w.drop (PER_PARAM_BYTES - len))
    rw [hlow] at hlt
    exact hlt

/-- A number that fits the last bytes of its word is read back from them. -/
theorem beNat_drop_word {v : ℕ} (hlen : len ≤ PER_PARAM_BYTES) (hv : v < 256 ^ len) :
    beNat ((word v).drop (PER_PARAM_BYTES - len)) = v := by
  have hw : (word v).length = PER_PARAM_BYTES := length_word v
  have hmod : beNat (word v) = v :=
    beNat_word (hv.trans_le (Nat.pow_le_pow_right (by decide) hlen))
  rw [← (beNat_drop_eq_iff hw hlen).mpr ((beNat_lt_iff hw hlen).mp (by rw [hmod]; exact hv)), hmod]

end Word

/-! ### Readers -/

/-- The parameter, if there is one, fits `len` bytes: those in front of them are zero. -/
def Fits (len : ℕ) (input : Bytes) (index : ℕ) : Prop :=
  ∀ w, nthParam input index = .ok w →
    w.take (PER_PARAM_BYTES - len) = List.replicate (PER_PARAM_BYTES - len) 0

/-- What a reader returns is the number in the whole word. -/
def ReadsExactly (read : Bytes → ℕ → Parsed ℕ) (input : Bytes) (index : ℕ) : Prop :=
  ∀ v, read input index = .ok v → ∃ w, nthParam input index = .ok w ∧ beNat w = v

/-- An action is only accepted if the number in the whole word stands for it. -/
def ActsExactly {α : Type} (f : ℕ → Option α) (input : Bytes) : Prop :=
  ∀ a, action f input = .ok a →
    ∃ w, nthParam input 0 = .ok w ∧ beNat w < 256 ∧ f (beNat w) = some a

/-- The first word fits a byte, if this byte stands for an action at all. -/
def ActionFits {α : Type} (f : ℕ → Option α) (input : Bytes) : Prop :=
  ∀ w a, nthParam input 0 = .ok w → f (beNat (w.drop (PER_PARAM_BYTES - 1))) = some a →
    w.take (PER_PARAM_BYTES - 1) = List.replicate (PER_PARAM_BYTES - 1) 0

/-- An address is only returned if the twelve bytes in front of it are zero. -/
def AddressesExactly (input : Bytes) (index : ℕ) : Prop :=
  ∀ a, evmAddressAt input index = .ok a →
    ∃ w, nthParam input index = .ok w ∧ w.take 12 = List.replicate 12 0

section Readers

variable {input : Bytes} {index len : ℕ}

theorem natAt_eq_ok_iff {v : ℕ} :
    natAt len input index = .ok v ↔
      ∃ w, nthParam input index = .ok w ∧ beNat (w.drop (PER_PARAM_BYTES - len)) = v := by
  unfold natAt
  rw [Fallible.bind_eq_ok]
  constructor
  · rintro ⟨w, hw, hv⟩
    cases hv
    exact ⟨w, hw, rfl⟩
  · rintro ⟨w, hw, rfl⟩
    exact ⟨w, hw, rfl⟩

/-- **Numbers.** A number is read exactly if it fits. -/
theorem natAt_readsExactly_iff (hlen : len ≤ PER_PARAM_BYTES) :
    ReadsExactly (natAt len) input index ↔ Fits len input index := by
  constructor
  · intro h w hw
    obtain ⟨w', hw', hv⟩ := h _ (natAt_eq_ok_iff.mpr ⟨w, hw, rfl⟩)
    -- there is only one word at the index
    obtain rfl : w = w' := Except.ok.inj (hw.symm.trans hw')
    exact (beNat_drop_eq_iff (length_of_nthParam hw) hlen).mp hv
  · intro h v hv
    obtain ⟨w, hw, rfl⟩ := natAt_eq_ok_iff.mp hv
    exact ⟨w, hw, (beNat_drop_eq_iff (length_of_nthParam hw) hlen).mpr (h w hw)⟩

theorem natAt_word {v : ℕ} (hlen : len ≤ PER_PARAM_BYTES)
    (hword : nthParam input index = .ok (word v)) (hv : v < 256 ^ len) :
    natAt len input index = .ok v :=
  natAt_eq_ok_iff.mpr ⟨word v, hword, beNat_drop_word hlen hv⟩

theorem action_eq_ok_iff {α : Type} {f : ℕ → Option α} {a : α} :
    action f input = .ok a ↔
      ∃ w, nthParam input 0 = .ok w ∧ f (beNat (w.drop (PER_PARAM_BYTES - 1))) = some a := by
  unfold action
  rw [Fallible.bind_eq_ok]
  constructor
  · rintro ⟨n, hn, ha⟩
    obtain ⟨w, hw, rfl⟩ := natAt_eq_ok_iff.mp hn
    refine ⟨w, hw, ?_⟩
    split at ha
    · next a' ha' =>
      cases ha
      exact ha'
    · cases ha
  · rintro ⟨w, hw, ha⟩
    refine ⟨_, natAt_eq_ok_iff.mpr ⟨w, hw, rfl⟩, ?_⟩
    rw [ha]

/-- **Actions.** -/
theorem actsExactly_iff {α : Type} (f : ℕ → Option α) :
    ActsExactly f input ↔ ActionFits f input := by
  have hone : 1 ≤ PER_PARAM_BYTES := by decide
  constructor
  · intro h w a hw ha
    obtain ⟨w', hw', hlt, -⟩ := h a (action_eq_ok_iff.mpr ⟨w, hw, ha⟩)
    obtain rfl : w = w' := Except.ok.inj (hw.symm.trans hw')
    exact (beNat_lt_iff (length_of_nthParam hw) hone).mp hlt
  · intro h a ha
    obtain ⟨w, hw, haction⟩ := action_eq_ok_iff.mp ha
    have hzero := h w a hw haction
    have hlength := length_of_nthParam hw
    refine ⟨w, hw, (beNat_lt_iff hlength hone).mpr hzero, ?_⟩
    rw [(beNat_drop_eq_iff hlength hone).mpr hzero]
    exact haction

theorem action_word {α : Type} {f : ℕ → Option α} {n : ℕ} {a : α}
    (hword : nthParam input 0 = .ok (word n)) (hn : n < 256) (ha : f n = some a) :
    action f input = .ok a := by
  refine action_eq_ok_iff.mpr ⟨word n, hword, ?_⟩
  rw [beNat_drop_word (by decide) hn]
  exact ha

/-- **Addresses.** -/
theorem addressesExactly_iff : AddressesExactly input index ↔ Fits 20 input index := by
  constructor
  · intro h w hw
    have hread : evmAddressAt input index =
        .ok (BitVec.ofNat 160 (beNat (w.drop (PER_PARAM_BYTES - 20)))) := by
      unfold evmAddressAt
      rw [natAt_eq_ok_iff.mpr ⟨w, hw, rfl⟩]
      rfl
    obtain ⟨w', hw', hzero⟩ := h _ hread
    obtain rfl : w = w' := Except.ok.inj (hw.symm.trans hw')
    exact hzero
  · intro h a ha
    obtain ⟨n, hn, -⟩ := Fallible.bind_eq_ok.mp ha
    obtain ⟨w, hw, -⟩ := natAt_eq_ok_iff.mp hn
    exact ⟨w, hw, h w hw⟩

theorem evmAddressAt_word {a : EvmAddress} (hword : nthParam input index = .ok (word a.toNat)) :
    evmAddressAt input index = .ok a := by
  have ha : a.toNat < 256 ^ 20 := a.isLt
  unfold evmAddressAt
  rw [natAt_word (by decide) hword ha]
  exact congrArg Except.ok (BitVec.ofNat_toNat 160 a)

end Readers

/-! ### Transfers -/

/-- The amount `v` of a currency goes from one account to another. -/
def Moves (s s' : State) (id : CurrencyId) (source dest : AccountId) (v : ℕ) : Prop :=
  totalBalance s' dest id = totalBalance s dest id + v ∧
    totalBalance s' source id + v = totalBalance s source id

theorem transfer_totals {l l' : Ledger AccountId} {source dest : AccountId} {v : ℕ}
    (h : l.transfer source dest v = .ok l') (hne : source ≠ dest) :
    l'.total dest = l.total dest + v ∧ l'.total source + v = l.total source := by
  have hle := Ledger.transfer_le h hne
  have hdest := Ledger.transfer_free h dest
  have hsource := Ledger.transfer_free h source
  rw [if_neg hne, if_neg hne.symm, if_pos rfl] at hdest
  rw [if_neg hne, if_pos rfl] at hsource
  unfold Ledger.total
  rw [Ledger.transfer_reserved h, hdest, hsource]
  omega

/-- A transfer moves its amount. -/
theorem transferCurrency_moves (C : Evm.Config) {s : State} {id : CurrencyId}
    {source dest : AccountId} {amount : ℕ} {ops : List NativeOp}
    (h : transferCurrency s id source dest amount = .ok ops) (hne : source ≠ dest) :
    Moves s (ops.foldl (State.native C) s) id source dest amount := by
  unfold transferCurrency at h
  split at h
  · -- nothing is transferred
    next hnone =>
    cases h
    obtain rfl : amount = 0 := hnone.resolve_right hne
    exact ⟨rfl, rfl⟩
  · split at h
    · obtain ⟨l, hl, h⟩ := Fallible.bind_eq_ok.mp h
      cases h
      have hledger : ([.setLedger l [source]].foldl (State.native C) s).ledger = l :=
        State.setLedger_ledger C s l [source]
      have htotals := transfer_totals hl hne
      simp only [Moves, totalBalance, hledger]
      exact htotals
    · next hforeign =>
      obtain ⟨l, hl, h⟩ := Fallible.bind_eq_ok.mp h
      cases h
      have htotals := transfer_totals hl hne
      have hbalance : ∀ s who, totalBalance s who id = (s.outer.tokens id).total who := by
        intro s who
        unfold totalBalance
        split
        · exact absurd rfl hforeign
        · rfl
      have htokens : ([.setOuter { s.outer with
          tokens := Function.update s.outer.tokens id l }].foldl (State.native C)
            s).outer.tokens id = l := by
        change Function.update s.outer.tokens id l id = l
        rw [Function.update_self]
      simp only [Moves, hbalance, htokens]
      exact htotals

/-- What a transfer that succeeds has read and done. -/
theorem multiCurrency_transfer_eq_ok {K : CoreConfig} {input : Bytes} {s : State}
    {ops : List NativeOp} {r : ExitSucceed × Bytes × ℕ}
    (h : multiCurrency K input s = .ok (ops, .ok r))
    (haction : action MultiCurrencyAction.tryFrom input = .ok .transfer) :
    ∃ id source dest amount, currencyIdAt input 1 = .ok id ∧ accountIdAt s input 2 = .ok source ∧
      accountIdAt s input 3 = .ok dest ∧ balanceAt input 4 = .ok amount ∧
      transferCurrency s id source dest amount = .ok ops := by
  unfold multiCurrency at h
  obtain ⟨a, ha, h⟩ := Fallible.bind_eq_ok.mp h
  obtain rfl : a = .transfer := Except.ok.inj (ha.symm.trans haction)
  obtain ⟨id, hid, h⟩ := Fallible.bind_eq_ok.mp h
  obtain ⟨source, hsource, h⟩ := Fallible.bind_eq_ok.mp h
  obtain ⟨dest, hdest, h⟩ := Fallible.bind_eq_ok.mp h
  obtain ⟨amount, hamount, h⟩ := Fallible.bind_eq_ok.mp h
  refine ⟨id, source, dest, amount, hid, hsource, hdest, hamount, ?_⟩
  split at h
  · cases h
  · next ops' hops =>
    cases h
    exact hops

/-- **Transfers.** A transfer between two accounts moves the amount the contract has passed exactly
if it fits a balance. -/
theorem transfer_moves_iff {C : Evm.Config} {K : CoreConfig} {input : Bytes} {s : State}
    {ops : List NativeOp} {r : ExitSucceed × Bytes × ℕ}
    (h : multiCurrency K input s = .ok (ops, .ok r))
    (haction : action MultiCurrencyAction.tryFrom input = .ok .transfer) :
    ∃ id source dest w, currencyIdAt input 1 = .ok id ∧ accountIdAt s input 2 = .ok source ∧
      accountIdAt s input 3 = .ok dest ∧ nthParam input 4 = .ok w ∧
      (source ≠ dest → (Moves s (ops.foldl (State.native C) s) id source dest (beNat w) ↔
        Fits 16 input 4)) := by
  obtain ⟨id, source, dest, amount, hid, hsource, hdest, hamount, hops⟩ :=
    multiCurrency_transfer_eq_ok h haction
  obtain ⟨w, hw, hlow⟩ := natAt_eq_ok_iff.mp hamount
  refine ⟨id, source, dest, w, hid, hsource, hdest, hw, fun hne => ?_⟩
  have hmoves := transferCurrency_moves C hops hne
  have hfits : Fits 16 input 4 ↔ beNat w = amount := by
    rw [← hlow, beNat_drop_eq_iff (length_of_nthParam hw) (by decide)]
    refine ⟨fun hfits => hfits w hw, fun hzero w' hw' => ?_⟩
    obtain rfl : w = w' := Except.ok.inj (hw.symm.trans hw')
    exact hzero
  rw [hfits]
  refine ⟨fun hexact => ?_, fun heq => ?_⟩
  · -- the receiver gets what was read
    have hgot := hmoves.1.symm.trans hexact.1
    omega
  · rw [heq]
    exact hmoves

/-- **The readers are exact on what fits.** Each of them returns the number in the whole word
exactly if the bytes it does not look at are zero, and so does a transfer of a currency move the
amount that was passed to it. What is encoded correctly is always read back. -/
theorem typed_readers_exact_iff (input : Bytes) (index : ℕ) :
    (ReadsExactly balanceAt input index ↔ Fits 16 input index) ∧
    (ReadsExactly u64At input index ↔ Fits 8 input index) ∧
    (ReadsExactly u32At input index ↔ Fits 4 input index) ∧
    (∀ (α : Type) (f : ℕ → Option α), ActsExactly f input ↔ ActionFits f input) ∧
    (AddressesExactly input index ↔ Fits 20 input index) ∧
    (∀ (C : Evm.Config) (K : CoreConfig) s ops r,
      multiCurrency K input s = .ok (ops, .ok r) →
      action MultiCurrencyAction.tryFrom input = .ok .transfer →
      ∃ id source dest w, currencyIdAt input 1 = .ok id ∧ accountIdAt s input 2 = .ok source ∧
        accountIdAt s input 3 = .ok dest ∧ nthParam input 4 = .ok w ∧
        (source ≠ dest → (Moves s (ops.foldl (State.native C) s) id source dest (beNat w) ↔
          Fits 16 input 4))) ∧
    (∀ v, nthParam input index = .ok (word v) →
      (v < 2 ^ 128 → balanceAt input index = .ok v) ∧
      (v < 2 ^ 64 → u64At input index = .ok v) ∧ (v < 2 ^ 32 → u32At input index = .ok v) ∧
      ∀ a : EvmAddress, v = a.toNat → evmAddressAt input index = .ok a) ∧
    ∀ (α : Type) (f : ℕ → Option α) n a, nthParam input 0 = .ok (word n) → n < 256 →
      f n = some a → action f input = .ok a := by
  refine ⟨natAt_readsExactly_iff (by decide), natAt_readsExactly_iff (by decide),
    natAt_readsExactly_iff (by decide), fun _ f => actsExactly_iff f, addressesExactly_iff,
    fun C K s ops r h haction => transfer_moves_iff h haction,
    fun v hword => ⟨fun hv => ?_, fun hv => ?_, fun hv => ?_, fun a hv => ?_⟩,
    fun α f n a hword hn ha => action_word hword hn ha⟩
  · exact natAt_word (by decide) hword hv
  · exact natAt_word (by decide) hword hv
  · exact natAt_word (by decide) hword hv
  · subst hv
    exact evmAddressAt_word hword

/-- A state in which the account of the address 5 has a hundred units. -/
def purse : State :=
  { State.empty with
    ledger := .ofFree fun a => if a = 1 then 100 else 0
    mapping := ⟨Finmap.singleton 5 1, Finmap.singleton 1 5⟩ }

/-- The input that transfers `amount` of the native currency from the address 5 to the address 6. -/
def transferInput (amount : ℕ) : Bytes := [2, 0, 5, 6, amount].flatMap word

/-- An amount above the largest balance is not rejected: its lowest 128 bits are transferred. -/
theorem oversized_amount_is_truncated :
    balanceAt (transferInput (2 ^ 128 + 5)) 4 = .ok 5 ∧
    ¬ReadsExactly balanceAt (transferInput (2 ^ 128 + 5)) 4 ∧
    (answer (multiCurrency sampleCore (transferInput (2 ^ 128 + 5)) purse)).2 =
      .ok (.returned, [], 0) ∧
    totalBalance ((answer (multiCurrency sampleCore (transferInput (2 ^ 128 + 5)) purse)).1.foldl
      (State.native sampleEnv.toConfig) purse) (purse.getAccountId 6) (.token .reef) = 5 := by
  have hread : balanceAt (transferInput (2 ^ 128 + 5)) 4 = .ok 5 := by decide +kernel
  refine ⟨hread, fun h => ?_, by decide +kernel, by decide +kernel⟩
  obtain ⟨w, hw, hv⟩ := h 5 hread
  have hword : nthParam (transferInput (2 ^ 128 + 5)) 4 = .ok (word (2 ^ 128 + 5)) := by
    decide +kernel
  obtain rfl : word (2 ^ 128 + 5) = w := Except.ok.inj (hword.symm.trans hw)
  exact absurd hv (by decide +kernel)

/-! ### Currencies -/

/-- The byte a token symbol stands for, `token as u8`. -/
def tokenByte : TokenSymbol → UInt8
  | .reef => 0
  | .rusd => 1

/-- The encoding of a currency in a word, `From<CurrencyId>`. A contract leaves the word empty. -/
def currencyBytes : CurrencyId → Bytes
  | .token symbol => (List.replicate 32 0).set 30 (tokenByte symbol)
  | .dexShare left right =>
    (((List.replicate 32 0).set 29 1).set 30 (tokenByte left)).set 31 (tokenByte right)
  | .erc20 _ => List.replicate 32 0

/-- The currency is a contract. -/
def IsContract (c : CurrencyId) : Prop := ∃ contract, c = .erc20 contract

theorem currencyId_currencyBytes {c : CurrencyId} (h : ¬IsContract c) :
    currencyId (currencyBytes c) = some c := by
  cases c with
  | token symbol => cases symbol <;> decide +kernel
  | dexShare left right => cases left <;> cases right <;> decide +kernel
  | erc20 contract => exact absurd ⟨contract, rfl⟩ h

/-- The encoding of a contract is read as the native currency. -/
theorem currencyId_contract (contract : EvmAddress) :
    currencyId (currencyBytes (.erc20 contract)) = some (.token .reef) := by
  change currencyId (List.replicate 32 0) = _
  decide +kernel

theorem tokenSymbol_eq_some {b : UInt8} {symbol : TokenSymbol}
    (h : tokenSymbol b.toNat = some symbol) : b = tokenByte symbol := by
  unfold tokenSymbol at h
  split_ifs at h with h₀ h₁
  · cases h
    exact UInt8.toNat_inj.mp h₀
  · cases h
    exact UInt8.toNat_inj.mp h₁

/-- **Only encodings are accepted.** -/
theorem currencyBytes_of_currencyId {v : Bytes} {c : CurrencyId} (hv : v.length = 32)
    (h : currencyId v = some c) : currencyBytes c = v := by
  -- the word is some bytes in front and three that are looked at one by one
  obtain ⟨x, y, z, hlow⟩ : ∃ x y z, v.drop 29 = [x, y, z] := by
    have hlength : (v.drop 29).length = 3 := by rw [List.length_drop, hv]
    exact List.length_eq_three.mp hlength
  have hsplit : v = v.take 29 ++ [x, y, z] := by rw [← hlow, List.take_append_drop]
  have hbyte : ∀ b : UInt8, beNat [b] = b.toNat := fun b => rfl
  have h29 : (v.drop 29).take 1 = [x] := by rw [hlow]; rfl
  have h30 : (v.drop 30).take 1 = [y] := by rw [← List.drop_drop (i := 1), hlow]; rfl
  have h31 : (v.drop 31).take 1 = [z] := by rw [← List.drop_drop (i := 2), hlow]; rfl
  unfold currencyId at h
  simp only [h29, h30, h31, hbyte] at h
  split_ifs at h with hfront htoken hshare
  · -- a token
    obtain ⟨symbol, hsymbol, rfl⟩ := Option.map_eq_some_iff.mp h
    have hx : x = 0 := UInt8.toNat_inj.mp htoken.1
    have hz : z = 0 := UInt8.toNat_inj.mp htoken.2
    rw [hsplit, not_not.mp hfront, hx, hz, tokenSymbol_eq_some hsymbol]
    rfl
  · -- a share
    obtain ⟨left, hleft, h⟩ := Option.bind_eq_some_iff.mp h
    obtain ⟨right, hright, rfl⟩ := Option.map_eq_some_iff.mp h
    have hx : x = 1 := UInt8.toNat_inj.mp hshare
    rw [hsplit, not_not.mp hfront, hx, tokenSymbol_eq_some hleft, tokenSymbol_eq_some hright]
    rfl

/-- **The encoding of currencies.** A currency is read back from its encoding exactly if it is not a
contract, and nothing else has the same encoding exactly if it is neither a contract nor the native
currency. A word that is accepted is the encoding of what it is read as. -/
theorem currency_encoding_exact_iff (c : CurrencyId) :
    (currencyId (currencyBytes c) = some c ↔ ¬IsContract c) ∧
    ((∀ c', currencyBytes c' = currencyBytes c → c' = c) ↔
      ¬IsContract c ∧ c ≠ .token .reef) ∧
    ∀ v, v.length = 32 → currencyId v = some c → currencyBytes c = v := by
  refine ⟨⟨?_, currencyId_currencyBytes⟩, ⟨fun h => ⟨?_, ?_⟩, ?_⟩,
    fun v => currencyBytes_of_currencyId⟩
  · rintro h ⟨contract, rfl⟩
    rw [currencyId_contract] at h
    cases h
  · rintro ⟨contract, rfl⟩
    cases h (.token .reef) rfl
  · rintro rfl
    cases h (.erc20 0) rfl
  · rintro ⟨hcontract, hnative⟩ c' heq
    have hread := currencyId_currencyBytes hcontract
    rw [← heq] at hread
    -- what is read from the common encoding is both of them, unless one is a contract
    by_cases hcontract' : IsContract c'
    · obtain ⟨contract, rfl⟩ := hcontract'
      rw [currencyId_contract] at hread
      exact absurd (Option.some.inj hread).symm hnative
    · rw [currencyId_currencyBytes hcontract'] at hread
      exact Option.some.inj hread

/-- A contract and the native currency have one encoding, which is read as the latter. -/
theorem contract_encoded_as_native :
    currencyBytes (.erc20 7) = currencyBytes (.token .reef) ∧
      currencyId (currencyBytes (.erc20 7)) = some (.token .reef) ∧
      (CurrencyId.erc20 7) ≠ .token .reef :=
  ⟨rfl, currencyId_contract 7, nofun⟩

end Precompile
end Reef
