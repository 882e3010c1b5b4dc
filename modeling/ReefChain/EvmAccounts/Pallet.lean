import Mathlib.Data.Set.Function
import ReefChain.EvmAccounts.Mapping
import ReefChain.Ledger
import ReefChain.Lib.Run

/-!
# The pallet `evm-accounts`

An account links itself to an EVM address in two ways. `claimAccount` links it to an address whose
owner signed the account's id; `claimDefaultAccount` and `getOrCreateEvmAddress` link it to the
address its own id hashes to. A link is an entry in each of the two maps, and the hook
`onKilledAccount` removes it when the account disappears. The hook does not know how the link came
about, so it clears the default address *and* the address on record.

The first result is that the two maps stay inverse to each other (`MapInv`), although nothing in
the code compares them. A claim checks that both components are new. The default link checks only
that the *account* is new and overwrites whatever the address was linked to, and the hook erases
the default address without looking. Both are harmless as long as no account but the hashed one is
linked to a default address (`MapInv.eq_of_default`), which is the provenance clause `origin` of the
invariant together with the absence of hash collisions.

Hashing takes 256 bits to 160, so no hash is injective. `NoCollision` asks for injectivity on a set
`S` of accounts that contains those the run is about, and that none of these hashes to an address
of the set `A` that contains the addresses recovered from its signatures.

The second result is about the signer of an EVM call. The call acts for `getAccountId source` where
`source` is the address found or created for the signer; the question is when this is the signer
again (`acts_as_itself_iff`, and `acts_as_itself_iff_bytes` for the states that are reached). It is
not for an unlinked account that merely begins with `evm:`.
-/

namespace Reef
namespace EvmAccounts

open Fallible FiniteMap

/-- The errors of the pallet. -/
inductive Error
  | accountIdHasMapped
  | ethAddressHasMapped
  | badSignature
  | invalidSignature
  | numOverflow
  | vecInsufficientCapacity
  deriving DecidableEq, Repr

/-- What a call of this pallet fails with. -/
abbrev DispatchError := Reef.DispatchError Error

/-! ### The signed message -/

/-- The width of `usize`: the runtime is compiled to 32 bit Wasm. -/
def usizeBits : ℕ := 32

/-- `u8::checked_add`. -/
def checkedAdd (a b : UInt8) : Option UInt8 :=
  if a.toNat + b.toNat < 2 ^ 8 then some (a + b) else none

/-- `push_nibble`: append the hexadecimal digit of a nibble. -/
def pushNibble (nibble : UInt8) (r : Bytes) : Except Error Bytes := do
  let value ← okOr (if nibble < 10 then checkedAdd 0x30 nibble else checkedAdd (0x61 - 10) nibble)
    .numOverflow
  return r ++ [value]

/-- `convert_to_ascii_hex`. -/
def convertToAsciiHex (data : Bytes) : Except Error Bytes := do
  let len := data.length * 2
  ensure (len < 2 ^ usizeBits) .numOverflow
  -- `isize::MAX`
  ensure (len < 2 ^ (usizeBits - 1) - 1) .vecInsufficientCapacity
  data.foldlM (fun r b => do pushNibble (b % 16) (← pushNibble (b / 16) r)) []

/-- The decimal digits of `l`, last digit first; the fuel bounds their number. -/
def reversedDigits : ℕ → ℕ → Bytes
  | 0, _ => []
  | fuel + 1, l => if 0 < l then UInt8.ofNat (0x30 + l % 10) :: reversedDigits fuel (l / 10) else []

/-- The bytes `reef evm:`. -/
def reefEvm : Bytes := [0x72, 0x65, 0x65, 0x66, 0x20, 0x65, 0x76, 0x6d, 0x3a]

/-- The bytes `\x19Ethereum Signed Message:\n`. -/
def signedMessage : Bytes :=
  [0x19, 0x45, 0x74, 0x68, 0x65, 0x72, 0x65, 0x75, 0x6d, 0x20, 0x53, 0x69, 0x67, 0x6e, 0x65, 0x64,
    0x20, 0x4d, 0x65, 0x73, 0x73, 0x61, 0x67, 0x65, 0x3a, 0x0a]

/-- `ethereum_signable_message`. -/
def ethereumSignableMessage (what extra : Bytes) : Except Error Bytes := do
  let l := reefEvm.length + what.length + extra.length
  ensure (l < 2 ^ usizeBits) .numOverflow
  return signedMessage ++ (reversedDigits l l).reverse ++ reefEvm ++ what ++ extra

/-- An ECDSA signature. -/
abbrev EcdsaSignature := Bytes

/-- The cryptographic functions the pallet uses. -/
structure Crypto where
  keccak256 : Bytes → H256
  secp256k1EcdsaRecover : EcdsaSignature → H256 → Option Bytes
  /-- `account_to_default_evm_address`. -/
  defaultAddress : AccountId → EvmAddress

/-- `eth_recover`: the address of the key that signed the message. -/
def ethRecover (K : Crypto) (sig : EcdsaSignature) (what extra : Bytes) :
    Except Error EvmAddress := do
  let msg := K.keccak256 (← ethereumSignableMessage what extra)
  let key ← okOr (K.secp256k1EcdsaRecover sig msg) .badSignature
  return (K.keccak256 key).extractLsb' 0 160

/-- The SCALE encoding of an account: its 32 bytes. -/
def encodeAccount (who : AccountId) : Bytes :=
  (List.range 32).map fun i => UInt8.ofBitVec (who.extractLsb' (8 * (31 - i)) 8)

/-- The address recovered from a signature under the account `who`. -/
def recoverFor (K : Crypto) (sig : EcdsaSignature) (who : AccountId) : Except Error EvmAddress := do
  ethRecover K sig (← convertToAsciiHex (encodeAccount who)) []

/-! ### Calls -/

/-- The events of the pallet. -/
inductive Event
  | claimAccount (accountId : AccountId) (evmAddress : EvmAddress)
  deriving DecidableEq

/-- The storage of the pallet and the event log. -/
structure State where
  mapping : AddressMapping
  events : List Event

/-- What the other pallets answer during one call. -/
structure Outside where
  /-- `frame_system::account_exists`. -/
  accountExists : AccountId → Bool
  /-- `TransferAll::transfer_all`, with the accounts it leaves without any balance: those are
  killed. -/
  transferAll : AccountId → AccountId → Except DispatchError (List AccountId)
  /-- `OnClaim::handle`. -/
  onClaim : AccountId → Except DispatchError Unit

section Calls

variable (K : Crypto) (o : Outside) (who : AccountId) (s : State)

/-- The mapping after the balance of `source` was merged into `who`. -/
def mergeBalance (source : AccountId) (m : AddressMapping) : Except DispatchError AddressMapping :=
  if o.accountExists source then do
    let killed ← o.transferAll source who
    return killed.foldl (AddressMapping.onKilledAccount K.defaultAddress) m
  else return m

/-- `claim_account`. -/
def claimAccount (ethAddress : EvmAddress) (sig : EcdsaSignature) :
    Except DispatchError State := do
  ensure (who ∉ s.mapping.evmAddresses) (.module .accountIdHasMapped)
  ensure (ethAddress ∉ s.mapping.accounts) (.module .ethAddressHasMapped)
  let address ← (recoverFor K sig who).mapError .module
  ensure (ethAddress = address) (.module .invalidSignature)
  let m ← mergeBalance K o who (s.mapping.getAccountId ethAddress) s.mapping
  let m := ⟨m.accounts.insert ethAddress who, m.evmAddresses.insert who ethAddress⟩
  o.onClaim who
  return ⟨m, s.events ++ [.claimAccount who ethAddress]⟩

/-- `claim_default_account`. -/
def claimDefaultAccount : Except DispatchError State := do
  ensure (who ∉ s.mapping.evmAddresses) (.module .accountIdHasMapped)
  let (m, ethAddress) := s.mapping.getOrCreateEvmAddress K.defaultAddress who
  o.onClaim who
  return ⟨m, s.events ++ [.claimAccount who ethAddress]⟩

end Calls

/-- What can happen to the mapping: the two calls, an address requested by another pallet, or the
end of an account. -/
inductive Input
  | claimAccount (who : AccountId) (ethAddress : EvmAddress) (sig : EcdsaSignature) (o : Outside)
  | claimDefaultAccount (who : AccountId) (o : Outside)
  | getOrCreateEvmAddress (who : AccountId)
  | killedAccount (who : AccountId)

/-- One step of the pallet; a call that fails changes nothing. -/
def step (K : Crypto) (s : State) : Input → State
  | .claimAccount who ethAddress sig o => commitOrKeep (claimAccount K o who s ethAddress sig) s
  | .claimDefaultAccount who o => commitOrKeep (claimDefaultAccount K o who s) s
  | .getOrCreateEvmAddress who =>
    { s with mapping := (s.mapping.getOrCreateEvmAddress K.defaultAddress who).1 }
  | .killedAccount who => { s with mapping := s.mapping.onKilledAccount K.defaultAddress who }

/-- Nothing is linked at genesis. -/
def genesis : State := ⟨.empty, []⟩

/-! ### What a successful call does -/

section Inversion

variable {K : Crypto} {o : Outside} {who : AccountId} {s s' : State}

theorem mergeBalance_eq_ok {source : AccountId} {m m' : AddressMapping} :
    mergeBalance K o who source m = .ok m' ↔
      (o.accountExists source = false ∧ m = m') ∨
      (o.accountExists source = true ∧ ∃ killed, o.transferAll source who = .ok killed ∧
        killed.foldl (AddressMapping.onKilledAccount K.defaultAddress) m = m') := by
  unfold mergeBalance
  split
  · next h => simp [h, bind_eq_ok, pure, Except.pure]
  · next h => simp [h, pure, Except.pure]

theorem claimAccount_eq_ok {ethAddress : EvmAddress} {sig : EcdsaSignature} :
    claimAccount K o who s ethAddress sig = .ok s' ↔
      who ∉ s.mapping.evmAddresses ∧ ethAddress ∉ s.mapping.accounts ∧
      recoverFor K sig who = .ok ethAddress ∧
      ∃ m, mergeBalance K o who (s.mapping.getAccountId ethAddress) s.mapping = .ok m ∧
        o.onClaim who = .ok () ∧
        (⟨⟨m.accounts.insert ethAddress who, m.evmAddresses.insert who ethAddress⟩,
          s.events ++ [.claimAccount who ethAddress]⟩ : State) = s' := by
  simp only [claimAccount, bind_eq_ok, exists_ensure_eq_ok, mapError_eq_ok, pure, Except.pure,
    Except.ok.injEq]
  constructor
  · rintro ⟨hwho, heth, address, hrecover, rfl, m, hm, ⟨⟩, hclaim, hs⟩
    exact ⟨hwho, heth, hrecover, m, hm, hclaim, hs⟩
  · rintro ⟨hwho, heth, hrecover, m, hm, hclaim, hs⟩
    exact ⟨hwho, heth, ethAddress, hrecover, rfl, m, hm, (), hclaim, hs⟩

theorem claimDefaultAccount_eq_ok :
    claimDefaultAccount K o who s = .ok s' ↔
      who ∉ s.mapping.evmAddresses ∧ o.onClaim who = .ok () ∧
        (⟨(s.mapping.getOrCreateEvmAddress K.defaultAddress who).1, s.events ++
          [.claimAccount who (s.mapping.getOrCreateEvmAddress K.defaultAddress who).2]⟩ : State) =
            s' := by
  simp only [claimDefaultAccount, bind_eq_ok, exists_ensure_eq_ok, pure, Except.pure,
    Except.ok.injEq]
  constructor
  · rintro ⟨hwho, ⟨⟩, hclaim, hs⟩
    exact ⟨hwho, hclaim, hs⟩
  · rintro ⟨hwho, hclaim, hs⟩
    exact ⟨hwho, (), hclaim, hs⟩

end Inversion

/-! ### The maps stay inverse to each other -/

/-- No two accounts of `S` hash to one address, and none hashes to an address of `A`. -/
structure NoCollision (K : Crypto) (S : Set AccountId) (A : Set EvmAddress) : Prop where
  injOn : Set.InjOn K.defaultAddress S
  notMem : ∀ x ∈ S, K.defaultAddress x ∉ A

/-- The accounts an input is about are in `S`, the address it recovers from a signature is in `A`,
and a claim is not signed by the padded account of an address. -/
def Input.Within (K : Crypto) (S : Set AccountId) (A : Set EvmAddress) : Input → Prop
  | .claimAccount who ethAddress sig o =>
    (∀ a, who ≠ padded a) ∧ (∀ a, recoverFor K sig who = .ok a → a ∈ A) ∧
      ∀ killed, o.transferAll (padded ethAddress) who = .ok killed → ∀ x ∈ killed, x ∈ S
  | .claimDefaultAccount who _ => who ∈ S
  | .getOrCreateEvmAddress who => who ∈ S
  | .killedAccount who => who ∈ S

/-- **The invariant of the mapping.** -/
structure MapInv (K : Crypto) (S : Set AccountId) (A : Set EvmAddress) (m : AddressMapping) :
    Prop where
  /-- The two maps hold the same links. -/
  inverse : Inverse m.accounts m.evmAddresses
  /-- A padded account is not linked. -/
  notPadded : ∀ a, m.evmAddresses.lookup (padded a) = none
  /-- An account is linked to its default address or to an address recovered from a signature. -/
  origin : ∀ x a, m.evmAddresses.lookup x = some a → (x ∈ S ∧ K.defaultAddress x = a) ∨ a ∈ A

section Invariant

variable {K : Crypto} {S : Set AccountId} {A : Set EvmAddress} {m : AddressMapping}
  {x y : AccountId} {a : EvmAddress}

theorem MapInv.empty (K : Crypto) (S : Set AccountId) (A : Set EvmAddress) :
    MapInv K S A .empty where
  inverse := .empty
  notPadded := fun _ => rfl
  origin := fun _ _ h => nomatch h

/-- Only the hashed account itself is linked to its default address. -/
theorem MapInv.eq_of_default (h : MapInv K S A m) (hK : NoCollision K S A) (hx : x ∈ S)
    (hy : m.accounts.lookup (K.defaultAddress x) = some y) : y = x := by
  have hlink := (h.inverse _ _).mp hy
  rcases h.origin y _ hlink with ⟨hyS, heq⟩ | hA
  · exact hK.injOn hyS hx heq
  · exact absurd hA (hK.notMem x hx)

/-- An account without a link has no default address on record either. -/
theorem MapInv.default_notMem (h : MapInv K S A m) (hK : NoCollision K S A) (hx : x ∈ S)
    (hnone : m.evmAddresses.lookup x = none) : K.defaultAddress x ∉ m.accounts := by
  intro hmem
  obtain ⟨y, hy⟩ := Finmap.mem_iff.mp hmem
  have hyx := h.eq_of_default hK hx hy
  rw [h.inverse, hyx, hnone] at hy
  cases hy

/-- A new link of an account that is not padded. -/
theorem MapInv.link (h : MapInv K S A m) (ha : m.accounts.lookup a = none)
    (hx : m.evmAddresses.lookup x = none) (hpad : ∀ b, x ≠ padded b)
    (horigin : (x ∈ S ∧ K.defaultAddress x = a) ∨ a ∈ A) :
    MapInv K S A ⟨m.accounts.insert a x, m.evmAddresses.insert x a⟩ where
  inverse := h.inverse.insert ha hx
  notPadded := by
    intro b
    rw [Finmap.lookup_insert_of_ne _ (hpad b).symm]
    exact h.notPadded b
  origin := by
    intro y b hy
    rw [lookup_insert_eq] at hy
    split at hy
    · next hyx =>
      cases hy
      rw [hyx]
      exact horigin
    · exact h.origin y b hy

theorem MapInv.getOrCreateEvmAddress (h : MapInv K S A m) (hK : NoCollision K S A) (hx : x ∈ S) :
    MapInv K S A (m.getOrCreateEvmAddress K.defaultAddress x).1 := by
  unfold AddressMapping.getOrCreateEvmAddress
  split
  · exact h
  · next hnone =>
    rw [AddressMapping.getEvmAddress, Option.or_eq_none_iff] at hnone
    obtain ⟨hlookup, hembedded⟩ := hnone
    have hfresh := Finmap.lookup_eq_none.mpr (h.default_notMem hK hx hlookup)
    refine h.link hfresh hlookup (fun b hb => ?_) (.inl ⟨hx, rfl⟩)
    -- a padded account contains an address
    rw [hb, embedded_padded] at hembedded
    cases hembedded

/-- **The end of an account removes its link and no other.** -/
theorem MapInv.onKilledAccount (h : MapInv K S A m) (hK : NoCollision K S A) (hx : x ∈ S) :
    MapInv K S A (m.onKilledAccount K.defaultAddress x) := by
  unfold AddressMapping.onKilledAccount
  cases hlink : m.evmAddresses.lookup x with
  | none =>
    have hsame := erase_of_notMem (h.default_notMem hK hx hlink)
    simp only [hsame]
    exact h
  | some address =>
    -- the default address is unlinked, or it is the address on record
    have herase : (m.accounts.erase (K.defaultAddress x)).erase address =
        m.accounts.erase address := by
      by_cases hmem : K.defaultAddress x ∈ m.accounts
      · obtain ⟨y, hy⟩ := Finmap.mem_iff.mp hmem
        have hyx := h.eq_of_default hK hx hy
        rw [h.inverse, hyx, hlink] at hy
        rw [Option.some.inj hy]
        exact erase_of_notMem Finmap.notMem_erase_self
      · rw [erase_of_notMem hmem]
    simp only [herase]
    constructor
    · exact h.inverse.erase hlink
    · intro b
      rw [lookup_erase_eq, h.notPadded b, ite_self]
    · intro y b hy
      exact h.origin y b (lookup_erase_eq_some_iff.mp hy).2

theorem MapInv.killed (h : MapInv K S A m) (hK : NoCollision K S A) {killed : List AccountId}
    (hS : ∀ x ∈ killed, x ∈ S) :
    MapInv K S A (killed.foldl (AddressMapping.onKilledAccount K.defaultAddress) m) := by
  induction killed generalizing m with
  | nil => exact h
  | cons x killed ih =>
    have hx := hS x List.mem_cons_self
    exact ih (h.onKilledAccount hK hx) fun y hy => hS y (List.mem_cons_of_mem x hy)

/-- What the end of an account leaves unlinked. -/
theorem lookup_onKilledAccount_eq_none (hash : AccountId → EvmAddress) (m : AddressMapping)
    (z : AccountId) :
    (m.accounts.lookup a = none → (m.onKilledAccount hash z).accounts.lookup a = none) ∧
    (m.evmAddresses.lookup x = none → (m.onKilledAccount hash z).evmAddresses.lookup x = none) := by
  unfold AddressMapping.onKilledAccount
  split
  · refine ⟨fun ha => ?_, id⟩
    rw [lookup_erase_eq, ha, ite_self]
  · refine ⟨fun ha => ?_, fun hx => ?_⟩
    · rw [lookup_erase_eq, lookup_erase_eq, ha, ite_self, ite_self]
    · rw [lookup_erase_eq, hx, ite_self]

theorem lookup_killed_eq_none (hash : AccountId → EvmAddress) (killed : List AccountId)
    (m : AddressMapping) (ha : m.accounts.lookup a = none) (hx : m.evmAddresses.lookup x = none) :
    (killed.foldl (AddressMapping.onKilledAccount hash) m).accounts.lookup a = none ∧
    (killed.foldl (AddressMapping.onKilledAccount hash) m).evmAddresses.lookup x = none := by
  induction killed generalizing m with
  | nil => exact ⟨ha, hx⟩
  | cons z killed ih =>
    obtain ⟨hacc, hevm⟩ := lookup_onKilledAccount_eq_none (a := a) (x := x) hash m z
    exact ih _ (hacc ha) (hevm hx)

/-- **A successful claim keeps the invariant.** Merging the balances may kill accounts, the padded
one in the first place; the two components of the new link stay unlinked. -/
theorem MapInv.claimAccount {o : Outside} {s s' : State} {sig : EcdsaSignature}
    (h : MapInv K S A s.mapping) (hK : NoCollision K S A)
    (hin : (Input.claimAccount x a sig o).Within K S A)
    (hs : EvmAccounts.claimAccount K o x s a sig = .ok s') : MapInv K S A s'.mapping := by
  obtain ⟨hx, ha, hrecover, m, hmerge, -, rfl⟩ := claimAccount_eq_ok.mp hs
  obtain ⟨hpad, hA, hkilled⟩ := hin
  have hx := Finmap.lookup_eq_none.mpr hx
  have ha := Finmap.lookup_eq_none.mpr ha
  have hsource : s.mapping.getAccountId a = padded a := by
    rw [AddressMapping.getAccountId, ha]
    rfl
  rw [hsource] at hmerge
  rcases mergeBalance_eq_ok.mp hmerge with ⟨-, rfl⟩ | ⟨-, killed, htransfer, rfl⟩
  · exact h.link ha hx hpad (.inr (hA a hrecover))
  · obtain ⟨ha', hx'⟩ := lookup_killed_eq_none K.defaultAddress killed s.mapping ha hx
    have hinv := h.killed hK (hkilled killed htransfer)
    exact hinv.link ha' hx' hpad (.inr (hA a hrecover))

/-- **Every step keeps the invariant.** -/
theorem MapInv.step {s : State} (h : MapInv K S A s.mapping) (hK : NoCollision K S A) (i : Input)
    (hi : i.Within K S A) : MapInv K S A (step K s i).mapping := by
  cases i with
  | claimAccount who ethAddress sig o =>
    change MapInv K S A (commitOrKeep (EvmAccounts.claimAccount K o who s ethAddress sig) s).mapping
    obtain ⟨s', hs, heq⟩ | ⟨-, heq⟩ :=
      commitOrKeep_cases (EvmAccounts.claimAccount K o who s ethAddress sig) s
    · rw [heq]
      exact h.claimAccount hK hi hs
    · rw [heq]
      exact h
  | claimDefaultAccount who o =>
    change MapInv K S A (commitOrKeep (EvmAccounts.claimDefaultAccount K o who s) s).mapping
    obtain ⟨s', hs, heq⟩ | ⟨-, heq⟩ :=
      commitOrKeep_cases (EvmAccounts.claimDefaultAccount K o who s) s
    · rw [heq]
      obtain ⟨-, -, rfl⟩ := claimDefaultAccount_eq_ok.mp hs
      exact h.getOrCreateEvmAddress hK hi
    · rw [heq]
      exact h
  | getOrCreateEvmAddress who => exact h.getOrCreateEvmAddress hK hi
  | killedAccount who => exact h.onKilledAccount hK hi

/-- Under the invariant the address of an address's account is the address again. -/
theorem MapInv.getEvmAddress_getAccountId (h : MapInv K S A m) (a : EvmAddress) :
    m.getEvmAddress (m.getAccountId a) = some a := by
  unfold AddressMapping.getEvmAddress AddressMapping.getAccountId
  cases ha : m.accounts.lookup a with
  | none =>
    rw [Option.getD_none, h.notPadded a, embedded_padded]
    rfl
  | some x =>
    rw [Option.getD_some, (h.inverse a x).mp ha]
    rfl

end Invariant

variable {K : Crypto} {S : Set AccountId} {A : Set EvmAddress} {m : AddressMapping} {x : AccountId}

/-- The invariant holds in every state reached from genesis. -/
theorem mapInv_run (hK : NoCollision K S A) {is : List Input} (his : ∀ i ∈ is, i.Within K S A) :
    MapInv K S A (Run.run (step K) genesis is).mapping :=
  Run.invariant (fun s : State => MapInv K S A s.mapping)
    (fun _ i h (hi : i.Within K S A) => h.step hK i hi) (MapInv.empty K S A)
    (Run.Along.of_mem fun i hi _ => his i hi)

/-- **The two maps are inverse to each other.** In every state reached from genesis, an address is
linked to an account exactly when the account is linked to the address; the address found for the
account of an address, linked or not, is that address; and so different addresses have different
accounts. -/
theorem maps_inverse (K : Crypto) (S : Set AccountId) (A : Set EvmAddress)
    (hK : NoCollision K S A) (is : List Input) (his : ∀ i ∈ is, i.Within K S A) :
    let m := (Run.run (step K) genesis is).mapping
    (∀ a x, m.accounts.lookup a = some x ↔ m.evmAddresses.lookup x = some a) ∧
    (∀ a, m.getEvmAddress (m.getAccountId a) = some a) ∧
    Function.Injective m.getAccountId := by
  intro m
  have hinv : MapInv K S A m := mapInv_run hK his
  refine ⟨hinv.inverse, hinv.getEvmAddress_getAccountId, ?_⟩
  intro a b hab
  have ha := hinv.getEvmAddress_getAccountId a
  rw [hab, hinv.getEvmAddress_getAccountId b] at ha
  exact (Option.some.inj ha).symm

/-- Functions for small examples: the hash keeps the last twenty bytes, and every signature is by
the owner of address `5`. -/
def sampleCrypto : Crypto := ⟨fun _ => 5, fun _ _ => some [], fun x => x.setWidth 160⟩

/-- The other pallets have nothing to add. -/
def silent : Outside := ⟨fun _ => false, fun _ _ => .ok [], fun _ => .ok ()⟩

/-- Account `1` gets its default address and account `2` claims address `5`. -/
theorem maps_inverse_two_links :
    let is : List Input := [.getOrCreateEvmAddress 1, .claimAccount 2 5 [] silent]
    let m := (Run.run (step sampleCrypto) genesis is).mapping
    NoCollision sampleCrypto {1, 2} {5} ∧ (∀ i ∈ is, i.Within sampleCrypto {1, 2} {5}) ∧
    m.accounts.lookup 1 = some 1 ∧ m.accounts.lookup 5 = some 2 ∧
    (∀ a x, m.accounts.lookup a = some x ↔ m.evmAddresses.lookup x = some a) ∧
    (∀ a, m.getEvmAddress (m.getAccountId a) = some a) ∧
    Function.Injective m.getAccountId := by
  intro is m
  have hK : NoCollision sampleCrypto {1, 2} {5} := by
    constructor
    · rintro x (rfl | rfl) y (rfl | rfl) h
      · rfl
      · exact absurd h (by decide)
      · exact absurd h (by decide)
      · rfl
    · rintro x (rfl | rfl)
      · decide
      · decide
  have hrecover : recoverFor sampleCrypto [] 2 = .ok 5 := by decide
  have his : ∀ i ∈ is, i.Within sampleCrypto {1, 2} {5} := by
    intro i hi
    rcases List.mem_cons.mp hi with rfl | hi
    · exact .inl rfl
    · obtain rfl := List.mem_singleton.mp hi
      refine ⟨fun a ha => ?_, fun a ha => ?_, fun killed hkilled x hx => ?_⟩
      · -- a padded account contains an address, and the account `2` does not
        have hembedded := embedded_padded a
        rw [← ha] at hembedded
        cases hembedded
      · rw [hrecover] at ha
        exact (Except.ok.inj ha).symm
      · cases hkilled
        cases hx
  exact ⟨hK, his, by decide, by decide, maps_inverse sampleCrypto {1, 2} {5} hK is his⟩

/-! ### For whom a signer acts -/

/-- The account that acts for a signer with an address. -/
theorem getAccountId_getOrCreateEvmAddress_of_some {hash : AccountId → EvmAddress} {a : EvmAddress}
    (h : m.getEvmAddress x = some a) :
    (m.getOrCreateEvmAddress hash x).1.getAccountId (m.getOrCreateEvmAddress hash x).2 =
      (m.accounts.lookup a).getD (padded a) := by
  have hr : m.getOrCreateEvmAddress hash x = (m, a) := by
    simp only [AddressMapping.getOrCreateEvmAddress, h]
  rw [hr]
  rfl

/-- A signer that gets its default address is linked to it. -/
theorem getAccountId_getOrCreateEvmAddress_of_none {hash : AccountId → EvmAddress}
    (h : m.getEvmAddress x = none) :
    (m.getOrCreateEvmAddress hash x).1.getAccountId (m.getOrCreateEvmAddress hash x).2 = x := by
  have hr : m.getOrCreateEvmAddress hash x =
      (⟨m.accounts.insert (hash x) x, m.evmAddresses.insert x (hash x)⟩, hash x) := by
    simp only [AddressMapping.getOrCreateEvmAddress, h]
  rw [hr, AddressMapping.getAccountId, Finmap.lookup_insert]
  rfl

/-- **When a signer acts as itself.** The account of the address found or created for `x` is `x`
in exactly three cases: `x` has no address yet and gets one, the address found for `x` is linked to
`x`, or `x` is the padded account of that address and the address is not linked. -/
theorem acts_as_itself_iff (hash : AccountId → EvmAddress) (m : AddressMapping) (x : AccountId) :
    let r := m.getOrCreateEvmAddress hash x
    r.1.getAccountId r.2 = x ↔
      m.getEvmAddress x = none ∨
      (∃ a, m.getEvmAddress x = some a ∧ m.accounts.lookup a = some x) ∨
      ∃ a, m.getEvmAddress x = some a ∧ m.accounts.lookup a = none ∧ x = padded a := by
  intro r
  cases hfound : m.getEvmAddress x with
  | none => exact ⟨fun _ => .inl rfl, fun _ => getAccountId_getOrCreateEvmAddress_of_none hfound⟩
  | some a =>
    -- an address is found, and its account is the linked one or the padded one
    rw [getAccountId_getOrCreateEvmAddress_of_some hfound]
    cases hlink : m.accounts.lookup a with
    | none =>
      rw [Option.getD_none]
      constructor
      · intro hx
        exact .inr (.inr ⟨a, rfl, hlink, hx.symm⟩)
      · rintro (h | ⟨b, hb, hxb⟩ | ⟨b, hb, -, hxb⟩)
        · cases h
        · rw [← Option.some.inj hb, hlink] at hxb
          cases hxb
        · rw [hxb, Option.some.inj hb]
    | some y =>
      rw [Option.getD_some]
      constructor
      · intro hx
        exact .inr (.inl ⟨a, rfl, by rw [hlink, hx]⟩)
      · rintro (h | ⟨b, hb, hxb⟩ | ⟨b, hb, hxb, -⟩)
        · cases h
        · rw [← Option.some.inj hb, hlink] at hxb
          exact Option.some.inj hxb
        · rw [← Option.some.inj hb, hlink] at hxb
          cases hxb

/-- Where the maps are inverse, an unlinked account that begins with `evm:` acts as itself exactly
if it is the padded account of an address nobody has claimed. -/
theorem MapInv.getAccountId_getOrCreateEvmAddress (h : MapInv K S A m) {a : EvmAddress}
    (hx : m.evmAddresses.lookup x = none) (ha : embedded x = some a) :
    let r := m.getOrCreateEvmAddress K.defaultAddress x
    r.1.getAccountId r.2 = x ↔ m.accounts.lookup a = none ∧ x = padded a := by
  intro r
  have hfound : m.getEvmAddress x = some a := by
    rw [AddressMapping.getEvmAddress, hx, Option.none_or, ha]
  rw [getAccountId_getOrCreateEvmAddress_of_some hfound]
  cases hlink : m.accounts.lookup a with
  | none => simp [eq_comm]
  | some y =>
    -- the owner of the address is linked, so it is not `x`
    have hy := (h.inverse a y).mp hlink
    simp only [Option.getD_some, reduceCtorEq, false_and, iff_false]
    intro hyx
    rw [hyx, hx] at hy
    cases hy

/-- **When a signer acts as itself, by its bytes.** In every state reached from genesis, the account
of the address found or created for `x` is `x` in exactly three cases: `x` is linked, `x` does not
begin with `evm:`, or `x` ends in eight zero bytes and the address before them is not linked. -/
theorem acts_as_itself_iff_bytes (hK : NoCollision K S A) {is : List Input}
    (his : ∀ i ∈ is, i.Within K S A) (x : AccountId) :
    let m := (Run.run (step K) genesis is).mapping
    let r := m.getOrCreateEvmAddress K.defaultAddress x
    r.1.getAccountId r.2 = x ↔
      m.evmAddresses.lookup x ≠ none ∨ x.extractLsb' 224 32 ≠ evmPrefix ∨
      (x.extractLsb' 0 64 = 0 ∧ m.accounts.lookup (x.extractLsb' 64 160) = none) := by
  intro m r
  have hinv : MapInv K S A m := mapInv_run hK his
  cases hlinked : m.evmAddresses.lookup x with
  | some a =>
    have hfound : m.getEvmAddress x = some a := by
      rw [AddressMapping.getEvmAddress, hlinked, Option.some_or]
    have hself : r.1.getAccountId r.2 = x := by
      rw [getAccountId_getOrCreateEvmAddress_of_some hfound, (hinv.inverse a x).mpr hlinked,
        Option.getD_some]
    exact ⟨fun _ => .inl nofun, fun _ => hself⟩
  | none =>
    by_cases hprefix : x.extractLsb' 224 32 = evmPrefix
    · -- the address it contains is found
      have hembedded : embedded x = some (x.extractLsb' 64 160) := if_pos hprefix
      have hiff := hinv.getAccountId_getOrCreateEvmAddress hlinked hembedded
      rw [eq_padded_iff hembedded, and_comm] at hiff
      refine hiff.trans ⟨fun h => .inr (.inr h), ?_⟩
      rintro (h | h | h)
      · exact absurd rfl h
      · exact absurd hprefix h
      · exact h
    · have hfound : m.getEvmAddress x = none := by
        rw [AddressMapping.getEvmAddress, hlinked, Option.none_or]
        exact if_neg hprefix
      have hself : r.1.getAccountId r.2 = x := getAccountId_getOrCreateEvmAddress_of_none hfound
      exact ⟨fun _ => .inr (.inl hprefix), fun _ => hself⟩

/-- The account `evm: ++ 7 ++ 1` signs, and the padded account of `7` acts. -/
theorem prefixed_account_acts_as_padded :
    let m := (Run.run (step sampleCrypto) genesis []).mapping
    let x : AccountId := evmPrefix ++ (7 : EvmAddress) ++ 1#64
    let r := m.getOrCreateEvmAddress sampleCrypto.defaultAddress x
    r.1.getAccountId r.2 = padded 7 ∧ padded 7 ≠ x := by
  decide

end EvmAccounts
end Reef
