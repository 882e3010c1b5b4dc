import Mathlib.Data.Finmap
import ReefChain.Lib.FiniteMap
import ReefChain.Primitives

/-!
# Accounts of the chain and addresses of the EVM

An account of the chain is a 32 byte string and an EVM address a 20 byte string. The pallet
`evm-accounts` keeps a partial correspondence between them in two maps, `accounts` and
`evmAddresses`, and completes it in two ways: an address that is not mapped stands for the account
`evm: ++ address ++ 0…` (`padded`), and an account that is not mapped but has the shape `evm: ++ …`
stands for the address inside it (`embedded`).

The address an unmapped account gets by default is a hash of it. The hash enters as the parameter
`defaultAddress`.
-/

namespace Reef
namespace EvmAccounts

/-- The four bytes `evm:`. -/
def evmPrefix : BitVec 32 := 0x65766d3a#32

/-- The account an unmapped address stands for. -/
def padded (address : EvmAddress) : AccountId := evmPrefix ++ address ++ 0#64

/-- The address an account of the form `evm: ++ address ++ …` contains. -/
def embedded (who : AccountId) : Option EvmAddress :=
  if who.extractLsb' 224 32 = evmPrefix then some (who.extractLsb' 64 160) else none

/-- The storage of the pallet. -/
structure AddressMapping where
  accounts : Finmap fun _ : EvmAddress => AccountId
  evmAddresses : Finmap fun _ : AccountId => EvmAddress

namespace AddressMapping

/-- Nothing is mapped. -/
def empty : AddressMapping := ⟨∅, ∅⟩

/-- `get_account_id`. -/
def getAccountId (m : AddressMapping) (address : EvmAddress) : AccountId :=
  (m.accounts.lookup address).getD (padded address)

/-- `get_evm_address`. -/
def getEvmAddress (m : AddressMapping) (who : AccountId) : Option EvmAddress :=
  (m.evmAddresses.lookup who).or (embedded who)

section Default

variable (defaultAddress : AccountId → EvmAddress)

/-- `get_or_create_evm_address`. -/
def getOrCreateEvmAddress (m : AddressMapping) (who : AccountId) : AddressMapping × EvmAddress :=
  match m.getEvmAddress who with
  | some address => (m, address)
  | none =>
    let address := defaultAddress who
    (⟨m.accounts.insert address who, m.evmAddresses.insert who address⟩, address)

/-- `evm_accounts::CallKillAccount::on_killed_account`. -/
def onKilledAccount (m : AddressMapping) (who : AccountId) : AddressMapping :=
  let accounts := m.accounts.erase (defaultAddress who)
  match m.evmAddresses.lookup who with
  | none => { m with accounts := accounts }
  | some address => ⟨accounts.erase address, m.evmAddresses.erase who⟩

end Default

end AddressMapping

/-! ### Padding -/

/-- The bits of a padded address: eight zero bytes, the address, the prefix. -/
theorem getLsbD_padded (address : EvmAddress) (i : ℕ) :
    (padded address).getLsbD i =
      if i < 64 then false
      else if i - 64 < 160 then address.getLsbD (i - 64)
      else evmPrefix.getLsbD (i - 64 - 160) := by
  have houter := BitVec.getLsbD_append (x := evmPrefix ++ address) (y := 0#64) (i := i)
  have hinner := BitVec.getLsbD_append (x := evmPrefix) (y := address) (i := i - 64)
  rw [BitVec.getLsbD_zero, hinner] at houter
  exact houter

/-- Unpadding undoes padding. -/
@[simp] theorem embedded_padded (address : EvmAddress) :
    embedded (padded address) = some address := by
  have hprefix : (padded address).extractLsb' 224 32 = evmPrefix := by
    ext i hi
    rw [BitVec.getElem_extractLsb', getLsbD_padded, if_neg (by omega), if_neg (by omega),
      Nat.sub_sub, Nat.add_sub_cancel_left, BitVec.getLsbD_eq_getElem hi]
  have haddress : (padded address).extractLsb' 64 160 = address := by
    ext i hi
    rw [BitVec.getElem_extractLsb', getLsbD_padded, if_neg (by omega),
      Nat.add_sub_cancel_left, if_pos hi, BitVec.getLsbD_eq_getElem hi]
  rw [embedded, if_pos hprefix, haddress]

/-- **The padded accounts by their bytes.** An account is the padded account of the address it
contains if it ends in eight zero bytes, and only then. -/
theorem eq_padded_iff {who : AccountId} {address : EvmAddress} (h : embedded who = some address) :
    who = padded address ↔ who.extractLsb' 0 64 = 0 := by
  have hpadded : (padded address).extractLsb' 0 64 = 0 := by
    ext i hi
    rw [BitVec.getElem_extractLsb', getLsbD_padded, if_pos (by omega)]
    simp
  refine ⟨fun hwho => hwho ▸ hpadded, fun hzero => ?_⟩
  unfold embedded at h
  split at h
  · next hprefix =>
    obtain rfl := Option.some.inj h
    -- the last eight bytes, the address and the prefix, one after the other
    apply BitVec.eq_of_getLsbD_eq
    intro i hi
    rw [getLsbD_padded]
    split
    · next hlow =>
      have hbit := congrArg (fun b : BitVec 64 => b.getLsbD i) hzero
      simpa [BitVec.getLsbD_extractLsb', hlow] using hbit
    · next hlow =>
      split
      · next hmid =>
        rw [BitVec.getLsbD_extractLsb', decide_eq_true hmid, Bool.true_and,
          Nat.add_sub_cancel' (not_lt.mp hlow)]
      · next hmid =>
        rw [← hprefix, BitVec.getLsbD_extractLsb', decide_eq_true (by omega), Bool.true_and,
          show 224 + (i - 64 - 160) = i by omega]
  · cases h

/-- Different addresses stand for different accounts as long as they are not mapped. -/
theorem padded_injective : Function.Injective padded := by
  intro a b h
  have h' := congrArg embedded h
  rw [embedded_padded, embedded_padded] at h'
  exact Option.some.inj h'

end EvmAccounts
end Reef
