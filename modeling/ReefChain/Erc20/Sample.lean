import Mathlib.Data.BitVec
import ReefChain.Erc20.Standard

/-!
# A sample token

A contract that behaves like a token: it keeps the balance of every address in a slot of its
storage, answers `balanceOf` and carries out `transfer`, which it reverts if the balance does not
suffice. It is `Standard` in a runtime that does not reap accounts.
-/

namespace Reef
namespace Currencies

open Evm EvmBridge Scale

/-- The storage slot of an address. -/
def tokenSlot (a : EvmAddress) : H256 := a.setWidth 256

/-- The balances the token keeps in its storage. -/
def storedBalance (contract : EvmAddress) (s : State) (a : EvmAddress) : ℕ :=
  (s.storage contract (tokenSlot a)).toNat

/-- The word at a position of the arguments of a call. -/
def argument (input : Bytes) (position : ℕ) : ℕ :=
  beNat ((input.drop (4 + 32 * position)).take 32)

/-- The token. -/
def sampleToken : Behaviour := fun context input s =>
  let balance := storedBalance context.address s
  let target := BitVec.ofNat 160 (argument input 0)
  if input.take 4 = [0x70, 0xa0, 0x82, 0x31] then
    .exit (.succeed .returned) (word (balance target))
  else
    let value := argument input 1
    let left := balance context.caller - value
    let arrived := move balance context.caller target value target
    if value ≤ balance context.caller ∧ arrived < 2 ^ 256 then
      .setStorage (tokenSlot context.caller) (BitVec.ofNat 256 left) <|
      .setStorage (tokenSlot target) (BitVec.ofNat 256 arrived) <|
      .exit (.succeed .returned) (word 1)
    else .exit .revert []

/-! ### Reading the input -/

theorem beNat_word {n : ℕ} (h : n < 2 ^ 256) : beNat (word n) = n := by
  rw [word, beNat_beBytes]
  exact Nat.mod_eq_of_lt (h.trans_eq (by norm_num))

theorem argument_zero_append (selector rest : Bytes) (hselector : selector.length = 4)
    (a : EvmAddress) :
    BitVec.ofNat 160 (argument (selector ++ word a.toNat ++ rest) 0) = a := by
  have hdrop : (selector ++ word a.toNat ++ rest).drop (4 + 32 * 0) = word a.toNat ++ rest := by
    rw [List.append_assoc, List.drop_left' hselector]
  have htake : (word a.toNat ++ rest).take 32 = word a.toNat :=
    List.take_left' (length_beBytes 32 _)
  have hlt : a.toNat < 2 ^ 256 := a.isLt.trans (Nat.pow_lt_pow_right (by decide) (by decide))
  rw [argument, hdrop, htake, beNat_word hlt]
  rw [BitVec.ofNat_toNat, BitVec.setWidth_eq]

theorem argument_transferInput_one (dest : EvmAddress) {value : ℕ} (h : value < 2 ^ 256) :
    argument (transferInput dest value) 1 = value := by
  have hlen : ([0xa9, 0x05, 0x9c, 0xbb] ++ word dest.toNat).length = 4 + 32 * 1 := by
    rw [List.length_append]
    exact congrArg (4 + ·) (length_beBytes 32 _)
  have htake : (word value).take 32 = word value :=
    List.take_of_length_le (length_beBytes 32 value).le
  rw [argument, transferInput, List.drop_left' hlen, htake, beNat_word h]

/-! ### The token is standard -/

theorem tokenSlot_injective {a b : EvmAddress} (h : tokenSlot a = tokenSlot b) : a = b := by
  have hnat := congrArg BitVec.toNat h
  unfold tokenSlot at hnat
  rw [BitVec.toNat_setWidth_of_le (by decide), BitVec.toNat_setWidth_of_le (by decide)] at hnat
  exact BitVec.eq_of_toNat_eq hnat

theorem storedBalance_writeStorage (contract a b : EvmAddress) (s : State) {n : ℕ}
    (hn : n < 2 ^ 256) :
    storedBalance contract (s.writeStorage contract (tokenSlot a) (BitVec.ofNat 256 n)) b =
      if b = a then n else storedBalance contract s b := by
  unfold storedBalance
  rw [State.storage_writeStorage]
  by_cases hab : b = a
  · rw [if_pos ⟨rfl, by rw [hab]⟩, if_pos hab, BitVec.toNat_ofNat, Nat.mod_eq_of_lt hn]
  · rw [if_neg fun h => hab (tokenSlot_injective h.2), if_neg hab]

theorem storedBalance_lt (contract : EvmAddress) (s : State) (a : EvmAddress) :
    storedBalance contract s a < 2 ^ 256 := (s.storage contract (tokenSlot a)).isLt

/-- The two writes of a transfer move the amount. -/
theorem moves_writeStorage (contract sender dest : EvmAddress) (s : State) {value : ℕ}
    (henough : value ≤ storedBalance contract s sender)
    (harrived : move (storedBalance contract s) sender dest value dest < 2 ^ 256) :
    Moves (storedBalance contract) sender dest value s
      ((s.writeStorage contract (tokenSlot sender)
        (BitVec.ofNat 256 (storedBalance contract s sender - value))).writeStorage contract
          (tokenSlot dest)
          (BitVec.ofNat 256 (move (storedBalance contract s) sender dest value dest))) where
  enough := henough
  balances_eq := by
    have hleft := (Nat.sub_le _ value).trans_lt (storedBalance_lt contract s sender)
    funext a
    rw [storedBalance_writeStorage contract dest a _ harrived,
      storedBalance_writeStorage contract sender a s hleft]
    by_cases hdest : a = dest
    · rw [if_pos hdest, hdest]
    · rw [if_neg hdest, move, if_neg hdest, Nat.add_zero]
      by_cases hsender : a = sender
      · rw [if_pos hsender, if_pos hsender, hsender]
      · rw [if_neg hsender, if_neg hsender]

/-- A query of the token that succeeds answers the balance. -/
theorem sampleToken_query (E : Env) (contract a : EvmAddress) (w : World) :
    (∃ w' e, EvmBridge.balanceOf E sampleToken (.query contract) a w = some (w', .error e)) ∨
    ∃ w', EvmBridge.balanceOf E sampleToken (.query contract) a w =
      some (w', .ok (min (storedBalance contract w.state a) (Bounded.maxValue balanceBits))) := by
  have hprog : sampleToken ⟨(InvokeContext.query contract).contract,
      (InvokeContext.query contract).sender, 0⟩ (balanceOfInput a) w.state =
      .exit (.succeed .returned) (word (storedBalance contract w.state a)) := by
    have harg : BitVec.ofNat 160 (argument (balanceOfInput a) 0) = a := by
      have h := argument_zero_append [0x70, 0xa0, 0x82, 0x31] [] rfl a
      rw [List.append_nil] at h
      exact h
    have hselector : (balanceOfInput a).take 4 = [0x70, 0xa0, 0x82, 0x31] := rfl
    unfold sampleToken
    simp only [harg]
    rw [if_pos hselector]
    rfl
  rcases hcall : evmExecute E sampleToken (.query contract) (balanceOfInput a) gasLimit 0 true w
    with ⟨w', e | info⟩
  · refine .inl ⟨w', .evm e, ?_⟩
    unfold EvmBridge.balanceOf
    rw [hcall]
  · -- the call may fail for gas; if it returns, its output is that of the program
    have hinfo := congrArg Prod.snd hcall
    obtain ⟨w₁, s, g, -, -, -, hanswer, -, -⟩ := Runner.call_eq_ok (Prod.ext rfl hinfo)
    have houtput : info.output = word (storedBalance contract w.state a) := by
      rw [hprog] at hanswer
      rw [hanswer]
      rfl
    have hread : beNat info.output = storedBalance contract w.state a := by
      rw [houtput, beNat_word (storedBalance_lt contract w.state a)]
    have hlength : info.output.length ≤ 32 := by
      rw [houtput]
      exact (length_beBytes 32 _).le
    unfold EvmBridge.balanceOf
    rw [hcall]
    simp only []
    cases handleExitReason info.exitReason with
    | error e => exact .inl ⟨w', e, rfl⟩
    | ok u => exact .inr ⟨w', by rw [if_pos hlength, hread]⟩

/-- The program of a transfer. -/
theorem sampleToken_transferInput (contract sender dest : EvmAddress) {value : ℕ}
    (hvalue : value < 2 ^ 256) (s : State) :
    sampleToken ⟨contract, sender, 0⟩ (transferInput dest value) s =
      if value ≤ storedBalance contract s sender ∧
          move (storedBalance contract s) sender dest value dest < 2 ^ 256 then
        .setStorage (tokenSlot sender)
          (BitVec.ofNat 256 (storedBalance contract s sender - value)) <|
        .setStorage (tokenSlot dest)
          (BitVec.ofNat 256 (move (storedBalance contract s) sender dest value dest)) <|
        .exit (.succeed .returned) (word 1)
      else .exit .revert [] := by
  have hdest := argument_zero_append [0xa9, 0x05, 0x9c, 0xbb] (word value) rfl dest
  have hselector : (transferInput dest value).take 4 ≠ [0x70, 0xa0, 0x82, 0x31] := by
    have htake : (transferInput dest value).take 4 = [0xa9, 0x05, 0x9c, 0xbb] := rfl
    rw [htake]
    decide
  unfold sampleToken
  rw [if_neg hselector]
  simp only [argument_transferInput_one dest hvalue]
  rw [show BitVec.ofNat 160 (argument (transferInput dest value) 0) = dest from hdest]

/-- Two writes that succeed. -/
theorem exec_two_writes {E : Env} {origin : EvmAddress} {ctx : Context} {f : Frame} {w : World}
    {index value index' value' : H256} {output : Bytes}
    (h : (Evm.execute ((Prog.setStorage index value <| .setStorage index' value' <|
      .exit (.succeed .returned) output).exec E origin) ctx false f w).reason.isSucceed = true) :
    ∃ x, Evm.execute ((Prog.setStorage index value <| .setStorage index' value' <|
      .exit (.succeed .returned) output).exec E origin) ctx false f w = x ∧
      x.reason = .succeed .returned ∧ x.output = output ∧
      x.world.state = (w.state.writeStorage ctx.address index value).writeStorage ctx.address
        index' value' := by
  refine ⟨_, rfl, ?_⟩
  revert h
  unfold Evm.execute
  rw [Prog.exec]
  rcases h₁ : setStorage false ctx.address index value f.meters w with ⟨c₁, w₁, e | u⟩
  · intro h
    cases h
  · simp only []
    rw [Prog.exec]
    rcases h₂ : setStorage false ctx.address index' value' c₁ w₁ with ⟨c₂, w₂, e | u⟩
    · intro h
      cases h
    · intro h
      have hstate₁ := setStorage_state ctx.address index value f.meters w
      have hstate₂ := setStorage_state ctx.address index' value' c₁ w₁
      rw [h₁] at hstate₁
      rw [h₂] at hstate₂
      refine ⟨rfl, rfl, ?_⟩
      rw [← hstate₁]
      exact hstate₂

/-- **The sample token is standard**, if accounts are not reaped. -/
theorem sampleToken_standard (E : Env) (hhook : E.killHook = false) (contract : EvmAddress) :
    Standard E sampleToken contract (storedBalance contract) where
  congr h := by
    unfold storedBalance State.storage
    rw [h]
  query := sampleToken_query E contract
  transfer sender origin dest value w info hvalue hcall hsucceed := by
    have hbound : value < 2 ^ 256 := hvalue.trans_lt (by decide)
    rcases hrun : transferCall E sampleToken ⟨contract, sender, origin⟩ dest value w with ⟨w', r⟩
    rw [hrun] at hcall
    obtain rfl : r = .ok info := hcall
    obtain ⟨w₁, s, g, hreserve, hzero, -, hanswer, hcommit, -⟩ := Runner.call_eq_ok hrun
    -- reserving the storage limit and moving no value leaves the balances alone
    obtain rfl : w₁.state = s := by
      unfold Runner.transfer at hzero
      rw [if_pos rfl] at hzero
      exact Except.ok.inj hzero
    have hw₁ : w₁.state.accountStorages = w.state.accountStorages :=
      (congrArg (fun x => x.1.state.accountStorages) hreserve).symm
    have hsame : storedBalance contract w₁.state = storedBalance contract w.state := by
      unfold storedBalance State.storage
      rw [hw₁]
    simp only [sampleToken_transferInput contract sender dest hbound, ← hsame] at hanswer hcommit
    split at hanswer
    · next hcan =>
      rw [if_pos hcan] at hcommit
      rw [hanswer] at hsucceed
      obtain ⟨x, hx, hreason, houtput, hstate⟩ := exec_two_writes hsucceed
      rw [hx] at hanswer hcommit hsucceed
      obtain ⟨above, hfin⟩ := hcommit hsucceed
      refine ⟨?_, ?_, ?_⟩
      · rw [hanswer]
        change x.reason ≠ _
        rw [hreason]
        decide
      · rw [hanswer, houtput]
      · -- settling the storage changes the ledger alone
        have hend : w'.state.accountStorages = x.world.state.accountStorages := by
          rcases finish_world hfin with hw | ⟨l, accounts, l', hw⟩
          · exact congrArg (·.state.accountStorages) hw
          · rw [State.setLedger_of_not_killHook hhook] at hw
            exact congrArg (·.state.accountStorages) hw
        have hmoves := moves_writeStorage contract sender dest w₁.state hcan.1 hcan.2
        rw [← hstate] at hmoves
        refine ⟨hsame ▸ hmoves.enough, ?_⟩
        rw [← hsame, ← hmoves.balances_eq]
        unfold storedBalance State.storage
        rw [hend]
    · next hcannot =>
      rw [hanswer] at hsucceed
      cases hsucceed

/-! ### A state with tokens -/

/-- The sample environment without reaping. -/
def mockEnv : Env :=
  { sampleEnv with
    killHook := false
    deposit_le := runtime_deposit_le }

/-- Reserve addresses to evaluate operations with. -/
def sampleReserveAddress (a : EvmAddress) : EvmAddress := a + 2 ^ 100

/-- A state in which the contract 7 is the sample token. The account 1 has the address 8 with a
hundred tokens, and everybody has funds. -/
def tokenState : State :=
  { State.empty with
    accountStorages := fun a => if a = 7 then Finmap.singleton (tokenSlot 8) 100 else ∅
    mapping := ⟨Finmap.singleton 8 1, Finmap.singleton 1 8⟩
    ledger := .ofFree fun _ => 100 * REEF }

end Currencies
end Reef
