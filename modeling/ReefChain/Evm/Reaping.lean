import ReefChain.Evm.Runner

/-!
# What reaping does to addresses

An account loses its address only when it is reaped. Where reaping is not wired, no execution
changes the mapping of addresses (`call_mapping`): nothing else that a frame can ask for touches it,
and an execution that is undone takes back what it did.
-/

namespace Reef
namespace Evm

variable {E : Env} (hhook : E.killHook = false)

include hhook

/-- A change of the ledger keeps the mapping. -/
theorem setLedger_mapping (s : State) (l : Ledger AccountId) (accounts : List AccountId) :
    (s.setLedger E.toConfig l accounts).mapping = s.mapping := by
  rw [State.setLedger_of_not_killHook hhook]

theorem transferAll_mapping {s s' : State} {source dest : AccountId}
    (h : s.transferAll E.toConfig source dest = .ok s') : s'.mapping = s.mapping := by
  obtain ⟨l, -, rfl⟩ := State.transferAll_eq_ok h
  exact setLedger_mapping hhook s l _

/-- No native operation changes the mapping. -/
theorem native_mapping (s : State) (op : NativeOp) :
    (s.native E.toConfig op).mapping = s.mapping := by
  cases op with
  | setLedger l accounts => exact setLedger_mapping hhook s l accounts
  | transferMaintainer who contract newMaintainer =>
    change (Fallible.commitOrKeep (s.doTransferMaintainer who contract newMaintainer) s).mapping = _
    rcases Fallible.commitOrKeep_cases (s.doTransferMaintainer who contract newMaintainer) s with
      ⟨s', hok, heq⟩ | ⟨-, heq⟩
    · obtain ⟨info, -, rfl⟩ := State.doTransferMaintainer_eq_ok hok
      rw [heq]
      unfold State.setContractInfo
      split <;> rfl
    · rw [heq]
  | setOuter o => rfl

theorem dispatch_mapping (issuer : Context) (scheme : CallScheme) (dest : EvmAddress)
    (input : Bytes) (gas : ℕ) (context : Context) (w : World) :
    (dispatch E issuer scheme dest input gas context w).1.state.mapping = w.state.mapping := by
  change (E.execute dest input gas context w.state).1.mapping = w.state.mapping
  unfold Env.execute
  split
  · rfl
  · rfl
  · -- a core precompile is a sequence of native operations
    next p _ =>
    simp only []
    generalize (E.core p input gas context w.state).1 = ops
    generalize w.state = s
    induction ops generalizing s with
    | nil => rfl
    | cons op ops ih => exact (ih _).trans (native_mapping hhook s op)
  · rfl

theorem finish_mapping {origin : EvmAddress} {c : Chain} {w w' : World}
    {above : List StorageMeter} {r : DispatchResult}
    (h : c.finish (World.host E.toConfig origin) w = (above, w', r)) :
    w'.state.mapping = w.state.mapping := by
  rcases finish_world h with rfl | ⟨l, accounts, l', rfl⟩
  · rfl
  · exact setLedger_mapping hhook w.state l accounts

/-- No execution of a frame changes the mapping. -/
theorem mapping_frameRule (origin : EvmAddress) :
    FrameRule E origin Request.any fun _ _ w _ w' => w'.state.mapping = w.state.mapping where
  refl _ _ _ := rfl
  trans h₁ h₂ := h₂.trans h₁
  setStorage index value c w c' w' r h := by
    rcases setStorage_cases h with ⟨-, rfl⟩ | ⟨hstate, -⟩
    · rfl
    · rw [hstate]
      rfl
  log _ _ _ _ _ := rfl
  markDelete _ target c w s h := by
    -- the funds of the contract are moved, which reaps nobody without the hook
    obtain ⟨s₁, hmoved, rfl⟩ := State.markDelete_moved h
    exact (transferAll_mapping hhook hmoved).trans (State.removeAccount_mapping _ _)
  incNonce _ _ _ := rfl
  moveFunds source target value c w s h := by
    obtain ⟨l, -, rfl⟩ := State.moveFunds_eq_ok h
    exact setLedger_mapping hhook w.state l _
  dispatch _ issuer scheme dest value input gas _ w :=
    dispatch_mapping hhook issuer scheme dest input gas _ w
  initialise _ _ _ _ _ _ _ _ w c₁ w₁ c₂ w₂ r _ _ _ hran h := by
    have hran : w₁.state.mapping = w.state.mapping := hran
    -- a contract that is initialised gets a record and a reference to its code
    obtain ⟨-, ⟨rfl, -⟩ | ⟨s, used, hs, rfl⟩⟩ := initialise_cases h
    · exact hran
    · obtain ⟨info, -, -, heq⟩ := State.onContractInitialization_eq_ok hs
      have hmapping := congrArg State.mapping heq
      refine hmapping.trans (Eq.trans ?_ hran)
      unfold State.refCode
      simp only []
      split <;> rfl
  commit _ _ _ hran h := (finish_mapping hhook h).trans hran
  refused _ _ _ _ _ := rfl
  rollback _ _ _ _ := rfl

/-- **Calls.** No call changes the mapping, if accounts are not reaped. -/
theorem call_mapping {sender origin target : EvmAddress} {value gasLimit storageLimit : ℕ}
    {prog : Prog} {w : World} :
    (Runner.call E sender origin target value gasLimit storageLimit prog w).1.state.mapping =
      w.state.mapping := by
  have hrule : RunRule E Request.any (fun _ => False)
      (fun _ _ _ w _ w' => w'.state.mapping = w.state.mapping)
      fun w w' => w'.state.mapping = w.state.mapping :=
    { frame := mapping_frameRule hhook
      refl := fun _ => rfl
      undone := fun _ _ _ _ => rfl
      reserve := fun h => (congrArg (·.1.state.mapping) h).symm
      assigned := fun h => h.elim
      ends := fun _ hran =>
        { commit := fun h => (finish_mapping hhook h).trans hran
          refused := fun _ => rfl
          rollback := rfl } }
  exact hrule.call prog.only_any

end Evm
end Reef
