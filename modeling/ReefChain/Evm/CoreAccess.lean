import ReefChain.Evm.Runner
import ReefChain.Lib.Run

/-!
# Who makes the core precompiles act

The core precompiles are meant to act for system contracts only, and a call is routed to them by the
caller in its context. For `CALL`, `STATICCALL` and `CALLCODE` that caller is the frame that issued
the call. A `DELEGATECALL` passes on the context of the issuing frame, so the caller is whoever
called *that* frame.

Every call an execution makes is observed with the context of the issuing frame. The relation
between executions that says that new observations are of a given kind satisfies the induction
principle for transactions (`observes_runRule`), and so what holds of one routed call holds of all
calls of all executions. The result is exact: the frames that have made a core precompile act are
all those of system contracts if and only if no frame of another contract that was called by a
system contract has delegated to a core precompile (`core_precompiles_by_system_iff`).

The zero address counts as a system contract, and it is the sender of the view calls other pallets
make. So a contract that is asked for its name can delegate to the multi-currency precompile
(`view_call_reaches_multiCurrency`).
-/

namespace Reef
namespace Evm

/-! ### Observations of a run -/

/-- A kind of observations that contains all meterings, initialisations and settlements. -/
structure Observation.Routine (P : Observation → Prop) : Prop where
  metered : ∀ counter storage, P (.metered counter storage)
  initialised : ∀ before key address code, P (.initialised before key address code)
  settled : ∀ before contract used refunded, P (.settled before contract used refunded)

section Rule

variable {P : Observation → Prop} (hP : Observation.Routine P)

include hP

theorem setStorage_observes {b : Bool} {address : EvmAddress} {index value : H256} {c c' : Chain}
    {w w' : World} {r : Except ExitError Unit}
    (h : setStorage b address index value c w = (c', w', r)) : Observes P w w' := by
  rcases setStorage_cases h with
    ⟨-, rfl⟩ | ⟨-, ⟨-, -, -, htrace⟩ | ⟨-, -, -, htrace⟩ | ⟨-, -, htrace⟩⟩
  · exact .of_trace_eq rfl
  · exact .of_cons (hP.metered _ _) htrace
  · exact .of_cons (hP.metered _ _) htrace
  · exact .of_trace_eq htrace

theorem initialise_observes {C : Config} {key : CreateKey} {address maintainer : EvmAddress}
    {code : Bytes} {used : StorageMeter → ℕ × ℤ} {c c' : Chain} {w w' : World}
    {r : Except ExitError Unit}
    (h : initialise C key address maintainer code used c w = (c', w', r)) : Observes P w w' := by
  rcases initialise_cases h with ⟨-, ⟨rfl, -⟩ | ⟨s, u, -, rfl⟩⟩
  · exact .of_cons (hP.metered _ _) rfl
  · have hmetered : Observes P w
        (w.observe (.metered c.self.selfUsed (C.contractStorage code))) :=
      .of_cons (hP.metered _ _) rfl
    exact hmetered.trans (.of_cons (hP.initialised _ _ _ _) rfl)

theorem finish_observes {C : Config} {origin : EvmAddress} {c : Chain} {w w' : World}
    {above : List StorageMeter} {r : DispatchResult}
    (h : c.finish (World.host C origin) w = (above, w', r)) : Observes P w w' := by
  rcases finish_world h with rfl | ⟨l, accounts, l', rfl⟩
  · exact .of_trace_eq rfl
  · exact .of_cons (hP.settled _ _ _ _) rfl

/-- New observations are of the kind `P` if those of routed calls are. -/
theorem observes_runRule {E : Env}
    (hdispatched : ∀ issuer (scheme : CallScheme) dest value,
      P (.dispatched issuer scheme dest (scheme.context issuer dest value)
        (route dest (scheme.context issuer dest value).caller))) :
    RunRule E Request.any (fun _ => True) (fun _ _ _ w _ w' => Observes P w w') (Observes P) := by
  have hrule : WorldRule E (Observes P) :=
    { refl := fun _ => .of_trace_eq rfl
      trans := Observes.trans
      undo := fun h => h.undo _
      setStorage := fun h => setStorage_observes hP h
      markDelete := fun _ => .of_trace_eq rfl
      incNonce := fun _ _ => .of_trace_eq rfl
      moveFunds := fun _ => .of_trace_eq rfl
      dispatch := fun issuer scheme dest value _ _ _ =>
        .of_cons (hdispatched issuer scheme dest value) rfl
      other := fun _ _ _ _ _ _ => .of_trace_eq rfl
      initialise := fun _ hran h => Observes.trans hran (initialise_observes hP h)
      finish := fun h => finish_observes hP h }
  exact hrule.runRule fun hran h => Observes.trans hran (initialise_observes hP h)

end Rule

/-! ### Routed calls -/

/-- A call is routed by the caller its opcode puts into the context. -/
def Routed : Observation → Prop
  | .dispatched issuer scheme dest context taken =>
    (∃ value, context = scheme.context issuer dest value) ∧ taken = route dest context.caller
  | _ => True

/-- If a core precompile was made to act, then by a frame of a system contract. -/
def BySystem : Observation → Prop
  | .dispatched issuer _ _ _ (.core _) => isSystemContract issuer.address = true
  | _ => True

/-- A frame of a contract that is not a system contract, but was called by one, delegates to a core
precompile. -/
def Borrowed : Observation → Prop
  | .dispatched issuer .delegateCall dest _ _ =>
    (corePrecompile dest).isSome ∧ isSystemContract issuer.address = false ∧
      isSystemContract issuer.caller = true
  | _ => False

/-- The caller in the context of a call is the issuing frame, unless the call is delegated. -/
theorem CallScheme.context_caller {scheme : CallScheme} (h : scheme ≠ .delegateCall)
    (issuer : Context) (dest : EvmAddress) (value : ℕ) :
    (scheme.context issuer dest value).caller = issuer.address := by
  cases scheme with
  | call => rfl
  | callCode => rfl
  | delegateCall => exact absurd rfl h
  | staticCall => rfl

/-- A routed call makes a core precompile act for a system contract only, unless a frame borrows the
authority of its caller. -/
theorem Routed.bySystem_iff {e : Observation} (h : Routed e) : BySystem e ↔ ¬ Borrowed e := by
  cases e with
  | metered | initialised | settled => simp [BySystem, Borrowed]
  | dispatched issuer scheme dest context taken =>
    obtain ⟨⟨value, rfl⟩, rfl⟩ := h
    by_cases hdelegate : scheme = .delegateCall
    · -- the context is that of the issuing frame
      subst hdelegate
      change BySystem (.dispatched issuer .delegateCall dest issuer (route dest issuer.caller)) ↔ _
      constructor
      · rintro hsystem ⟨hcore, haddress, hcaller⟩
        obtain ⟨p, hp⟩ := Option.isSome_iff_exists.mp hcore
        rw [route_eq_core.mpr ⟨hp, hcaller⟩] at hsystem
        exact absurd (haddress.symm.trans hsystem) (by decide)
      · intro hnot
        unfold BySystem
        split
        · next issuer' _ _ _ p heq =>
          injection heq with hissuer _ _ _ hroute
          subst hissuer
          obtain ⟨hp, hcaller⟩ := route_eq_core.mp hroute
          by_contra haddress
          refine hnot ⟨?_, ?_, hcaller⟩
          · rw [hp]
            rfl
          · exact Bool.eq_false_iff.mpr haddress
        · trivial
    · -- the issuing frame is the caller
      rw [CallScheme.context_caller hdelegate]
      have hnot : ¬ Borrowed (.dispatched issuer scheme dest (scheme.context issuer dest value)
          (route dest issuer.address)) := by
        intro hb
        cases scheme with
        | delegateCall => exact hdelegate rfl
        | call => exact hb
        | callCode => exact hb
        | staticCall => exact hb
      refine ⟨fun _ => hnot, fun _ => ?_⟩
      unfold BySystem
      split
      · next issuer' _ _ _ p heq =>
        injection heq with hissuer _ _ _ hroute
        subst hissuer
        exact (route_eq_core.mp hroute).2
      · trivial

instance (e : Observation) : Decidable (BySystem e) := by
  unfold BySystem
  split <;> infer_instance

/-! ### All executions -/

/-- The calls of every sequence of executions are routed. -/
theorem routed_run (E : Env) (s : State) (xs : List Execution) :
    ∀ e ∈ (Run.run (Execution.step E) ⟨s, []⟩ xs).trace, Routed e := by
  have hroutine : Observation.Routine Routed :=
    ⟨fun _ _ => trivial, fun _ _ _ _ => trivial, fun _ _ _ _ => trivial⟩
  have hrule : RunRule E Request.any (fun _ => True) (fun _ _ _ w _ w' => Observes Routed w w')
      (Observes Routed) :=
    observes_runRule hroutine fun _ _ _ value => ⟨⟨value, rfl⟩, rfl⟩
  refine Run.invariant_of_step (fun w : World => ∀ e ∈ w.trace, Routed e) ?_ ?_
  · intro w x hw e he
    rcases hrule.step (fun h => h.undo _) (fun _ h => h.undo _) w x (fun _ _ => trivial) e he with
      hold | hnew
    · exact hw e hold
    · exact hnew
  · intro e he
    cases he

/-- **The core precompiles act for system contracts only**, in every sequence of executions from any
state, exactly when no frame of another contract uses a system contract's call to delegate to
one. -/
theorem core_precompiles_by_system_iff (E : Env) (s : State) (xs : List Execution) :
    (∀ e ∈ (Run.run (Execution.step E) ⟨s, []⟩ xs).trace, BySystem e) ↔
      ∀ e ∈ (Run.run (Execution.step E) ⟨s, []⟩ xs).trace, ¬ Borrowed e :=
  forall₂_congr fun e he => (routed_run E s xs e he).bySystem_iff

/-- The code of a contract that delegates to the multi-currency precompile. -/
def delegating : Prog :=
  .call .delegateCall (fromLowU64 PRECOMPILE_ADDRESS_START) 0 [] none
    (.exit (.succeed .stopped) []) (.exit (.succeed .returned) [])

/-- An address that is not that of a system contract. -/
def token : EvmAddress := BitVec.ofNat 160 (2 ^ 100)

/-- A state with a deployed contract at `token`. -/
def withToken : State :=
  { State.empty with
    accounts := Finmap.singleton token (.new 1 (some ⟨sampleEnv.codeHash [1], 7, true⟩))
    codes := Finmap.singleton (sampleEnv.codeHash [1]) [1]
    codeInfos := Finmap.singleton (sampleEnv.codeHash [1]) ⟨1, 1⟩ }

/-- A view call, which another pallet makes with the zero address as sender, lets the called
contract use a core precompile although it is not a system contract. -/
theorem view_call_reaches_multiCurrency :
    ∃ e ∈ (Run.run (Execution.step sampleEnv) ⟨withToken, []⟩
      [.execute 0 0 token 0 2_100_000 0 true delegating]).trace, ¬ BySystem e := by
  decide

end Evm
end Reef
