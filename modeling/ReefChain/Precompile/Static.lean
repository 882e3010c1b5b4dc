import ReefChain.Evm.Runner
import ReefChain.Precompile.Core

/-!
# Static frames

A frame that is called statically is not to change the chain. The handler refuses its requests that
write storage, self-destruct, create or move funds, and passes the mark on to the frames it calls.
The precompiles are not told of it.

So a static frame is as harmless as the core precompiles it reaches. `Prog.Queries` says of a
program that all requests it makes of core precompiles, in whatever frame, are queries; it is
computed from the program and its context. The proof follows the program. The meter of a static
frame counts nothing of its own (`Untouched.self`), so that finishing it settles nothing, and a
nested frame that is committed leaves the chain as a nested frame that is undone does
(`sub_untouched`).

Without the condition a static frame does change the chain: a system contract moves funds from
inside of it (`static_call_moves_funds`).
-/

namespace Reef
namespace Evm

open Precompile Scale

/-! ### The condition -/

/-- The call is not routed to a core precompile, or it is a query. -/
def callQueries (context : Context) (dest : EvmAddress) (input : Bytes) : Bool :=
  match route dest context.caller with
  | .core p => isQuery p input
  | _ => true

/-- All requests of core precompiles that a program gets to make in a static frame are queries. A
write ends the frame there, and nothing behind it runs. Creations and the calls that move funds are
refused, the latter before any precompile is asked, and the frame goes on. -/
def Prog.Queries : Prog → Context → Bool
  | .exit _ _, _ => true
  | .cost _ _ next, ctx => next.Queries ctx
  | .setStorage _ _ _, _ => true
  | .log _ _ next, ctx => next.Queries ctx
  | .selfdestruct _, _ => true
  | .create _ _ _ _ next, ctx => next.Queries ctx
  | .call scheme dest value input _ callee next, ctx =>
    let context := scheme.context ctx dest value
    ((scheme.transfer ctx dest value).isSome ||
      (callQueries context dest input && callee.Queries context)) && next.Queries ctx

/-! ### What a static frame leaves -/

/-- The meters have counted nothing but totals, and nothing has changed but the log. -/
structure Untouched (c : Chain) (w : World) (c' : Chain) (w' : World) : Prop where
  self : c.self.Kept c'.self
  above : List.Forall₂ StorageMeter.Kept c.above c'.above
  state : w'.state = { w.state with events := w'.state.events }

namespace Untouched

variable {c c₁ c₂ : Chain} {w w₁ w₂ : World}

theorem refl (c : Chain) (w : World) : Untouched c w c w := ⟨.refl _, keptAll_refl _, rfl⟩

theorem trans (h₁ : Untouched c w c₁ w₁) (h₂ : Untouched c₁ w₁ c₂ w₂) : Untouched c w c₂ w₂ := by
  refine ⟨h₁.self.trans h₂.self, keptAll_trans h₁.above h₂.above, ?_⟩
  rw [h₂.state, h₁.state]

/-- Only the world has changed. -/
theorem of_state (h : w₁.state = { w.state with events := w₁.state.events }) :
    Untouched c w c w₁ :=
  ⟨.refl _, keptAll_refl _, h⟩

end Untouched

/-- Putting the same ledger in place reaps nobody. -/
theorem State.setLedger_self (C : Config) (s : State) (accounts : List AccountId) :
    s.setLedger C s.ledger accounts = s := by
  refine State.setLedger_of_not_emptied fun a _ => ?_
  rw [Ledger.emptied, decide_eq_false_iff_not]
  rintro ⟨hpos, hnone⟩
  exact hpos.ne' hnone

/-- A frame with nothing to settle, inside of another one, settles nothing. -/
theorem finish_state {C : Config} {origin : EvmAddress} {c : Chain} {w w' : World}
    {above : List StorageMeter} {r : DispatchResult} (hself : c.self.selfUsed = c.self.selfRefunded)
    (habove : c.above ≠ []) (h : c.finish (World.host C origin) w = (above, w', r)) :
    w'.state = w.state := by
  -- the settlement puts the ledger it finds in place
  have hcharge : ((World.host C origin).chargeStorage w c.self.contract c.self.selfUsed
      c.self.selfRefunded).1.state = w.state := by
    rw [hself]
    change w.state.setLedger C ((w.state.deposits C).chargeStorage origin w.state.ledger
      c.self.contract c.self.selfRefunded c.self.selfRefunded).1 _ = w.state
    unfold DepositConfig.chargeStorage
    rw [if_pos rfl]
    exact w.state.setLedger_self C _
  rcases Chain.finish_host h with ⟨rfl, -⟩ | ⟨e, h₁, -⟩ | ⟨w₁, h₁, h₂⟩
  · rfl
  · rw [h₁] at hcharge
    exact hcharge
  · rw [h₁] at hcharge
    -- and only the root unreserves
    cases above with
    | nil =>
      have hlen := (Chain.finish_kept h).length_eq
      exact absurd (List.length_eq_zero_iff.mp hlen) habove
    | cons m ms =>
      obtain rfl := congrArg Prod.fst h₂
      exact hcharge

/-! ### Nested frames -/

section

variable {E : Env} {origin : EvmAddress}

variable {w : World} {issuer : Context} {scheme : CallScheme} {dest : EvmAddress} {input : Bytes}

/-- Back from a nested frame, the frame around it has counted nothing. -/
theorem Untouched.back {c child : Chain} {contract : EvmAddress} {w' : World}
    {above : List StorageMeter} (hchild : c.childMeter contract = .ok child)
    (hkept : List.Forall₂ StorageMeter.Kept child.above above)
    (hstate : w'.state = { w.state with events := w'.state.events }) :
    Untouched c w (c.back above) w' := by
  rw [Chain.childMeter_eq_ok hchild] at hkept
  cases hkept with
  | cons h hs => exact ⟨h, hs, hstate⟩

/-- Finishing a nested frame that has counted nothing does not change the state. -/
theorem Untouched.finish {c child child' : Chain} {contract : EvmAddress} {w₁ w₂ : World}
    {above : List StorageMeter} {r : DispatchResult} (hchild : c.childMeter contract = .ok child)
    (hrun : Untouched child w child' w₁)
    (hfin : child'.finish (World.host E.toConfig origin) w₁ = (above, w₂, r)) :
    w₂.state = w₁.state := by
  have hnew := Chain.childMeter_eq_ok hchild
  subst hnew
  refine finish_state ?_ (fun hnone => ?_) hfin
  · rw [hrun.self.selfUsed, hrun.self.selfRefunded]
    rfl
  · have hkept := hrun.above
    rw [hnone] at hkept
    cases hkept

/-- A nested frame that leaves everything untouched does so however it ends. -/
theorem sub_untouched {ρ : Type} {contract : EvmAddress}
    {body : Chain → Gasometer × World → Chain × (Gasometer × World) × TransactionOutcome ρ}
    {c : Chain} {g : Gasometer}
    (hbody : ∀ child, c.childMeter contract = .ok child →
      Untouched child w (body child (g, w)).1 (body child (g, w)).2.1.2) {c' : Chain}
    {g' : Gasometer} {w' : World} {r : Except DispatchError ρ}
    (h : runSubTransaction ((World.host E.toConfig origin).keep Gasometer) contract body c (g, w) =
      (c', (g', w'), r)) : Untouched c w c' w' := by
  unfold runSubTransaction at h
  split at h
  · cases h
    exact .refl c w
  · next child hchild =>
    have hrun := hbody child hchild
    split at h
    · next child' p r' heq =>
      obtain ⟨g₁, w₁⟩ := p
      rw [heq] at hrun
      -- the frame asks to commit; its meter has nothing to settle
      rw [Chain.finish_keep] at h
      rcases hfin : child'.finish (World.host E.toConfig origin) w₁ with ⟨above, w₂, e | u⟩
      · simp only [hfin] at h
        cases h
        exact .back hchild (keptAll_trans hrun.above (Chain.finish_kept hfin)) rfl
      · simp only [hfin] at h
        cases h
        refine .back hchild (keptAll_trans hrun.above (Chain.finish_kept hfin)) ?_
        rw [hrun.finish hchild hfin]
        exact hrun.state
    · next child' p r' heq =>
      obtain ⟨g₁, w₁⟩ := p
      rw [heq] at hrun
      cases h
      exact .back hchild hrun.above rfl

variable {K : CoreConfig}

/-- A call that is a query changes nothing. -/
theorem dispatch_state {context : Context} (gas : ℕ) (w : World)
    (h : callQueries context dest input = true) :
    (dispatch (wire K E) issuer scheme dest input gas context w).1.state = w.state := by
  change ((wire K E).execute dest input gas context w.state).1 = w.state
  unfold callQueries at h
  unfold Env.execute
  cases hroute : route dest context.caller with
  | ethereum p => rfl
  | refused => rfl
  | interpret => rfl
  | core p =>
    rw [hroute] at h
    -- a query performs no native operations
    have hops : ((wire K E).core p input gas context w.state).1 = [] :=
      (run_silent w.state h).answer fun _ => rfl
    simp only [hops]
    rfl

/-- The nested frame of a static call leaves everything untouched if its code does. -/
theorem callBody_untouched {context : Context} {gas : ℕ} {run : Exec} {child : Chain}
    {g : Gasometer} (hcall : callQueries context dest input = true)
    (hrun : ∀ f w, f.meters = child →
      Untouched child w (run context true f w).frame.meters (run context true f w).world) :
    Untouched child w
      (callBody (wire K E) issuer scheme dest none input gas true context run child (g, w)).1
      (callBody (wire K E) issuer scheme dest none input gas true context run child
        (g, w)).2.1.2 := by
  unfold callBody
  simp only [transferOf]
  split
  · exact .refl child w
  -- no funds are moved, and the precompiles are only queried
  · have hsent : Untouched child w child
        (dispatch (wire K E) issuer scheme dest input gas context w).1 := by
      refine .of_state ?_
      rw [dispatch_state gas w hcall]
    split
    · next heq =>
      rw [heq] at hsent
      exact hsent
    · next heq =>
      rw [heq] at hsent
      split
      · exact hsent
      · split <;> exact hsent
    · next w' heq =>
      rw [heq] at hsent
      -- the code of the callee, however it ends
      have hdone := hsent.trans (hrun ⟨.new gas, child⟩ w' rfl)
      split
      · simpa using hdone
      · simpa using hdone
      · simpa using hdone
      · split
        · simpa using hdone
        · simpa using hdone

/-- A call that moves funds is refused in a static frame. -/
theorem call_refused {context : Context} {transfer : Option Transfer} {gas : Option ℕ}
    {isStaticCall : Bool} {run : Exec} {f : Frame} (htransfer : transfer.isSome = true) :
    Untouched f.meters w
      (call (wire K E) origin true issuer scheme dest transfer input gas isStaticCall context run
        f w).frame.meters
      (call (wire K E) origin true issuer scheme dest transfer input gas isStaticCall context run
        f w).world := by
  unfold call
  rw [if_pos ⟨rfl, htransfer⟩]
  exact .refl f.meters w

/-- **Static calls.** A call from a static frame, or with `STATICCALL`, leaves everything untouched
if it is a query or its code does. -/
theorem call_untouched {b : Bool} {value : ℕ} {gas : Option ℕ} {run : Exec} {f : Frame}
    (hstatic : b = true ∨ scheme = .staticCall)
    (hcall : callQueries (scheme.context issuer dest value) dest input = true)
    (hrun : ∀ f w, Untouched f.meters w
      (run (scheme.context issuer dest value) true f w).frame.meters
      (run (scheme.context issuer dest value) true f w).world) :
    let x := call (wire K E) origin b issuer scheme dest (scheme.transfer issuer dest value) input
      gas (scheme = .staticCall) (scheme.context issuer dest value) run f w
    Untouched f.meters w x.frame.meters x.world := by
  intro x
  simp only [x]
  unfold call
  split
  · exact .refl f.meters w
  · next hguard =>
    -- what is not refused moves no funds, and its frame is static
    have htransfer : scheme.transfer issuer dest value = none := by
      rcases hstatic with rfl | rfl
      · simpa using hguard
      · rfl
    have hframe : (b || decide (scheme = .staticCall)) = true := by
      rw [Bool.or_eq_true, decide_eq_true_iff]
      exact hstatic
    simp only [hframe, htransfer]
    split
    all_goals
      rename_i heq
      refine sub_untouched (fun child hchild => ?_) heq
      refine callBody_untouched hcall fun f' w' hf' => ?_
      rw [← hf']
      exact hrun f' w'

/-- **Static frames.** The program of a static frame whose requests of core precompiles are queries
leaves everything untouched. -/
theorem exec_untouched (prog : Prog) {ctx : Context} {f : Frame} (h : prog.Queries ctx = true) :
    Untouched f.meters w (prog.exec (wire K E) origin ctx true f w).frame.meters
      (prog.exec (wire K E) origin ctx true f w).world := by
  induction prog generalizing ctx f w with
  | exit reason output => exact .refl f.meters w
  | cost gas refund next ih =>
    unfold Prog.exec
    split
    · exact .refl f.meters w
    · next g u hcost => exact ih (f := ⟨(g.recordRefund refund).1, f.meters⟩) h
  | setStorage index value next ih => exact .refl f.meters w
  | log topics data next ih =>
    unfold Prog.exec
    have hlog : Untouched f.meters w f.meters
        { w with state := w.state.log ctx.address topics data } := .of_state rfl
    exact hlog.trans (ih h)
  | selfdestruct target => exact .refl f.meters w
  | create salt value initCode init next _ ih =>
    -- the creation is refused, and the frame goes on
    exact ih h
  | call scheme dest value input gas callee next ihCallee ihNext =>
    unfold Prog.Queries at h
    simp only [Bool.and_eq_true, Bool.or_eq_true] at h
    obtain ⟨hcalled, hnext⟩ := h
    have hdone : Untouched f.meters w
        (Evm.call (wire K E) origin true ctx scheme dest (scheme.transfer ctx dest value) input gas
          (scheme = .staticCall) (scheme.context ctx dest value)
          (callee.exec (wire K E) origin) f w).frame.meters
        (Evm.call (wire K E) origin true ctx scheme dest (scheme.transfer ctx dest value) input gas
          (scheme = .staticCall) (scheme.context ctx dest value)
          (callee.exec (wire K E) origin) f w).world := by
      rcases hcalled with htransfer | ⟨hcall, hcallee⟩
      · exact call_refused htransfer
      · exact call_untouched (.inl rfl) hcall fun f' w' => ihCallee hcallee
    unfold Prog.exec
    simp only []
    split
    · exact hdone
    · exact hdone.trans (ihNext hnext)

end

/-- **Static frames do not change the chain**, whether they succeed or fail and whatever they call,
as long as what they ask of core precompiles are queries. The frame is that of a call from a static
frame or of a `STATICCALL`, from its start until it has been finished. -/
theorem static_frame_keeps_state (K : CoreConfig) (E : Env) (origin : EvmAddress) (b : Bool)
    (issuer : Context) (scheme : CallScheme) (dest : EvmAddress) (value : ℕ) (input : Bytes)
    (gas : Option ℕ) (callee : Prog) (f : Frame) (w : World)
    (hstatic : b = true ∨ scheme = .staticCall)
    (hcall : callQueries (scheme.context issuer dest value) dest input = true)
    (hcallee : callee.Queries (scheme.context issuer dest value) = true) :
    let x := call (wire K E) origin b issuer scheme dest (scheme.transfer issuer dest value) input
      gas (scheme = .staticCall) (scheme.context issuer dest value)
      (callee.exec (wire K E) origin) f w
    x.world.state = { w.state with events := x.world.state.events } :=
  (call_untouched hstatic hcall fun _ _ => exec_untouched callee hcallee).state

/-! ### A static call that moves funds -/

/-- A system contract. -/
def systemContract : EvmAddress := fromLowU64 PREDEPLOY_ADDRESS_START

/-- The input of a request of the multi-currency precompile for the native currency. -/
def nativeRequest (action : ℕ) (arguments : List ℕ) : Bytes :=
  word action ++ word 0 ++ (arguments.map word).flatten

/-- A system contract that makes a request of the multi-currency precompile. -/
def asking (input : Bytes) : Prog :=
  .call .staticCall (fromLowU64 PRECOMPILE_ADDRESS_START) 0 input none
    (.exit (.succeed .stopped) []) (.exit (.succeed .returned) [])

/-- A chain on which the account of the address `1` has funds. -/
def withFunds : State :=
  { State.empty with
    ledger := .ofFree fun a => if a = EvmAccounts.padded 1 then 100 else 0 }

/-- The frame of a contract that calls others. -/
def callingFrame : Frame := ⟨.new 1_000_000, .root 7 0⟩

/-- The contract `7` calls the system contract with `STATICCALL`. -/
def staticCallOf (callee : Prog) : Exit :=
  call (wire sampleCore sampleEnv) 7 false ⟨7, 1, 0⟩ .staticCall systemContract none [] none true
    ⟨systemContract, 7, 0⟩ (callee.exec (wire sampleCore sampleEnv) 7) callingFrame ⟨withFunds, []⟩

/-- Asking for the balance of an account in a static frame leaves the chain as it was. -/
theorem static_frame_keeps_state_balance :
    (asking (nativeRequest 1 [1])).Queries ⟨systemContract, 7, 0⟩ = true ∧
      (staticCallOf (asking (nativeRequest 1 [1]))).world.state =
        { withFunds with
          events := (staticCallOf (asking (nativeRequest 1 [1]))).world.state.events } := by
  have hqueries : (asking (nativeRequest 1 [1])).Queries ⟨systemContract, 7, 0⟩ = true := by
    decide +kernel
  exact ⟨hqueries, static_frame_keeps_state sampleCore sampleEnv 7 false ⟨7, 1, 0⟩ .staticCall
    systemContract 0 [] none _ callingFrame ⟨withFunds, []⟩ (.inr rfl) (by decide +kernel) hqueries⟩

/-- **A static frame that moves funds.** The system contract is called with `STATICCALL` and asks
the multi-currency precompile for a transfer; the frame succeeds and the funds have moved. -/
theorem static_call_moves_funds :
    let x := staticCallOf (asking (nativeRequest 2 [1, 2, 40]))
    x.reason = .succeed .returned ∧
      withFunds.ledger.free (EvmAccounts.padded 2) = 0 ∧
      x.world.state.ledger.free (EvmAccounts.padded 2) = 40 := by
  decide +kernel

end Evm
end Reef
