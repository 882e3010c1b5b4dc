import ReefChain.Evm.OriginDeposit
import ReefChain.Evm.Runner

/-!
# What a run costs its origin

A top level execution reports how much storage it has used. This file compares the report with what
the origin has paid.

`Frames` relates an execution to the *tally* of its frames: what the frame itself has charged and
refunded, all settlements of the frames below it, and the settlements that are kept because no frame
around them was rolled back. Every execution has a tally (`exec_frames`). The steps of an execution
may be required to meet conditions; in a regular execution no sum of a meter is cut off, refunds are
covered by the reserve of the contract, and nothing but settlements touches the funds of the origin.

* The meters count all settlements of the tally (`Frames.counted`), and the report is read off the
  root meter.
* The origin pays for those that are kept (`Frames.pays`): the deposit of each, and with it the
  existential deposit for each that needs more storage than it frees.

The two are compared in `run_costs_its_report_iff`, and for runs without an overrun or a value that
stays with the origin in `plain_run_costs_its_report_iff`. With every settlement of growing storage
the origin loses the existential deposit on top of what is reported (`growing_run_costs_more`).
-/

namespace Reef
namespace Evm

open Bounded Walk

/-! ### Tallies -/

/-- A settlement from the point of view of the origin: whether it is with itself is all that matters
of the contract. -/
structure Paid where
  used : ℕ
  refunded : ℕ
  own : Bool
  deriving DecidableEq, Repr

/-- What the frames of an execution have done with their meters. -/
structure Tally where
  /-- The storage the frame itself charges. -/
  used : ℕ
  /-- The storage the frame itself refunds. -/
  refunded : ℕ
  /-- The settlements that the frames below pass up. -/
  all : List Settlement
  /-- The settlements of the frames below that are not undone. -/
  kept : List Paid

namespace Tally

/-- Nothing was done. -/
def none : Tally := ⟨0, 0, [], []⟩

/-- One part of an execution after the other. -/
def andThen (t u : Tally) : Tally :=
  ⟨t.used + u.used, t.refunded + u.refunded, t.all ++ u.all, t.kept ++ u.kept⟩

end Tally

/-- The settlement of a frame with the meter `m`, in the state `s`. -/
def StorageMeter.paid (m : StorageMeter) (origin : EvmAddress) (s : State) : Paid :=
  ⟨m.selfUsed, m.selfRefunded, decide (s.getAccountId m.contract = s.getAccountId origin)⟩

/-- What may be required of the steps of an execution. -/
structure Conditions where
  /-- A step that is not about meters. -/
  quiet : World → World → Prop
  /-- A counter is about to count. -/
  counts : ℕ → ℕ → Prop
  /-- A settlement is about to be added to a meter. -/
  absorbs : StorageMeter → Settlement → Prop
  /-- A frame with the given meter is about to settle for good. -/
  settles : World → StorageMeter → Prop

/-- Nothing is required. -/
def Conditions.any : Conditions :=
  ⟨fun _ _ => True, fun _ _ => True, fun _ _ => True, fun _ _ => True⟩

/-- The execution from `c` and `w` to `c'` and `w'` meets the conditions and has the tally `t`. -/
inductive Frames (C : Config) (origin : EvmAddress) (K : Conditions) :
    Chain → World → Tally → Chain → World → Prop
  | refl (c : Chain) (w : World) : Frames C origin K c w .none c w
  | trans {c₁ c₂ c₃ : Chain} {w₁ w₂ w₃ : World} {t u : Tally} :
    Frames C origin K c₁ w₁ t c₂ w₂ → Frames C origin K c₂ w₂ u c₃ w₃ →
    Frames C origin K c₁ w₁ (t.andThen u) c₃ w₃
  | quiet (c : Chain) {w w' : World} : K.quiet w w' → Frames C origin K c w .none c w'
  | charge (c : Chain) (storage : ℕ) {w w' : World} : K.quiet w w' →
    K.counts c.self.selfUsed storage → K.counts c.self.totalUsed storage →
    Frames C origin K c w ⟨storage, 0, [], []⟩ (c.charge storage).1 w'
  | refund (c : Chain) (storage : ℕ) {w w' : World} : K.quiet w w' →
    K.counts c.self.selfRefunded storage → K.counts c.self.totalRefunded storage →
    Frames C origin K c w ⟨0, storage, [], []⟩ (c.refund storage).1 w'
  /-- A nested frame is committed. -/
  | commit {contract : EvmAddress} {c child child' : Chain} {w w' w'' : World} {t : Tally}
    {above : List StorageMeter} : c.childMeter contract = .ok child →
    Frames C origin K child w t child' w' →
    (∀ m ∈ child'.above, K.absorbs m child'.self.settlement) → K.settles w' child'.self →
    child'.finish (World.host C origin) w' = (above, w'', .ok ()) →
    Frames C origin K c w
      ⟨0, 0, t.all ++ child'.self.passedUp true, t.kept ++ [child'.self.paid origin w'.state]⟩
      (c.back above) w''
  /-- A nested frame is undone because its meter cannot be finished. -/
  | refused {contract : EvmAddress} {c child child' : Chain} {w w' w'' : World} {t : Tally}
    {above : List StorageMeter} {e : DispatchError} : c.childMeter contract = .ok child →
    Frames C origin K child w t child' w' →
    (∀ m ∈ child'.above, K.absorbs m child'.self.settlement) →
    child'.finish (World.host C origin) w' = (above, w'', .error e) →
    Frames C origin K c w ⟨0, 0, t.all ++ child'.self.passedUp true, []⟩ (c.back above)
      { w'' with state := w.state }
  /-- A nested frame asks to be rolled back. -/
  | rollback {contract : EvmAddress} {c child child' : Chain} {w w' : World} {t : Tally} :
    c.childMeter contract = .ok child → Frames C origin K child w t child' w' →
    Frames C origin K c w ⟨0, 0, t.all, []⟩ (c.back child'.above) { w' with state := w.state }

/-- Every execution has a tally. -/
theorem exec_frameRule (E : Env) (origin : EvmAddress) :
    FrameRule E origin Request.any fun _ c w c' w' =>
      ∃ t, Frames E.toConfig origin .any c w t c' w' where
  refl _ c w := ⟨_, .refl c w⟩
  trans := by
    rintro b c₁ w₁ c₂ w₂ c₃ w₃ ⟨t, h₁⟩ ⟨u, h₂⟩
    exact ⟨_, h₁.trans h₂⟩
  setStorage index value c w := by
    intro c' w' r h
    -- refused, a slot that is freed, one that is taken, or one that is overwritten
    rcases setStorage_cases h with
      ⟨rfl, rfl⟩ | ⟨-, ⟨-, -, rfl, -⟩ | ⟨-, -, rfl, -⟩ | ⟨-, rfl, -⟩⟩
    · exact ⟨_, .refl c' w'⟩
    · exact ⟨_, .refund c STORAGE_SIZE trivial trivial trivial⟩
    · exact ⟨_, .charge c STORAGE_SIZE trivial trivial trivial⟩
    · exact ⟨_, .quiet c' trivial⟩
  log _ topics data c w := ⟨_, .quiet c trivial⟩
  markDelete _ target c w := fun _ => ⟨_, .quiet c trivial⟩
  incNonce caller c w := ⟨_, .quiet c trivial⟩
  moveFunds source target value c w := fun _ => ⟨_, .quiet c trivial⟩
  dispatch b issuer scheme dest value input gas c w := ⟨_, .quiet c trivial⟩
  initialise _ := by
    rintro caller salt initCode address code used child w c₁ w₁ c₂ w₂ r - - - ⟨t, hrun⟩ h
    -- the nonce, the constructor, and then the deposit for the code
    obtain ⟨rfl, -⟩ := initialise_cases h
    have hstart : Frames E.toConfig origin .any child w .none child
        { w with state := w.state.incNonce caller } := .quiet child trivial
    exact ⟨_, hstart.trans (hrun.trans (.charge c₁ _ trivial trivial trivial))⟩
  commit := by
    rintro b b' contract c w child child' w' above w'' - hchild - ⟨t, hrun⟩ hfin
    exact ⟨_, .commit hchild hrun (fun _ _ => trivial) trivial hfin⟩
  refused := by
    rintro b b' contract c w child child' w' above w'' e - hchild - ⟨t, hrun⟩ hfin
    exact ⟨_, .refused hchild hrun (fun _ _ => trivial) hfin⟩
  rollback := by
    rintro b b' contract c w child child' w' - hchild - ⟨t, hrun⟩
    exact ⟨_, .rollback hchild hrun⟩

/-! ### What the meters count -/

/-- The meters from `c` to `c'` have counted the tally, and no sum was cut off. -/
structure Counted (c c' : Chain) (t : Tally) : Prop where
  result : c'.self.result = .ok ()
  contract : c'.self.contract = c.self.contract
  limit : c'.self.limit = c.self.limit
  selfUsed : c'.self.selfUsed = c.self.selfUsed + t.used
  selfRefunded : c'.self.selfRefunded = c.self.selfRefunded + t.refunded
  totalUsed : c'.self.totalUsed = c.self.totalUsed + t.used + usedSum t.all
  totalRefunded : c'.self.totalRefunded = c.self.totalRefunded + t.refunded + refundedSum t.all
  above : c'.above = c.above.map (·.absorbAll t.all)
  fits : ∀ m ∈ c.above, m.totalUsed + usedSum t.all < 2 ^ storageBits ∧
    m.totalRefunded + refundedSum t.all < 2 ^ storageBits

/-- No meter of the chain has failed. -/
def Chain.Alive (c : Chain) : Prop := c.self.result = .ok () ∧ ∀ m ∈ c.above, m.result = .ok ()

/-- The totals after settlements that are not cut off. -/
theorem StorageMeter.absorbAll_totals {m : StorageMeter} {es : List Settlement}
    (h : m.totalUsed + usedSum es < 2 ^ storageBits ∧
      m.totalRefunded + refundedSum es < 2 ^ storageBits) :
    (m.absorbAll es).totalUsed = m.totalUsed + usedSum es ∧
      (m.absorbAll es).totalRefunded = m.totalRefunded + refundedSum es := by
  rw [m.absorbAll_totalUsed, m.absorbAll_totalRefunded, satAdd_of_lt h.1, satAdd_of_lt h.2]
  exact ⟨rfl, rfl⟩

/-- Settlements reach all meters of a chain that has not failed. -/
theorem absorbAbove_of_alive {ms : List StorageMeter} (h : ∀ m ∈ ms, m.result = .ok ())
    (es : List Settlement) : absorbAbove es ms = ms.map (·.absorbAll es) := by
  induction ms with
  | nil => rfl
  | cons m ms ih =>
    have hm := h m List.mem_cons_self
    simp only [absorbAbove, hm, List.map_cons]
    rw [ih fun m' hm' => h m' (List.mem_cons_of_mem m hm')]

namespace Counted

variable {c c' c'' child child' : Chain} {t u : Tally}

theorem alive (h : Counted c c' t) (hc : c.Alive) : c'.Alive := by
  refine ⟨h.result, ?_⟩
  rw [h.above]
  intro m hm
  obtain ⟨m₀, hm₀, rfl⟩ := List.mem_map.mp hm
  rw [m₀.absorbAll_result]
  exact hc.2 m₀ hm₀

theorem refl (hc : c.Alive) : Counted c c .none := by
  refine ⟨hc.1, rfl, rfl, rfl, rfl, rfl, rfl, ?_, fun m _ => ?_⟩
  · have hid : (fun m : StorageMeter => m.absorbAll Tally.none.all) = id := rfl
    rw [hid, List.map_id]
  · exact ⟨lt_two_pow_iff.mpr m.totalUsed_le, lt_two_pow_iff.mpr m.totalRefunded_le⟩

theorem trans (h₁ : Counted c c' t) (h₂ : Counted c' c'' u) : Counted c c'' (t.andThen u) where
  result := h₂.result
  contract := h₂.contract.trans h₁.contract
  limit := h₂.limit.trans h₁.limit
  selfUsed := by
    rw [h₂.selfUsed, h₁.selfUsed, Nat.add_assoc]
    rfl
  selfRefunded := by
    rw [h₂.selfRefunded, h₁.selfRefunded, Nat.add_assoc]
    rfl
  totalUsed := by
    rw [h₂.totalUsed, h₁.totalUsed]
    simp only [Tally.andThen, usedSum_append]
    omega
  totalRefunded := by
    rw [h₂.totalRefunded, h₁.totalRefunded]
    simp only [Tally.andThen, refundedSum_append]
    omega
  above := by
    rw [h₂.above, h₁.above, List.map_map]
    refine List.map_congr_left fun m _ => ?_
    exact (m.absorbAll_append t.all u.all).symm
  fits m hm := by
    -- the second part starts from what the first has left above
    have hfirst := h₁.fits m hm
    have hmem : m.absorbAll t.all ∈ c'.above := by
      rw [h₁.above]
      exact List.mem_map_of_mem hm
    have hsecond := h₂.fits _ hmem
    obtain ⟨hused, hrefunded⟩ := StorageMeter.absorbAll_totals hfirst
    rw [hused, hrefunded] at hsecond
    simp only [Tally.andThen, usedSum_append, refundedSum_append]
    omega

/-- Back from a nested frame that passes up `up` after the settlements of the frames below it. -/
theorem back {contract : EvmAddress} (hc : c.Alive) (hchild : c.childMeter contract = .ok child)
    (h : Counted child child' t) {up : List Settlement} (kept : List Paid)
    (hup : ∀ m ∈ child'.above, m.totalUsed + usedSum up < 2 ^ storageBits ∧
      m.totalRefunded + refundedSum up < 2 ^ storageBits) :
    Counted c (c.back (absorbAbove up child'.above)) ⟨0, 0, t.all ++ up, kept⟩ := by
  obtain rfl := Chain.childMeter_eq_ok hchild
  have hwaiting : ∀ m ∈ c.self :: c.above, m.result = .ok () := by
    intro m hm
    rcases List.mem_cons.mp hm with rfl | hm
    · exact hc.1
    · exact hc.2 m hm
  -- every waiting meter has absorbed the settlements of the frames below and then `up`
  have habove : absorbAbove up child'.above =
      (c.self :: c.above).map (·.absorbAll (t.all ++ up)) := by
    rw [absorbAbove_of_alive (h.alive ⟨rfl, hwaiting⟩).2, h.above, List.map_map]
    refine List.map_congr_left fun m _ => ?_
    exact (m.absorbAll_append t.all up).symm
  have hfits : ∀ m ∈ c.self :: c.above,
      m.totalUsed + usedSum (t.all ++ up) < 2 ^ storageBits ∧
        m.totalRefunded + refundedSum (t.all ++ up) < 2 ^ storageBits := by
    intro m hm
    have hfirst := h.fits m hm
    have hmem : m.absorbAll t.all ∈ child'.above := by
      rw [h.above]
      exact List.mem_map_of_mem hm
    have hsecond := hup _ hmem
    obtain ⟨hused, hrefunded⟩ := StorageMeter.absorbAll_totals hfirst
    rw [hused, hrefunded] at hsecond
    rw [usedSum_append, refundedSum_append]
    omega
  obtain ⟨hused, hrefunded⟩ :=
    StorageMeter.absorbAll_totals (hfits c.self List.mem_cons_self)
  obtain ⟨hselfUsed, hselfRefunded, hlimit, hcontract⟩ := c.self.absorbAll_self (t.all ++ up)
  rw [habove]
  exact {
    result := (c.self.absorbAll_result _).trans hc.1
    contract := hcontract
    limit := hlimit
    selfUsed := hselfUsed
    selfRefunded := hselfRefunded
    totalUsed := hused
    totalRefunded := hrefunded
    above := rfl
    fits := fun m hm => hfits m (List.mem_cons_of_mem c.self hm) }

/-- The counters of a meter that has started from zero fit. -/
theorem self_lt {contract : EvmAddress} {limit : ℕ} {above : List StorageMeter}
    (h : Counted ⟨.new contract limit, above⟩ c' t) :
    c'.self.selfUsed < 2 ^ storageBits ∧ c'.self.selfRefunded < 2 ^ storageBits := by
  have hused := c'.self.totalUsed_le
  have hrefunded := c'.self.totalRefunded_le
  rw [h.totalUsed] at hused
  rw [h.totalRefunded] at hrefunded
  rw [h.selfUsed, h.selfRefunded, lt_two_pow_iff, lt_two_pow_iff]
  simp only [StorageMeter.new] at hused hrefunded ⊢
  omega

end Counted

/-- **Regular executions.** No sum of a meter is cut off, a settlement finds the reserve it refunds,
and neither a settlement nor anything else takes the account of the origin from it; only settlements
touch its funds. -/
def Conditions.regular (C : Config) (origin : EvmAddress) : Conditions where
  quiet w w' := w'.state.getAccountId origin = w.state.getAccountId origin ∧
    w'.state.ledger.free (w.state.getAccountId origin) =
      w.state.ledger.free (w.state.getAccountId origin) ∧
    w'.state.ledger.reserved (w.state.getAccountId origin) =
      w.state.ledger.reserved (w.state.getAccountId origin)
  counts counter storage := counter + storage < 2 ^ storageBits
  absorbs m e := m.totalUsed + e.used < 2 ^ storageBits ∧
    m.totalRefunded + e.refunded < 2 ^ storageBits
  settles w m := (w.state.deposits C).Covered m.settlement
      (w.state.ledger.reserved (w.state.getAccountId m.contract)) ∧
    ∀ w', (World.host C origin).chargeStorage w m.contract m.selfUsed m.selfRefunded =
        (w', .ok ()) →
      w'.state.getAccountId origin = w.state.getAccountId origin

/-- A settlement that may be absorbed may be passed up. -/
theorem passedUp_fits {m m' : StorageMeter}
    (h : m.totalUsed + m'.settlement.used < 2 ^ storageBits ∧
      m.totalRefunded + m'.settlement.refunded < 2 ^ storageBits) :
    m.totalUsed + usedSum (m'.passedUp true) < 2 ^ storageBits ∧
      m.totalRefunded + refundedSum (m'.passedUp true) < 2 ^ storageBits := by
  unfold StorageMeter.passedUp
  split
  · simpa using h
  · exact ⟨lt_two_pow_iff.mpr m.totalUsed_le, lt_two_pow_iff.mpr m.totalRefunded_le⟩

variable {c : Chain} {t : Tally} {C : Config} {origin target : EvmAddress} {w w' : World}
  {value limit : ℕ}

/-- A chain that has not failed has no failed meters below it. -/
theorem Chain.Alive.child {child : Chain} {contract : EvmAddress} (hc : c.Alive)
    (hchild : c.childMeter contract = .ok child) : child.Alive := by
  obtain rfl := Chain.childMeter_eq_ok hchild
  exact ⟨rfl, List.forall_mem_cons.mpr hc⟩

/-- A nested frame whose meter was finished has passed its settlement up, whether or not it could be
paid for. -/
theorem Counted.finish {σ : Type} {H : Host σ} {contract : EvmAddress} {child child' : Chain}
    (hc : c.Alive) (hchild : c.childMeter contract = .ok child) (h : Counted child child' t)
    {s s' : σ} {above : List StorageMeter} {r : DispatchResult}
    (hfin : child'.finish H s = (above, s', r))
    (habsorbs : ∀ m ∈ child'.above, m.totalUsed + child'.self.settlement.used < 2 ^ storageBits ∧
      m.totalRefunded + child'.self.settlement.refunded < 2 ^ storageBits) (kept : List Paid) :
    Counted c (c.back above) ⟨0, 0, t.all ++ child'.self.passedUp true, kept⟩ := by
  have hmeters := Chain.finish_meters H child' s h.result
  rw [hfin] at hmeters
  obtain rfl := hmeters
  exact h.back hc hchild kept fun m hm => passedUp_fits (habsorbs m hm)

/-- **The meters count the tally.** -/
theorem Frames.counted {c' : Chain} (h : Frames C origin (.regular C origin) c w t c' w')
    (hc : c.Alive) : Counted c c' t := by
  induction h with
  | refl c w => exact .refl hc
  | trans _ _ ih₁ ih₂ => exact (ih₁ hc).trans (ih₂ ((ih₁ hc).alive hc))
  | quiet c _ => exact .refl hc
  | charge c storage _ hself htotal =>
    -- the counters that grow stay exact, because their sums fit
    obtain ⟨h₁, h₂, h₃, h₄, h₅, h₆⟩ := StorageMeter.charge_of_ok hc.1 htotal hself
    have hrest := Counted.refl hc
    exact {
      result := (c.self.charge_result storage).trans hc.1
      contract := h₆
      limit := h₅
      selfUsed := h₂
      selfRefunded := h₄
      totalUsed := h₁
      totalRefunded := h₃
      above := hrest.above
      fits := hrest.fits }
  | refund c storage _ hself htotal =>
    obtain ⟨h₁, h₂, h₃, h₄, h₅, h₆⟩ := StorageMeter.refund_of_ok hc.1 htotal hself
    have hrest := Counted.refl hc
    exact {
      result := (c.self.refund_result storage).trans hc.1
      contract := h₆
      limit := h₅
      selfUsed := h₄
      selfRefunded := h₂
      totalUsed := h₃
      totalRefunded := h₁
      above := hrest.above
      fits := hrest.fits }
  | commit hchild _ habsorbs _ hfin ih =>
    -- a child that settles is added to its parent, whether the parent accepts it or not
    exact (ih (hc.child hchild)).finish hc hchild hfin habsorbs _
  | refused hchild _ habsorbs hfin ih =>
    exact (ih (hc.child hchild)).finish hc hchild hfin habsorbs _
  | @rollback contract c child child' w w' t hchild _ ih =>
    -- a child that is rolled back leaves its figures with the meters above
    have hcounted := ih (hc.child hchild)
    have hback : Counted c (c.back (absorbAbove [] child'.above)) ⟨0, 0, t.all ++ [], []⟩ :=
      hcounted.back hc hchild [] fun m _ =>
        ⟨lt_two_pow_iff.mpr m.totalUsed_le, lt_two_pow_iff.mpr m.totalRefunded_le⟩
    rw [absorbAbove_nil, List.append_nil] at hback
    exact hback

/-! ### What the origin pays -/

namespace Paid

variable (C : Config)

/-- The storage the settlement adds to its contract. -/
def net (p : Paid) : ℤ := p.used - p.refunded

/-- How the settlement moves the origin's reserve, as in `DepositConfig.moves`. -/
def moves (p : Paid) : List ℤ :=
  if p.own then
    if p.refunded < p.used then
      [-(C.storageDepositPerByte * p.net), C.storageDepositPerByte * p.net]
    else []
  else [-(C.storageDepositPerByte * p.net)]

/-- What the origin transfers to the contract on top of the deposit. -/
def surcharge (p : Paid) : ℕ :=
  if p.own = false ∧ p.refunded < p.used then
    satAdd balanceBits (C.storageDepositPerByte * (p.used - p.refunded)) C.minimumBalance -
      C.storageDepositPerByte * (p.used - p.refunded)
  else 0

/-- The moves of all settlements in turn. -/
def allMoves (ps : List Paid) : List ℤ := ps.flatMap (moves C)

/-- All that is paid on top. -/
def surcharges (ps : List Paid) : ℕ := (ps.map (surcharge C)).sum

variable {C} in
/-- Nothing is paid on top of a settlement with oneself, nor of one that does not grow the storage,
nor if there is no existential deposit; of all others something is. -/
theorem surcharge_eq_zero_iff {p : Paid}
    (hfits : C.storageDepositPerByte * (p.used - p.refunded) + C.minimumBalance <
      2 ^ balanceBits) :
    p.surcharge C = 0 ↔ p.own = true ∨ p.used ≤ p.refunded ∨ C.minimumBalance = 0 := by
  unfold surcharge
  split
  · next hgrows =>
    rw [satAdd_of_lt hfits, Nat.add_sub_cancel_left]
    constructor
    · exact fun h => .inr (.inr h)
    · rintro (hown | hle | h)
      · rw [hgrows.1] at hown
        cases hown
      · exact absurd hgrows.2 (not_lt.mpr hle)
      · exact h
  · next hnot =>
    refine iff_of_true rfl ?_
    cases hown : p.own with
    | true => exact .inl rfl
    | false => exact .inr (.inl (not_lt.mp fun h => hnot ⟨hown, h⟩))

theorem allMoves_append (ps qs : List Paid) :
    allMoves C (ps ++ qs) = allMoves C ps ++ allMoves C qs := List.flatMap_append

theorem surcharges_append (ps qs : List Paid) :
    surcharges C (ps ++ qs) = surcharges C ps + surcharges C qs := by
  unfold surcharges
  rw [List.map_append, List.sum_append]

end Paid

section

variable {α : Type} [DecidableEq α] {D : DepositConfig α} {origin : EvmAddress}

/-- The effect of a charge on all that the origin has: its reserve moves, and a net use that is
settled with another account costs the existential deposit. -/
theorem DepositConfig.chargeStorage_total {l l' : Ledger α} {e : Settlement}
    (h : D.chargeStorage origin l e.contract e.used e.refunded = (l', .ok ()))
    (hused : e.used < 2 ^ storageBits) (hrefunded : e.refunded < 2 ^ storageBits)
    (hcov : D.Covered e (l.reserved (D.getAccountId e.contract))) :
    (l'.total (D.getAccountId origin) : ℤ) +
        ((if D.getAccountId e.contract ≠ D.getAccountId origin ∧ e.refunded < e.used then
          satAdd balanceBits (D.storageDepositPerByte * (e.used - e.refunded)) D.minimumBalance -
            D.storageDepositPerByte * (e.used - e.refunded)
        else 0 : ℕ) : ℤ) =
      l.total (D.getAccountId origin) + (D.moves origin e).sum := by
  have hreserved := DepositConfig.chargeStorage_reserved h hused hrefunded hcov
  unfold moves
  obtain ⟨hlt, rfl⟩ | ⟨heq, rfl⟩ | ⟨hgt, l₁, htransfer, hreserve⟩ :=
    chargeStorage_cases h hused hrefunded
  · -- a net refund comes back into the reserve
    have hfree := Ledger.repatriateReserved_free l (D.getAccountId e.contract)
      (D.getAccountId origin) (D.storageDepositPerByte * (e.refunded - e.used))
    have hgain : 0 ≤ -(D.storageDepositPerByte * e.net) := by
      unfold Settlement.net
      have : (D.storageDepositPerByte : ℤ) * (e.used - e.refunded) ≤ 0 :=
        mul_nonpos_of_nonneg_of_nonpos (Int.natCast_nonneg _) (by omega)
      omega
    rw [if_neg (fun hboth => hlt.not_gt hboth.2)]
    simp only [Ledger.total, hfree, hreserved, moves]
    split
    · rw [if_neg hlt.not_gt]
      simp
    · rw [walk_cons, walk_nil, List.sum_singleton]
      push_cast
      omega
  · -- nothing to settle
    have hnet : e.net = 0 := by
      unfold Settlement.net
      omega
    rw [hnet, if_neg (by omega)]
    split
    · rw [if_neg (by omega)]
      simp
    · simp
  · -- a net use is transferred, with the existential deposit on top
    have hmax : D.storageDepositPerByte * (e.used - e.refunded) ≤ maxValue balanceBits :=
      le_trans (Nat.mul_le_mul_left _ (lt_two_pow_iff.mp (by omega))) D.deposit_le
    have hnet : D.storageDepositPerByte * e.net =
        ((D.storageDepositPerByte * (e.used - e.refunded) : ℕ) : ℤ) := by
      unfold Settlement.net
      push_cast [Nat.cast_sub hgt.le]
      ring
    rw [hnet]
    generalize D.storageDepositPerByte * (e.used - e.refunded) = amount at htransfer hreserve hmax ⊢
    have hmore : amount ≤ satAdd balanceBits amount D.minimumBalance := le_satAdd hmax
    rw [Ledger.reserve_total hreserve]
    have htotal := Ledger.unreserve_total l (D.getAccountId origin) amount
      (D.getAccountId origin)
    have hfree := Ledger.transfer_free htransfer (D.getAccountId origin)
    have hres := congrFun (Ledger.transfer_reserved htransfer) (D.getAccountId origin)
    unfold Ledger.total at htotal ⊢
    by_cases hown : D.getAccountId e.contract = D.getAccountId origin
    · rw [if_pos hown.symm] at hfree
      rw [if_neg (by simp [hown]), if_pos hown, if_pos hgt]
      simp
      omega
    · have hle := Ledger.transfer_le htransfer (Ne.symm hown)
      rw [if_neg (Ne.symm hown), if_pos rfl] at hfree
      rw [if_pos ⟨hown, hgt⟩, if_neg hown, List.sum_singleton]
      omega

end

/-- From `w` to `w'` the origin has kept its account and paid for the settlements `ps`. -/
structure Pays (C : Config) (origin : EvmAddress) (w w' : World) (ps : List Paid) : Prop where
  account : w'.state.getAccountId origin = w.state.getAccountId origin
  reserved : w'.state.ledger.reserved (w.state.getAccountId origin) =
    walk (w.state.ledger.reserved (w.state.getAccountId origin)) (Paid.allMoves C ps)
  total : (w'.state.ledger.total (w.state.getAccountId origin) : ℤ) + Paid.surcharges C ps =
    w.state.ledger.total (w.state.getAccountId origin) + (Paid.allMoves C ps).sum

namespace Pays

variable {C : Config} {origin : EvmAddress} {w w' w'' : World} {ps qs : List Paid}

/-- Nothing happens to the funds of the origin. -/
theorem nothing (haccount : w'.state.getAccountId origin = w.state.getAccountId origin)
    (hfree : w'.state.ledger.free (w.state.getAccountId origin) =
      w.state.ledger.free (w.state.getAccountId origin))
    (hreserved : w'.state.ledger.reserved (w.state.getAccountId origin) =
      w.state.ledger.reserved (w.state.getAccountId origin)) : Pays C origin w w' [] where
  account := haccount
  reserved := hreserved
  total := by
    unfold Ledger.total
    rw [hfree, hreserved]
    simp [Paid.surcharges, Paid.allMoves]

theorem trans (h₁ : Pays C origin w w' ps) (h₂ : Pays C origin w' w'' qs) :
    Pays C origin w w'' (ps ++ qs) where
  account := h₂.account.trans h₁.account
  reserved := by
    have hsecond := h₂.reserved
    rw [h₁.account, h₁.reserved, ← walk_append] at hsecond
    rw [hsecond, Paid.allMoves_append]
  total := by
    have hfirst := h₁.total
    have hsecond := h₂.total
    rw [h₁.account] at hsecond
    rw [Paid.surcharges_append, Paid.allMoves_append, List.sum_append]
    push_cast
    omega

end Pays

/-- The settlement of a frame moves the origin's reserve as the deposits say. -/
theorem StorageMeter.moves_paid (C : Config) (origin : EvmAddress) (m : StorageMeter) (s : State) :
    (m.paid origin s).moves C = (s.deposits C).moves origin m.settlement := by
  unfold Paid.moves DepositConfig.moves
  simp only [StorageMeter.paid, StorageMeter.settlement, decide_eq_true_eq]
  rfl

/-- **A frame is settled.** -/
theorem pays_settle {m : StorageMeter}
    (h : (World.host C origin).chargeStorage w m.contract m.selfUsed m.selfRefunded = (w', .ok ()))
    (hK : (Conditions.regular C origin).settles w m) (hused : m.selfUsed < 2 ^ storageBits)
    (hrefunded : m.selfRefunded < 2 ^ storageBits) :
    Pays C origin w w' [m.paid origin w.state] := by
  -- the host settles on the ledger of the state
  have hcharge : (w.state.deposits C).chargeStorage origin w.state.ledger m.settlement.contract
      m.settlement.used m.settlement.refunded = (w'.state.ledger, .ok ()) := by
    obtain ⟨hworld, hresult⟩ := Prod.mk.inj h
    rw [← hworld, State.setLedger_ledger]
    exact Prod.ext rfl hresult
  have hmoves : Paid.allMoves C [m.paid origin w.state] =
      (w.state.deposits C).moves origin m.settlement := by
    rw [← m.moves_paid]
    exact List.flatMap_singleton _ _
  refine ⟨hK.2 w' h, ?_, ?_⟩
  · rw [hmoves]
    exact DepositConfig.chargeStorage_reserved hcharge hused hrefunded hK.1
  · have htotal := DepositConfig.chargeStorage_total hcharge hused hrefunded hK.1
    rw [hmoves]
    refine Eq.trans ?_ htotal
    simp only [Paid.surcharges, Paid.surcharge, StorageMeter.paid, List.map_cons, List.map_nil,
      List.sum_singleton, decide_eq_false_iff_not]
    rfl

/-- **The origin pays for what is kept.** -/
theorem Frames.pays {c' : Chain} (h : Frames C origin (.regular C origin) c w t c' w')
    (hc : c.Alive) : Pays C origin w w' t.kept := by
  induction h with
  | refl c w => exact .nothing rfl rfl rfl
  | trans h₁ _ ih₁ ih₂ => exact (ih₁ hc).trans (ih₂ ((h₁.counted hc).alive hc))
  | quiet c hquiet | charge c storage hquiet | refund c storage hquiet =>
    exact .nothing hquiet.1 hquiet.2.1 hquiet.2.2
  | @commit contract c child child' w w' w'' t above hchild hrun habsorbs hsettles hfin ih =>
    -- the child pays for its own frames, and its meter is settled when it is finished
    have hcounted := hrun.counted (hc.child hchild)
    have hmeters := Chain.finish_meters (World.host C origin) child' w' hcounted.result
    have habove := hcounted.above
    obtain rfl := Chain.childMeter_eq_ok hchild
    rw [hfin, habove] at hmeters
    obtain rfl : above = _ := hmeters
    obtain ⟨-, hcharge⟩ := Chain.finish_ok hfin (absorbAbove_ne_nil _ _ _)
    obtain ⟨hused, hrefunded⟩ := hcounted.self_lt
    exact (ih (hc.child hchild)).trans (pays_settle hcharge hsettles hused hrefunded)
  | refused _ _ _ _ _ => exact .nothing rfl rfl rfl
  | rollback _ _ _ => exact .nothing rfl rfl rfl

/-! ### Whole runs -/

/-- Every execution has a tally. -/
theorem exec_frames (E : Env) (origin : EvmAddress) (prog : Prog) {ctx : Context} {b : Bool}
    {f : Frame} (w : World) (hctx : f.meters.self.contract = ctx.address) :
    ∃ t, Frames E.toConfig origin .any f.meters w t (prog.exec E origin ctx b f w).frame.meters
      (prog.exec E origin ctx b f w).world :=
  ((exec_frameRule E origin).exec prog prog.only_any hctx).2

/-- The body of a call reports the use of its meter, and it is rolled back if it does not
succeed. -/
theorem Runner.callBody_info {E : Env} {sender : EvmAddress} {gasLimit : ℕ} {prog : Prog}
    {root : Chain} {info : CallInfo} (hsucceed : info.exitReason.isSucceed = true) :
    let x := Runner.callBody E sender origin target value gasLimit prog root w
    (x.2.2 = .commit (.ok info) → info.usedStorage = x.1.self.usedStorage.bmod (2 ^ 32)) ∧
      x.2.2 ≠ .rollback (.ok info) := by
  unfold Runner.callBody
  simp only []
  split
  · exact ⟨nofun, nofun⟩
  · split
    · refine ⟨fun h => ?_, nofun⟩
      cases h
      rfl
    · next hfail =>
      refine ⟨nofun, fun h => ?_⟩
      cases h
      exact hfail hsucceed

/-- The body of a creation reports the use of its meter, and it is rolled back if it does not
succeed. -/
theorem Runner.createBody_info {E : Env} {key : CreateKey} {source address : EvmAddress}
    {initCode : Bytes} {gasLimit : ℕ} {prog : Prog} {root : Chain} {info : CreateInfo}
    (hsucceed : info.exitReason.isSucceed = true) :
    let x := Runner.createBody E key source address initCode value gasLimit prog root w
    (x.2.2 = .commit (.ok info) → info.usedStorage = x.1.self.usedStorage.bmod (2 ^ 32)) ∧
      x.2.2 ≠ .rollback (.ok info) := by
  unfold Runner.createBody
  simp only []
  split
  · exact ⟨nofun, nofun⟩
  · split
    · split
      · -- a refused code is reported as an error and rolled back, here and below
        refine ⟨nofun, fun h => ?_⟩
        cases h
        cases hsucceed
      · split
        · refine ⟨nofun, fun h => ?_⟩
          cases h
          cases hsucceed
        · refine ⟨fun h => ?_, nofun⟩
          cases h
          rfl
    · next hfail =>
      refine ⟨nofun, fun h => ?_⟩
      cases h
      exact hfail hsucceed

namespace Tally

variable (t : Tally)

/-- The net use of a run whose root frame has this tally. -/
def net : ℤ := (t.used + usedSum t.all : ℤ) - (t.refunded + refundedSum t.all)

/-- What the run reports: the net use as an `i32`. -/
def report : ℤ := t.net.bmod (2 ^ 32)

/-- What the run releases of its limit. -/
def released (limit : ℕ) : ℕ :=
  releasedStorage limit (usedSum t.all) (refundedSum t.all) t.used t.refunded

/-- What the frames below the root use over the limit and their own refunds. -/
def overrun (limit : ℕ) : ℕ := usedSum t.all - (limit + refundedSum t.all)

/-- The release is what the run has not used; an overrun is released on top. -/
theorem released_eq {limit : ℕ}
    (h : t.used + usedSum t.all - (t.refunded + refundedSum t.all) ≤ limit) :
    (t.released limit : ℤ) = limit - t.net + t.overrun limit := by
  unfold released releasedStorage net overrun
  omega

end Tally

/-- The run of `body` for `target`, with the nonce of `origin` already increased in `w`, is regular:
its root frame has the tally `t` after the value has arrived, `paid` are the settlements that are
kept, that of the root frame included, and the sums of the last release are not cut off. -/
def RegularRun {ρ : Type} (C : Config) (origin target : EvmAddress) (value limit : ℕ)
    (body : Chain → World → Chain × World × TransactionOutcome ρ) (w : World) (t : Tally)
    (paid : List Paid) : Prop :=
  ∃ w₁ s, (World.host C origin).reserveStorage w limit = (w₁, .ok ()) ∧
    Runner.transfer C origin target value w₁.state = .ok s ∧
    s.getAccountId origin = w.state.getAccountId origin ∧
    Frames C origin (.regular C origin) (.root target limit) { w₁ with state := s } t
      (body (.root target limit) w₁).1 (body (.root target limit) w₁).2.1 ∧
    (Conditions.regular C origin).settles (body (.root target limit) w₁).2.1
      (body (.root target limit) w₁).1.self ∧
    limit + t.used + (t.refunded + refundedSum t.all) < 2 ^ storageBits ∧
    paid = t.kept ++ [(body (.root target limit) w₁).1.self.paid origin
      (body (.root target limit) w₁).2.1.state]

/-- What the value of a run takes from its sender. -/
def sent (origin target : EvmAddress) (value : ℕ) (s : State) : ℕ :=
  if s.getAccountId target = s.getAccountId origin then 0 else value

/-- The value leaves the free balance of the sender, unless it is sent to the same account. -/
theorem Runner.transfer_funds {source : EvmAddress} {s s' : State}
    (h : Runner.transfer C source target value s = .ok s') :
    s'.ledger.reserved = s.ledger.reserved ∧
      s'.ledger.free (s.getAccountId source) + sent source target value s =
        s.ledger.free (s.getAccountId source) := by
  unfold Runner.transfer at h
  unfold sent
  split at h
  · next hzero =>
    cases h
    rw [hzero]
    exact ⟨rfl, by split <;> rfl⟩
  · obtain ⟨l, hl, rfl⟩ := State.moveFunds_eq_ok (Fallible.mapError_eq_ok.mp h)
    rw [State.setLedger_ledger, Ledger.transfer_free hl]
    refine ⟨Ledger.transfer_reserved hl, ?_⟩
    by_cases hsame : s.getAccountId source = s.getAccountId target
    · rw [if_pos hsame, if_pos hsame.symm, Nat.add_zero]
    · rw [if_neg hsame, if_pos rfl, if_neg (Ne.symm hsame)]
      exact Nat.sub_add_cancel (Ledger.transfer_le hl hsame)

/-- The origin's reserve over a run: it starts with the deposit of the limit, and what is released
at the end is one more move. -/
def Tally.reserveMoves (C : Config) (t : Tally) (paid : List Paid) (limit : ℕ) : List ℤ :=
  Paid.allMoves C paid ++ [-((C.storageDepositPerByte * t.released limit : ℕ) : ℤ)]

/-- Reserving the limit moves its deposit from the free balance of the origin into its reserve. -/
theorem World.host_reserve (h : (World.host C origin).reserveStorage w limit = (w', .ok ()))
    (hlimit : limit < 2 ^ storageBits) :
    w'.state.getAccountId = w.state.getAccountId ∧
      w'.state.ledger.reserved (w.state.getAccountId origin) =
        w.state.ledger.reserved (w.state.getAccountId origin) + C.storageDepositPerByte * limit ∧
      w'.state.ledger.total (w.state.getAccountId origin) =
        w.state.ledger.total (w.state.getAccountId origin) := by
  have hreserve : (w.state.deposits C).reserveStorage origin w.state.ledger limit =
      (w'.state.ledger, .ok ()) := by
    obtain ⟨rfl, hresult⟩ := Prod.mk.inj h
    exact Prod.ext rfl hresult
  have hmapping : w'.state.getAccountId = w.state.getAccountId := by
    rw [← (Prod.mk.inj h).1]
    rfl
  refine ⟨hmapping, DepositConfig.reserveStorage_reserved hreserve hlimit, ?_⟩
  unfold DepositConfig.reserveStorage at hreserve
  split at hreserve
  · rw [(Prod.mk.inj hreserve).1]
  · split at hreserve
    · next l hl =>
      obtain rfl : l = w'.state.ledger := (Prod.mk.inj hreserve).1
      exact Ledger.reserve_total hl _
    · simp at hreserve

/-- The final release moves a deposit from the reserve of the origin into its free balance, as far
as the reserve allows. -/
theorem World.host_release {used refunded : ℕ}
    (h : (World.host C origin).unreserveStorage w limit used refunded = (w', .ok ()))
    (hfits : limit + refunded < 2 ^ storageBits) :
    w'.state.ledger.reserved (w.state.getAccountId origin) =
        w.state.ledger.reserved (w.state.getAccountId origin) -
          C.storageDepositPerByte * (limit + refunded - used) ∧
      w'.state.ledger.total (w.state.getAccountId origin) =
        w.state.ledger.total (w.state.getAccountId origin) := by
  obtain ⟨rfl, -⟩ := Prod.mk.inj h
  refine ⟨DepositConfig.unreserveStorage_reserved w.state.ledger hfits, ?_⟩
  change ((w.state.deposits C).unreserveStorage origin w.state.ledger limit used refunded).1.total
    _ = _
  unfold DepositConfig.unreserveStorage
  split
  · rfl
  · exact Ledger.unreserve_total _ _ _ _

/-- The root meter of a run with the tally `t`, when the sums of the last release are not cut
off. -/
theorem Counted.root (h : Counted (.root target limit) c t)
    (hfits : limit + t.used + (t.refunded + refundedSum t.all) < 2 ^ storageBits) :
    c = ⟨c.self, []⟩ ∧ c.self.usedStorage = t.net ∧
      c.self.newLimit + c.self.selfRefunded < 2 ^ storageBits ∧
      c.self.newLimit + c.self.selfRefunded - c.self.selfUsed = t.released limit ∧
      (c.self.withinLimit = true →
        t.used + usedSum t.all - (t.refunded + refundedSum t.all) ≤ limit) := by
  -- the root meter starts at zero, so its counters are the sums of the tally
  have hlimit : c.self.limit = limit := h.limit
  have hselfUsed : c.self.selfUsed = t.used := h.selfUsed.trans (Nat.zero_add _)
  have hselfRefunded : c.self.selfRefunded = t.refunded := h.selfRefunded.trans (Nat.zero_add _)
  have hused : c.self.totalUsed = t.used + usedSum t.all :=
    h.totalUsed.trans (by simp [StorageMeter.new])
  have hrefunded : c.self.totalRefunded = t.refunded + refundedSum t.all :=
    h.totalRefunded.trans (by simp [StorageMeter.new])
  -- nothing is cut off in the limit that is left
  have hnew : c.self.newLimit = limit + t.used + (t.refunded + refundedSum t.all)
      - (t.used + usedSum t.all) - t.refunded := by
    unfold StorageMeter.newLimit
    rw [hlimit, hselfUsed, hused, hrefunded, hselfRefunded, satAdd_of_lt (a := limit) (by omega),
      satAdd_of_lt hfits]
  refine ⟨?_, ?_, ?_, ?_, fun hwithin => ?_⟩
  · obtain ⟨m, above⟩ := c
    obtain rfl : above = [] := h.above
    rfl
  · unfold StorageMeter.usedStorage Tally.net
    rw [hused, hrefunded]
    split <;> omega
  · rw [hnew, hselfRefunded]
    omega
  · rw [hnew, hselfRefunded, hselfUsed]
    rfl
  · have hdecided := of_decide_eq_true hwithin
    rw [hused, hrefunded, hlimit] at hdecided
    exact hdecided

/-- **What a regular run costs.** It has committed with the report of its tally. The origin has lost
what it has sent, the deposit of the limit less what was released, the surcharges, and what its
reserve was short of. -/
theorem RegularRun.cost {ρ : Type} {body : Chain → World → Chain × World × TransactionOutcome ρ}
    {paid : List Paid} {r : ρ} (h : RegularRun C origin target value limit body w t paid)
    (hrun : runTransaction (World.host C origin) target limit body w = (w', .ok r))
    (hcommit : ∀ w₁, (body (.root target limit) w₁).2.2 ≠ .rollback r) :
    (∃ w₁, (body (.root target limit) w₁).2.2 = .commit r ∧
      (body (.root target limit) w₁).1.self.usedStorage = t.net) ∧
    t.used + usedSum t.all - (t.refunded + refundedSum t.all) ≤ limit ∧
    (w'.state.ledger.free (w.state.getAccountId origin) : ℤ) +
        C.storageDepositPerByte * limit + sent origin target value w.state +
        Paid.surcharges C paid +
        shortfall (w.state.ledger.reserved (w.state.getAccountId origin) +
          C.storageDepositPerByte * limit) (t.reserveMoves C paid limit) =
      w.state.ledger.free (w.state.getAccountId origin) +
        C.storageDepositPerByte * t.released limit := by
  obtain ⟨w₁, s, hreserve, htransfer, haccount, hframes, hsettles, hfits, hpaid⟩ := h
  obtain ⟨w₁', hreserve', hend⟩ := runTransaction_eq_ok hrun
  obtain rfl : w₁ = w₁' := by
    rw [hreserve] at hreserve'
    exact (Prod.mk.inj hreserve').1
  obtain ⟨above, hcommits, hfin⟩ := hend.resolve_right fun hundone => hcommit w₁ hundone.1
  rcases hbody : body (.root target limit) w₁ with ⟨c, w₂, outcome⟩
  simp only [hbody] at hcommits hfin hframes hsettles hpaid
  have halive : (Chain.root target limit).Alive := ⟨rfl, fun m hm => by cases hm⟩
  have hcounted := hframes.counted halive
  obtain ⟨hroot, hnet, hnewFits, hreleased, hwithin⟩ := hcounted.root hfits
  obtain ⟨hused, hrefunded⟩ := hcounted.self_lt
  rw [hroot] at hfin
  obtain ⟨hlimit, w₃, hcharge, hrelease⟩ := Chain.finish_root hfin
  -- the origin's account over the whole run
  obtain ⟨hmapping, hreserved₁, htotal₁⟩ := World.host_reserve hreserve (by omega)
  obtain ⟨hreserved₂, hfree₂⟩ := Runner.transfer_funds htransfer
  have hpays := (hframes.pays halive).trans (pays_settle hcharge hsettles hused hrefunded)
  rw [← hpaid] at hpays
  obtain ⟨hreserved₄, htotal₄⟩ := World.host_release hrelease hnewFits
  have hreserved₃ := hpays.reserved
  have htotal₃ := hpays.total
  rw [hpays.account] at hreserved₄ htotal₄
  simp only [haccount] at hreserved₃ htotal₃ hreserved₄ htotal₄
  have hsent : sent origin target value w₁.state = sent origin target value w.state := by
    unfold sent
    rw [hmapping]
  rw [hmapping, hsent] at hfree₂
  refine ⟨⟨w₁, ?_, ?_⟩, hwithin hlimit, ?_⟩
  · rw [hbody]
    exact hcommits
  · rw [hbody]
    exact hnet
  · -- the release is the last move of the walk
    have hwalk : w'.state.ledger.reserved (w.state.getAccountId origin) =
        walk (w.state.ledger.reserved (w.state.getAccountId origin) +
          C.storageDepositPerByte * limit) (t.reserveMoves C paid limit) := by
      unfold Tally.reserveMoves
      rw [walk_append, ← hreserved₁, ← congrFun hreserved₂ (w.state.getAccountId origin),
        ← hreserved₃, hreserved₄, hreleased, walk_cons, walk_nil]
      omega
    have hsum := walk_eq (w.state.ledger.reserved (w.state.getAccountId origin) +
      C.storageDepositPerByte * limit) (t.reserveMoves C paid limit)
    rw [← hwalk] at hsum
    have hmoves : (t.reserveMoves C paid limit).sum = (Paid.allMoves C paid).sum -
        C.storageDepositPerByte * t.released limit := by
      unfold Tally.reserveMoves
      rw [List.sum_append, List.sum_singleton]
      push_cast
      ring
    rw [hmoves] at hsum
    unfold Ledger.total at htotal₁ htotal₃ htotal₄
    rw [hreserved₂] at htotal₃
    push_cast at hsum htotal₃
    omega

/-- The run costs the origin what it reports: from `w` to `w'` its free balance has lost the value
and the deposit of the reported use. -/
def CostsItsReport (C : Config) (origin : EvmAddress) (value : ℕ) (report : ℤ) (w w' : World) :
    Prop :=
  (w'.state.ledger.free (w.state.getAccountId origin) : ℤ) =
    w.state.ledger.free (w.state.getAccountId origin) - value - C.storageDepositPerByte * report

/-- What a run takes beyond its report is balanced by what it takes less. It takes the surcharges,
and what the reserve was short of is missing from the free balance. It takes less by an overrun,
which is released twice, by a value that goes to the origin's own account, and if the net use is not
an `i32`, by the difference. -/
def Tally.Balanced (C : Config) (t : Tally) (paid : List Paid) (limit kept reserved : ℕ) : Prop :=
  (Paid.surcharges C paid : ℤ) + shortfall (reserved + C.storageDepositPerByte * limit)
      (t.reserveMoves C paid limit) =
    C.storageDepositPerByte * t.overrun limit + C.storageDepositPerByte * (t.report - t.net) + kept

/-- The plain case: the frames below the root stay within the limit, the net use is an `i32`, and no
deposit comes near the largest balance. -/
structure Tally.Plain (C : Config) (t : Tally) (paid : List Paid) (limit : ℕ) : Prop where
  within : t.overrun limit = 0
  report : t.report = t.net
  fits : ∀ p ∈ paid,
    C.storageDepositPerByte * (p.used - p.refunded) + C.minimumBalance < 2 ^ balanceBits

/-- No settlement grows the storage of another account, unless the existential deposit is zero, and
the reserve of the origin is never short. -/
def Tally.PaidExactly (C : Config) (t : Tally) (paid : List Paid) (limit reserved : ℕ) : Prop :=
  (∀ p ∈ paid, p.own = true ∨ p.used ≤ p.refunded ∨ C.minimumBalance = 0) ∧
    shortfall (reserved + C.storageDepositPerByte * limit) (t.reserveMoves C paid limit) = 0

/-- In the plain case, and if the value leaves the account, the tally is balanced iff nothing is
paid on top and the reserve is never short. -/
theorem Tally.Plain.balanced_iff {paid : List Paid} {reserved : ℕ} (h : t.Plain C paid limit) :
    t.Balanced C paid limit 0 reserved ↔ t.PaidExactly C paid limit reserved := by
  have hnone : Paid.surcharges C paid = 0 ↔
      ∀ p ∈ paid, p.own = true ∨ p.used ≤ p.refunded ∨ C.minimumBalance = 0 := by
    unfold Paid.surcharges
    rw [List.sum_eq_zero_iff, List.forall_mem_map]
    exact forall₂_congr fun p hp => Paid.surcharge_eq_zero_iff (h.fits p hp)
  unfold Tally.Balanced Tally.PaidExactly
  rw [← hnone, h.within, h.report, sub_self]
  push_cast
  omega

/-- A regular run that reports the use of its meter costs what it reports iff its tally is
balanced. -/
theorem RegularRun.costsItsReport_iff {ρ : Type}
    {body : Chain → World → Chain × World × TransactionOutcome ρ} {paid : List Paid} {r : ρ}
    {report : ℤ} (h : RegularRun C origin target value limit body w t paid)
    (hrun : runTransaction (World.host C origin) target limit body w = (w', .ok r))
    (hbody : ∀ w₁, ((body (.root target limit) w₁).2.2 = .commit r →
        report = (body (.root target limit) w₁).1.self.usedStorage.bmod (2 ^ 32)) ∧
      (body (.root target limit) w₁).2.2 ≠ .rollback r) :
    CostsItsReport C origin value report w w' ↔
      t.Balanced C paid limit (value - sent origin target value w.state)
        (w.state.ledger.reserved (w.state.getAccountId origin)) := by
  obtain ⟨⟨w₁, hcommits, hnet⟩, hwithin, hcost⟩ := h.cost hrun fun w₁ => (hbody w₁).2
  obtain rfl : report = t.report := by
    rw [(hbody w₁).1 hcommits, hnet]
    rfl
  -- nothing is sent to oneself
  have hsent : sent origin target value w.state ≤ value := by
    unfold sent
    split
    · exact Nat.zero_le value
    · exact le_rfl
  have hreleased := t.released_eq hwithin
  unfold CostsItsReport Tally.Balanced
  rw [hreleased] at hcost
  push_cast [Nat.cast_sub hsent]
  constructor
  · intro hfree
    rw [hfree] at hcost
    linear_combination hcost
  · intro hbalanced
    linear_combination hcost - hbalanced

/-- What the value does not take from its sender is nothing if there is no value or it goes to
another account. -/
theorem value_sub_sent {s : State} (h : value = 0 ∨ s.getAccountId target ≠ s.getAccountId origin) :
    value - sent origin target value s = 0 := by
  unfold sent
  split
  · next heq => rw [h.resolve_right fun hne => hne heq]
  · exact Nat.sub_self value

section Runner

variable {E : Env} {origin : EvmAddress} {value gasLimit storageLimit : ℕ} {prog : Prog}
  {w w' : World} {t : Tally} {paid : List Paid}

section Call

variable {target : EvmAddress} {info : CallInfo}
  (hregular : RegularRun E.toConfig origin target value storageLimit
    (Runner.callBody E origin origin target value gasLimit prog)
    { w with state := w.state.incNonce origin } t paid)
  (h : Runner.call E origin origin target value gasLimit storageLimit prog w = (w', .ok info))
  (hsucceed : info.exitReason.isSucceed = true)

include hregular h hsucceed

/-- A call: if it returns, it has not been refused and its transaction has returned. -/
theorem RegularRun.call_costsItsReport_iff :
    CostsItsReport E.toConfig origin value info.usedStorage w w' ↔
      t.Balanced E.toConfig paid storageLimit (value - sent origin target value w.state)
        (w.state.ledger.reserved (w.state.getAccountId origin)) :=
  hregular.costsItsReport_iff (Runner.call_transaction h) fun _ => Runner.callBody_info hsucceed

/-- **The plain call.** A regular call without an overrun, whose value leaves the origin's account,
costs its origin what it reports iff no kept settlement grows the storage of another account and the
reserve of the origin is never short. -/
theorem plain_call_costs_its_report_iff (hplain : t.Plain E.toConfig paid storageLimit)
    (hleaves : value = 0 ∨ w.state.getAccountId target ≠ w.state.getAccountId origin) :
    CostsItsReport E.toConfig origin value info.usedStorage w w' ↔
      t.PaidExactly E.toConfig paid storageLimit
        (w.state.ledger.reserved (w.state.getAccountId origin)) := by
  rw [hregular.call_costsItsReport_iff h hsucceed, value_sub_sent hleaves]
  exact hplain.balanced_iff

end Call

section Create

variable {initCode : Bytes} {salt : Option H256} {address : EvmAddress} {info : CreateInfo}
  (hregular : RegularRun E.toConfig origin address value storageLimit
    (Runner.createBody E ((createScheme E.toConfig origin salt initCode).key w.state) origin
      address initCode value gasLimit prog)
    { w with state := w.state.incNonce origin } t paid)
  (h : Runner.create E origin initCode salt value gasLimit storageLimit prog w = (w', .ok info))
  (haddress : createAddress E.toConfig (createScheme E.toConfig origin salt initCode) w.state =
    .ok address)
  (hsucceed : info.exitReason.isSucceed = true)

include hregular h haddress hsucceed

/-- A creation, at the address that its key derives. -/
theorem RegularRun.create_costsItsReport_iff :
    CostsItsReport E.toConfig origin value info.usedStorage w w' ↔
      t.Balanced E.toConfig paid storageLimit (value - sent origin address value w.state)
        (w.state.ledger.reserved (w.state.getAccountId origin)) := by
  refine hregular.costsItsReport_iff (r := .ok info) ?_ fun _ => Runner.createBody_info hsucceed
  simp only [Runner.create, haddress, Runner.createAt] at h
  split at h
  · next w₁ result hrun =>
    cases h
    exact hrun
  · cases h

/-- **The plain creation**, as the plain call. -/
theorem plain_create_costs_its_report_iff (hplain : t.Plain E.toConfig paid storageLimit)
    (hleaves : value = 0 ∨ w.state.getAccountId address ≠ w.state.getAccountId origin) :
    CostsItsReport E.toConfig origin value info.usedStorage w w' ↔
      t.PaidExactly E.toConfig paid storageLimit
        (w.state.ledger.reserved (w.state.getAccountId origin)) := by
  rw [hregular.create_costsItsReport_iff h haddress hsucceed, value_sub_sent hleaves]
  exact hplain.balanced_iff

end Create

end Runner

/-! ### Two runs -/

/-- A contract of one byte of code with one slot in use, and the deposit for it. -/
def ownSlot : State :=
  { State.empty with
    accounts := Finmap.singleton 7 ⟨1, some ⟨sampleEnv.codeHash [1], 5, true⟩, none⟩
    accountStorages := fun a => if a = 7 then Finmap.singleton 0 1 else ∅
    codes := Finmap.singleton (sampleEnv.codeHash [1]) [1]
    codeInfos := Finmap.singleton (sampleEnv.codeHash [1]) ⟨1, 1⟩
    ledger :=
      { free := fun _ => 100 * REEF
        reserved := fun a =>
          if a = EvmAccounts.padded 7 then 1_065 * (10 * MILLI_REEF) else 0 } }

/-- A contract that writes one slot. -/
def writeSlot (index value : H256) : Prog := .setStorage index value (.exit (.succeed .stopped) [])

/-- The contract clears the slot it has. -/
theorem regularRun_clearSlot :
    RegularRun sampleEnv.toConfig 5 7 0 0
      (Runner.callBody sampleEnv 5 5 7 0 1_000_000 (writeSlot 0 0)) ⟨ownSlot.incNonce 5, []⟩
      ⟨0, 64, [], []⟩ [⟨0, 64, false⟩] := by
  have hfits : (0 : ℕ) + 64 < 2 ^ storageBits := by decide
  refine ⟨⟨ownSlot.incNonce 5, []⟩, ownSlot.incNonce 5, rfl, rfl, rfl, ?_, ⟨?_, ?_⟩, by decide, ?_⟩
  · exact .refund (.root 7 0) 64 ⟨rfl, rfl, rfl⟩ hfits hfits
  · intro _
    decide +kernel
  · intro w' h
    rw [← (Prod.mk.inj h).1]
    decide +kernel
  · decide +kernel

/-- The contract writes another slot. -/
theorem regularRun_fillSlot :
    RegularRun sampleEnv.toConfig 5 7 0 64
      (Runner.callBody sampleEnv 5 5 7 0 1_000_000 (writeSlot 1 1)) ⟨ownSlot.incNonce 5, []⟩
      ⟨64, 0, [], []⟩ [⟨64, 0, false⟩] := by
  have hfits : (0 : ℕ) + 64 < 2 ^ storageBits := by decide
  refine ⟨_, _, rfl, rfl, rfl, ?_, ⟨?_, ?_⟩, by decide, ?_⟩
  · exact .charge (.root 7 64) 64 ⟨rfl, rfl, rfl⟩ hfits hfits
  · intro hless
    cases hless
  · intro w' h
    rw [← (Prod.mk.inj h).1]
    decide +kernel
  · decide +kernel

/-- **When a run costs its origin what it reports.** For every successful call or creation by
`origin` that is regular, with the tally `t` and the kept settlements `paid`, the free balance of
the origin has lost the value and the deposit of the reported use iff the tally is balanced. -/
theorem run_costs_its_report_iff (E : Env) (origin : EvmAddress) (value gasLimit storageLimit : ℕ)
    (prog : Prog) (w w' : World) (t : Tally) (paid : List Paid) :
    (∀ (target : EvmAddress) (info : CallInfo),
      Runner.call E origin origin target value gasLimit storageLimit prog w = (w', .ok info) →
      info.exitReason.isSucceed = true →
      RegularRun E.toConfig origin target value storageLimit
        (Runner.callBody E origin origin target value gasLimit prog)
        { w with state := w.state.incNonce origin } t paid →
      (CostsItsReport E.toConfig origin value info.usedStorage w w' ↔
        t.Balanced E.toConfig paid storageLimit (value - sent origin target value w.state)
          (w.state.ledger.reserved (w.state.getAccountId origin)))) ∧
    (∀ (initCode : Bytes) (salt : Option H256) (address : EvmAddress) (info : CreateInfo),
      Runner.create E origin initCode salt value gasLimit storageLimit prog w = (w', .ok info) →
      createAddress E.toConfig (createScheme E.toConfig origin salt initCode) w.state =
        .ok address →
      info.exitReason.isSucceed = true →
      RegularRun E.toConfig origin address value storageLimit
        (Runner.createBody E ((createScheme E.toConfig origin salt initCode).key w.state) origin
          address initCode value gasLimit prog)
        { w with state := w.state.incNonce origin } t paid →
      (CostsItsReport E.toConfig origin value info.usedStorage w w' ↔
        t.Balanced E.toConfig paid storageLimit (value - sent origin address value w.state)
          (w.state.ledger.reserved (w.state.getAccountId origin)))) := by
  constructor
  · intro target info h hsucceed hregular
    exact hregular.call_costsItsReport_iff h hsucceed
  · intro initCode salt address info h haddress hsucceed hregular
    exact hregular.create_costsItsReport_iff h haddress hsucceed

/-- The contract clears its slot. The origin gets the deposit of a slot, as reported. -/
theorem clearing_run_costs_its_report :
    ∃ w' info, Runner.call sampleEnv 5 5 7 0 1_000_000 0 (writeSlot 0 0) ⟨ownSlot, []⟩ =
        (w', .ok info) ∧
      info.usedStorage = -64 ∧ CostsItsReport sampleEnv.toConfig 5 0 (-64) ⟨ownSlot, []⟩ w' := by
  have hresult : (Runner.call sampleEnv 5 5 7 0 1_000_000 0 (writeSlot 0 0) ⟨ownSlot, []⟩).2 =
      .ok ⟨.succeed .stopped, [], 21_000, -64⟩ := by
    decide +kernel
  rcases hrun : Runner.call sampleEnv 5 5 7 0 1_000_000 0 (writeSlot 0 0) ⟨ownSlot, []⟩ with ⟨w', r⟩
  obtain rfl : r = .ok ⟨.succeed .stopped, [], 21_000, -64⟩ := by
    rw [hrun] at hresult
    exact hresult
  have hcosts := (run_costs_its_report_iff sampleEnv 5 0 1_000_000 0 (writeSlot 0 0)
    ⟨ownSlot, []⟩ w' ⟨0, 64, [], []⟩ [⟨0, 64, false⟩]).1 7 _ hrun rfl regularRun_clearSlot
  exact ⟨w', _, rfl, rfl, hcosts.mpr (by unfold Tally.Balanced; decide +kernel)⟩

/-- The contract writes another slot. The origin pays the existential deposit on top of what is
reported. -/
theorem growing_run_costs_more :
    let run := Runner.call sampleEnv 5 5 7 0 1_000_000 64 (writeSlot 1 1) ⟨ownSlot, []⟩
    run.2 = .ok ⟨.succeed .stopped, [], 21_000, 64⟩ ∧
      RegularRun sampleEnv.toConfig 5 7 0 64
        (Runner.callBody sampleEnv 5 5 7 0 1_000_000 (writeSlot 1 1)) ⟨ownSlot.incNonce 5, []⟩
        ⟨64, 0, [], []⟩ [⟨64, 0, false⟩] ∧
      ownSlot.ledger.free (ownSlot.getAccountId 5) = 100 * REEF ∧
      run.1.state.ledger.free (ownSlot.getAccountId 5) = 100 * REEF - 640 * MILLI_REEF - 1 ∧
      ¬ CostsItsReport sampleEnv.toConfig 5 0 64 ⟨ownSlot, []⟩ run.1 := by
  refine ⟨by decide +kernel, regularRun_fillSlot, rfl, by decide +kernel, ?_⟩
  unfold CostsItsReport
  decide +kernel

end Evm
end Reef
