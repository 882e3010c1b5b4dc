import Mathlib.Algebra.BigOperators.Group.List.Basic
import Mathlib.Algebra.Order.BigOperators.Group.List
import Mathlib.Algebra.Order.Group.Nat
import Mathlib.Algebra.Order.Ring.Nat
import Mathlib.Data.Finset.Sort
import ReefChain.Lib.SortedVec
import ReefChain.Primitives

/-!
# The ledger of a stash

A stash has a part of its balance at stake. Its ledger says how much is *active*, and keeps a queue
of *chunks* that become free in later eras. Three operations work on the ledger alone:

* `consolidateUnlocked` drops the chunks whose era has come;
* `rebond` makes chunks active again, beginning with the youngest, and shortens the last one it
  touches;
* `slash` takes an amount away. If there are chunks that were still at stake in the era of the
  offence, the active part and these chunks are slashed in proportion, the ratio being rounded up;
  otherwise the active part is slashed first. What is left over is taken from the other chunks, from
  the youngest to the oldest. A part that would be left with less than the minimum balance is taken
  as a whole.

All of them keep `Sound`: the total is the active part and the chunks. The eras of the chunks that
remain are among those there were (`Sublist`). The main result is `slash_bounds`: what a slash takes
exceeds the amount that is asked for by less than the minimum balance, and falls short of it, if
there is as much, by at most one unit for every `10^18` units of the total. It can fall short
because the ratio is not rounded up as a whole: its denominator is rounded up before the division.

Balances are natural numbers; the sums here do not exceed the issuance of the token. The era in
which a slashed stash could have left is a sum of two `u32` and wraps around.
-/

namespace Reef

namespace Perquintill

/-- `Perquintill::one`. -/
def one : Perquintill := ⟨accuracy, Nat.le_refl _⟩

/-- `Perquintill::mul_ceil`: the product rounded up. -/
def mulCeil (r : Perquintill) (b : ℕ) : ℕ := (r.parts * b + (accuracy - 1)) / accuracy

/-- A part of an amount, rounded up, is not above the amount. -/
theorem mulCeil_le (r : Perquintill) (b : ℕ) : r.mulCeil b ≤ b := by
  have hparts : r.parts * b ≤ accuracy * b := Nat.mul_le_mul_right b r.parts_le
  unfold mulCeil
  have hpos : 0 < accuracy := by decide
  have hlt : r.parts * b + (accuracy - 1) < (b + 1) * accuracy := by
    have hmul : (b + 1) * accuracy = accuracy * b + accuracy := by ring
    omega
  exact Nat.lt_succ_iff.mp ((Nat.div_lt_iff_lt_mul hpos).mpr hlt)

/-- Rounding up never gives less than the exact part. -/
theorem le_mulCeil_mul (r : Perquintill) (b : ℕ) : r.parts * b ≤ r.mulCeil b * accuracy := by
  have h := Nat.lt_div_mul_add (a := r.parts * b + (accuracy - 1)) (by decide : 0 < accuracy)
  unfold mulCeil accuracy at *
  omega

@[simp] theorem mulCeil_one (b : ℕ) : one.mulCeil b = b := by
  refine Nat.le_antisymm (one.mulCeil_le b) ?_
  have h := one.le_mulCeil_mul b
  exact Nat.le_of_mul_le_mul_left (Nat.mul_comm _ accuracy ▸ h) (by decide)

/-- A fraction with all its parts is one. -/
theorem eq_one {r : Perquintill} (h : r.parts = accuracy) : r = one := by
  cases r
  cases h
  rfl

/-- `Perquintill::from_rational_with_rounding` with `Rounding::Up`, and one where it fails. -/
def fromRationalUp (p q : ℕ) : Perquintill where
  parts := (rationalParts accuracy .up p q).getD accuracy
  parts_le := by
    cases h : rationalParts accuracy .up p q with
    | none => exact Nat.le_refl accuracy
    | some parts => exact rationalParts_le h

theorem fromRationalUp_parts (p q : ℕ) :
    (fromRationalUp p q).parts = (rationalParts accuracy .up p q).getD accuracy := rfl

/-- A quotient is one if it would be more, or if there is none. -/
theorem fromRationalUp_of_lt {p q : ℕ} (h : q = 0 ∨ q < p) : fromRationalUp p q = one := by
  have hnone : rationalParts accuracy .up p q = none := if_pos h
  refine eq_one ?_
  rw [fromRationalUp_parts, hnone]
  rfl

/-- Any other quotient is at least that with a slightly larger denominator. -/
theorem le_fromRationalUp {p q : ℕ} (h : ¬(q = 0 ∨ q < p)) :
    p * accuracy ≤ (fromRationalUp p q).parts * (q + (q - 1) / accuracy) := by
  obtain ⟨parts, hparts⟩ : ∃ parts, rationalParts accuracy .up p q = some parts := by
    unfold rationalParts
    exact ⟨_, if_neg h⟩
  rw [fromRationalUp_parts, hparts, Option.getD_some]
  exact rationalParts_up (by decide) hparts

end Perquintill

namespace Staking

/-- `UnlockChunk`: funds that are free from an era on. -/
structure UnlockChunk where
  value : ℕ
  era : ℕ
  deriving DecidableEq, Repr

/-- `StakingLedger`. -/
structure StakingLedger (α : Type) where
  stash : α
  total : ℕ
  active : ℕ
  unlocking : List UnlockChunk
  claimedRewards : List ℕ
  deriving DecidableEq, Repr

/-- The funds in a queue of chunks. -/
def funds (chunks : List UnlockChunk) : ℕ := (chunks.map UnlockChunk.value).sum

@[simp] theorem funds_nil : funds [] = 0 := rfl

@[simp] theorem funds_cons (c : UnlockChunk) (cs : List UnlockChunk) :
    funds (c :: cs) = c.value + funds cs := rfl

@[simp] theorem funds_append (cs ds : List UnlockChunk) :
    funds (cs ++ ds) = funds cs + funds ds := by
  simp [funds]

@[simp] theorem funds_reverse (cs : List UnlockChunk) : funds cs.reverse = funds cs := by
  simp [funds]

/-- The eras of a queue of chunks. -/
def eras (chunks : List UnlockChunk) : List ℕ := chunks.map UnlockChunk.era

namespace StakingLedger

variable {α : Type}

/-- `StakingLedger::consolidate_unlocked`. -/
def consolidateUnlocked (l : StakingLedger α) (currentEra : ℕ) : StakingLedger α :=
  { l with
    total :=
      (l.unlocking.filter (·.era ≤ currentEra)).foldl (fun total c => total - c.value) l.total
    unlocking := l.unlocking.filter (currentEra < ·.era) }

/-- The loop of `rebond` over the chunks, the youngest first. It carries the active part and what
has been rebonded. -/
def rebondChunks (value : ℕ) : List UnlockChunk → ℕ → ℕ → List UnlockChunk × ℕ × ℕ
  | [], active, rebonded => ([], active, rebonded)
  | last :: chunks, active, rebonded =>
    if rebonded + last.value ≤ value then
      if value ≤ rebonded + last.value then
        (chunks, active + last.value, rebonded + last.value)
      else rebondChunks value chunks (active + last.value) (rebonded + last.value)
    else
      let diff := value - rebonded
      ({ last with value := last.value - diff } :: chunks, active + diff, rebonded + diff)

/-- `StakingLedger::rebond`, with the amount that is rebonded. -/
def rebond (l : StakingLedger α) (value : ℕ) : StakingLedger α × ℕ :=
  let (chunks, active, rebonded) := rebondChunks value l.unlocking.reverse l.active 0
  ({ l with active := active, unlocking := chunks.reverse }, rebonded)

/-- `slash_from_target`, before dust is looked at: the share of the target if the slash is
proportional, and not more than the target has or than remains to be slashed. -/
def slashFromTarget (proportional : Option Perquintill) (target remaining : ℕ) : ℕ :=
  let wanted :=
    match proportional with
    | some ratio => ratio.mulCeil target
    | none => remaining
  min (min wanted target) remaining

/-- The closure `slash_out_of`: what is left of a target, and what is taken from it. Dust is taken
with the rest. -/
def slashOutOf (proportional : Option Perquintill) (minimumBalance target remaining : ℕ) : ℕ × ℕ :=
  let taken := slashFromTarget proportional target remaining
  if target - taken < minimumBalance then (0, target - taken + taken) else (target - taken, taken)

/-- The loop of `slash` over the positions of the chunks. It carries the chunks, the total and what
remains to be slashed. -/
def slashChunks (proportional : Option Perquintill) (minimumBalance : ℕ) :
    List ℕ → List UnlockChunk → ℕ → ℕ → List UnlockChunk × ℕ × ℕ
  | [], chunks, total, remaining => (chunks, total, remaining)
  | i :: order, chunks, total, remaining =>
    if remaining = 0 then (chunks, total, remaining)
    else
      match chunks[i]? with
      | none => (chunks, total, remaining)
      | some chunk =>
        let (left, taken) := slashOutOf proportional minimumBalance chunk.value remaining
        slashChunks proportional minimumBalance order (chunks.set i { chunk with value := left })
          (total - taken) (remaining - taken)

/-- The ratio and the order in which `slash` goes through the chunks. The first chunk that was at
stake in the era of the offence is the first one that becomes free at `start` or later. -/
def slashPlan (l : StakingLedger α) (amount start : ℕ) : Option Perquintill × List ℕ :=
  match l.unlocking.findIdx? (start ≤ ·.era) with
  | some first =>
    let affected := l.active + funds (l.unlocking.drop first)
    (some (.fromRationalUp amount affected),
      List.range' first (l.unlocking.length - first) ++ (List.range first).reverse)
  | none => (none, (List.range l.unlocking.length).reverse)

/-- `StakingLedger::slash`, with the amount that is slashed. -/
def slash (bondingDuration : ℕ) (l : StakingLedger α) (amount minimumBalance slashEra : ℕ) :
    StakingLedger α × ℕ :=
  if amount = 0 then (l, 0)
  else
    let start := Bounded.wrapAdd 32 slashEra bondingDuration
    let (proportional, order) := slashPlan l amount start
    let (active, taken) := slashOutOf proportional minimumBalance l.active amount
    let (chunks, total, _) :=
      slashChunks proportional minimumBalance order l.unlocking (l.total - taken) (amount - taken)
    ({ l with active := active, total := total, unlocking := chunks.filter (·.value ≠ 0) },
      l.total - total)

/-- The total is the active part and the chunks. -/
def Sound (l : StakingLedger α) : Prop := l.total = l.active + funds l.unlocking

/-! ### Chunks whose era has come -/

/-- Whatever the predicate, the funds are those of the chunks that meet it and of the others. -/
theorem funds_filter_add (p : UnlockChunk → Bool) (cs : List UnlockChunk) :
    funds (cs.filter p) + funds (cs.filter fun c => !p c) = funds cs := by
  induction cs with
  | nil => rfl
  | cons c cs ih =>
    by_cases hp : p c <;> simp [hp] <;> omega

/-- Taking the chunks off one by one is taking off their sum. -/
theorem foldl_sub_value (cs : List UnlockChunk) (total : ℕ) :
    cs.foldl (fun total c => total - c.value) total = total - funds cs := by
  induction cs generalizing total with
  | nil => rfl
  | cons c cs ih =>
    rw [List.foldl_cons, ih, funds_cons]
    omega

variable {l : StakingLedger α}

/-- The total falls by the chunks that are due. -/
theorem consolidateUnlocked_total (l : StakingLedger α) (currentEra : ℕ) :
    (l.consolidateUnlocked currentEra).total =
      l.total - funds (l.unlocking.filter (·.era ≤ currentEra)) :=
  foldl_sub_value _ _

theorem Sound.consolidateUnlocked (h : l.Sound) (currentEra : ℕ) :
    (l.consolidateUnlocked currentEra).Sound := by
  have hsplit := funds_filter_add (fun c => decide (c.era ≤ currentEra)) l.unlocking
  have hrest : (l.unlocking.filter fun c => !decide (c.era ≤ currentEra)) =
      l.unlocking.filter (currentEra < ·.era) := by
    refine List.filter_congr fun c _ => ?_
    rw [← decide_not, decide_eq_decide]
    exact Nat.not_le
  unfold Sound at h ⊢
  rw [consolidateUnlocked_total]
  change _ = l.active + funds (l.unlocking.filter (currentEra < ·.era))
  rw [hrest] at hsplit
  omega

/-- The chunks that stay keep their order. -/
theorem eras_consolidateUnlocked (l : StakingLedger α) (currentEra : ℕ) :
    (eras (l.consolidateUnlocked currentEra).unlocking).Sublist (eras l.unlocking) :=
  List.filter_sublist.map _

/-! ### Rebonding -/

/-- The funds of the chunks that are free from `era` on or later. -/
def fundsFrom (era : ℕ) (chunks : List UnlockChunk) : ℕ := funds (chunks.filter (era ≤ ·.era))

@[simp] theorem fundsFrom_nil (era : ℕ) : fundsFrom era [] = 0 := rfl

theorem fundsFrom_cons (era : ℕ) (c : UnlockChunk) (cs : List UnlockChunk) :
    fundsFrom era (c :: cs) = (if era ≤ c.era then c.value else 0) + fundsFrom era cs := by
  unfold fundsFrom
  by_cases h : era ≤ c.era <;> simp [h]

theorem fundsFrom_append (era : ℕ) (cs ds : List UnlockChunk) :
    fundsFrom era (cs ++ ds) = fundsFrom era cs + fundsFrom era ds := by
  simp [fundsFrom]

theorem fundsFrom_reverse (era : ℕ) (cs : List UnlockChunk) :
    fundsFrom era cs.reverse = fundsFrom era cs := by
  simp [fundsFrom]

/-- The chunks from an era on are some of all chunks. -/
theorem fundsFrom_le (era : ℕ) (cs : List UnlockChunk) : fundsFrom era cs ≤ funds cs := by
  have h := funds_filter_add (fun c => decide (era ≤ c.era)) cs
  unfold fundsFrom
  omega

/-- What the loop of `rebond` does: it takes what is asked for as long as there is something, turns
it into active funds, and leaves a part of the queue. -/
structure Rebonded (value : ℕ) (chunks : List UnlockChunk) (active rebonded : ℕ)
    (after : List UnlockChunk × ℕ × ℕ) : Prop where
  activates : after.2.1 + rebonded = active + after.2.2
  keeps : funds after.1 + after.2.1 = funds chunks + active
  amount : after.2.2 = min value (rebonded + funds chunks)
  sublist : (eras after.1).Sublist (eras chunks)
  from_le : ∀ era, active + fundsFrom era chunks ≤ after.2.1 + fundsFrom era after.1

/-- The loop of `rebond`, by induction on the chunks. -/
theorem rebondChunks_spec {value : ℕ} (chunks : List UnlockChunk) (active : ℕ) {rebonded : ℕ}
    (hle : rebonded ≤ value) :
    Rebonded value chunks active rebonded (rebondChunks value chunks active rebonded) := by
  induction chunks generalizing active rebonded with
  | nil =>
    refine ⟨rfl, rfl, ?_, .refl _, fun _ => Nat.le_refl _⟩
    change rebonded = min value (rebonded + 0)
    omega
  | cons last chunks ih =>
    unfold rebondChunks
    split
    · next hfits =>
      split
      · next hreached =>
        refine ⟨by simp only []; omega, by rw [funds_cons]; simp only []; omega, ?_,
          List.sublist_cons_self _ _, fun era => ?_⟩
        · rw [funds_cons]
          simp only []
          omega
        · rw [fundsFrom_cons]
          simp only []
          split <;> omega
      · obtain ⟨hactive, hfunds, hamount, heras, hfrom⟩ := ih (active + last.value) hfits
        refine ⟨by omega, by rw [funds_cons]; omega, ?_, heras.trans (List.sublist_cons_self _ _),
          fun era => ?_⟩
        · rw [hamount, funds_cons, Nat.add_assoc]
        · have h := hfrom era
          rw [fundsFrom_cons]
          split <;> omega
    · next hfits =>
      -- the last chunk is shortened by what is missing
      refine ⟨by simp only []; omega, ?_, ?_, .refl _, fun era => ?_⟩
      · simp only [funds_cons]
        omega
      · simp only [funds_cons]
        omega
      · rw [fundsFrom_cons, fundsFrom_cons]
        simp only []
        split <;> omega

theorem rebond_spec (l : StakingLedger α) (value : ℕ) :
    Rebonded value l.unlocking l.active 0
      ((l.rebond value).1.unlocking, (l.rebond value).1.active, (l.rebond value).2) := by
  obtain ⟨hactive, hfunds, hamount, heras, hfrom⟩ :=
    rebondChunks_spec l.unlocking.reverse l.active (Nat.zero_le value)
  refine ⟨hactive, ?_, ?_, ?_, fun era => ?_⟩
  · simp only [rebond, funds_reverse] at *
    exact hfunds
  · simp only [rebond, funds_reverse] at *
    exact hamount
  · unfold eras at *
    simp only [rebond, List.map_reverse] at *
    rw [← List.reverse_sublist, List.reverse_reverse]
    exact heras
  · have h := hfrom era
    simp only [rebond, fundsFrom_reverse] at *
    exact h

/-- Rebonding moves funds within the ledger. -/
theorem rebond_total (l : StakingLedger α) (value : ℕ) : (l.rebond value).1.total = l.total := rfl

theorem Sound.rebond (h : l.Sound) (value : ℕ) : (l.rebond value).1.Sound := by
  have hfunds := (rebond_spec l value).keeps
  unfold Sound at h ⊢
  rw [rebond_total, h]
  simp only [] at hfunds
  omega

/-! ### Slashing -/

section Slash

variable {proportional : Option Perquintill} {minimumBalance target remaining : ℕ}

/-- The share of a target that is slashed. -/
def share (proportional : Option Perquintill) (target : ℕ) : ℕ :=
  match proportional with
  | some ratio => ratio.mulCeil target
  | none => target

/-- The share of a target is not above the target. -/
theorem share_le (proportional : Option Perquintill) (target : ℕ) :
    share proportional target ≤ target := by
  cases proportional with
  | none => exact Nat.le_refl _
  | some ratio => exact ratio.mulCeil_le target

/-- The share is taken, as far as it remains to be slashed. -/
theorem slashFromTarget_eq (proportional : Option Perquintill) (target remaining : ℕ) :
    slashFromTarget proportional target remaining =
      min (share proportional target) remaining := by
  have hle := share_le proportional target
  cases proportional with
  | none =>
    change min (min remaining target) remaining = min target remaining
    omega
  | some ratio =>
    exact congrArg (min · remaining) (Nat.min_eq_left hle)

/-- A target is split into what is left and what is taken. -/
theorem slashOutOf_add (proportional : Option Perquintill) (minimumBalance target remaining : ℕ) :
    (slashOutOf proportional minimumBalance target remaining).1 +
      (slashOutOf proportional minimumBalance target remaining).2 = target := by
  have hshare := share_le proportional target
  have htaken := slashFromTarget_eq proportional target remaining
  simp only [slashOutOf]
  generalize slashFromTarget proportional target remaining = taken at *
  split <;> simp only [] <;> omega

/-- The share of a target is taken, unless less remains; and more than what remains is taken by less
than the minimum balance only. -/
theorem slashOutOf_bounds (proportional : Option Perquintill)
    (minimumBalance target remaining : ℕ) :
    min (share proportional target) remaining ≤
        (slashOutOf proportional minimumBalance target remaining).2 ∧
      (slashOutOf proportional minimumBalance target remaining).2 ≤
        remaining + (minimumBalance - 1) := by
  have hshare := share_le proportional target
  have htaken := slashFromTarget_eq proportional target remaining
  simp only [slashOutOf]
  generalize slashFromTarget proportional target remaining = taken at *
  split <;> simp only [] <;> omega

/-- What has been taken and what remains of an amount: exactly the amount as long as something
remains, at the end possibly more. -/
def Taken (minimumBalance amount taken remaining : ℕ) : Prop :=
  taken + remaining = amount ∨
    (remaining = 0 ∧ amount ≤ taken ∧ taken ≤ amount + (minimumBalance - 1))

/-- One target more is slashed; dust that is wiped out counts as taken. -/
theorem Taken.slashOutOf {amount taken : ℕ} (h : Taken minimumBalance amount taken remaining)
    (hremaining : remaining ≠ 0) (proportional : Option Perquintill) (target : ℕ) :
    Taken minimumBalance amount
      (taken + (slashOutOf proportional minimumBalance target remaining).2)
      (remaining - (slashOutOf proportional minimumBalance target remaining).2) := by
  have hle := (slashOutOf_bounds proportional minimumBalance target remaining).2
  rcases h with h | ⟨h, -⟩
  · unfold Taken
    omega
  · exact absurd h hremaining

/-- Writing one chunk changes the funds by the change of its value. -/
theorem funds_set {chunks : List UnlockChunk} {i : ℕ} {chunk : UnlockChunk}
    (h : chunks[i]? = some chunk) (value : ℕ) :
    funds (chunks.set i { chunk with value := value }) + chunk.value = funds chunks + value := by
  induction chunks generalizing i with
  | nil => cases h
  | cons c cs ih =>
    cases i with
    | zero =>
      cases h
      rw [List.set_cons_zero, funds_cons, funds_cons]
      simp only []
      omega
    | succ i =>
      rw [List.getElem?_cons_succ] at h
      have hrest := ih h
      rw [List.set_cons_succ, funds_cons, funds_cons]
      omega

theorem eras_set {chunks : List UnlockChunk} {i : ℕ} {chunk : UnlockChunk}
    (h : chunks[i]? = some chunk) (value : ℕ) :
    eras (chunks.set i { chunk with value := value }) = eras chunks := by
  have hera : (eras chunks)[i]? = some chunk.era := by
    unfold eras
    rw [List.getElem?_map, h]
    rfl
  unfold eras at *
  rw [List.map_set]
  obtain ⟨hi, hget⟩ := List.getElem?_eq_some_iff.mp hera
  exact (congrArg _ hget.symm).trans (List.set_getElem_self hi)

/-- What the loop over the chunks does to the chunks, the total and the rest of the slash. -/
structure Slashed (minimumBalance amount taken : ℕ) (chunks : List UnlockChunk) (total : ℕ)
    (after : List UnlockChunk × ℕ × ℕ) : Prop where
  total_le : after.2.1 ≤ total
  keeps : total + funds after.1 = after.2.1 + funds chunks
  same_eras : eras after.1 = eras chunks
  taken : Taken minimumBalance amount (taken + (total - after.2.1)) after.2.2

/-- The loop over the chunks, by induction on the order of the visits. -/
theorem slashChunks_spec {amount taken : ℕ} (order : List ℕ) {chunks : List UnlockChunk}
    {total remaining : ℕ} (hfunds : funds chunks ≤ total)
    (htaken : Taken minimumBalance amount taken remaining) :
    Slashed minimumBalance amount taken chunks total
      (slashChunks proportional minimumBalance order chunks total remaining) := by
  have hstop : Slashed minimumBalance amount taken chunks total (chunks, total, remaining) :=
    ⟨Nat.le_refl _, rfl, rfl, by rwa [Nat.sub_self, Nat.add_zero]⟩
  induction order generalizing chunks total remaining taken with
  | nil => exact hstop
  | cons i order ih =>
    unfold slashChunks
    split
    · exact hstop
    · next hremaining =>
      split
      · exact hstop
      · next chunk hchunk =>
        have hadd := slashOutOf_add proportional minimumBalance chunk.value remaining
        have htaken' := htaken.slashOutOf hremaining proportional chunk.value
        generalize slashOutOf proportional minimumBalance chunk.value remaining = out at *
        obtain ⟨left, out⟩ := out
        simp only [] at hadd htaken' ⊢
        have hset := funds_set hchunk left
        have hfunds' : funds (chunks.set i { chunk with value := left }) ≤ total - out := by omega
        obtain ⟨htotal, hkeeps, heras, hend⟩ := ih hfunds' htaken'
          ⟨Nat.le_refl _, rfl, rfl, by rwa [Nat.sub_self, Nat.add_zero]⟩
        refine ⟨by omega, by omega, heras.trans (eras_set hchunk left), ?_⟩
        convert hend using 1
        omega

/-- The shares of a queue of chunks. -/
def shares (proportional : Option Perquintill) (chunks : List UnlockChunk) : ℕ :=
  (chunks.map fun c => share proportional c.value).sum

/-- The share of the chunk at a position. -/
def shareAt (proportional : Option Perquintill) (chunks : List UnlockChunk) (i : ℕ) : ℕ :=
  (chunks[i]?).elim 0 fun c => share proportional c.value

/-- **The shares of the chunks in the order are taken**, as long as something remains. -/
theorem slashChunks_remaining (order : List ℕ) (chunks : List UnlockChunk) (total remaining : ℕ)
    (hnodup : order.Nodup) (hrange : ∀ i ∈ order, i < chunks.length) :
    (slashChunks proportional minimumBalance order chunks total remaining).2.2 ≤
      remaining - (order.map (shareAt proportional chunks)).sum := by
  induction order generalizing chunks total remaining with
  | nil => exact Nat.le_refl _
  | cons i order ih =>
    obtain ⟨hi, hnodup⟩ := List.nodup_cons.mp hnodup
    unfold slashChunks
    split
    · next hzero =>
      simp only [hzero]
      omega
    · have hlt := hrange i List.mem_cons_self
      rw [List.getElem?_eq_getElem hlt]
      simp only []
      generalize hchunk : chunks[i] = chunk
      have hshare : shareAt proportional chunks i = share proportional chunk.value := by
        rw [shareAt, List.getElem?_eq_getElem hlt, hchunk]
        rfl
      have hbound := (slashOutOf_bounds proportional minimumBalance chunk.value remaining).1
      generalize slashOutOf proportional minimumBalance chunk.value remaining = out at *
      obtain ⟨left, out⟩ := out
      simp only [] at hbound ⊢
      -- the other positions of the order still have their chunks
      have hrest : order.map (shareAt proportional (chunks.set i { chunk with value := left })) =
          order.map (shareAt proportional chunks) := by
        refine List.map_congr_left fun j hj => ?_
        have hne : i ≠ j := fun heq => hi (heq ▸ hj)
        rw [shareAt, shareAt, List.getElem?_set_ne hne]
      have hle := ih (chunks.set i { chunk with value := left }) (total - out)
        (remaining - out) hnodup fun j hj => by
          rw [List.length_set]
          exact hrange j (List.mem_cons_of_mem i hj)
      rw [hrest] at hle
      rw [List.map_cons, List.sum_cons, hshare]
      omega

/-- All positions together give the shares of all chunks. -/
theorem sum_shareAt_range (proportional : Option Perquintill) (chunks : List UnlockChunk) :
    ((List.range chunks.length).map (shareAt proportional chunks)).sum =
      shares proportional chunks := by
  unfold shares
  congr 1
  refine List.ext_getElem (by simp) fun i hi hi' => ?_
  have hlt : i < chunks.length := by simpa using hi
  rw [List.getElem_map, List.getElem_map, List.getElem_range, shareAt,
    List.getElem?_eq_getElem hlt]
  rfl

theorem sum_shareAt_drop (proportional : Option Perquintill) (chunks : List UnlockChunk)
    (first : ℕ) :
    ((List.range' first (chunks.length - first)).map (shareAt proportional chunks)).sum =
      shares proportional (chunks.drop first) := by
  rw [← sum_shareAt_range, List.range'_eq_map_range, List.map_map, List.length_drop]
  congr 1
  refine List.map_congr_left fun i _ => ?_
  rw [Function.comp_apply, shareAt, shareAt, List.getElem?_drop]

theorem sum_shareAt_take (proportional : Option Perquintill) (chunks : List UnlockChunk)
    {first : ℕ} (hfirst : first ≤ chunks.length) :
    ((List.range first).map (shareAt proportional chunks)).sum =
      shares proportional (chunks.take first) := by
  rw [← sum_shareAt_range, List.length_take_of_le hfirst]
  congr 1
  refine List.map_congr_left fun i hi => ?_
  rw [shareAt, shareAt, List.getElem?_take_of_lt (List.mem_range.mp hi)]

theorem shares_none (chunks : List UnlockChunk) : shares none chunks = funds chunks := rfl

/-- A ratio of one is as good as no ratio. -/
theorem shares_one (chunks : List UnlockChunk) : shares (some .one) chunks = funds chunks := by
  unfold shares funds share
  simp only [Perquintill.mulCeil_one]

/-- The shares of a ratio, rounded up, are at least the ratio of the whole. -/
theorem le_shares_mul (r : Perquintill) (chunks : List UnlockChunk) :
    r.parts * funds chunks ≤ shares (some r) chunks * Perquintill.accuracy := by
  induction chunks with
  | nil => simp [shares]
  | cons c cs ih =>
    have hc := r.le_mulCeil_mul c.value
    have hcons : shares (some r) (c :: cs) = r.mulCeil c.value + shares (some r) cs := rfl
    rw [hcons, funds_cons, Nat.mul_add, Nat.add_mul]
    exact Nat.add_le_add hc ih

variable {amount start : ℕ}

/-- The order goes through every chunk once. -/
theorem slashPlan_order (l : StakingLedger α) (amount start : ℕ) :
    (slashPlan l amount start).2.Nodup ∧
      ∀ i ∈ (slashPlan l amount start).2, i < l.unlocking.length := by
  unfold slashPlan
  split
  · next first hfirst =>
    have hlt : first < l.unlocking.length := by
      obtain ⟨hlt, -⟩ := List.findIdx?_eq_some_iff_getElem.mp hfirst
      exact hlt
    constructor
    · refine List.Nodup.append List.nodup_range' (List.nodup_reverse.mpr List.nodup_range) ?_
      intro i hi hi'
      rw [List.mem_range'_1] at hi
      rw [List.mem_reverse, List.mem_range] at hi'
      omega
    · intro i hi
      rcases List.mem_append.mp hi with hi | hi
      · rw [List.mem_range'_1] at hi
        omega
      · rw [List.mem_reverse, List.mem_range] at hi
        omega
  · refine ⟨List.nodup_reverse.mpr List.nodup_range, fun i hi => ?_⟩
    exact List.mem_range.mp (List.mem_reverse.mp hi)

theorem sum_reverse_map (f : ℕ → ℕ) (is : List ℕ) : (is.reverse.map f).sum = (is.map f).sum := by
  rw [List.map_reverse, List.sum_reverse]

/-- The shares of a ratio that is not one reach the amount, but for the rounding of the
denominator. -/
theorem le_shares_add {active amount : ℕ} {chunks : List UnlockChunk}
    (h : ¬(active + funds chunks = 0 ∨ active + funds chunks < amount)) :
    amount ≤ share (some (.fromRationalUp amount (active + funds chunks))) active +
      shares (some (.fromRationalUp amount (active + funds chunks))) chunks +
        (active + funds chunks - 1) / Perquintill.accuracy := by
  have hup := Perquintill.le_fromRationalUp h
  generalize Perquintill.fromRationalUp amount (active + funds chunks) = r at *
  generalize (active + funds chunks - 1) / Perquintill.accuracy = slack at *
  have hactive := r.le_mulCeil_mul active
  have hchunks := le_shares_mul r chunks
  have hslack : r.parts * slack ≤ slack * Perquintill.accuracy := by
    rw [Nat.mul_comm]
    exact Nat.mul_le_mul_left slack r.parts_le
  refine Nat.le_of_mul_le_mul_right (c := Perquintill.accuracy) ?_ (by decide)
  change _ ≤ (r.mulCeil active + _ + _) * _
  rw [Nat.mul_add, Nat.mul_add] at hup
  rw [Nat.add_mul, Nat.add_mul]
  omega

/-- **The shares reach the amount**, or else they are everything, but for the rounding. -/
theorem min_le_shares (l : StakingLedger α) (amount start : ℕ) :
    min amount (l.active + funds l.unlocking) ≤
      share (slashPlan l amount start).1 l.active +
        ((slashPlan l amount start).2.map
          (shareAt (slashPlan l amount start).1 l.unlocking)).sum +
        (l.active + funds l.unlocking - 1) / Perquintill.accuracy := by
  unfold slashPlan
  split
  · next first hfirst =>
    obtain ⟨hlt, -⟩ := List.findIdx?_eq_some_iff_getElem.mp hfirst
    simp only [List.map_append, List.sum_append, sum_reverse_map]
    rw [sum_shareAt_drop, sum_shareAt_take _ _ hlt.le]
    have hsplit : funds (l.unlocking.take first) + funds (l.unlocking.drop first) =
        funds l.unlocking := by
      rw [← funds_append, List.take_append_drop]
    by_cases hratio : l.active + funds (l.unlocking.drop first) = 0 ∨
        l.active + funds (l.unlocking.drop first) < amount
    · -- with a ratio of one everything is slashed as far as it goes
      have hactive : share (some Perquintill.one) l.active = l.active :=
        Perquintill.mulCeil_one l.active
      rw [Perquintill.fromRationalUp_of_lt hratio, shares_one, shares_one, hactive]
      have hzero := Nat.zero_le ((l.active + funds l.unlocking - 1) / Perquintill.accuracy)
      generalize (l.active + funds l.unlocking - 1) / Perquintill.accuracy = slack at *
      omega
    · have hreach := le_shares_add hratio
      have hslack : (l.active + funds (l.unlocking.drop first) - 1) / Perquintill.accuracy ≤
          (l.active + funds l.unlocking - 1) / Perquintill.accuracy :=
        Nat.div_le_div_right (by omega)
      generalize (l.active + funds l.unlocking - 1) / Perquintill.accuracy = slack at *
      generalize (l.active + funds (l.unlocking.drop first) - 1) / Perquintill.accuracy = less at *
      omega
  · simp only [sum_reverse_map]
    rw [sum_shareAt_range, shares_none]
    exact (Nat.min_le_right _ _).trans (Nat.le_add_right _ _)

/-- Dropping the empty chunks drops no funds. -/
theorem funds_filter_ne_zero (chunks : List UnlockChunk) :
    funds (chunks.filter (·.value ≠ 0)) = funds chunks := by
  induction chunks with
  | nil => rfl
  | cons c cs ih =>
    by_cases hc : c.value = 0
    · rw [List.filter_cons_of_neg (by simpa using hc), ih, funds_cons, hc, Nat.zero_add]
    · rw [List.filter_cons_of_pos (by simpa using hc), funds_cons, ih, funds_cons]

/-- A slash leaves the stash of the ledger and its claimed rewards alone. -/
theorem slash_stash (l : StakingLedger α) (bondingDuration amount minimumBalance slashEra : ℕ) :
    (l.slash bondingDuration amount minimumBalance slashEra).1.stash = l.stash ∧
      (l.slash bondingDuration amount minimumBalance slashEra).1.claimedRewards =
        l.claimedRewards := by
  unfold slash
  split
  · exact ⟨rfl, rfl⟩
  · exact ⟨rfl, rfl⟩

/-- A slash of nothing does nothing. -/
theorem slash_zero (l : StakingLedger α) (bondingDuration minimumBalance slashEra : ℕ) :
    l.slash bondingDuration 0 minimumBalance slashEra = (l, 0) := if_pos rfl

/-- What a slash does to a ledger that is sound. -/
structure SlashSpec (l : StakingLedger α) (amount minimumBalance : ℕ)
    (after : StakingLedger α × ℕ) : Prop where
  sound : after.1.Sound
  total : after.1.total + after.2 = l.total
  active_le : after.1.active ≤ l.active
  sublist : (eras after.1.unlocking).Sublist (eras l.unlocking)
  lower : min amount l.total ≤ after.2 + (l.total - 1) / Perquintill.accuracy
  upper : after.2 ≤ amount + (minimumBalance - 1)

/-- **A slash of a sound ledger**: the active part first, then the chunks of the plan. -/
theorem slash_spec (h : l.Sound) (bondingDuration amount minimumBalance slashEra : ℕ) :
    SlashSpec l amount minimumBalance
      (l.slash bondingDuration amount minimumBalance slashEra) := by
  unfold slash
  split
  · next hamount =>
    refine ⟨h, rfl, Nat.le_refl _, .refl _, ?_, Nat.zero_le _⟩
    rw [hamount, Nat.zero_min]
    exact Nat.zero_le _
  · next hamount =>
    extract_lets start
    have hshares := min_le_shares l amount start
    have horder := slashPlan_order l amount start
    generalize slashPlan l amount start = plan at *
    obtain ⟨proportional, order⟩ := plan
    have hadd := slashOutOf_add proportional minimumBalance l.active amount
    have hbound := (slashOutOf_bounds proportional minimumBalance l.active amount).1
    have hstart : Taken minimumBalance amount 0 amount := .inl (Nat.zero_add _)
    have htaken := hstart.slashOutOf hamount proportional l.active
    simp only []
    generalize slashOutOf proportional minimumBalance l.active amount = out at *
    obtain ⟨active, taken⟩ := out
    simp only [Nat.zero_add] at hadd htaken ⊢
    unfold Sound at h
    rw [← h] at hshares
    have hfunds : funds l.unlocking ≤ l.total - taken := by omega
    have hspec : Slashed minimumBalance amount taken l.unlocking (l.total - taken)
        (slashChunks proportional minimumBalance order l.unlocking (l.total - taken)
          (amount - taken)) := slashChunks_spec order hfunds htaken
    have hremaining : (slashChunks proportional minimumBalance order l.unlocking (l.total - taken)
        (amount - taken)).2.2 ≤ _ := slashChunks_remaining order _ _ _ horder.1 horder.2
    generalize slashChunks proportional minimumBalance order l.unlocking (l.total - taken)
      (amount - taken) = after at *
    obtain ⟨chunks, total, remaining⟩ := after
    obtain ⟨htotal, hkeeps, heras, hend⟩ := hspec
    simp only [] at htotal hkeeps heras hend hremaining hshares hbound ⊢
    refine ⟨?_, by simp only []; omega, by simp only []; omega, ?_, ?_, ?_⟩
    · unfold Sound
      simp only []
      rw [funds_filter_ne_zero]
      omega
    · rw [← heras]
      exact List.filter_sublist.map _
    · -- what remains of the amount is at most what the shares fall short of it
      simp only []
      generalize (l.total - 1) / Perquintill.accuracy = slack at *
      unfold Taken at hend
      omega
    · simp only []
      unfold Taken at hend
      omega

/-- **What a slash takes.** A slash of a sound ledger takes away what it says. That exceeds the
amount by less than the minimum balance, and falls short of the amount, or of everything there is,
by at most a unit for every `10^18` units of the total. -/
theorem slash_bounds (h : l.Sound) (bondingDuration amount minimumBalance slashEra : ℕ) :
    let after := l.slash bondingDuration amount minimumBalance slashEra
    after.1.Sound ∧ after.1.total + after.2 = l.total ∧
      min amount l.total ≤ after.2 + (l.total - 1) / Perquintill.accuracy ∧
      after.2 ≤ amount + (minimumBalance - 1) := by
  have hspec := slash_spec h bondingDuration amount minimumBalance slashEra
  exact ⟨hspec.sound, hspec.total, hspec.lower, hspec.upper⟩

/-- A ledger with a chunk from after the offence. -/
def queuedLedger (unit : ℕ) : StakingLedger ℕ :=
  ⟨7, 1_000_007 * unit + 1, 1_000_006 * unit + 1, [⟨unit, 30⟩], []⟩

/-- A slash of small numbers is exact. One of as many `REEF` falls short of the amount. -/
theorem slash_bounds_queued :
    (let after := (queuedLedger 1).slash 28 600_000 1 2
     after.1.Sound ∧ min 600_000 1_000_008 ≤ after.2 + 0 ∧ after.2 ≤ 600_000 + 0) ∧
    (let after := (queuedLedger REEF).slash 28 (600_000 * REEF) 1 2
     after.1.Sound ∧ after.2 + 201_441 = 600_000 * REEF ∧
       min (600_000 * REEF) (queuedLedger REEF).total ≤
         after.2 + ((queuedLedger REEF).total - 1) / Perquintill.accuracy) := by
  have hsmall := slash_bounds (show (queuedLedger 1).Sound from rfl) 28 600_000 1 2
  have hsound : (queuedLedger REEF).Sound := by
    unfold Sound
    decide +kernel
  have hlarge := slash_bounds hsound 28 (600_000 * REEF) 1 2
  exact ⟨⟨hsmall.1, hsmall.2.2.1, hsmall.2.2.2⟩, hlarge.1, by decide +kernel, hlarge.2.2.1⟩

end Slash

end StakingLedger

end Staking

end Reef
