import Mathlib.Algebra.BigOperators.Group.List.Basic
import Mathlib.Algebra.Order.BigOperators.Group.List
import Mathlib.Algebra.Order.Group.Nat
import Mathlib.Algebra.Order.Ring.Nat
import Mathlib.Data.Finset.Sort
import ReefChain.Lib.Run
import ReefChain.Primitives

/-!
# Slashing spans

The eras in which a stash can be slashed are divided into *spans*. Within a span only the largest
slash counts: a later offence is charged for the difference. A span ends when the stash is slashed
in it, and the next one begins with the era after the present one.

The record `SlashingSpans` has the start of the ongoing span and the lengths of the spans before it,
the most recent first. Its fields say that the lengths are positive and do not reach behind era
zero, and that there are not more spans than eras; no other record can be built. Its spans are
consecutive, so an era belongs to one span at most (`inSpan_unique`) and every era from the first
one on belongs to one (`exists_inSpan`). Ending a span does not move an era that has begun into
another span, and pruning does not do so for the eras of the window (`inSpan_endSpan`,
`inSpan_prune`).

Eras and indices are `u32`. The era after the last one is zero, so the last era does not end a span
(`lt_lastStart_endSpan` excludes it). The index of a span is at most its first era, and does not
wrap around.

`Book` is what the pallet stores for one stash: the spans and a record for each of them. The pallet
works on it through `InspectingSpans`, a copy that is written back if it has been changed. The main
result is `slashed_eq_largest`: over any sequence of offences, what a stash is charged for in a span
is the largest slash of the span, and what is paid for reporting is not more than the reward
proportion of it.
-/

namespace Reef

namespace Perbill

theorem mul_le (r : Perbill) (b : ℕ) : r.mul b ≤ b := by
  have hparts : r.parts * b ≤ accuracy * b := Nat.mul_le_mul_right b r.parts_le
  have hlt : 2 * (r.parts * b) + (accuracy - 1) < (b + 1) * (2 * accuracy) := by
    have hmul : (b + 1) * (2 * accuracy) = 2 * (accuracy * b) + 2 * accuracy := by ring
    have hpos : 0 < accuracy := by decide
    omega
  exact Nat.lt_succ_iff.mp ((Nat.div_lt_iff_lt_mul (by decide)).mpr hlt)

end Perbill

namespace Staking

open Bounded

/-! ### Spans -/

/-- `SlashingSpan`; the ongoing span has no length. -/
structure SlashingSpan where
  index : ℕ
  start : ℕ
  length : Option ℕ
  deriving DecidableEq, Repr

/-- `SlashingSpan::contains_era`. -/
def SlashingSpan.containsEra (span : SlashingSpan) (era : ℕ) : Bool :=
  span.start ≤ era ∧ span.length.elim true (era < span.start + ·)

/-- `SlashingSpans`: the index and the start of the ongoing span, the last era with a slash, and the
lengths of the spans before, the most recent first. -/
structure SlashingSpans where
  spanIndex : ℕ
  lastStart : ℕ
  lastNonzeroSlash : ℕ
  prior : List ℕ
  prior_pos : ∀ length ∈ prior, 0 < length
  sum_le : prior.sum ≤ lastStart
  length_le : prior.length ≤ spanIndex
  index_le : spanIndex ≤ lastStart
  deriving DecidableEq

namespace SlashingSpans

/-- `SlashingSpans::new`. -/
def new (windowStart : ℕ) : SlashingSpans where
  spanIndex := 0
  lastStart := windowStart
  lastNonzeroSlash := 0
  prior := []
  prior_pos := nofun
  sum_le := Nat.zero_le _
  length_le := Nat.zero_le _
  index_le := Nat.zero_le _

variable {now era windowStart : ℕ} {prior : List ℕ} {s : SlashingSpans}

/-- The index of a span that begins later than the ongoing one does not wrap around. -/
theorem wrapAdd_spanIndex (s : SlashingSpans) (h : ¬ wrapAdd 32 now 1 ≤ s.lastStart) :
    wrapAdd 32 s.spanIndex 1 = s.spanIndex + 1 := by
  have hlt : wrapAdd 32 now 1 < 2 ^ 32 := Nat.mod_lt _ (Nat.two_pow_pos 32)
  have hindex := s.index_le
  exact wrapAdd_of_lt (by omega)

/-- `SlashingSpans::end_span`, with whether a new span begins. -/
def endSpan (s : SlashingSpans) (now : ℕ) : SlashingSpans × Bool :=
  if h : wrapAdd 32 now 1 ≤ s.lastStart then (s, false)
  else
    ({ s with
        prior := (wrapAdd 32 now 1 - s.lastStart) :: s.prior
        lastStart := wrapAdd 32 now 1
        spanIndex := wrapAdd 32 s.spanIndex 1
        prior_pos := by
          intro length hlength
          rcases List.mem_cons.mp hlength with rfl | hlength
          · omega
          · exact s.prior_pos length hlength
        sum_le := by
          have := s.sum_le
          rw [List.sum_cons]
          omega
        length_le := by
          rw [s.wrapAdd_spanIndex h]
          exact Nat.succ_le_succ s.length_le
        index_le := by
          have := s.index_le
          rw [s.wrapAdd_spanIndex h]
          omega }, true)

/-- The spans before one that begins at `last` with index `index`. -/
def priorSpans : ℕ → ℕ → List ℕ → List SlashingSpan
  | _, _, [] => []
  | last, index, length :: prior =>
    ⟨index - 1, last - length, some length⟩ :: priorSpans (last - length) (index - 1) prior

/-- `SlashingSpans::iter`, the most recent span first. -/
def iter (s : SlashingSpans) : List SlashingSpan :=
  ⟨s.spanIndex, s.lastStart, none⟩ :: priorSpans s.lastStart s.spanIndex s.prior

/-- A span that has ended when the window starts. -/
def endsBy (windowStart : ℕ) (span : SlashingSpan) : Bool :=
  span.length.elim false fun length => span.start + length ≤ windowStart

/-- The first `o` of the spans before the ongoing one are kept, and the ongoing one begins with the
window if it began before. -/
def truncate (s : SlashingSpans) (o windowStart : ℕ) : SlashingSpans :=
  { s with
    prior := s.prior.take o
    lastStart := max s.lastStart windowStart
    prior_pos := fun length hlength => s.prior_pos length (List.mem_of_mem_take hlength)
    sum_le := by
      have hsum : (s.prior.take o).sum ≤ s.prior.sum :=
        List.Sublist.sum_le_sum (List.take_sublist o s.prior) fun _ _ => Nat.zero_le _
      exact (hsum.trans s.sum_le).trans (Nat.le_max_left _ _)
    length_le := by
      have := s.length_le
      rw [List.length_take]
      omega
    index_le := s.index_le.trans (Nat.le_max_left _ _) }

/-- `SlashingSpans::prune`, with the range of the indices that are dropped. -/
def prune (s : SlashingSpans) (windowStart : ℕ) : SlashingSpans × Option (ℕ × ℕ) :=
  let earliest := s.spanIndex - s.prior.length
  match (s.iter.drop 1).findIdx? (endsBy windowStart) with
  | some o =>
    (s.truncate o windowStart, some (earliest, s.spanIndex - (s.prior.take o).length))
  | none => (s.truncate s.prior.length windowStart, none)

/-- The era belongs to the span with this index. -/
def InSpan (s : SlashingSpans) (era index : ℕ) : Prop :=
  ∃ span ∈ s.iter, span.containsEra era ∧ span.index = index

/-- The first era of the earliest span. -/
def earliestStart (s : SlashingSpans) : ℕ := s.lastStart - s.prior.sum

/-- The index of the earliest span. -/
def earliestIndex (s : SlashingSpans) : ℕ := s.spanIndex - s.prior.length

/-- Before `last`, with smaller indices than `index`, down to the number and the sum of the
lengths. -/
structure Before (last index count sum : ℕ) (span : SlashingSpan) : Prop where
  ends : ∃ length, span.length = some length ∧ span.start + length ≤ last
  lt_index : span.index < index
  index_le : index ≤ span.index + count
  start_le : last ≤ span.start + sum

/-- The spans in the list lie before `last`, with indices that count down. -/
theorem priorSpans_before : ∀ (last index : ℕ), prior.sum ≤ last →
    prior.length ≤ index → ∀ span ∈ priorSpans last index prior,
      Before last index prior.length prior.sum span := by
  induction prior with
  | nil =>
    intro last index _ _ span hspan
    cases hspan
  | cons length prior ih =>
    intro last index hsum hlength span hspan
    rw [List.sum_cons] at hsum
    rw [List.length_cons] at hlength
    rcases List.mem_cons.mp hspan with rfl | hspan
    · -- the span that ends at `last`
      refine ⟨⟨length, rfl, ?_⟩, ?_, ?_, ?_⟩
      · simp only []
        omega
      · simp only []
        omega
      · simp only [List.length_cons]
        omega
      · simp only [List.sum_cons]
        omega
    · -- one before it, where `last` and `index` are already lower
      obtain ⟨⟨l, hl, hends⟩, hlt, hle, hstart⟩ :=
        ih (last - length) (index - 1) (by omega) (by omega) span hspan
      rw [List.length_cons, List.sum_cons]
      exact ⟨⟨l, hl, by omega⟩, by omega, by omega, by omega⟩

/-- The spans in the list are in the order of time, and do not overlap. -/
theorem pairwise_priorSpans : ∀ (last index : ℕ), prior.sum ≤ last →
    prior.length ≤ index → (priorSpans last index prior).Pairwise fun a b =>
      (∃ length, b.length = some length ∧ b.start + length ≤ a.start) ∧ b.index < a.index := by
  induction prior with
  | nil => exact fun _ _ _ _ => List.Pairwise.nil
  | cons length prior ih =>
    intro last index hsum hlength
    rw [List.sum_cons] at hsum
    rw [List.length_cons] at hlength
    refine List.Pairwise.cons ?_ (ih (last - length) (index - 1) (by omega) (by omega))
    -- all that follow the first span lie before its start
    intro b hb
    have hbefore := priorSpans_before (last - length) (index - 1) (by omega) (by omega) b hb
    exact ⟨hbefore.ends, hbefore.lt_index⟩

/-- So are all spans: the ongoing one is the last. -/
theorem pairwise_iter (s : SlashingSpans) : s.iter.Pairwise fun a b =>
    (∃ length, b.length = some length ∧ b.start + length ≤ a.start) ∧ b.index < a.index := by
  refine List.Pairwise.cons ?_ (pairwise_priorSpans _ _ s.sum_le s.length_le)
  intro b hb
  have hbefore := priorSpans_before _ _ s.sum_le s.length_le b hb
  exact ⟨hbefore.ends, hbefore.lt_index⟩

/-- A span without a length has no end. -/
theorem containsEra_iff {span : SlashingSpan} : span.containsEra era ↔
    span.start ≤ era ∧ ∀ length, span.length = some length → era < span.start + length := by
  unfold SlashingSpan.containsEra
  cases span.length <;> simp

/-- Two spans that contain an era are at the same position. -/
theorem position_unique (s : SlashingSpans) {i j : ℕ} (hi : i < s.iter.length)
    (hj : j < s.iter.length) (hera : s.iter[i].containsEra era)
    (hera' : s.iter[j].containsEra era) : ¬ i < j := by
  intro hlt
  -- the span further behind in the list has ended when the other one starts
  obtain ⟨⟨length, hlength, hends⟩, -⟩ :=
    List.pairwise_iff_getElem.mp s.pairwise_iter i j hi hj hlt
  have hstart := (containsEra_iff.mp hera).1
  have hend := (containsEra_iff.mp hera').2 length hlength
  omega

/-- **An era belongs to one span at most.** -/
theorem inSpan_unique {i j : ℕ} (hi : s.InSpan era i) (hj : s.InSpan era j) : i = j := by
  obtain ⟨a, ha, hera, rfl⟩ := hi
  obtain ⟨b, hb, hera', rfl⟩ := hj
  obtain ⟨i, hi, rfl⟩ := List.mem_iff_getElem.mp ha
  obtain ⟨j, hj, rfl⟩ := List.mem_iff_getElem.mp hb
  have hij := s.position_unique hi hj hera hera'
  have hji := s.position_unique hj hi hera' hera
  obtain rfl : i = j := by omega
  rfl

/-- The spans in the list leave no gap before `last`. -/
theorem exists_priorSpans : ∀ (last index : ℕ), prior.sum ≤ last →
    last - prior.sum ≤ era → era < last →
      ∃ span ∈ priorSpans last index prior, span.containsEra era := by
  induction prior with
  | nil =>
    intro last index _ hle hlt
    rw [List.sum_nil] at hle
    omega
  | cons length prior ih =>
    intro last index hsum hle hlt
    rw [List.sum_cons] at hsum hle
    -- the era is in the span that ends at `last`, or before its start
    by_cases hera : last - length ≤ era
    · refine ⟨_, List.mem_cons_self, containsEra_iff.mpr ⟨hera, ?_⟩⟩
      intro l hl
      cases hl
      simp only []
      omega
    · obtain ⟨span, hspan, hcontains⟩ := ih (last - length) (index - 1)
        (by omega) (by omega) (Nat.lt_of_not_le hera)
      exact ⟨span, List.mem_cons_of_mem _ hspan, hcontains⟩

/-- The eras of the ongoing span are those from its start on. -/
theorem inSpan_current (s : SlashingSpans) (era : ℕ) :
    s.InSpan era s.spanIndex ↔ s.lastStart ≤ era := by
  constructor
  · rintro ⟨span, hspan, hera, hindex⟩
    rcases List.mem_cons.mp hspan with rfl | hspan
    · exact (containsEra_iff.mp hera).1
    · have hlt := (priorSpans_before _ _ s.sum_le s.length_le span hspan).lt_index
      omega
  · intro hle
    exact ⟨_, List.mem_cons_self, containsEra_iff.mpr ⟨hle, nofun⟩, rfl⟩

/-- **Every era from the first one on belongs to a span.** -/
theorem exists_inSpan (s : SlashingSpans) (hera : s.earliestStart ≤ era) :
    ∃ index, s.InSpan era index := by
  by_cases hcurrent : s.lastStart ≤ era
  · exact ⟨s.spanIndex, (s.inSpan_current era).mpr hcurrent⟩
  · obtain ⟨span, hspan, hcontains⟩ :=
      exists_priorSpans s.lastStart s.spanIndex s.sum_le hera (Nat.lt_of_not_le hcurrent)
    exact ⟨span.index, span, List.mem_cons_of_mem _ hspan, hcontains, rfl⟩

/-- The indices of the spans of eras run from the earliest to the ongoing one. -/
theorem InSpan.le {index : ℕ} (h : s.InSpan era index) :
    s.earliestIndex ≤ index ∧ index ≤ s.spanIndex := by
  obtain ⟨span, hspan, -, rfl⟩ := h
  unfold earliestIndex
  rcases List.mem_cons.mp hspan with rfl | hspan
  · exact ⟨Nat.sub_le _ _, Nat.le_refl _⟩
  · have hbefore := priorSpans_before _ _ s.sum_le s.length_le span hspan
    have hlt := hbefore.lt_index
    have hle := hbefore.index_le
    omega

/-! ### Ending a span -/

/-- Nothing is ended if the ongoing span begins later. -/
theorem endSpan_of_le (h : wrapAdd 32 now 1 ≤ s.lastStart) : s.endSpan now = (s, false) := dif_pos h

/-- A span that is ended is followed by a new one; the others stay. -/
theorem iter_endSpan (h : ¬ wrapAdd 32 now 1 ≤ s.lastStart) :
    (s.endSpan now).1.iter = ⟨s.spanIndex + 1, wrapAdd 32 now 1, none⟩ ::
      ⟨s.spanIndex, s.lastStart, some (wrapAdd 32 now 1 - s.lastStart)⟩ ::
        priorSpans s.lastStart s.spanIndex s.prior := by
  have hstart : wrapAdd 32 now 1 - (wrapAdd 32 now 1 - s.lastStart) = s.lastStart := by omega
  unfold endSpan iter
  rw [dif_neg h]
  simp only [s.wrapAdd_spanIndex h, priorSpans, hstart, Nat.add_sub_cancel]

/-- A new span begins with the next era: if there is none, the ongoing span stays. -/
theorem wrapAdd_of_not_le (hnow : now < 2 ^ 32) (h : ¬ wrapAdd 32 now 1 ≤ s.lastStart) :
    wrapAdd 32 now 1 = now + 1 := by
  rcases Nat.lt_or_ge (now + 1) (2 ^ 32) with hlt | hge
  · exact wrapAdd_of_lt hlt
  -- the era after the last one is zero, and no span begins later than that
  · have hlast : wrapAdd 32 now 1 = 0 := by
      unfold wrapAdd
      omega
    omega

/-- **Ending a span keeps the eras that have begun** where they are. -/
theorem inSpan_endSpan (s : SlashingSpans) (hnow : now < 2 ^ 32) (hera : era ≤ now) (index : ℕ) :
    (s.endSpan now).1.InSpan era index ↔ s.InSpan era index := by
  by_cases hle : wrapAdd 32 now 1 ≤ s.lastStart
  · rw [endSpan_of_le hle]
  · have hnext := wrapAdd_of_not_le hnow hle
    unfold InSpan
    rw [iter_endSpan hle, hnext]
    -- the new span begins behind the era
    have hnew : ¬ (⟨s.spanIndex + 1, now + 1, none⟩ : SlashingSpan).containsEra era := by
      intro hcontains
      have := (containsEra_iff.mp hcontains).1
      simp only [] at this
      omega
    -- the span that was ongoing has an end now, but behind the era
    have hold : (⟨s.spanIndex, s.lastStart, some (now + 1 - s.lastStart)⟩ :
        SlashingSpan).containsEra era ↔
          (⟨s.spanIndex, s.lastStart, none⟩ : SlashingSpan).containsEra era := by
      rw [containsEra_iff, containsEra_iff]
      refine and_congr_right fun _ => iff_of_true ?_ nofun
      intro length hlength
      cases hlength
      simp only []
      omega
    unfold iter
    simp only [List.mem_cons, exists_eq_or_imp, hnew, Bool.false_eq_true, false_and, false_or, hold]

/-- After a span has ended, the eras that have begun are in earlier spans, unless there is no next
era. -/
theorem lt_lastStart_endSpan (s : SlashingSpans) (hnow : now + 1 < 2 ^ 32) :
    now < (s.endSpan now).1.lastStart := by
  have hnext : wrapAdd 32 now 1 = now + 1 := wrapAdd_of_lt hnow
  unfold endSpan
  split
  · next h =>
    rw [hnext] at h
    exact h
  · simp only [hnext]
    exact Nat.lt_succ_self now

/-- The start and the index of the ongoing span do not go back. -/
theorem le_endSpan (s : SlashingSpans) (now : ℕ) :
    s.lastStart ≤ (s.endSpan now).1.lastStart ∧ s.spanIndex ≤ (s.endSpan now).1.spanIndex := by
  unfold endSpan
  split
  · exact ⟨Nat.le_refl _, Nat.le_refl _⟩
  · next h =>
    simp only [s.wrapAdd_spanIndex h]
    exact ⟨(not_le.mp h).le, Nat.le_succ _⟩

/-- The earliest span stays the same. -/
theorem earliest_endSpan (s : SlashingSpans) (now : ℕ) :
    (s.endSpan now).1.earliestStart = s.earliestStart ∧
      (s.endSpan now).1.earliestIndex = s.earliestIndex := by
  unfold endSpan earliestStart earliestIndex
  split
  · exact ⟨rfl, rfl⟩
  · next h =>
    have := s.sum_le
    simp only [List.sum_cons, List.length_cons, s.wrapAdd_spanIndex h]
    omega

/-! ### Pruning -/

/-- Dropping the earliest lengths drops the earliest spans. -/
theorem priorSpans_take (prior : List ℕ) : ∀ (last index o : ℕ),
    priorSpans last index (prior.take o) = (priorSpans last index prior).take o := by
  induction prior with
  | nil => intro last index o; simp [priorSpans]
  | cons length prior ih =>
    intro last index o
    cases o with
    | zero => simp [priorSpans]
    | succ o => simp [priorSpans, ih]

/-- There is a span for each length. -/
theorem length_priorSpans (prior : List ℕ) : ∀ (last index : ℕ),
    (priorSpans last index prior).length = prior.length := by
  induction prior with
  | nil => exact fun _ _ => rfl
  | cons length prior ih => exact fun _ _ => congrArg Nat.succ (ih _ _)

/-- The ongoing span does not end. -/
theorem endsBy_iff {span : SlashingSpan} : endsBy windowStart span ↔
    ∃ length, span.length = some length ∧ span.start + length ≤ windowStart := by
  unfold endsBy
  cases span.length <;> simp

/-- The span before one that began before the window has ended when the window starts. -/
theorem endsBy_head {last index : ℕ} (hsum : prior.sum ≤ last) (hlast : last < windowStart)
    {span : SlashingSpan} (hspan : (priorSpans last index prior)[0]? = some span) :
    endsBy windowStart span := by
  cases prior with
  | nil => cases hspan
  | cons length prior =>
    cases hspan
    rw [List.sum_cons] at hsum
    refine endsBy_iff.mpr ⟨length, rfl, ?_⟩
    simp only []
    omega

/-- **What pruning drops**: the spans from a position on, all of which have ended. If the ongoing
span began before the window, these are all spans before it. -/
theorem prune_eq (s : SlashingSpans) (windowStart : ℕ) : ∃ o ≤ s.prior.length,
    (s.prune windowStart).1 = s.truncate o windowStart ∧
      (∀ span ∈ (priorSpans s.lastStart s.spanIndex s.prior).drop o,
        endsBy windowStart span) ∧
      (s.lastStart < windowStart → s.prior.take o = []) ∧
      (s.prune windowStart).2 =
        if o = s.prior.length then none else some (s.earliestIndex, s.spanIndex - o) := by
  unfold prune
  have hdrop : s.iter.drop 1 = priorSpans s.lastStart s.spanIndex s.prior := rfl
  have hlength := length_priorSpans s.prior s.lastStart s.spanIndex
  have hpair := pairwise_priorSpans _ _ s.sum_le s.length_le
  -- if the ongoing span began before the window, the first one in the list has ended
  have hhead : s.lastStart < windowStart → ∀ span,
      (priorSpans s.lastStart s.spanIndex s.prior)[0]? = some span → endsBy windowStart span :=
    fun hlt span => endsBy_head s.sum_le hlt
  rw [hdrop]
  generalize priorSpans s.lastStart s.spanIndex s.prior = spans at *
  split
  · next o hfind =>
    -- there is a first span that has ended
    obtain ⟨ho, hends, hfirst⟩ := List.findIdx?_eq_some_iff_getElem.mp hfind
    obtain ⟨length, hsome, hle⟩ := endsBy_iff.mp hends
    refine ⟨o, by omega, rfl, ?_, ?_, ?_⟩
    · intro span hspan
      obtain ⟨j, hj, rfl⟩ := List.mem_iff_getElem.mp hspan
      rw [List.getElem_drop]
      rw [List.length_drop] at hj
      rcases Nat.eq_zero_or_pos j with rfl | hpos
      · exact hends
      · -- the spans behind this one ended even earlier
        obtain ⟨⟨length', hsome', hle'⟩, -⟩ :=
          List.pairwise_iff_getElem.mp hpair o (o + j) ho (by omega) (by omega)
        exact endsBy_iff.mpr ⟨length', hsome', by omega⟩
    · intro hlt
      rcases Nat.eq_zero_or_pos o with rfl | hpos
      · rfl
      · exact absurd (hhead hlt spans[0] (List.getElem?_eq_getElem _))
          (by simpa using hfirst 0 hpos)
    · rw [if_neg (by omega), List.length_take, Nat.min_eq_left (by omega)]
      rfl
  · next hfind =>
    -- none has ended: all spans stay
    refine ⟨s.prior.length, Nat.le_refl _, rfl, ?_, ?_, (if_pos rfl).symm⟩
    · rw [List.drop_of_length_le (Nat.le_of_eq hlength)]
      nofun
    · intro hlt
      rw [List.take_length]
      cases hspans : spans with
      | nil =>
        rw [hspans] at hlength
        exact List.eq_nil_of_length_eq_zero hlength.symm
      | cons span rest =>
        subst hspans
        have hmem := List.findIdx?_eq_none_iff.mp hfind span List.mem_cons_self
        exact absurd (hhead hlt span rfl) (by simp [hmem])

/-- The spans after truncating: the ongoing one starts with the window at the earliest. -/
theorem iter_truncate {o : ℕ} (h : s.lastStart < windowStart → s.prior.take o = []) :
    (s.truncate o windowStart).iter =
      ⟨s.spanIndex, max s.lastStart windowStart, none⟩ ::
        (priorSpans s.lastStart s.spanIndex s.prior).take o := by
  unfold iter truncate
  simp only []
  rw [← priorSpans_take]
  rcases Nat.lt_or_ge s.lastStart windowStart with hlt | hge
  · rw [h hlt]
    rfl
  · rw [Nat.max_eq_left hge]

/-- **Pruning keeps the eras of the window** where they are. -/
theorem inSpan_prune (s : SlashingSpans) (hera : windowStart ≤ era) (index : ℕ) :
    (s.prune windowStart).1.InSpan era index ↔ s.InSpan era index := by
  obtain ⟨o, -, heq, hdropped, hall, -⟩ := s.prune_eq windowStart
  -- the ongoing span loses eras before the window only
  have hcurrent : (⟨s.spanIndex, max s.lastStart windowStart, none⟩ :
      SlashingSpan).containsEra era ↔
        (⟨s.spanIndex, s.lastStart, none⟩ : SlashingSpan).containsEra era := by
    rw [containsEra_iff, containsEra_iff]
    refine and_congr ?_ (iff_of_true nofun nofun)
    simp only []
    omega
  -- and the spans that are dropped have none of the window
  have hsplit : ∀ span, span ∈ priorSpans s.lastStart s.spanIndex s.prior ∧
      span.containsEra era ↔ span ∈ (priorSpans s.lastStart s.spanIndex s.prior).take o ∧
        span.containsEra era := by
    intro span
    refine and_congr_left fun hcontains => ⟨fun hmem => ?_, List.mem_of_mem_take⟩
    rw [← List.take_append_drop o (priorSpans _ _ _)] at hmem
    rcases List.mem_append.mp hmem with hmem | hmem
    · exact hmem
    · obtain ⟨length, hlength, hends⟩ := endsBy_iff.mp (hdropped span hmem)
      have hlt := (containsEra_iff.mp hcontains).2 length hlength
      omega
  rw [heq]
  unfold InSpan
  rw [iter_truncate hall]
  unfold iter
  simp only [List.mem_cons, exists_eq_or_imp, hcurrent]
  refine or_congr_right (exists_congr fun span => ?_)
  rw [← and_assoc, ← and_assoc, hsplit]

/-- Pruning does not begin a span. -/
theorem spanIndex_prune (s : SlashingSpans) (windowStart : ℕ) :
    (s.prune windowStart).1.spanIndex = s.spanIndex := by
  obtain ⟨o, -, heq, -⟩ := s.prune_eq windowStart
  rw [heq]
  rfl

/-- The ongoing span starts with the window at the earliest. -/
theorem lastStart_prune (s : SlashingSpans) (windowStart : ℕ) :
    (s.prune windowStart).1.lastStart = max s.lastStart windowStart := by
  obtain ⟨o, -, heq, -⟩ := s.prune_eq windowStart
  rw [heq]
  rfl

/-- Pruning does not drop an era of the window. -/
theorem earliestStart_prune (s : SlashingSpans) (h : s.earliestStart ≤ windowStart) :
    (s.prune windowStart).1.earliestStart ≤ windowStart := by
  -- the first era of the window is in a span, before and after
  obtain ⟨index, hindex⟩ := s.exists_inSpan h
  obtain ⟨span, hspan, hera, -⟩ := (s.inSpan_prune (Nat.le_refl _) index).mpr hindex
  have hstart := (containsEra_iff.mp hera).1
  unfold earliestStart
  rcases List.mem_cons.mp hspan with rfl | hspan
  · simp only [] at hstart
    omega
  · have hbefore := (priorSpans_before _ _ (SlashingSpans.sum_le _) (SlashingSpans.length_le _) span
      hspan).start_le
    omega

/-- The indices that pruning reports are those below the earliest one that remains. -/
theorem earliestIndex_prune (s : SlashingSpans) (windowStart : ℕ) :
    s.earliestIndex ≤ (s.prune windowStart).1.earliestIndex ∧
      (s.prune windowStart).2 =
        if s.earliestIndex = (s.prune windowStart).1.earliestIndex then none
        else some (s.earliestIndex, (s.prune windowStart).1.earliestIndex) := by
  obtain ⟨o, ho, heq, -, -, hrange⟩ := s.prune_eq windowStart
  have hlength := s.length_le
  -- as many spans remain as the position says
  have hearliest : (s.prune windowStart).1.earliestIndex = s.spanIndex - o := by
    rw [heq]
    unfold earliestIndex truncate
    simp only [List.length_take]
    omega
  rw [hrange, hearliest]
  unfold earliestIndex
  refine ⟨by omega, ?_⟩
  by_cases hall : o = s.prior.length
  · rw [if_pos hall, if_pos (by omega)]
  · rw [if_neg hall, if_neg (by omega)]

end SlashingSpans

/-! ### The records of the spans -/

/-- `REWARD_F1`: the part of the reward that is paid for the first report. -/
def REWARD_F1 : Perbill := .fromPercent 50

/-- `SpanRecord`: what has been slashed in a span and paid out for it. -/
structure SpanRecord where
  slashed : ℕ
  paidOut : ℕ
  deriving DecidableEq, Repr

/-- `SpanRecord::default`. -/
def SpanRecord.empty : SpanRecord := ⟨0, 0⟩

/-- The record after a slash in the span, with the difference to be slashed and the reward. -/
def SpanRecord.charge (rewardProportion : Perbill) (record : SpanRecord) (slash : ℕ) :
    SpanRecord × ℕ × ℕ :=
  let reward := REWARD_F1.mul (rewardProportion.mul slash - record.paidOut)
  if record.slashed < slash then
    (⟨slash, record.paidOut + reward⟩, slash - record.slashed, reward)
  else if record.slashed = slash then (⟨slash, record.paidOut + reward⟩, 0, reward)
  else (record, 0, 0)

/-- What is stored for a stash: `SlashingSpans` and, for the indices of spans, `SpanSlash`. -/
structure Book where
  spans : Option SlashingSpans
  records : ℕ → SpanRecord

/-- Nothing is stored. -/
def Book.empty : Book := ⟨none, fun _ => .empty⟩

/-- `InspectingSpans`: the spans that are worked on, beside what is stored. -/
structure InspectingSpans where
  dirty : Bool
  windowStart : ℕ
  spans : SlashingSpans
  stored : Book
  paidOut : ℕ
  slashOf : ℕ
  rewardProportion : Perbill

/-- `fetch_spans`. Spans are made, and stored, if there are none. -/
def fetchSpans (book : Book) (windowStart : ℕ) (rewardProportion : Perbill) : InspectingSpans :=
  let spans := book.spans.getD (.new windowStart)
  { dirty := false
    windowStart := windowStart
    spans := spans
    stored := { book with spans := some spans }
    paidOut := 0
    slashOf := 0
    rewardProportion := rewardProportion }

namespace InspectingSpans

/-- `InspectingSpans::end_span`. -/
def endSpan (i : InspectingSpans) (now : ℕ) : InspectingSpans :=
  { i with spans := (i.spans.endSpan now).1, dirty := (i.spans.endSpan now).2 || i.dirty }

/-- `InspectingSpans::add_slash`. -/
def addSlash (i : InspectingSpans) (amount slashEra : ℕ) : InspectingSpans :=
  { i with
    slashOf := i.slashOf + amount
    spans := { i.spans with lastNonzeroSlash := max i.spans.lastNonzeroSlash slashEra } }

/-- `InspectingSpans::era_span`. -/
def eraSpan (i : InspectingSpans) (era : ℕ) : Option SlashingSpan :=
  i.spans.iter.find? (·.containsEra era)

/-- `InspectingSpans::compare_and_update_span_slash`, with the index of the span. -/
def compareAndUpdateSpanSlash (i : InspectingSpans) (slashEra slash : ℕ) :
    InspectingSpans × Option ℕ :=
  match i.eraSpan slashEra with
  | none => (i, none)
  | some span =>
    let record := i.stored.records span.index
    let (charged, difference, reward) := record.charge i.rewardProportion slash
    let i := if record.slashed < slash then i.addSlash difference slashEra else i
    let i := { i with paidOut := i.paidOut + reward }
    if record.slashed < slash ∨ reward ≠ 0 then
      ({ i with
          dirty := true
          stored :=
            { i.stored with records := Function.update i.stored.records span.index charged } },
        some span.index)
    else (i, some span.index)

/-- Remove the records with indices in a range. -/
def removeRecords (records : ℕ → SpanRecord) (range : ℕ × ℕ) : ℕ → SpanRecord :=
  fun index => if range.1 ≤ index ∧ index < range.2 then .empty else records index

/-- `InspectingSpans::drop`: what is stored afterwards. -/
def drop (i : InspectingSpans) : Book :=
  if i.dirty then
    let (spans, range) := i.spans.prune i.windowStart
    { spans := some spans
      records := range.elim i.stored.records (removeRecords i.stored.records) }
  else i.stored

end InspectingSpans

/-- What an offence comes to for one stash. -/
structure Charge where
  book : Book
  slashed : ℕ
  reward : ℕ
  /-- Whether the offence is in the ongoing span. -/
  current : Bool

/-- The end of a slash: the span is ended if the offence was in the ongoing one, and what has been
changed is written back. -/
def InspectingSpans.close (i : InspectingSpans) (target : Option ℕ) (now : ℕ) : Charge :=
  let closed := if target = some i.spans.spanIndex then i.endSpan now else i
  ⟨closed.drop, closed.slashOf, closed.paidOut, target = some i.spans.spanIndex⟩

namespace Book

/-- The slash of a stash as `compute_slash` and `slash_nominators` do it: compare with the slash of
the span, and end the span if it is the ongoing one. -/
def slashAt (rewardProportion : Perbill) (book : Book) (windowStart now slashEra slash : ℕ) :
    Charge :=
  let (i, target) :=
    (fetchSpans book windowStart rewardProportion).compareAndUpdateSpanSlash slashEra slash
  i.close target now

/-- The spans part of `kick_out_if_recent`: end the span if the offence is in the ongoing one. -/
def kick (rewardProportion : Perbill) (book : Book) (windowStart now slashEra : ℕ) : Book × Bool :=
  let i := fetchSpans book windowStart rewardProportion
  let current := (i.eraSpan slashEra).map SlashingSpan.index = some i.spans.spanIndex
  ((if current then i.endSpan now else i).drop, current)

/-- `clear_stash_metadata`, apart from the check of the number of spans: everything is removed. -/
def clear (book : Book) : Book :=
  match book.spans with
  | none => book
  | some spans =>
    { spans := none
      records := fun index =>
        if index ∈ spans.iter.map SlashingSpan.index then .empty else book.records index }

/-- The spans of a stash, made if there are none. -/
def spansFrom (book : Book) (windowStart : ℕ) : SlashingSpans := book.spans.getD (.new windowStart)

end Book

/-! ### What is written back -/

namespace InspectingSpans

/-- If nothing has been changed, what is worked on is what is stored. -/
def Clean (i : InspectingSpans) : Prop := i.dirty = false → i.stored.spans = some i.spans

/-- **What is stored afterwards**: spans with the same ongoing span, from which some of the earliest
may be missing together with their records. -/
structure Dropped (i : InspectingSpans) (s : SlashingSpans) : Prop where
  spans : i.drop.spans = some s
  spanIndex : s.spanIndex = i.spans.spanIndex
  lastStart : i.spans.lastStart ≤ s.lastStart
  earliestIndex : i.spans.earliestIndex ≤ s.earliestIndex
  records : ∀ j, i.drop.records j =
    if i.spans.earliestIndex ≤ j ∧ j < s.earliestIndex then .empty else i.stored.records j
  inSpan : ∀ era index, i.windowStart ≤ era → (s.InSpan era index ↔ i.spans.InSpan era index)
  earliestStart : i.spans.earliestStart ≤ i.windowStart → s.earliestStart ≤ i.windowStart

variable {i : InspectingSpans}

/-- What is worked on is written back, pruned, if it has been changed. -/
theorem exists_dropped (h : i.Clean) : ∃ spans, i.Dropped spans := by
  cases hdirty : i.dirty with
  | false =>
    -- nothing has been changed, and what is stored stays
    have hdrop : i.drop = i.stored := by
      unfold drop
      rw [hdirty]
      rfl
    refine ⟨i.spans, ?_, rfl, Nat.le_refl _, Nat.le_refl _, fun j => ?_, fun _ _ _ => Iff.rfl, id⟩
    · rw [hdrop]
      exact h hdirty
    · rw [hdrop, if_neg (by omega)]
  | true =>
    have hdrop : i.drop = { spans := some (i.spans.prune i.windowStart).1
                            records := (i.spans.prune i.windowStart).2.elim i.stored.records
                              (removeRecords i.stored.records) } := by
      unfold drop
      rw [hdirty]
      rfl
    -- the records that are removed are those of the spans pruning drops
    obtain ⟨hearliest, hrange⟩ := i.spans.earliestIndex_prune i.windowStart
    refine ⟨(i.spans.prune i.windowStart).1, ?_, i.spans.spanIndex_prune _, ?_, hearliest,
      fun j => ?_, fun era index hera => i.spans.inSpan_prune hera index,
      i.spans.earliestStart_prune⟩
    · rw [hdrop]
    · rw [i.spans.lastStart_prune]
      exact Nat.le_max_left _ _
    · rw [hdrop, hrange]
      by_cases heq : i.spans.earliestIndex = (i.spans.prune i.windowStart).1.earliestIndex
      · rw [if_pos heq, if_neg (by omega)]
        rfl
      · rw [if_neg heq]
        rfl

/-- New spans are stored before they are worked on. -/
theorem clean_fetchSpans (book : Book) (windowStart : ℕ) (rewardProportion : Perbill) :
    (fetchSpans book windowStart rewardProportion).Clean := fun _ => rfl

/-- Ending a span marks the spans as changed, unless it does nothing. -/
theorem Clean.endSpan (h : i.Clean) (now : ℕ) : (i.endSpan now).Clean := by
  intro hdirty
  have hsplit : (i.spans.endSpan now).2 = false ∧ i.dirty = false := by
    simpa [InspectingSpans.endSpan] using hdirty
  -- not marked: the spans are the same
  have hsame : (i.spans.endSpan now).1 = i.spans := by
    by_cases hnow : wrapAdd 32 now 1 ≤ i.spans.lastStart
    · rw [SlashingSpans.endSpan_of_le hnow]
    · have htrue : (i.spans.endSpan now).2 = true := by
        unfold SlashingSpans.endSpan
        rw [dif_neg hnow]
      rw [htrue] at hsplit
      cases hsplit.1
  change i.stored.spans = some (i.spans.endSpan now).1
  rw [hsame]
  exact h hsplit.2

/-- Whether a span is found is a matter of the spans alone. -/
theorem eraSpan_eq_some {era : ℕ} {span : SlashingSpan} (h : i.eraSpan era = some span) :
    i.spans.InSpan era span.index :=
  ⟨span, List.mem_of_find?_eq_some h, by simpa using List.find?_some h, rfl⟩

/-- If no span is found the era is in none. -/
theorem eraSpan_eq_none {era : ℕ} (h : i.eraSpan era = none) (index : ℕ) :
    ¬ i.spans.InSpan era index := by
  rintro ⟨span, hspan, hera, -⟩
  exact List.find?_eq_none.mp h span hspan hera

end InspectingSpans

/-- A slash changes the record only if it is charged for or rewarded. -/
theorem SpanRecord.charge_unchanged {f : Perbill} {record : SpanRecord} {slash : ℕ}
    (h : ¬ (record.slashed < slash ∨ (record.charge f slash).2.2 ≠ 0)) :
    (record.charge f slash).1 = record ∧ (record.charge f slash).2.1 = 0 := by
  obtain ⟨hslash, hreward⟩ := not_or.mp h
  unfold charge at hreward ⊢
  simp only [if_neg hslash] at hreward ⊢
  split
  -- a slash as large as the largest one adds a reward, which is zero here
  · next heq =>
    rw [if_pos heq] at hreward
    simp only [not_not] at hreward
    rw [hreward, Nat.add_zero, ← heq]
    exact ⟨rfl, rfl⟩
  · exact ⟨rfl, rfl⟩

/-- A slash that is not larger is not charged for. -/
theorem SpanRecord.charge_of_not_lt {f : Perbill} {record : SpanRecord} {slash : ℕ}
    (h : ¬ record.slashed < slash) : (record.charge f slash).2.1 = 0 := by
  unfold charge
  simp only [if_neg h]
  split <;> rfl

namespace InspectingSpans

open SpanRecord

/-- **What comparing with the span does**: the record of the span is charged. -/
structure Compared (i : InspectingSpans) (slashEra slash index : ℕ) (after : InspectingSpans) :
    Prop where
  inSpan : i.spans.InSpan slashEra index
  slashOf : after.slashOf =
    i.slashOf + ((i.stored.records index).charge i.rewardProportion slash).2.1
  paidOut : after.paidOut =
    i.paidOut + ((i.stored.records index).charge i.rewardProportion slash).2.2
  records : after.stored.records = Function.update i.stored.records index
    ((i.stored.records index).charge i.rewardProportion slash).1
  windowStart : after.windowStart = i.windowStart
  clean : i.Clean → after.Clean
  same : ∀ era index, after.spans.InSpan era index ↔ i.spans.InSpan era index
  spanIndex : after.spans.spanIndex = i.spans.spanIndex
  lastStart : after.spans.lastStart = i.spans.lastStart
  earliestIndex : after.spans.earliestIndex = i.spans.earliestIndex
  earliestStart : after.spans.earliestStart = i.spans.earliestStart

/-- Outside all spans nothing is compared. -/
theorem compareAndUpdateSpanSlash_none {i : InspectingSpans} {slashEra : ℕ}
    (h : i.eraSpan slashEra = none) (slash : ℕ) :
    i.compareAndUpdateSpanSlash slashEra slash = (i, none) := by
  unfold compareAndUpdateSpanSlash
  rw [h]

/-- In a span its record is charged, and the spans stay. -/
theorem compareAndUpdateSpanSlash_some {i : InspectingSpans} {slashEra : ℕ} {span : SlashingSpan}
    (h : i.eraSpan slashEra = some span) (slash : ℕ) :
    (i.compareAndUpdateSpanSlash slashEra slash).2 = some span.index ∧
      i.Compared slashEra slash span.index (i.compareAndUpdateSpanSlash slashEra slash).1 := by
  have hin := eraSpan_eq_some h
  unfold compareAndUpdateSpanSlash
  rw [h]
  simp only []
  by_cases hslash : (i.stored.records span.index).slashed < slash
  · -- larger than what was slashed so far
    rw [if_pos hslash, if_pos (Or.inl hslash)]
    exact ⟨rfl, hin, rfl, rfl, rfl, rfl, nofun, fun _ _ => Iff.rfl, rfl, rfl, rfl, rfl⟩
  · rw [if_neg hslash]
    have hzero : ((i.stored.records span.index).charge i.rewardProportion slash).2.1 = 0 :=
      charge_of_not_lt hslash
    -- not larger: the record is written only if there is a reward
    by_cases hreward : ((i.stored.records span.index).charge i.rewardProportion slash).2.2 = 0
    · have hunchanged := charge_unchanged (f := i.rewardProportion)
        (not_or.mpr ⟨hslash, not_not.mpr hreward⟩)
      rw [if_neg (not_or.mpr ⟨hslash, not_not.mpr hreward⟩)]
      refine ⟨rfl, hin, ?_, rfl, ?_, rfl, id, fun _ _ => Iff.rfl, rfl, rfl, rfl, rfl⟩
      · rw [hzero, Nat.add_zero]
      · rw [hunchanged.1, Function.update_eq_self]
    · rw [if_pos (Or.inr hreward)]
      refine ⟨rfl, hin, ?_, rfl, rfl, rfl, nofun, fun _ _ => Iff.rfl, rfl, rfl, rfl, rfl⟩
      rw [hzero, Nat.add_zero]

end InspectingSpans

namespace Book

variable {f : Perbill} {book : Book} {windowStart now slashEra slash : ℕ}

/-- The stored spans of a book from `windowStart` on turn into `s`, and the records into `records`,
but for the earliest ones. If `ends`, the ongoing span is over at `now`. -/
structure Becomes (book : Book) (windowStart now : ℕ) (ends : Prop) (records : ℕ → SpanRecord)
    (after : Book) (s : SlashingSpans) : Prop where
  spans : after.spans = some s
  spanIndex : (book.spansFrom windowStart).spanIndex ≤ s.spanIndex
  lastStart : (book.spansFrom windowStart).lastStart ≤ s.lastStart
  earliestIndex : (book.spansFrom windowStart).earliestIndex ≤ s.earliestIndex
  records : ∀ j, after.records j =
    if (book.spansFrom windowStart).earliestIndex ≤ j ∧ j < s.earliestIndex then .empty
    else records j
  inSpan : now < 2 ^ 32 → ∀ era index, windowStart ≤ era → era ≤ now →
    (s.InSpan era index ↔ (book.spansFrom windowStart).InSpan era index)
  earliestStart : (book.spansFrom windowStart).earliestStart ≤ windowStart →
    s.earliestStart ≤ windowStart
  ends : ends → now + 1 < 2 ^ 32 → now < s.lastStart

/-- What is written back after the ongoing span is ended, or not. -/
theorem becomes_drop {i : InspectingSpans} (hclean : i.Clean) {ends : Prop} [Decidable ends]
    (hwindow : i.windowStart = windowStart)
    (hsame : ∀ era index, i.spans.InSpan era index ↔ (book.spansFrom windowStart).InSpan era index)
    (hspanIndex : i.spans.spanIndex = (book.spansFrom windowStart).spanIndex)
    (hlastStart : i.spans.lastStart = (book.spansFrom windowStart).lastStart)
    (hearliestIndex : i.spans.earliestIndex = (book.spansFrom windowStart).earliestIndex)
    (hearliestStart : i.spans.earliestStart = (book.spansFrom windowStart).earliestStart)
    (now : ℕ) : ∃ s, Becomes book windowStart now ends i.stored.records
      (if ends then i.endSpan now else i).drop s := by
  by_cases hends : ends
  · rw [if_pos hends]
    obtain ⟨s, hs⟩ := InspectingSpans.exists_dropped (hclean.endSpan now)
    -- the ongoing span is ended first, which moves its start and index only
    have hearliest := i.spans.earliest_endSpan now
    have hindex : (i.endSpan now).spans.earliestIndex = i.spans.earliestIndex := hearliest.2
    refine ⟨s, hs.spans, ?_, ?_, ?_, ?_, ?_, ?_, fun _ hnow => ?_⟩
    · rw [hs.spanIndex, ← hspanIndex]
      exact (i.spans.le_endSpan now).2
    · rw [← hlastStart]
      exact (i.spans.le_endSpan now).1.trans hs.lastStart
    · rw [← hearliestIndex, ← hindex]
      exact hs.earliestIndex
    · intro j
      rw [hs.records, hindex, hearliestIndex]
      rfl
    · intro hnow era index hera hle
      rw [hs.inSpan era index (hwindow ▸ hera), ← hsame]
      exact i.spans.inSpan_endSpan hnow hle index
    · intro hle
      rw [← hearliestStart, ← hearliest.1] at hle
      rw [← hwindow] at hle ⊢
      exact hs.earliestStart hle
    · exact (i.spans.lt_lastStart_endSpan hnow).trans_le hs.lastStart
  · rw [if_neg hends]
    -- what was worked on has the spans of the book
    obtain ⟨s, hs⟩ := InspectingSpans.exists_dropped hclean
    refine ⟨s, hs.spans, ?_, ?_, ?_, ?_, ?_, ?_, fun h => absurd h hends⟩
    · rw [hs.spanIndex, hspanIndex]
    · rw [← hlastStart]
      exact hs.lastStart
    · rw [← hearliestIndex]
      exact hs.earliestIndex
    · intro j
      rw [hs.records, hearliestIndex]
    · intro _ era index hera _
      rw [hs.inSpan era index (hwindow ▸ hera), hsame]
    · intro hle
      rw [← hearliestStart] at hle
      rw [← hwindow] at hle ⊢
      exact hs.earliestStart hle

/-- What a slash in the span `index` comes to: the record of the span is charged, and the span is
over if it was the ongoing one. -/
structure Charged (f : Perbill) (book : Book) (windowStart now slashEra slash index : ℕ)
    (c : Charge) : Prop where
  inSpan : (book.spansFrom windowStart).InSpan slashEra index
  slashed : c.slashed = ((book.records index).charge f slash).2.1
  reward : c.reward = ((book.records index).charge f slash).2.2
  current : c.current ↔ index = (book.spansFrom windowStart).spanIndex
  becomes : ∃ s, Becomes book windowStart now c.current
    (Function.update book.records index ((book.records index).charge f slash).1) c.book s

/-- What a slash in an era outside all spans comes to. -/
structure Missed (book : Book) (windowStart now slashEra : ℕ) (c : Charge) : Prop where
  notInSpan : ∀ index, ¬ (book.spansFrom windowStart).InSpan slashEra index
  slashed : c.slashed = 0
  reward : c.reward = 0
  current : c.current = false
  becomes : ∃ s, Becomes book windowStart now c.current book.records c.book s

/-- A slash in an era outside all spans changes no record. -/
theorem missed_of_eraSpan (h : (fetchSpans book windowStart f).eraSpan slashEra = none)
    (now slash : ℕ) :
    Missed book windowStart now slashEra (book.slashAt f windowStart now slashEra slash) := by
  have hclean := InspectingSpans.clean_fetchSpans book windowStart f
  -- no span was found, so none is ended
  have hdrop : ∃ s, Becomes book windowStart now (false = true) book.records
      (if false = true then (fetchSpans book windowStart f).endSpan now
        else fetchSpans book windowStart f).drop s :=
    becomes_drop hclean rfl (fun _ _ => Iff.rfl) rfl rfl rfl rfl now
  unfold slashAt
  rw [InspectingSpans.compareAndUpdateSpanSlash_none h]
  exact ⟨InspectingSpans.eraSpan_eq_none h, rfl, rfl, rfl, hdrop⟩

/-- **A slash of a stash** charges the record of the span of the era. -/
theorem charged_of_eraSpan {span : SlashingSpan}
    (h : (fetchSpans book windowStart f).eraSpan slashEra = some span) (now slash : ℕ) :
    Charged f book windowStart now slashEra slash span.index
      (book.slashAt f windowStart now slashEra slash) := by
  have hclean := InspectingSpans.clean_fetchSpans book windowStart f
  -- the record is charged, and then the span is ended if it is the ongoing one
  obtain ⟨htarget, hc⟩ := InspectingSpans.compareAndUpdateSpanSlash_some h slash
  unfold slashAt
  generalize (fetchSpans book windowStart f).compareAndUpdateSpanSlash slashEra slash = after
    at htarget hc ⊢
  obtain ⟨i, target⟩ := after
  simp only [] at htarget hc ⊢
  subst htarget
  have hindex : i.spans.spanIndex = (book.spansFrom windowStart).spanIndex := hc.spanIndex
  refine ⟨hc.inSpan, ?_, ?_, ?_, ?_⟩
  · unfold InspectingSpans.close
    split
    · exact hc.slashOf.trans (Nat.zero_add _)
    · exact hc.slashOf.trans (Nat.zero_add _)
  · unfold InspectingSpans.close
    split
    · exact hc.paidOut.trans (Nat.zero_add _)
    · exact hc.paidOut.trans (Nat.zero_add _)
  · simp only [InspectingSpans.close, Option.some.injEq, decide_eq_true_eq, hindex]
  -- what is written back starts from the charged record
  · have hrecords : i.stored.records =
        Function.update book.records span.index ((book.records span.index).charge f slash).1 :=
      hc.records
    rw [← hrecords]
    simp only [InspectingSpans.close, decide_eq_true_eq]
    exact becomes_drop (hc.clean hclean) hc.windowStart hc.same hc.spanIndex hc.lastStart
      hc.earliestIndex hc.earliestStart now

/-- Kicking out leaves the records as they are, but for the earliest ones. -/
theorem kick_spec (f : Perbill) (book : Book) (windowStart now slashEra : ℕ) :
    ((book.kick f windowStart now slashEra).2 ↔
      (book.spansFrom windowStart).InSpan slashEra (book.spansFrom windowStart).spanIndex) ∧
      ∃ s, Becomes book windowStart now (book.kick f windowStart now slashEra).2 book.records
        (book.kick f windowStart now slashEra).1 s := by
  have hclean := InspectingSpans.clean_fetchSpans book windowStart f
  unfold kick
  simp only [decide_eq_true_eq]
  refine ⟨?_, becomes_drop hclean rfl (fun _ _ => Iff.rfl) rfl rfl rfl rfl now⟩
  -- the era is in one span only, so it is in the ongoing one iff that is found
  cases hspan : (fetchSpans book windowStart f).eraSpan slashEra with
  | none => exact iff_of_false nofun (InspectingSpans.eraSpan_eq_none hspan _)
  | some span =>
    have hin := InspectingSpans.eraSpan_eq_some hspan
    rw [Option.map_some, Option.some.injEq]
    constructor
    · intro heq
      rw [heq] at hin
      exact hin
    · intro hcurrent
      exact SlashingSpans.inSpan_unique hin hcurrent

end Book

/-! ### Sequences of offences -/

/-- An offence of a stash: a slash, or a report without one. -/
inductive Offence
  | slash (windowStart now slashEra slash : ℕ)
  | report (windowStart now slashEra : ℕ)
  deriving DecidableEq, Repr

namespace Book

/-- One offence. -/
def step (f : Perbill) (book : Book) : Offence → Book
  | .slash windowStart now slashEra slash => (book.slashAt f windowStart now slashEra slash).book
  | .report windowStart now slashEra => (book.kick f windowStart now slashEra).1

/-- The span an offence falls into, what the slash is, what is charged for and what is paid out. -/
structure Entry where
  index : ℕ
  slash : ℕ
  charged : ℕ
  reward : ℕ
  deriving DecidableEq, Repr

/-- The entry of an offence, if it is a slash in a span. -/
def entryOf (f : Perbill) : Book × Offence → Option Entry
  | (book, .slash windowStart now slashEra slash) =>
    ((fetchSpans book windowStart f).eraSpan slashEra).map fun span =>
      ⟨span.index, slash, (book.slashAt f windowStart now slashEra slash).slashed,
        (book.slashAt f windowStart now slashEra slash).reward⟩
  | (_, .report _ _ _) => none

/-- The entries of a sequence of offences in the span `index`. -/
def entriesIn (f : Perbill) (index : ℕ) (trace : List (Book × Offence)) : List Entry :=
  (trace.filterMap (entryOf f)).filter (·.index = index)

/-- The largest slash of some entries. -/
def largest (entries : List Entry) : ℕ := (entries.map Entry.slash).foldr max 0

/-- What is charged for in some entries. -/
def charged (entries : List Entry) : ℕ := (entries.map Entry.charged).sum

/-- What is paid out in some entries. -/
def paid (entries : List Entry) : ℕ := (entries.map Entry.reward).sum

/-- The largest slash after one more entry. -/
theorem largest_append (entries : List Entry) (e : Entry) :
    largest (entries ++ [e]) = max (largest entries) e.slash := by
  unfold largest
  induction entries with
  | nil => simp
  | cons a as ih =>
    simp only [List.cons_append, List.map_cons, List.foldr_cons] at ih ⊢
    rw [ih, max_assoc]

/-- What is charged for after one more entry. -/
theorem charged_append (entries : List Entry) (e : Entry) :
    charged (entries ++ [e]) = charged entries + e.charged := by
  simp [charged]

/-- What is paid out after one more entry. -/
theorem paid_append (entries : List Entry) (e : Entry) :
    paid (entries ++ [e]) = paid entries + e.reward := by
  simp [paid]

/-- The record of a span that has not been dropped has the largest slash of the span and what was
paid out; for every span the differences that were charged add up to the largest slash. -/
structure Accounted (f : Perbill) (trace : List (Book × Offence)) (book : Book) : Prop where
  records : ∀ index, book.spans.elim 0 SlashingSpans.earliestIndex ≤ index →
    book.records index = ⟨largest (entriesIn f index trace), paid (entriesIn f index trace)⟩
  charged : ∀ index, Book.charged (entriesIn f index trace) = largest (entriesIn f index trace)
  paid_le : ∀ index, paid (entriesIn f index trace) ≤ f.mul (largest (entriesIn f index trace))

/-- Without offences there is nothing to account for. -/
theorem accounted_empty (f : Perbill) : Accounted f [] .empty :=
  ⟨fun _ _ => rfl, fun _ => rfl, fun _ => Nat.zero_le _⟩

/-- New spans begin with the index zero. -/
theorem earliestIndex_spansFrom (book : Book) (windowStart : ℕ) :
    (book.spansFrom windowStart).earliestIndex =
      book.spans.elim 0 SlashingSpans.earliestIndex := by
  unfold spansFrom
  cases book.spans <;> rfl

/-- What charging a record with the largest slash and the reward for it gives. -/
theorem charge_spec {f : Perbill} {record : SpanRecord}
    (h : record.paidOut ≤ f.mul record.slashed) (slash : ℕ) :
    (record.charge f slash).1 =
        ⟨max record.slashed slash, record.paidOut + (record.charge f slash).2.2⟩ ∧
      record.slashed + (record.charge f slash).2.1 = max record.slashed slash ∧
      record.paidOut + (record.charge f slash).2.2 ≤ f.mul (max record.slashed slash) := by
  have hhalf := REWARD_F1.mul_le (f.mul slash - record.paidOut)
  unfold SpanRecord.charge
  simp only []
  split
  -- the new slash is the largest one
  · next hlt =>
    have hmono := f.mul_mono hlt.le
    rw [Nat.max_eq_right hlt.le]
    exact ⟨rfl, Nat.add_sub_of_le hlt.le, by simp only []; omega⟩
  -- it is not: the difference is zero
  · next hge =>
    rw [Nat.max_eq_left (Nat.le_of_not_lt hge)]
    split
    · next heq =>
      subst heq
      exact ⟨rfl, rfl, by simp only []; omega⟩
    · exact ⟨rfl, rfl, h⟩

/-- An offence adds its entry to those of its span. -/
theorem entriesIn_append (f : Perbill) (index : ℕ) (trace : List (Book × Offence))
    (e : Book × Offence) : entriesIn f index (trace ++ [e]) =
      entriesIn f index trace ++ ((entryOf f e).toList.filter (·.index = index)) := by
  unfold entriesIn
  rw [List.filterMap_append, List.filter_append]
  cases h : entryOf f e <;> simp [h]

variable {trace : List (Book × Offence)}

/-- An offence without an entry leaves the accounts as they are. -/
theorem Accounted.of_becomes (h : Accounted f trace book) {e : Book × Offence}
    (hentry : entryOf f e = none) {ends : Prop} {after : Book}
    (hafter : ∃ s, Becomes book windowStart now ends book.records after s) :
    Accounted f (trace ++ [e]) after := by
  obtain ⟨s, hs⟩ := hafter
  have hsame : ∀ index, entriesIn f index (trace ++ [e]) = entriesIn f index trace := by
    intro index
    rw [entriesIn_append, hentry]
    exact List.append_nil _
  refine ⟨fun index hindex => ?_, fun index => ?_, fun index => ?_⟩
  -- a span that has not been dropped was there before
  · rw [hs.spans] at hindex
    have hle : s.earliestIndex ≤ index := hindex
    rw [hs.records, if_neg (by omega), hsame]
    refine h.records index ?_
    rw [← earliestIndex_spansFrom book windowStart]
    exact hs.earliestIndex.trans hle
  · rw [hsame]
    exact h.charged index
  · rw [hsame]
    exact h.paid_le index

/-- A slash in a span is accounted for. -/
theorem Accounted.slash (h : Accounted f trace book) (windowStart now slashEra slash : ℕ) :
    Accounted f (trace ++ [(book, .slash windowStart now slashEra slash)])
      (book.slashAt f windowStart now slashEra slash).book := by
  cases hspan : (fetchSpans book windowStart f).eraSpan slashEra with
  | none =>
    refine h.of_becomes ?_ (missed_of_eraSpan hspan now slash).becomes
    rw [entryOf, hspan]
    rfl
  | some span =>
    have hc := charged_of_eraSpan hspan now slash
    have hentry : entryOf f (book, .slash windowStart now slashEra slash) =
        some ⟨span.index, slash, (book.slashAt f windowStart now slashEra slash).slashed,
          (book.slashAt f windowStart now slashEra slash).reward⟩ := by
      rw [entryOf, hspan]
      rfl
    -- only what the slash comes to is needed from here on
    generalize book.slashAt f windowStart now slashEra slash = c at hc hentry ⊢
    obtain ⟨s, hs⟩ := hc.becomes
    have hearliest := earliestIndex_spansFrom book windowStart
    -- the record of the span is what has been accounted for in it
    have hrecord := h.records span.index (hearliest ▸ hc.inSpan.le.1)
    have hpaid : (book.records span.index).paidOut ≤
        f.mul (book.records span.index).slashed := by
      rw [hrecord]
      exact h.paid_le span.index
    obtain ⟨hcharged, hdifference, hreward⟩ := charge_spec hpaid slash
    -- the entry counts for its own span only
    have hother : ∀ index, index ≠ span.index →
        entriesIn f index (trace ++ [(book, .slash windowStart now slashEra slash)]) =
          entriesIn f index trace := by
      intro index hne
      rw [entriesIn_append, hentry]
      simp [Ne.symm hne]
    have hown : entriesIn f span.index (trace ++ [(book, .slash windowStart now slashEra slash)]) =
        entriesIn f span.index trace ++ [⟨span.index, slash, c.slashed, c.reward⟩] := by
      rw [entriesIn_append, hentry]
      simp
    refine ⟨fun index hindex => ?_, fun index => ?_, fun index => ?_⟩
    -- the records of the spans that remain
    · rw [hs.spans] at hindex
      have hle : s.earliestIndex ≤ index := hindex
      rw [hs.records, if_neg (by omega)]
      by_cases heq : index = span.index
      · subst heq
        rw [Function.update_self, hown, largest_append, paid_append, hcharged, hrecord, hc.reward,
          hrecord]
      · rw [Function.update_of_ne heq, hother index heq]
        refine h.records index ?_
        rw [← hearliest]
        exact hs.earliestIndex.trans hle
    · by_cases heq : index = span.index
      · subst heq
        -- the differences add up to the largest slash
        rw [hown, charged_append, largest_append, h.charged, hc.slashed]
        simp only []
        rw [hrecord] at hdifference ⊢
        exact hdifference
      · rw [hother index heq]
        exact h.charged index
    · by_cases heq : index = span.index
      · subst heq
        -- the rewards stay within the proportion of it
        rw [hown, paid_append, largest_append, hc.reward]
        rw [hrecord] at hreward ⊢
        exact hreward
      · rw [hother index heq]
        exact h.paid_le index

/-- An offence is accounted for. -/
theorem Accounted.step (h : Accounted f trace book) (o : Offence) :
    Accounted f (trace ++ [(book, o)]) (book.step f o) := by
  cases o with
  | slash windowStart now slashEra slash => exact h.slash windowStart now slashEra slash
  | report windowStart now slashEra =>
    exact h.of_becomes rfl (kick_spec f book windowStart now slashEra).2

/-- **Within a span only the largest slash counts.** Over any sequence of offences of a stash, what
is charged for the offences of one span is the largest slash among them, in whatever order they are
reported; and what is paid out for reporting them is not more than the reward proportion of it. -/
theorem slashed_eq_largest (f : Perbill) (offences : List Offence) (index : ℕ) :
    let entries := entriesIn f index (Run.trace (Book.step f) .empty offences)
    charged entries = largest entries ∧ paid entries ≤ f.mul (largest entries) := by
  have h : Accounted f (Run.trace (Book.step f) .empty offences)
      (Run.run (Book.step f) .empty offences) :=
    Run.history (Accounted f) (fun _ _ o h (_ : True) => h.step o) (accounted_empty f)
      (Run.Along.of_mem fun _ _ _ => trivial)
  exact ⟨h.charged index, h.paid_le index⟩

end Book

end Staking

end Reef
