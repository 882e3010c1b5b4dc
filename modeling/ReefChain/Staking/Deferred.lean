import ReefChain.Staking.Stakes

/-!
# Cancelling deferred slashes

A deferred slash waits in the list of the era it is deferred to, and until then root or the council
can cancel it. `cancel_deferred_slash` gets the positions of the slashes to cancel and removes them
one by one; every removal shifts the slashes behind it, so the loop reduces each position by the
number of those removed before. `cancelSlashes_append` is the invariant of the loop: the slashes
before the next position have been passed and are kept. With the positions sorted and unique, which
the call checks, exactly the slashes at the positions are removed, and the others keep their order
(`cancelDeferredSlash_exact`).
-/

namespace Reef.Staking

variable {α : Type} [DecidableEq α]

open Fallible

/-- Positions past the end remove nothing. -/
theorem cancelSlashes_past {β : Type} {indices : List ℕ} {removed : ℕ} {kept : List β}
    (h : ∀ i ∈ indices, kept.length + removed ≤ i) (hsorted : indices.Pairwise (· < ·)) :
    cancelSlashes indices removed kept = kept := by
  induction indices generalizing removed with
  | nil => rfl
  | cons i indices ih =>
    have hi := h i List.mem_cons_self
    unfold cancelSlashes
    rw [List.eraseIdx_of_length_le (by omega)]
    obtain ⟨hlt, hsorted⟩ := List.pairwise_cons.mp hsorted
    refine ih (fun j hj => ?_) hsorted
    have hj := hlt j hj
    omega

/-- The loop of `cancel_deferred_slash`, when `kept` has been passed and `removed` slashes have been
removed: what is left is passed too, apart from the slashes at the indices. -/
theorem cancelSlashes_append {β : Type} (rest : List β) {indices : List ℕ} {removed : ℕ}
    {kept : List β} (h : ∀ i ∈ indices, kept.length + removed ≤ i)
    (hsorted : indices.Pairwise (· < ·)) :
    cancelSlashes indices removed (kept ++ rest) =
      kept ++ ((rest.zipIdx (kept.length + removed)).filter (·.2 ∉ indices)).map Prod.fst := by
  induction rest generalizing indices removed kept with
  | nil => simpa using cancelSlashes_past h hsorted
  | cons slash rest ih =>
    by_cases hhere : kept.length + removed ∈ indices
    · -- the first index is this position: the slash is removed, and all other indices are later
      cases indices with
      | nil => cases hhere
      | cons i indices =>
        obtain ⟨hlt, hsorted'⟩ := List.pairwise_cons.mp hsorted
        have hi : i = kept.length + removed := by
          rcases List.mem_cons.mp hhere with heq | hmem
          · exact heq.symm
          · have hle := h i List.mem_cons_self
            have hgt := hlt _ hmem
            omega
        have hlater : ∀ j ∈ indices, kept.length + (removed + 1) ≤ j := by
          intro j hj
          have hgt := hlt j hj
          omega
        unfold cancelSlashes
        rw [hi, Nat.add_sub_cancel, SortedVec.eraseIdx_append_length, ih hlater hsorted',
          List.zipIdx_cons, List.filter_cons_of_neg (by simp)]
        congr 2
        refine List.filter_congr fun entry hentry => ?_
        have hpos := List.le_snd_of_mem_zipIdx hentry
        have hne : entry.2 ≠ kept.length + removed := by omega
        simp [hne]
    · -- no index is this position: the slash is kept
      have hlater : ∀ i ∈ indices, (kept ++ [slash]).length + removed ≤ i := by
        intro i hi
        have hle := h i hi
        have hne : i ≠ kept.length + removed := fun heq => hhere (heq ▸ hi)
        rw [List.length_append, List.length_singleton]
        omega
      have hnext := ih hlater hsorted
      have hlength : (kept ++ [slash]).length + removed = kept.length + removed + 1 := by
        rw [List.length_append, List.length_singleton]
        omega
      rw [List.append_assoc, List.singleton_append, hlength] at hnext
      rw [hnext, List.zipIdx_cons, List.filter_cons_of_pos (by simpa using hhere)]
      simp

theorem pairwise_of_isSortedAndUnique {list : List ℕ} (h : isSortedAndUnique list = true) :
    list.Pairwise (· < ·) := by
  refine List.isChain_iff_pairwise.mp ?_
  induction list with
  | nil => exact .nil
  | cons a list ih =>
    cases list with
    | nil => exact .singleton a
    | cons b list =>
      unfold isSortedAndUnique at h ih
      simp only [List.tail_cons, List.zip_cons_cons, List.all_cons, Bool.and_eq_true,
        decide_eq_true_iff] at h ih
      exact .cons_cons h.1 (ih h.2)

/-- The last of a sorted list bounds the others. -/
theorem lt_of_getLast_lt {indices : List ℕ} {bound : ℕ} (hsorted : indices.Pairwise (· < ·))
    (hlast : ∀ last ∈ indices.getLast?, last < bound) : ∀ i ∈ indices, i < bound := by
  rcases List.eq_nil_or_concat indices with rfl | ⟨init, last, rfl⟩
  · intro i hi
    cases hi
  · have hbound : last < bound := hlast last (by simp)
    intro i hi
    simp only [List.concat_eq_append, List.mem_append, List.mem_singleton,
      List.pairwise_append] at hi hsorted
    rcases hi with hi | rfl
    · exact (hsorted.2.2 i hi last rfl).trans hbound
    · exact hbound

omit [DecidableEq α] in
/-- **Exactly the listed slashes are cancelled.** A call that succeeds comes from root or the
council, all its positions exist, and it removes the slashes at the positions and no others; the
slashes of other eras stay. -/
theorem cancelDeferredSlash_exact {s s' : State α} {origin : Origin α} {era : ℕ}
    {indices : List ℕ} (h : cancelDeferredSlash s origin era indices = .ok s') :
    (∀ who, origin ≠ .signed who) ∧
    (∀ i ∈ indices, i < (s.offences.unapplied era).length) ∧
    s'.offences.unapplied era =
      ((s.offences.unapplied era).zipIdx.filter (·.2 ∉ indices)).map Prod.fst ∧
    ∀ other, other ≠ era → s'.offences.unapplied other = s.offences.unapplied other := by
  unfold cancelDeferredSlash at h
  obtain ⟨u, horigin, h⟩ := bind_eq_ok.mp h
  simp only [bind_eq_ok, exists_ensure_eq_ok] at h
  obtain ⟨-, hsorted, hlast, h⟩ := h
  cases h
  have hpairwise := pairwise_of_isSortedAndUnique hsorted
  refine ⟨?_, lt_of_getLast_lt hpairwise hlast, ?_, fun other hne => ?_⟩
  · rintro who rfl
    cases horigin
  · have hloop : cancelSlashes indices 0 ([] ++ s.offences.unapplied era) = _ :=
      cancelSlashes_append (s.offences.unapplied era) (fun _ _ => Nat.zero_le _) hpairwise
    dsimp only
    rw [Function.update_self]
    exact hloop
  · exact Function.update_of_ne hne _ _

/-- A slash of one validator. -/
def soleSlash (validator : ℕ) : UnappliedSlash ℕ := ⟨validator, 10, [], [], 0⟩

/-- Three slashes are deferred to one era. -/
def threeDeferred : State ℕ :=
  ((soleStaker.defer 5 (soleSlash 1)).defer 5 (soleSlash 2)).defer 5 (soleSlash 3)

theorem cancelDeferredSlash_exact_three :
    (step plainConfig threeDeferred (.cancelDeferredSlash .root 5 [0, 2])).offences.unapplied 5 =
      [soleSlash 2] :=
  have hcancel : cancelDeferredSlash threeDeferred .root 5 [0, 2] =
      .ok (step plainConfig threeDeferred (.cancelDeferredSlash .root 5 [0, 2])) := rfl
  (cancelDeferredSlash_exact hcancel).2.2.1.trans (by decide +kernel)

end Reef.Staking
