import Mathlib.Data.Nat.Basic

/-!
# Loops

A loop is given by what one round of it does: it goes on in another state, or it ends with a result.
Whether a loop ends is not part of its definition, so running it takes a number of rounds
(`runFor`), and `Ends` says that some number is enough.

* **Results** (`ends_iff`): a loop ends with a result exactly if it reaches a state in which a round
  returns it. There is at most one (`Ends.unique`).
* **Invariants** (`Reaches.invariant`): what every round keeps holds in every state reached.
* **Termination** (`ends_of_measure`): a loop ends if every round lowers a measure.
-/

namespace Loop

/-- What a round of a loop does. -/
inductive Turn (σ ρ : Type*)
  | next (s : σ)
  | done (r : ρ)

variable {σ ρ : Type*}

/-- Run a loop for at most `n` rounds. -/
def runFor (step : σ → Turn σ ρ) : ℕ → σ → Option ρ
  | 0, _ => none
  | n + 1, s =>
    match step s with
    | .next s' => runFor step n s'
    | .done r => some r

/-- The loop ends with the result `r`. -/
def Ends (step : σ → Turn σ ρ) (s : σ) (r : ρ) : Prop := ∃ n, runFor step n s = some r

/-- The states a loop gets to, round by round. -/
inductive Reaches (step : σ → Turn σ ρ) (s : σ) : σ → Prop
  | refl : Reaches step s s
  | tail {t u : σ} : Reaches step s t → step t = .next u → Reaches step s u

variable {step : σ → Turn σ ρ} {s t : σ} {r : ρ}

theorem Ends.of_done (h : step s = .done r) : Ends step s r := by
  refine ⟨1, ?_⟩
  unfold runFor
  rw [h]

theorem Ends.of_next (h : step s = .next t) (hends : Ends step t r) : Ends step s r := by
  obtain ⟨n, hn⟩ := hends
  refine ⟨n + 1, ?_⟩
  unfold runFor
  rw [h]
  exact hn

/-- A loop ends as it ends from any state on its way. -/
theorem Reaches.ends (h : Reaches step s t) (hends : Ends step t r) : Ends step s r := by
  induction h with
  | refl => exact hends
  | tail _ hstep ih => exact ih (hends.of_next hstep)

theorem Reaches.head {u : σ} (hstep : step s = .next t) (h : Reaches step t u) :
    Reaches step s u := by
  induction h with
  | refl => exact Reaches.refl.tail hstep
  | tail _ hnext ih => exact ih.tail hnext

theorem runFor_eq_some {n : ℕ} (h : runFor step n s = some r) :
    ∃ t, Reaches step s t ∧ step t = .done r := by
  induction n generalizing s with
  | zero => cases h
  | succ n ih =>
    unfold runFor at h
    split at h
    · next t hnext =>
      obtain ⟨u, hreaches, hdone⟩ := ih h
      exact ⟨u, hreaches.head hnext, hdone⟩
    · next r' hdone =>
      cases h
      exact ⟨s, .refl, hdone⟩

/-- **Results.** -/
theorem ends_iff : Ends step s r ↔ ∃ t, Reaches step s t ∧ step t = .done r := by
  refine ⟨fun ⟨_, hn⟩ => runFor_eq_some hn, ?_⟩
  rintro ⟨t, hreaches, hdone⟩
  exact hreaches.ends (.of_done hdone)

/-- More rounds do not change the result. -/
theorem runFor_mono {n m : ℕ} (hle : n ≤ m) (h : runFor step n s = some r) :
    runFor step m s = some r := by
  induction n generalizing s m with
  | zero => cases h
  | succ n ih =>
    obtain ⟨m, rfl⟩ : ∃ k, m = k + 1 := ⟨m - 1, by omega⟩
    unfold runFor at h ⊢
    split at h
    · exact ih (Nat.le_of_succ_le_succ hle) h
    · exact h

theorem Ends.unique {r' : ρ} (h : Ends step s r) (h' : Ends step s r') : r = r' := by
  obtain ⟨n, hn⟩ := h
  obtain ⟨m, hm⟩ := h'
  have hn' := runFor_mono (le_max_left n m) hn
  have hm' := runFor_mono (le_max_right n m) hm
  exact Option.some.inj (hn'.symm.trans hm')

/-- **Invariants.** -/
theorem Reaches.invariant {Inv : σ → Prop} (hstep : ∀ t u, Inv t → step t = .next u → Inv u)
    (h₀ : Inv s) (h : Reaches step s t) : Inv t := by
  induction h with
  | refl => exact h₀
  | tail _ hnext ih => exact hstep _ _ ih hnext

/-- **Termination.** -/
theorem ends_of_measure {Inv : σ → Prop} (μ : σ → ℕ)
    (hstep : ∀ t u, Inv t → step t = .next u → Inv u ∧ μ u < μ t) (h₀ : Inv s) :
    ∃ r, Ends step s r := by
  -- induction on a bound of the measure
  suffices hbound : ∀ n s, Inv s → μ s ≤ n → ∃ r, Ends step s r from hbound (μ s) s h₀ le_rfl
  intro n
  induction n with
  | zero =>
    intro s hs hle
    cases hturn : step s with
    | next t =>
      have hlt := (hstep s t hs hturn).2
      omega
    | done r => exact ⟨r, .of_done hturn⟩
  | succ n ih =>
    intro s hs hle
    cases hturn : step s with
    | next t =>
      obtain ⟨ht, hlt⟩ := hstep s t hs hturn
      obtain ⟨r, hends⟩ := ih t ht (by omega)
      exact ⟨r, hends.of_next hturn⟩
    | done r => exact ⟨r, .of_done hturn⟩

end Loop
