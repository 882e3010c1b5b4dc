import Mathlib.Data.List.Induction

/-!
# Runs of a step function

A system is given by a step function `step : σ → ι → σ` on states `σ` with inputs `ι`. A run folds
the step over a list of inputs. This file has the two induction principles used on runs:

* **Invariants** (`invariant`): a property that every step keeps holds at the end of every run. The
  steps may be required to meet a side condition `ok`, a relation between the state *before* a step
  and its input; `Along` says that every step of a run does. A quantity that every step keeps is
  `conserved`, and one that every step lowers gets to zero (`descent`).
* **Histories** (`history`): a property of the state together with the *trace*, the list of
  (state before the step, input) in order. History invariants are what statements about the past
  of a run ("there is an earlier step such that…") are derived from.
-/

namespace Run

variable {σ ι : Type*}

/-- The state reached from `s` on the inputs `is`. -/
def run (step : σ → ι → σ) (s : σ) (is : List ι) : σ := is.foldl step s

/-- Every step of the run on `is` from `s` meets `ok` in the state it is taken from. -/
def Along (step : σ → ι → σ) (ok : σ → ι → Prop) : σ → List ι → Prop
  | _, [] => True
  | s, i :: is => ok s i ∧ Along step ok (step s i) is

/-- Whether a side condition that can be decided holds along a run can be decided. -/
def decidableAlong (step : σ → ι → σ) (ok : σ → ι → Prop) [∀ s i, Decidable (ok s i)] :
    ∀ s is, Decidable (Along step ok s is)
  | _, [] => .isTrue trivial
  | s, i :: is =>
    have := decidableAlong step ok (step s i) is
    inferInstanceAs (Decidable (_ ∧ _))

instance (step : σ → ι → σ) (ok : σ → ι → Prop) [∀ s i, Decidable (ok s i)] (s : σ)
    (is : List ι) : Decidable (Along step ok s is) := decidableAlong step ok s is

/-- The (state, input) pairs of the run on `is` from `s`, oldest first. -/
def trace (step : σ → ι → σ) : σ → List ι → List (σ × ι)
  | _, [] => []
  | s, i :: is => (s, i) :: trace step (step s i) is

variable {step : σ → ι → σ} {ok : σ → ι → Prop} {s : σ} {is : List ι}

@[simp] theorem run_nil : run step s [] = s := rfl

@[simp] theorem run_cons (i : ι) : run step s (i :: is) = run step (step s i) is := rfl

theorem run_append (js : List ι) : run step s (is ++ js) = run step (run step s is) js :=
  List.foldl_append

theorem trace_append (js : List ι) :
    trace step s (is ++ js) = trace step s is ++ trace step (run step s is) js := by
  induction is generalizing s with
  | nil => rfl
  | cons i is ih => simp [trace, ih]

/-- The inputs of a trace are those of the run. -/
theorem snd_mem_of_mem_trace {e : σ × ι} (h : e ∈ trace step s is) : e.2 ∈ is := by
  induction is generalizing s with
  | nil => cases h
  | cons i is ih =>
    rcases List.mem_cons.mp h with rfl | h
    · exact List.mem_cons_self
    · exact List.mem_cons_of_mem i (ih h)

theorem along_append (js : List ι) :
    Along step ok s (is ++ js) ↔ Along step ok s is ∧ Along step ok (run step s is) js := by
  induction is generalizing s with
  | nil => simp [Along]
  | cons i is ih => simp [Along, ih, and_assoc]

/-- A side condition that every input of the run meets in every state holds along the run. -/
theorem Along.of_mem (h : ∀ i ∈ is, ∀ s, ok s i) : Along step ok s is := by
  induction is generalizing s with
  | nil => trivial
  | cons i is ih =>
    refine ⟨h i List.mem_cons_self s, ih fun j hj => ?_⟩
    exact h j (List.mem_cons_of_mem i hj)

/-- **Invariants.** What every step meeting `ok` keeps holds at the end of a run whose steps all
meet it. -/
theorem invariant (Inv : σ → Prop) (hstep : ∀ s i, Inv s → ok s i → Inv (step s i))
    (h₀ : Inv s) (hok : Along step ok s is) : Inv (run step s is) := by
  induction is generalizing s with
  | nil => exact h₀
  | cons i is ih => exact ih (hstep s i h₀ hok.1) hok.2

/-- What every step keeps holds at the end of every run. -/
theorem invariant_of_step (Inv : σ → Prop) (hstep : ∀ s i, Inv s → Inv (step s i))
    (h₀ : Inv s) : Inv (run step s is) :=
  invariant Inv (fun s i h (_ : True) => hstep s i h) h₀ (Along.of_mem fun _ _ _ => trivial)

/-- **Conservation.** A quantity that every step meeting `ok` keeps is the same at the end of a run
whose steps all meet it. -/
theorem conserved {τ : Type*} (f : σ → τ) (hstep : ∀ s i, ok s i → f (step s i) = f s)
    (hok : Along step ok s is) : f (run step s is) = f s := by
  induction is generalizing s with
  | nil => rfl
  | cons i is ih => exact (ih hok.2).trans (hstep s i hok.1)

/-- **Descent.** If every step meeting `ok` lowers a measure that is not zero yet, a run lowers it
by the number of its steps, or down to zero. -/
theorem descent (Inv : σ → Prop) (μ : σ → ℕ)
    (hinv : ∀ s i, Inv s → ok s i → Inv (step s i))
    (hstep : ∀ s i, Inv s → ok s i → μ (step s i) ≤ μ s - 1)
    (h₀ : Inv s) (hok : Along step ok s is) : μ (run step s is) ≤ μ s - is.length := by
  induction is generalizing s with
  | nil => exact Nat.le_refl _
  | cons i is ih =>
    have hfirst := hstep s i h₀ hok.1
    have hrest := ih (hinv s i h₀ hok.1) hok.2
    rw [run_cons, List.length_cons]
    omega

/-- **Histories.** A property of trace and state that every step meeting `ok` extends holds at the
end of a run whose steps all meet it. -/
theorem history (H : List (σ × ι) → σ → Prop)
    (hstep : ∀ tr s i, H tr s → ok s i → H (tr ++ [(s, i)]) (step s i))
    (h₀ : H [] s) (hok : Along step ok s is) : H (trace step s is) (run step s is) := by
  induction is using List.reverseRecOn with
  | nil => exact h₀
  | append_singleton is i ih =>
    rw [along_append] at hok
    rw [trace_append, run_append]
    exact hstep _ _ i (ih hok.1) hok.2.1

end Run
