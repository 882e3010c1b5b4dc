import ReefChain.Lib.FiniteMap
import ReefChain.Primitives

/-!
# The scheduler

The scheduler of the framework, as far as the runtime uses it: calls are put on an agenda under a
name, can be taken off it or moved to another block by the name, and are taken off it when they are
due. A name is a byte string, and tasks are found by the whole of it.

The agenda of one block holds at most `MaxScheduledPerBlock` tasks. What a call is and how it is
dispatched is left to the user of the agenda.
-/

namespace Reef

open Bounded FiniteMap

/-- The errors of the scheduler. -/
inductive SchedulerError
  | failedToSchedule
  | notFound
  | targetBlockNumberInPast
  | rescheduleNoChange
  | exhausted
  deriving DecidableEq, Repr

/-- The texts of the errors. -/
def SchedulerError.message : SchedulerError → String
  | .failedToSchedule => "FailedToSchedule"
  | .notFound => "NotFound"
  | .targetBlockNumberInPast => "TargetBlockNumberInPast"
  | .rescheduleNoChange => "RescheduleNoChange"
  | .exhausted => "Exhausted"

/-- A call and the block it is due at. -/
structure Task (κ : Type) where
  call : κ
  due : ℕ
  deriving DecidableEq, Repr

/-- The current block and the tasks that are pending, by name. -/
structure Agenda (κ : Type) where
  now : ℕ
  tasks : Finmap fun _ : Bytes => Task κ

namespace Agenda

variable {κ : Type}

/-- `MaxScheduledPerBlock`. -/
def maxScheduledPerBlock : ℕ := 50

/-- The number of tasks due at a block. -/
def load (a : Agenda κ) (block : ℕ) : ℕ := total (fun _ t => if t.due = block then 1 else 0) a.tasks

/-- `resolve_time` of `DispatchTime::After`. -/
def resolveTime (a : Agenda κ) (delay : ℕ) : Except SchedulerError ℕ :=
  let due := satAdd blockBits (satAdd blockBits a.now delay) 1
  if due ≤ a.now then .error .targetBlockNumberInPast else .ok due

/-- Put a task on the agenda, if the block has room for it. -/
def place (a : Agenda κ) (name : Bytes) (call : κ) (due : ℕ) : Except SchedulerError (Agenda κ) :=
  if a.load due < maxScheduledPerBlock then
    .ok { a with tasks := a.tasks.insert name ⟨call, due⟩ }
  else .error .exhausted

/-- `schedule_named`. -/
def scheduleNamed (a : Agenda κ) (name : Bytes) (delay : ℕ) (call : κ) :
    Except SchedulerError (Agenda κ) :=
  if name ∈ a.tasks then .error .failedToSchedule
  else
    match a.resolveTime delay with
    | .error e => .error e
    | .ok due => a.place name call due

/-- `cancel_named`. -/
def cancelNamed (a : Agenda κ) (name : Bytes) : Except SchedulerError (Agenda κ) :=
  if name ∈ a.tasks then .ok { a with tasks := a.tasks.erase name } else .error .notFound

/-- `reschedule_named`. The task is taken off the agenda before it is placed again. -/
def rescheduleNamed (a : Agenda κ) (name : Bytes) (delay : ℕ) :
    Except SchedulerError (Agenda κ) :=
  match a.resolveTime delay with
  | .error e => .error e
  | .ok due =>
    match a.tasks.lookup name with
    | none => .error .notFound
    | some task =>
      if task.due = due then .error .rescheduleNoChange
      else ({ a with tasks := a.tasks.erase name } : Agenda κ).place name task.call due

/-! ### What the operations do to the tasks -/

variable {a a' : Agenda κ} {name : Bytes} {delay : ℕ}

theorem place_eq_ok {call : κ} {due : ℕ} (h : a.place name call due = .ok a') :
    a' = { a with tasks := a.tasks.insert name ⟨call, due⟩ } := by
  unfold place at h
  split at h
  · cases h
    rfl
  · cases h

theorem scheduleNamed_eq_ok {call : κ} (h : a.scheduleNamed name delay call = .ok a') :
    name ∉ a.tasks ∧ ∃ due, a' = { a with tasks := a.tasks.insert name ⟨call, due⟩ } := by
  unfold scheduleNamed at h
  split at h
  · cases h
  · next hnew =>
    split at h
    · cases h
    · next due _ => exact ⟨hnew, due, place_eq_ok h⟩

theorem cancelNamed_eq_ok (h : a.cancelNamed name = .ok a') :
    name ∈ a.tasks ∧ a' = { a with tasks := a.tasks.erase name } := by
  unfold cancelNamed at h
  split at h
  · next hmem =>
    cases h
    exact ⟨hmem, rfl⟩
  · cases h

/-- A task that is moved keeps its name and its call. -/
theorem rescheduleNamed_eq_ok (h : a.rescheduleNamed name delay = .ok a') :
    ∃ task due, a.tasks.lookup name = some task ∧
      a' = { a with tasks := a.tasks.insert name ⟨task.call, due⟩ } := by
  unfold rescheduleNamed at h
  split at h
  · cases h
  · next due _ =>
    split at h
    · cases h
    · next task htask =>
      split at h
      · cases h
      · refine ⟨task, due, htask, ?_⟩
        have hplaced := place_eq_ok h
        rw [insert_erase_self] at hplaced
        exact hplaced

end Agenda

end Reef
