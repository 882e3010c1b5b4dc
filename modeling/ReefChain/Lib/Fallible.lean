import Mathlib.Logic.Basic

/-!
# Fallible computations

Inversion lemmas for computations in `Except`: a successful sequence is a successful first part
whose result the second part succeeds on. With `ensure` for guards, a whole `do` block is inverted
by one `simp only` call, and no proof has to unfold the monad.
-/

namespace Fallible

variable {ε α β : Type}

/-- Fail with `e` unless `p` holds. -/
def ensure (p : Prop) [Decidable p] (e : ε) : Except ε Unit :=
  if p then .ok () else .error e

/-- Fail with `e` if there is no value. -/
def okOr (o : Option α) (e : ε) : Except ε α :=
  match o with
  | some a => .ok a
  | none => .error e

theorem okOr_eq_ok {o : Option α} {e : ε} {a : α} : okOr o e = .ok a ↔ o = some a := by
  cases o with
  | none => simp [okOr]
  | some b => simp [okOr]

theorem ensure_eq_ok {p : Prop} [Decidable p] {e : ε} {u : Unit} :
    ensure p e = .ok u ↔ p := by
  unfold ensure
  split <;> simp_all

theorem bind_eq_ok {x : Except ε α} {f : α → Except ε β} {b : β} :
    (x >>= f) = .ok b ↔ ∃ a, x = .ok a ∧ f a = .ok b := by
  cases x with
  | error e => simp [bind, Except.bind]
  | ok a => simp [bind, Except.bind]

theorem map_eq_ok {x : Except ε α} {f : α → β} {b : β} :
    x.map f = .ok b ↔ ∃ a, x = .ok a ∧ f a = b := by
  cases x with
  | error e => simp [Except.map]
  | ok a => simp [Except.map]

theorem map_bind {γ : Type} (x : Except ε α) (f : α → Except ε β) (g : β → γ) :
    (x >>= f).map g = x >>= fun a => (f a).map g := by
  cases x <;> rfl

theorem mapError_eq_ok {ε' : Type} {x : Except ε α} {f : ε → ε'} {a : α} :
    x.mapError f = .ok a ↔ x = .ok a := by
  cases x with
  | error e => exact iff_of_false nofun nofun
  | ok b =>
    change Except.ok b = Except.ok a ↔ Except.ok b = Except.ok a
    rw [Except.ok.injEq, Except.ok.injEq]

/-- What remains of a guard after `bind_eq_ok`. -/
theorem exists_ensure_eq_ok {p : Prop} [Decidable p] {e : ε} {q : Unit → Prop} :
    (∃ u, ensure p e = .ok u ∧ q u) ↔ p ∧ q () := by
  constructor
  · rintro ⟨⟨⟩, hp, hq⟩
    exact ⟨ensure_eq_ok.mp hp, hq⟩
  · rintro ⟨hp, hq⟩
    exact ⟨(), ensure_eq_ok.mpr hp, hq⟩

/-- A guard that fails makes the whole computation fail with its error. -/
theorem ensure_bind_of_not {p : Prop} [Decidable p] (h : ¬ p) (e : ε) (f : Unit → Except ε β) :
    (ensure p e >>= f) = .error e := by
  simp [ensure, h, bind, Except.bind]

/-- A guard that holds is passed. -/
theorem ensure_bind_of {p : Prop} [Decidable p] (h : p) (e : ε) (f : Unit → Except ε β) :
    (ensure p e >>= f) = f () := by
  simp [ensure, h, bind, Except.bind]

/-- Run a computation as a storage transaction: on error the state is the one before it. -/
def commitOrKeep (x : Except ε α) (s : α) : α :=
  match x with
  | .ok s' => s'
  | .error _ => s

theorem commitOrKeep_cases (x : Except ε α) (s : α) :
    (∃ s', x = .ok s' ∧ commitOrKeep x s = s') ∨
      ((∃ e, x = .error e) ∧ commitOrKeep x s = s) := by
  cases x with
  | ok s' => exact .inl ⟨s', rfl, rfl⟩
  | error e => exact .inr ⟨⟨e, rfl⟩, rfl⟩

/-- Computations with the same results commit the same. -/
theorem commitOrKeep_congr {x y : Except ε α} (s : α) (hxy : ∀ s', x = .ok s' ↔ y = .ok s') :
    commitOrKeep x s = commitOrKeep y s := by
  cases hx : x with
  | ok s' => rw [(hxy s').mp hx]
  | error e =>
    cases hy : y with
    | ok s' =>
      rw [(hxy s').mpr hy] at hx
      cases hx
    | error e' => rfl

end Fallible
