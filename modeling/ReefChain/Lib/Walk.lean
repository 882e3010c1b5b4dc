import Mathlib.Algebra.BigOperators.Group.List.Basic
import Mathlib.Algebra.Order.Ring.Int

/-!
# Truncated walks

A best-effort balance takes a list of moves: an increase is added, a decrease is subtracted as far
as there is something to subtract. The part that could not be subtracted is the *shortfall*. The
walk ends where the unbounded walk would end, plus the shortfall (`walk_eq`), which turns statements
about a chain of truncated subtractions into statements about one sum.
-/

namespace Walk

/-- The balance after the moves `ms` from the balance `r`. -/
def walk (r : ℕ) (ms : List ℤ) : ℕ := ms.foldl (fun (r : ℕ) (m : ℤ) => (r + m).toNat) r

/-- What the decreases among the moves could not take, in total. -/
def shortfall : ℕ → List ℤ → ℕ
  | _, [] => 0
  | r, m :: ms => (-(r + m)).toNat + shortfall (r + m).toNat ms

@[simp] theorem walk_nil (r : ℕ) : walk r [] = r := rfl

@[simp] theorem walk_cons (r : ℕ) (m : ℤ) (ms : List ℤ) :
    walk r (m :: ms) = walk (r + m).toNat ms := rfl

theorem walk_append (r : ℕ) (ms ns : List ℤ) : walk r (ms ++ ns) = walk (walk r ms) ns :=
  List.foldl_append

/-- A walk ends where the sum of its moves leads, plus its shortfall. -/
theorem walk_eq (r : ℕ) (ms : List ℤ) : (walk r ms : ℤ) = r + ms.sum + shortfall r ms := by
  induction ms generalizing r with
  | nil => simp [shortfall]
  | cons m ms ih =>
    rw [walk_cons, ih, List.sum_cons, shortfall]
    push_cast
    omega

end Walk
