import Mathlib.Tactic.Common
import Mathlib.Order.Lattice

/-!
# Bisection

The upper end of an interval that gets smaller by halves as long as it is longer than one step. The
value at the lower end is too small and that at the upper end is not; the bisection stops at once at
a value that is just right.
-/

namespace Bisect

variable {α : Type*} [LinearOrder α] {f : ℕ → α} {b : α} {lo hi : ℕ}

/-- for (p = (hi + lo) / 2; lo + 1 < hi; p = (hi + lo) / 2). -/
def upper (f : ℕ → α) (b : α) (lo hi : ℕ) : ℕ :=
  if lo + 1 < hi then
    if b = f ((hi + lo) / 2) then (hi + lo) / 2
    else if b < f ((hi + lo) / 2) then upper f b lo ((hi + lo) / 2)
    else upper f b ((hi + lo) / 2) hi
  else hi
termination_by hi - lo

/-- The ends of the interval. -/
structure Between (f : ℕ → α) (b : α) (lo hi : ℕ) : Prop where
  lt : lo < hi
  low : f lo < b
  high : b < f hi

/-- The bisection ends at the first value from `b` on: it is `b`, or the value before is smaller. -/
theorem upper_spec (h : Between f b lo hi) :
    lo < upper f b lo hi ∧ upper f b lo hi ≤ hi ∧
      (f (upper f b lo hi) = b ∨ Between f b (upper f b lo hi - 1) (upper f b lo hi)) := by
  fun_induction upper f b lo hi with
  | case1 lo hi hlt heq => exact ⟨by omega, by omega, .inl heq.symm⟩
  | case2 lo hi hlt hne hless ih =>
      obtain ⟨h1, h2, h3⟩ := ih ⟨by omega, h.low, hless⟩
      exact ⟨h1, by omega, h3⟩
  | case3 lo hi hlt hne hless ih =>
      obtain ⟨h1, h2, h3⟩ := ih ⟨by omega, lt_of_le_of_ne (not_lt.mp hless) (Ne.symm hne), h.high⟩
      exact ⟨by omega, h2, h3⟩
  | case4 lo hi hstop =>
      have hlt := h.lt
      obtain rfl : hi = lo + 1 := by omega
      exact ⟨hlt, Nat.le_refl _, .inr h⟩

end Bisect
