import Mathlib.Data.Nat.ModEq
import Mathlib.Algebra.Order.Ring.Abs
import Mathlib.Tactic.Ring

/-!
# Time in two digits

A clock counts slots in frames of `n` slots, and frames up to `H`, where it starts again. A time is
a frame and a slot in it; `count` is the number of slots since the last start.
-/

namespace CyclicTime

/-- The slots since the clock started. -/
def count (n hi lo : ℕ) : ℕ := hi * n + lo

/-- The slots from one count to another, with at most one start of the clock between. -/
def elapsed (H n c c' : ℕ) : ℕ := (c' + H * n - c) % (H * n)

variable {H n hi lo hi' lo' c c' d : ℕ}

theorem count_lt (hhi : hi < H) (hlo : lo < n) : count n hi lo < H * n := by
  have h : (hi + 1) * n ≤ H * n := Nat.mul_le_mul_right n hhi
  rw [Nat.add_mul, Nat.one_mul] at h
  rw [count]
  omega

theorem count_div (hlo : lo < n) : count n hi lo / n = hi := by
  have hn : 0 < n := Nat.zero_lt_of_lt hlo
  rw [count, Nat.mul_comm, Nat.mul_add_div hn, Nat.div_eq_of_lt hlo, Nat.add_zero]

theorem count_mod (hlo : lo < n) : count n hi lo % n = lo := by
  rw [count, Nat.mul_comm, Nat.mul_add_mod, Nat.mod_eq_of_lt hlo]

/-- A time is known from its count. -/
theorem count_inj (hlo : lo < n) (hlo' : lo' < n) (h : count n hi lo = count n hi' lo') :
    hi = hi' ∧ lo = lo' := by
  constructor
  · rw [← @count_div n hi lo hlo, h, count_div hlo']
  · rw [← @count_mod n hi lo hlo, h, count_mod hlo']

/-- **`d` slots later**: the slots of the sum that are more than a frame are carried. -/
theorem count_carry (H n hi lo d : ℕ) (hn : 0 < n) :
    count n ((hi + (lo + d) / n) % H) ((lo + d) % n) = (count n hi lo + d) % (H * n) := by
  have hsum : count n hi lo + d = n * hi + (lo + d) := by
    rw [count, Nat.mul_comm, Nat.add_assoc]
  rw [Nat.mul_comm H n, Nat.mod_mul, hsum, Nat.mul_add_mod, Nat.mul_add_div hn, count,
    Nat.mul_comm, Nat.add_comm]

theorem elapsed_of_le (h : c ≤ c') (hc : c' < H * n) : elapsed H n c c' = c' - c := by
  rw [elapsed, Nat.add_comm, Nat.add_sub_assoc h, Nat.add_mod_left, Nat.mod_eq_of_lt (by omega)]

/-- How far a count is ahead of another one, taken the shorter way round; a count behind it is
ahead by less than 0. -/
def ahead (H n c c' : ℕ) : ℤ := Int.bmod (c' - c) (H * n)

theorem ahead_same_hi (hH : 2 ≤ H) (hlo : lo < n) (hlo' : lo' < n) :
    ahead H n (count n hi lo) (count n hi lo') = lo' - lo := by
  have hle : 2 * n ≤ H * n := Nat.mul_le_mul_right n hH
  have hdiff : ((count n hi lo' : ℕ) : ℤ) - (count n hi lo : ℕ) = lo' - lo := by
    rw [count, count]
    push_cast
    ring
  rw [ahead, hdiff]
  exact Int.bmod_eq_of_le_mul_two (by omega) (by omega)

end CyclicTime
