import Mathlib.Algebra.Order.Floor.Div
import Mathlib.Data.Nat.Log
import Mathlib.Tactic.Positivity
import Mathlib.Tactic.Ring

/-!
# Quantised numbers

A number is given in units of a power of two that grows with the number: in whole units below it, or
in the nearest number of units. Both keep the order of numbers, because a number of the next size is
a whole number of the smaller units. Cutting a number into parts of a bounded size, all of them
rounded up to the same multiple, keeps the order too.
-/

namespace Quantise

variable {least less x y : ℕ}

/-- The exponent of the unit: `less` below the one of the number. -/
def exp (least less x : ℕ) : ℕ := max least (Nat.log2 x - less)

/-- Whole units. -/
def down (least less x : ℕ) : ℕ := 2 ^ exp least less x * (x / 2 ^ exp least less x)

/-- The nearest number of units. A half is rounded up. -/
def nearest (least less x : ℕ) : ℕ :=
  2 ^ exp least less x * ((2 * x + 2 ^ exp least less x) / (2 * 2 ^ exp least less x))

theorem log2_mono (h : x ≤ y) : Nat.log2 x ≤ Nat.log2 y := by
  rw [Nat.log2_eq_log_two, Nat.log2_eq_log_two]
  exact Nat.log_mono_right h

/-- Where the unit is larger, the size is. -/
theorem log2_lt_of_exp_ne (h : x ≤ y) (hne : exp least less x ≠ exp least less y) :
    Nat.log2 x + 1 ≤ Nat.log2 y ∧ exp least less y ≤ Nat.log2 y := by
  have hmono := log2_mono h
  unfold exp at *
  omega

theorem down_le : down least less x ≤ x := Nat.mul_div_le x _

/-- A multiple of the unit is not quantised. -/
theorem le_down {k : ℕ} (hdvd : 2 ^ exp least less x ∣ k) (hk : k ≤ x) : k ≤ down least less x := by
  obtain ⟨q, rfl⟩ := hdvd
  refine Nat.mul_le_mul_left _ ?_
  rw [Nat.le_div_iff_mul_le (by positivity), mul_comm]
  exact hk

theorem down_mono (h : x ≤ y) : down least less x ≤ down least less y := by
  rcases eq_or_ne (exp least less x) (exp least less y) with heq | hne
  · unfold down
    rw [heq]
    exact Nat.mul_le_mul_left _ (Nat.div_le_div_right h)
  · obtain ⟨hlt, hexp⟩ := log2_lt_of_exp_ne h hne
    have hy : y ≠ 0 := by
      rintro rfl
      simp at hlt
    calc
      down least less x ≤ x := down_le
      _ ≤ 2 ^ (Nat.log2 x + 1) := Nat.lt_log2_self.le
      _ ≤ 2 ^ Nat.log2 y := Nat.pow_le_pow_right (by decide) hlt
      _ ≤ down least less y := le_down (Nat.pow_dvd_pow 2 hexp) (Nat.log2_self_le hy)

/-! ## The nearest number of units -/

/-- A half of a unit is the most that is added. -/
theorem two_mul_nearest_le (least less x : ℕ) :
    2 * nearest least less x ≤ 2 * x + 2 ^ exp least less x := by
  unfold nearest
  rw [← mul_assoc]
  exact Nat.mul_div_le _ _

/-- Less than a half of a unit is taken off. -/
theorem two_mul_le_nearest (least less x : ℕ) :
    2 * x ≤ 2 * nearest least less x + 2 ^ exp least less x := by
  unfold nearest
  have h := Nat.lt_mul_div_succ (2 * x + 2 ^ exp least less x)
    (b := 2 * 2 ^ exp least less x) (by positivity)
  rw [mul_add, mul_assoc] at h
  omega

theorem le_nearest {k : ℕ} (hdvd : 2 ^ exp least less x ∣ k) (hk : k ≤ x) :
    k ≤ nearest least less x := by
  obtain ⟨q, rfl⟩ := hdvd
  refine Nat.mul_le_mul_left _ ?_
  rw [Nat.le_div_iff_mul_le (by positivity)]
  calc
    q * (2 * 2 ^ exp least less x) = 2 * (2 ^ exp least less x * q) := by ring
    _ ≤ 2 * x + 2 ^ exp least less x := Nat.le_add_right_of_le (Nat.mul_le_mul_left 2 hk)

theorem nearest_le {k : ℕ} (hdvd : 2 ^ exp least less x ∣ k) (hk : x ≤ k) :
    nearest least less x ≤ k := by
  obtain ⟨q, rfl⟩ := hdvd
  refine Nat.mul_le_mul_left _ ?_
  rw [← Nat.lt_succ_iff, Nat.div_lt_iff_lt_mul (by positivity)]
  have hpos : 0 < 2 ^ exp least less x := by positivity
  calc
    2 * x + 2 ^ exp least less x < 2 * (2 ^ exp least less x * q) + 2 * 2 ^ exp least less x := by
      omega
    _ = (q + 1) * (2 * 2 ^ exp least less x) := by ring

theorem nearest_mono (hleast : least ≤ Nat.log2 x + 1) (h : x ≤ y) :
    nearest least less x ≤ nearest least less y := by
  rcases eq_or_ne (exp least less x) (exp least less y) with heq | hne
  · unfold nearest
    rw [heq]
    exact Nat.mul_le_mul_left _ (Nat.div_le_div_right (by omega))
  · obtain ⟨hlt, hexp⟩ := log2_lt_of_exp_ne h hne
    have hy : y ≠ 0 := by
      rintro rfl
      simp at hlt
    have hexp' : exp least less x ≤ Nat.log2 x + 1 := by
      unfold exp
      omega
    calc
      nearest least less x ≤ 2 ^ (Nat.log2 x + 1) :=
        nearest_le (Nat.pow_dvd_pow 2 hexp') Nat.lt_log2_self.le
      _ ≤ 2 ^ Nat.log2 y := Nat.pow_le_pow_right (by decide) hlt
      _ ≤ nearest least less y := le_nearest (Nat.pow_dvd_pow 2 hexp) (Nat.log2_self_le hy)

/-- The unit is a fraction of the number. -/
theorem two_pow_exp_le (hle : least + less ≤ Nat.log2 x) (hx : x ≠ 0) :
    2 ^ less * 2 ^ exp least less x ≤ x := by
  rw [← pow_add]
  refine le_trans (Nat.pow_le_pow_right (by decide) ?_) (Nat.log2_self_le hx)
  unfold exp
  omega

/-! ## Parts -/

variable {u m : ℕ}

/-- `x` in parts of up to `m`, each one rounded up to a multiple of `u`. -/
def parts (u m x : ℕ) : ℕ := u * (x ⌈/⌉ m) * (x ⌈/⌉ (u * (x ⌈/⌉ m)))

theorem dvd_parts : u ∣ parts u m x := by
  unfold parts
  rw [mul_assoc]
  exact Nat.dvd_mul_right u _

theorem ceilDiv_pos (hm : 0 < m) (hx : 0 < x) : 0 < x ⌈/⌉ m := by
  rw [Nat.pos_iff_ne_zero]
  intro h
  have hle := (ceilDiv_le_iff_le_mul hm).mp h.le
  omega

theorem le_parts (hu : 0 < u) (hm : 0 < m) : x ≤ parts u m x := by
  rcases Nat.eq_zero_or_pos x with rfl | hx
  · exact Nat.zero_le _
  · exact (ceilDiv_le_iff_le_mul (Nat.mul_pos hu (ceilDiv_pos hm hx))).mp le_rfl

/-- No part is longer than `m`. -/
theorem parts_le (hdvd : u ∣ m) (hu : 0 < u) (hm : 0 < m) : parts u m x ≤ m * (x ⌈/⌉ m) := by
  obtain ⟨q, rfl⟩ := hdvd
  rcases Nat.eq_zero_or_pos x with rfl | hx
  · unfold parts
    simp
  · have hC := ceilDiv_pos hm hx
    have hle : x ⌈/⌉ (u * (x ⌈/⌉ (u * q))) ≤ q := by
      rw [ceilDiv_le_iff_le_mul (Nat.mul_pos hu hC), mul_right_comm]
      exact (ceilDiv_le_iff_le_mul hm).mp le_rfl
    unfold parts
    rw [mul_right_comm u q]
    exact Nat.mul_le_mul_left _ hle

/-- Each part has less than `u` added to it. -/
theorem parts_lt (hu : 0 < u) (hm : 0 < m) (hx : 0 < x) :
    parts u m x < x + u * (x ⌈/⌉ m) := by
  unfold parts
  have hpos := Nat.mul_pos hu (ceilDiv_pos hm hx)
  generalize u * (x ⌈/⌉ m) = d at *
  rw [Nat.ceilDiv_eq_add_pred_div]
  have h := Nat.mul_div_le (x + d - 1) d
  omega

theorem ceilDiv_mono (hm : 0 < m) (h : x ≤ y) : x ⌈/⌉ m ≤ y ⌈/⌉ m := by
  rw [ceilDiv_le_iff_le_mul hm]
  exact h.trans ((ceilDiv_le_iff_le_mul hm).mp le_rfl)

theorem parts_mono (hdvd : u ∣ m) (hu : 0 < u) (hm : 0 < m) (h : x ≤ y) :
    parts u m x ≤ parts u m y := by
  rcases Nat.eq_zero_or_pos x with rfl | hx
  · unfold parts
    simp
  rcases eq_or_ne (x ⌈/⌉ m) (y ⌈/⌉ m) with heq | hne
  · unfold parts
    rw [← heq]
    exact Nat.mul_le_mul_left _ (ceilDiv_mono (Nat.mul_pos hu (ceilDiv_pos hm hx)) h)
  · -- one part more has room for all that the parts of `x` hold
    have hlt : m * (x ⌈/⌉ m) < y := by
      by_contra hle
      have := ceilDiv_mono hm h
      have := (ceilDiv_le_iff_le_mul hm).mpr (not_lt.mp hle)
      omega
    exact (parts_le hdvd hu hm).trans (hlt.le.trans (le_parts hu hm))

/-- The parts are as many as those of `x`, and all of the same size. -/
theorem ceilDiv_parts (hdvd : u ∣ m) (hu : 0 < u) (hm : 0 < m) :
    parts u m x ⌈/⌉ m = x ⌈/⌉ m ∧ u * (x ⌈/⌉ m) ∣ parts u m x := by
  refine ⟨Nat.le_antisymm ?_ (ceilDiv_mono hm (le_parts hu hm)), Nat.dvd_mul_right _ _⟩
  exact (ceilDiv_le_iff_le_mul hm).mpr (parts_le hdvd hu hm)

end Quantise
