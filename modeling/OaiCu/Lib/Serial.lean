import Mathlib.Tactic.Ring
import Mathlib.Tactic.Linarith
import Mathlib.Data.Int.ModEq

/-!
# Serial numbers relative to a moving base

Sequence numbers on the wire are residues modulo `M`; two of them can only be
compared once a base is fixed. `rel M b x` is the distance from the base `b` up
to `x`, a number in `[0, M)`. Everything a window protocol needs is a statement
about how `rel` moves when `x` is incremented or the base is advanced.
-/

namespace Serial

/-- Distance from the base `b` up to `x`, modulo `M`. -/
def rel (M b x : ℤ) : ℤ := (x - b) % M

variable {M : ℤ}

theorem rel_nonneg (hM : 0 < M) (b x : ℤ) : 0 ≤ rel M b x :=
  Int.emod_nonneg _ (by omega)

theorem rel_lt (hM : 0 < M) (b x : ℤ) : rel M b x < M :=
  Int.emod_lt_of_pos _ hM

@[simp] theorem rel_self (b : ℤ) : rel M b b = 0 := by
  simp [rel]

@[simp] theorem rel_emod (b x : ℤ) : rel M b (x % M) = rel M b x := by
  simp [rel, Int.sub_emod]

@[simp] theorem rel_emod_base (b x : ℤ) : rel M (b % M) x = rel M b x := by
  simp [rel, Int.sub_emod]

/-- Inside one period above the base the distance is the plain difference. -/
theorem rel_eq_sub {b x : ℤ} (h0 : b ≤ x) (h1 : x < b + M) : rel M b x = x - b :=
  Int.emod_eq_of_lt (by omega) (by omega)

/-- Moving `x` up by `d` adds `d`, as long as the period is not left. -/
theorem rel_add {b x d : ℤ} (hM : 0 < M) (hd : 0 ≤ d) (h : rel M b x + d < M) :
    rel M b (x + d) = rel M b x + d := by
  have h0 := rel_nonneg hM b x
  have key : (x + d - b) % M = (rel M b x + d) % M := by
    unfold rel
    rw [Int.emod_add_emod]
    congr 1
    ring
  unfold rel at key ⊢
  rw [key]
  exact Int.emod_eq_of_lt (by unfold rel at h0; omega) h

theorem rel_succ {b x : ℤ} (hM : 0 < M) (h : rel M b x + 1 < M) :
    rel M b ((x + 1) % M) = rel M b x + 1 := by
  rw [rel_emod, rel_add hM (by omega) h]

/-- Moving the base up by `d`, not beyond `x`, takes `d` off. -/
theorem rel_rebase {b x d : ℤ} (hM : 0 < M) (hd : 0 ≤ d) (h : d ≤ rel M b x) :
    rel M (b + d) x = rel M b x - d := by
  have h1 := rel_lt hM b x
  have key : (x - (b + d)) % M = (rel M b x - d) % M := by
    unfold rel
    rw [Int.emod_sub_emod]
    congr 1
    ring
  unfold rel at key ⊢
  rw [key]
  exact Int.emod_eq_of_lt (by unfold rel at h; omega) (by unfold rel at h1; omega)

/-- A base moved past `x` sees `x` at the far end of the period. -/
theorem rel_rebase_past {b x d : ℤ} (hM : 0 < M) (h : rel M b x < d) (hd : d ≤ M) :
    rel M (b + d) x = rel M b x - d + M := by
  have h1 := rel_nonneg hM b x
  have key : (x - (b + d)) % M = (rel M b x - d + M) % M := by
    unfold rel
    rw [Int.add_emod_right, Int.emod_sub_emod]
    congr 1
    ring
  unfold rel at key ⊢
  rw [key]
  exact Int.emod_eq_of_lt (by unfold rel at h1; omega) (by unfold rel at h; omega)

/-- The new base is itself at or below `x`. -/
theorem rel_of_base_le {b b' x : ℤ} (hM : 0 < M) (h : rel M b b' ≤ rel M b x) :
    rel M b' x = rel M b x - rel M b b' := by
  have hbase : rel M (b + rel M b b') x = rel M b' x := by
    have : (b + rel M b b') % M = b' % M := by
      unfold rel
      rw [Int.add_emod_emod]
      congr 1
      ring
    rw [← rel_emod_base, this, rel_emod_base]
  rw [← hbase, rel_rebase hM (rel_nonneg hM _ _) h]

/-- Residues with the same distance from one base are equal. -/
theorem rel_inj {b x y : ℤ} (hx0 : 0 ≤ x) (hx : x < M) (hy0 : 0 ≤ y) (hy : y < M)
    (h : rel M b x = rel M b y) : x = y := by
  have h' : x % M = y % M := by
    have := Int.ModEq.add_right b (show (x - b) ≡ (y - b) [ZMOD M] from h)
    simpa [Int.ModEq] using this
  rwa [Int.emod_eq_of_lt hx0 hx, Int.emod_eq_of_lt hy0 hy] at h'

theorem rel_eq_zero {b x : ℤ} (hb0 : 0 ≤ b) (hb : b < M) (hx0 : 0 ≤ x) (hx : x < M) :
    rel M b x = 0 ↔ x = b := by
  constructor
  · intro h
    exact rel_inj hx0 hx hb0 hb (by rw [h, rel_self])
  · rintro rfl
    exact rel_self _

/-- The conditional subtraction used on machine integers computes `rel`. -/
theorem sub_wrap_eq_rel {b x : ℤ} (hb0 : 0 ≤ b) (hb : b < M) (hx0 : 0 ≤ x) (hx : x < M) :
    (if x - b < 0 then x - b + M else x - b) = rel M b x := by
  unfold rel
  split
  · rw [← Int.add_emod_right, Int.emod_eq_of_lt (by omega) (by omega)]
  · rw [Int.emod_eq_of_lt (by omega) (by omega)]

end Serial
