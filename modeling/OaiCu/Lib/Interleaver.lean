import Mathlib.Data.Nat.ModEq

/-!
# Block interleavers

A block interleaver writes `R * C` positions row by row into `C` rows of `R` columns, reads them
column by column and shifts the result cyclically. It is a permutation of the positions.
-/

namespace Interleaver

/-- The place of position `k`, shifted by `s`. -/
def place (R C s k : ℕ) : ℕ := (k % R * C + k / R + s) % (R * C)

variable {R C s k k' : ℕ}

/-- Where the position stands before the shift. -/
theorem read_lt (hk : k < R * C) : k % R * C + k / R < R * C := by
  have hR : 0 < R := Nat.pos_of_mul_pos_right (Nat.zero_lt_of_lt hk)
  have hrow : k / R < C := Nat.div_lt_of_lt_mul hk
  have hcol : k % R + 1 ≤ R := Nat.mod_lt k hR
  calc k % R * C + k / R < k % R * C + C := Nat.add_lt_add_left hrow _
    _ = (k % R + 1) * C := (Nat.succ_mul _ _).symm
    _ ≤ R * C := Nat.mul_le_mul_right C hcol

/-- No two positions have the same place. -/
theorem place_injective (hk : k < R * C) (hk' : k' < R * C)
    (h : place R C s k = place R C s k') : k = k' := by
  have hread : k % R * C + k / R = k' % R * C + k' / R := by
    have hmod : k % R * C + k / R + s ≡ k' % R * C + k' / R + s [MOD R * C] := h
    exact (Nat.ModEq.add_right_cancel' s hmod).eq_of_lt_of_lt (read_lt hk) (read_lt hk')
  have hrow : k / R < C := Nat.div_lt_of_lt_mul hk
  have hrow' : k' / R < C := Nat.div_lt_of_lt_mul hk'
  have hC : 0 < C := Nat.zero_lt_of_lt hrow
  -- the row is what is read modulo the number of rows, the column its quotient
  have hdiv : k / R = k' / R := by
    have := congrArg (· % C) hread
    simpa [Nat.mul_add_mod_of_lt, Nat.mod_eq_of_lt, hrow, hrow'] using this
  have hmod : k % R = k' % R := by
    have := congrArg (· / C) hread
    simpa [Nat.mul_comm _ C, Nat.mul_add_div hC, Nat.div_eq_of_lt, hrow, hrow'] using this
  rw [← Nat.div_add_mod k R, ← Nat.div_add_mod k' R, hdiv, hmod]

end Interleaver
