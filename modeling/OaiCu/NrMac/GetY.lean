import Mathlib.Algebra.Ring.Nat
import Mathlib.Data.Fin.VecNotation

/-!
# The search space hash of a UE

`get_Y` computes the recurrence of TS 38.213 10.1 with the `int` of 32 bits and returns a `uint16_t`.
`none` stands for a product that does not fit into an `int`.
-/

namespace OaiCu.NrMac

/-- A[3]. -/
def multiplierY : Fin 3 → ℕ := ![39827, 39829, 39839]

/-- D. -/
def modulusY : ℕ := 65537

/-- (A[cid] * Y) % D of an int. -/
def nextY (a y : ℕ) : Option ℕ :=
  if a * y < 2 ^ 31 then some (a * y % modulusY) else none

/-- The loop over the slots. -/
def slotsY (a slot y : ℕ) : Option ℕ := (List.range slot).foldlM (fun y _ => nextY a y) y

def getY (cid : Fin 3) (slot : ℕ) (rnti : UInt16) : Option UInt16 := do
  let y ← nextY (multiplierY cid) rnti.toNat
  let y ← slotsY (multiplierY cid) slot y
  return UInt16.ofNat y

/-- `Y` of the standard after `n` products: `A ^ n * RNTI mod D`. -/
def residueY (a rnti n : ℕ) : ℕ := a ^ n * rnti % modulusY

section

variable {a x : ℕ}

/-- The products of the recurrence up to slot `n` fit into an `int`. -/
def Fits (a rnti n : ℕ) : Prop := ∀ k ≤ n, a * residueY a rnti k < 2 ^ 31

instance {n : ℕ} : Decidable (Fits a x n) := by
  unfold Fits
  infer_instance

theorem residueY_lt (n : ℕ) : residueY a x n < modulusY := Nat.mod_lt _ (by decide)

theorem residueY_zero (hx : x < modulusY) : residueY a x 0 = x := by
  rw [residueY, pow_zero, Nat.one_mul, Nat.mod_eq_of_lt hx]

theorem residueY_succ (n : ℕ) : residueY a x (n + 1) = a * residueY a x n % modulusY := by
  rw [residueY, residueY, pow_succ', Nat.mul_assoc, Nat.mul_mod_mod]

theorem nextY_residueY (n : ℕ) : nextY a (residueY a x n) =
    if a * residueY a x n < 2 ^ 31 then some (residueY a x (n + 1)) else none := by
  rw [nextY, residueY_succ]

theorem fits_succ {n : ℕ} : Fits a x (n + 1) ↔ Fits a x n ∧ a * residueY a x (n + 1) < 2 ^ 31 := by
  constructor
  · intro h
    exact ⟨fun k hk => h k (Nat.le_succ_of_le hk), h (n + 1) (Nat.le_refl _)⟩
  · rintro ⟨h, hn⟩ k hk
    rcases Nat.lt_or_eq_of_le hk with hlt | rfl
    · exact h k (Nat.le_of_lt_succ hlt)
    · exact hn

/-- The first product, and then one for each slot. -/
theorem slotsY_eq (hx : x < modulusY) (slot : ℕ) :
    (nextY a x >>= slotsY a slot) =
      if Fits a x slot then some (residueY a x (slot + 1)) else none := by
  induction slot with
  | zero =>
      have hfits : Fits a x 0 ↔ a * residueY a x 0 < 2 ^ 31 := by
        simp [Fits]
      have hfirst : nextY a x = nextY a (residueY a x 0) := by rw [residueY_zero hx]
      rw [hfirst, nextY_residueY]
      simp only [hfits]
      split <;> rfl
  | succ n ih =>
      have hstep : ∀ y, slotsY a (n + 1) y = slotsY a n y >>= nextY a := by
        intro y
        simp only [slotsY, List.range_succ, List.foldlM_append, List.foldlM_cons, List.foldlM_nil,
          bind_pure]
      have hassoc : (nextY a x >>= slotsY a (n + 1)) = (nextY a x >>= slotsY a n) >>= nextY a := by
        rw [bind_assoc]
        congr 1
        funext y
        exact hstep y
      rw [hassoc, ih]
      by_cases hn : Fits a x n
      · rw [if_pos hn]
        change nextY a (residueY a x (n + 1)) = _
        rw [nextY_residueY]
        simp only [fits_succ, hn, true_and]
      · rw [if_neg hn, if_neg fun h => hn (fits_succ.mp h).1]
        rfl

end

theorem getY_eq (cid : Fin 3) (slot : ℕ) (rnti : UInt16) : getY cid slot rnti =
    if Fits (multiplierY cid) rnti.toNat slot then
      some (UInt16.ofNat (residueY (multiplierY cid) rnti.toNat (slot + 1))) else none := by
  have hx : rnti.toNat < modulusY := Nat.lt_succ_of_lt rnti.toNat_lt
  have hloops := slotsY_eq (a := multiplierY cid) hx slot
  have hget : getY cid slot rnti =
      (nextY (multiplierY cid) rnti.toNat >>= slotsY (multiplierY cid) slot).map UInt16.ofNat := by
    rw [getY]
    cases nextY (multiplierY cid) rnti.toNat with
    | none => rfl
    | some y => exact (Option.map_eq_bind).symm
  rw [hget, hloops]
  split <;> rfl

/-- What `get_Y` is to compute: every product is an `int`, and the result is that of the standard. -/
def YRight (cid : Fin 3) (slot : ℕ) (rnti : UInt16) : Prop :=
  (getY cid slot rnti).map UInt16.toNat =
    some (multiplierY cid ^ (slot + 1) * rnti.toNat % modulusY)

/-- It does unless a residue before the last is too large for the product with `A`, or the last one is
65536. -/
theorem yRight_iff (cid : Fin 3) (slot : ℕ) (rnti : UInt16) :
    YRight cid slot rnti ↔
      (∀ k ≤ slot, multiplierY cid * (multiplierY cid ^ k * rnti.toNat % modulusY) < 2 ^ 31) ∧
        multiplierY cid ^ (slot + 1) * rnti.toNat % modulusY ≠ 65536 := by
  have hlt : residueY (multiplierY cid) rnti.toNat (slot + 1) < 65537 := residueY_lt (slot + 1)
  rw [YRight, getY_eq]
  change _ = some (residueY (multiplierY cid) rnti.toNat (slot + 1)) ↔
    Fits _ _ _ ∧ residueY (multiplierY cid) rnti.toNat (slot + 1) ≠ 65536
  by_cases hfits : Fits (multiplierY cid) rnti.toNat slot
  · have hval : (UInt16.ofNat (residueY (multiplierY cid) rnti.toNat (slot + 1))).toNat =
        residueY (multiplierY cid) rnti.toNat (slot + 1) % 65536 := UInt16.toNat_ofNat'
    rw [if_pos hfits, Option.map_some, Option.some.injEq, hval]
    simp only [hfits, true_and]
    omega
  · rw [if_neg hfits]
    simp [hfits]

/-- The first product of the largest RNTI overflows, and 3765 · 39827 leaves 65536. -/
theorem not_yRight_65535 : ¬ YRight 0 0 65535 ∧ ¬ YRight 0 0 3765 := by
  constructor <;> rw [YRight] <;> decide

example : getY 1 1 4660 = some 53677 := by decide

end OaiCu.NrMac
