import OaiCu.Lib.Crc
import Mathlib.Algebra.Polynomial.Div
import Mathlib.RingTheory.Polynomial.Basic
import Mathlib.Tactic.LinearCombination
import Mathlib.Algebra.Field.ZMod

/-!
# The remainder in the register

A register whose first `d` bits are in use holds a polynomial over the field of two elements. After a
bit string it holds the remainder of the string, as a polynomial, times `X ^ d`.
-/

namespace Crc

open Polynomial Finset

variable {w d : ℕ} {poly crc crc' : BitVec w} {b b' : Bool} {l : List Bool}

/-- A bit as a coefficient. -/
def coefficient (b : Bool) : ZMod 2 := if b then 1 else 0

theorem coefficient_xor : coefficient (b ^^ b') = coefficient b + coefficient b' := by
  revert b b'
  decide

/-- The polynomial in the first `d` bits of a register. -/
noncomputable def regPoly (d : ℕ) (crc : BitVec w) : (ZMod 2)[X] :=
  ∑ i ∈ range d, C (coefficient (crc.getMsbD i)) * X ^ (d - 1 - i)

/-- The polynomial of degree `d` whose lower coefficients are in `poly`. -/
noncomputable def generator (d : ℕ) (poly : BitVec w) : (ZMod 2)[X] := X ^ d + regPoly d poly

/-- A bit string as a polynomial, the first bit with the highest power. -/
noncomputable def msgPoly (l : List Bool) : (ZMod 2)[X] :=
  l.foldl (fun p b => p * X + C (coefficient b)) 0

/-- Only the first `d` bits are in use. -/
def Aligned (d : ℕ) (crc : BitVec w) : Prop := ∀ i, d ≤ i → crc.getMsbD i = false

theorem msgPoly_snoc : msgPoly (l ++ [b]) = msgPoly l * X + C (coefficient b) := by
  rw [msgPoly, List.foldl_append]
  rfl

theorem regPoly_zero : regPoly d (0#w) = 0 := by
  refine sum_eq_zero fun i _ => ?_
  rw [BitVec.getMsbD_zero]
  simp [coefficient]

theorem regPoly_xor : regPoly d (crc ^^^ crc') = regPoly d crc + regPoly d crc' := by
  rw [regPoly, regPoly, regPoly, ← sum_add_distrib]
  refine sum_congr rfl fun i _ => ?_
  rw [BitVec.getMsbD_xor, coefficient_xor, C_add, add_mul]

/-- A shift multiplies by `X`, and the first bit is dropped. -/
theorem regPoly_shiftLeft (h : Aligned d crc) :
    regPoly d (crc <<< 1) = regPoly d crc * X + C (coefficient crc.msb) * X ^ d := by
  have hterm : ∀ i ∈ range d, C (coefficient (crc.getMsbD i)) * X ^ (d - 1 - i) * X =
      C (coefficient (crc.getMsbD i)) * (X : (ZMod 2)[X]) ^ (d - i) := by
    intro i hi
    have hi := mem_range.mp hi
    have hexp : d - i = d - 1 - i + 1 := by omega
    rw [hexp, pow_succ, mul_assoc]
  have hshift : regPoly d (crc <<< 1) =
      ∑ i ∈ range d, C (coefficient (crc.getMsbD (i + 1))) * (X : (ZMod 2)[X]) ^ (d - (i + 1)) := by
    refine sum_congr rfl fun i _ => ?_
    rw [BitVec.getMsbD_shiftLeft, Nat.add_comm i 1, Nat.sub_sub]
  have hlast : C (coefficient (crc.getMsbD d)) * (X : (ZMod 2)[X]) ^ (d - d) = 0 := by
    rw [h d le_rfl]
    simp [coefficient]
  have hsum := sum_range_succ' (fun i => C (coefficient (crc.getMsbD i)) *
    (X : (ZMod 2)[X]) ^ (d - i)) d
  rw [sum_range_succ, hlast, add_zero, ← hshift, Nat.sub_zero] at hsum
  have hmsb : crc.getMsbD 0 = crc.msb := rfl
  rw [hmsb] at hsum
  have hprod : regPoly d crc * X = regPoly d (crc <<< 1) + C (coefficient crc.msb) * X ^ d := by
    rw [regPoly, sum_mul, sum_congr rfl hterm, hsum]
  rw [hprod, add_assoc, CharTwo.add_self_eq_zero, add_zero]

theorem Aligned.step (hp : Aligned d poly) (h : Aligned d crc) (b : Bool) :
    Aligned d (step poly crc b) := by
  intro i hi
  rw [Crc.step, BitVec.getMsbD_xor, BitVec.getMsbD_shiftLeft, h (i + 1) (Nat.le_succ_of_le hi)]
  split
  · rw [hp i hi]
    rfl
  · rw [BitVec.getMsbD_zero]
    rfl

theorem Aligned.run (hp : Aligned d poly) : ∀ (l : List Bool) {crc : BitVec w}, Aligned d crc →
    Aligned d (run poly crc l)
  | [], _, h => h
  | b :: l, _, h => Aligned.run hp l (hp.step h b)

theorem aligned_zero : Aligned d (0#w) := fun _ _ => BitVec.getMsbD_zero

/-- One bit. -/
theorem regPoly_step (h : Aligned d crc) (b : Bool) :
    regPoly d (step poly crc b) = regPoly d crc * X + C (coefficient b) * X ^ d +
      C (coefficient (crc.msb ^^ b)) * generator d poly := by
  have hfeed : regPoly d (if (crc.msb ^^ b) = true then poly else 0#w) =
      C (coefficient (crc.msb ^^ b)) * regPoly d poly := by
    cases crc.msb ^^ b with
    | false =>
        rw [if_neg nofun, regPoly_zero]
        simp [coefficient]
    | true => simp [coefficient]
  rw [step, regPoly_xor, regPoly_shiftLeft h, hfeed, generator, coefficient_xor, C_add]
  -- the highest power of the generator takes the first bit off and adds the new one twice
  have hdouble : C (coefficient b) * (X : (ZMod 2)[X]) ^ d + C (coefficient b) * X ^ d = 0 :=
    CharTwo.add_self_eq_zero _
  linear_combination -hdouble

theorem degree_regPoly_lt : (regPoly d crc).degree < d := by
  rw [← mem_degreeLT]
  refine Submodule.sum_mem _ fun i hi => mem_degreeLT.mpr ?_
  have hi := mem_range.mp hi
  have hexp : d - 1 - i < d := by omega
  exact lt_of_le_of_lt (degree_C_mul_X_pow_le _ _) (Nat.cast_lt.mpr hexp)

theorem monic_generator : (generator d poly).Monic := monic_X_pow_add degree_regPoly_lt

theorem degree_generator : (generator d poly).degree = d := by
  have hlt : (regPoly d poly).degree < (X ^ d : (ZMod 2)[X]).degree := by
    rw [degree_X_pow]
    exact degree_regPoly_lt
  rw [generator, degree_add_eq_left_of_degree_lt hlt, degree_X_pow]

/-- **The register holds the remainder.** -/
theorem regPoly_run (hp : Aligned d poly) (l : List Bool) :
    regPoly d (run poly 0#w l) = msgPoly l * X ^ d %ₘ generator d poly := by
  have hquot : ∃ q, regPoly d (run poly 0#w l) + generator d poly * q = msgPoly l * X ^ d := by
    induction l using List.reverseRecOn with
    | nil =>
        refine ⟨0, ?_⟩
        rw [run_nil, regPoly_zero, mul_zero, add_zero, msgPoly, List.foldl_nil, zero_mul]
    | append_singleton l b ih =>
        obtain ⟨q, hq⟩ := ih
        have hreg := @regPoly_step w d poly _ (Aligned.run hp l aligned_zero) b
        refine ⟨q * X - C (coefficient ((run poly 0#w l).msb ^^ b)), ?_⟩
        rw [run_append, run_cons, run_nil, hreg, msgPoly_snoc]
        linear_combination X * hq
  obtain ⟨q, hq⟩ := hquot
  have hdegree : (regPoly d (run poly 0#w l)).degree < (generator d poly).degree := by
    rw [degree_generator]
    exact degree_regPoly_lt
  exact (div_modByMonic_unique q _ monic_generator ⟨hq, hdegree⟩).2.symm

end Crc
