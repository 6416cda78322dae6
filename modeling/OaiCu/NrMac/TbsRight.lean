import Mathlib.Tactic.IntervalCases
import OaiCu.NrMac.Tbs

/-!
# Where the transport block size is the standard's

The product that gives the number of information bits has to be a number of type `int`. Where it
wraps around, the result is a third of the number at most, or nearly 2^32, and the size is too small
in both cases.
-/

namespace OaiCu.NrMac

open Quantise

/-- The arguments that an allocation has. -/
structure TbsParams.Valid (x : TbsParams) : Prop where
  Qm_mem : x.Qm ∈ [1, 2, 4, 6, 8]
  R_pos : 0 < x.R
  R_le : x.R ≤ 9480
  symb_pos : 0 < x.nbSymbSch
  symb_le : x.nbSymbSch ≤ 14
  overhead_lt : x.nbDmrsPrb + x.nbRbOh < 12 * x.nbSymbSch
  Nl_pos : 0 < x.Nl
  Nl_le : x.Nl ≤ 4
  scaling_le : x.tbScaling ≤ 2

/-- The product of the resource elements, the code rate, the modulation order and the layers. -/
def TbsParams.product (x : TbsParams) (nbRb : ℕ) : ℕ :=
  min 156 (12 * x.nbSymbSch - x.nbDmrsPrb - x.nbRbOh) * nbRb * x.R * x.Qm * x.Nl

/-- The size is the standard's, in octets, and not smaller than for fewer blocks. -/
def TbsRight (x : TbsParams) (nbRb : ℕ) : Prop :=
  Ts38214.tbs x.R (Ts38214.nInfo x nbRb) = some (nrComputeTbs x nbRb) ∧
    8 ∣ nrComputeTbs x nbRb ∧
    ∀ nbRb', 1 ≤ nbRb' → nbRb' ≤ nbRb → nrComputeTbs x nbRb' ≤ nrComputeTbs x nbRb

namespace TbsParams.Valid

variable {x : TbsParams} {nbRb nbRb' : ℕ}

theorem nbRe_eq (h : x.Valid) (hle : nbRb ≤ 275) :
    x.nbRe nbRb = min 156 (12 * x.nbSymbSch - x.nbDmrsPrb - x.nbRbOh) * nbRb := by
  have hlt := h.overhead_lt
  have hsymb := h.symb_le
  have hsub : ((12 * x.nbSymbSch - x.nbDmrsPrb - x.nbRbOh : ℤ) % 2 ^ 16).toNat =
      12 * x.nbSymbSch - x.nbDmrsPrb - x.nbRbOh := by omega
  have hmul : min 156 (12 * x.nbSymbSch - x.nbDmrsPrb - x.nbRbOh) * nbRb ≤ 156 * 275 :=
    Nat.mul_le_mul (Nat.min_le_left _ _) hle
  unfold nbRe
  simp only [hsub]
  exact Nat.mod_eq_of_lt (by omega)

theorem ninfo_eq (h : x.Valid) (hle : nbRb ≤ 275) :
    x.ninfo nbRb = ninfoOf (Int.bmod (x.product nbRb) (2 ^ 32)) x.tbScaling := by
  rw [ninfo, h.nbRe_eq hle, product]
  push_cast
  rfl

theorem product_mono (hle : nbRb' ≤ nbRb) : x.product nbRb' ≤ x.product nbRb := by
  unfold product
  gcongr

end TbsParams.Valid

/-! ## The product as an int -/

theorem bmod_cases (P : ℕ) :
    ∃ k : ℤ, Int.bmod P (2 ^ 32) = P - 2 ^ 32 * k ∧ -2 ^ 31 ≤ Int.bmod P (2 ^ 32) ∧
      Int.bmod P (2 ^ 32) < 2 ^ 31 := by
  rw [Int.bmod_def]
  split
  · exact ⟨P / 2 ^ 32, by omega, by omega, by omega⟩
  · exact ⟨P / 2 ^ 32 + 1, by omega, by omega, by omega⟩

section

variable {P R s : ℕ}

theorem ninfoOf_natCast (hs : s ≤ 2) (h : P < 2 ^ 31) : ninfoOf P s = P / 10 / 2 ^ (10 + s) := by
  have hdiv : (P : ℤ).tdiv 10 = (P / 10 : ℕ) := Int.ofNat_tdiv P 10
  unfold ninfoOf
  rw [hdiv]
  interval_cases s <;> omega

/-- A negative product gives zero, or a number that is nearly 2^32. -/
theorem ninfoOf_of_neg {v : ℤ} (hs : s ≤ 2) (hneg : v < 0) (hle : -2 ^ 31 ≤ v) :
    ninfoOf v s = 0 ∨ (2 ^ 32 - 209716 ≤ ninfoOf v s ∧ ninfoOf v s < 2 ^ 32) := by
  obtain ⟨m, rfl⟩ : ∃ m : ℕ, v = -m := ⟨v.toNat + (-v).toNat, by omega⟩
  have hdiv : (-(m : ℤ)).tdiv 10 = -(m / 10 : ℕ) := by
    rw [Int.neg_tdiv]
    exact congrArg Neg.neg (Int.ofNat_tdiv m 10)
  unfold ninfoOf
  rw [hdiv]
  interval_cases s <;> omega

/-- A number that is nearly 2^32 is rounded to zero. -/
theorem npInfoLarge_huge {n : ℕ} (hle : 2 ^ 32 - 209716 ≤ n) (hlt : n < 2 ^ 32) :
    npInfoLarge n = 3840 := by
  have hlog : Nat.log2 (n - 24) = 31 := (Nat.log2_eq_iff (by omega)).mpr ⟨by omega, by omega⟩
  have hround : roundIDiv32 (n - 24) (2 ^ 26) = 0 := by
    unfold roundIDiv32 u32
    exact Nat.div_eq_of_lt (by omega)
  unfold npInfoLarge
  simp only [hlog, hround]
  decide

theorem tbsOf_huge {n : ℕ} (hle : 2 ^ 32 - 209716 ≤ n) (hlt : n < 2 ^ 32) : tbsOf R n ≤ 3848 := by
  rw [tbsOf, if_neg (by omega)]
  unfold tbsLarge
  simp only [npInfoLarge_huge hle hlt]
  split_ifs <;> decide

/-- A product that wraps around gives a smaller size. -/
theorem tbsOf_lt (hs : s ≤ 2) (h : 2 ^ 31 ≤ P) :
    tbsOf R (ninfoOf (Int.bmod P (2 ^ 32)) s) < sizeOf R (P / 10 / 2 ^ (10 + s)) := by
  obtain ⟨k, hk, hlow, hhigh⟩ := bmod_cases P
  have hN : 52428 ≤ P / 10 / 2 ^ (10 + s) := by interval_cases s <;> omega
  have hbig := (sizeOf_bounds (R := R) (n := P / 10 / 2 ^ (10 + s))).2 (by omega)
  have hnp := (npOf_bounds (n := P / 10 / 2 ^ (10 + s)) (by omega)).2
  rcases lt_or_ge (Int.bmod P (2 ^ 32)) 0 with hneg | hpos
  · rcases ninfoOf_of_neg hs hneg hlow with h0 | ⟨h1, h2⟩
    · rw [h0, tbsOf_eq (by decide)]
      have := (sizeOf_bounds (R := R) (n := 0)).1 (by decide)
      omega
    · have := tbsOf_huge (R := R) h1 h2
      omega
  · obtain ⟨v, hv⟩ := Int.eq_ofNat_of_zero_le hpos
    rw [hv] at hk hhigh ⊢
    -- the number is at least twice the one that the code gets, and more
    have hthird : 3 * (v / 10 / 2 ^ (10 + s)) ≤ P / 10 / 2 ^ (10 + s) + 3 := by
      interval_cases s <;> omega
    rw [ninfoOf_natCast hs (by omega), tbsOf_eq (by interval_cases s <;> omega)]
    generalize P / 10 / 2 ^ (10 + s) = N at *
    generalize v / 10 / 2 ^ (10 + s) = n at *
    rcases le_or_gt n 3824 with hn | hn
    · have := (sizeOf_bounds (R := R) (n := n)).1 hn
      omega
    · have hup := (npOf_bounds hn).1
      have hlt := sizeOf_lt (R := R) hn
      omega

end

/-- The size is right if and only if the product of the resource elements, the code rate, the
modulation order and the layers is a number of type int. -/
theorem tbsRight_iff {x : TbsParams} {nbRb : ℕ} (h : x.Valid) (hle : nbRb ≤ 275) :
    TbsRight x nbRb ↔ x.product nbRb < 2 ^ 31 := by
  have hspec : ∀ n, Ts38214.nInfo x n = x.product n / 10 / 2 ^ (10 + x.tbScaling) := fun _ => rfl
  -- below 2^31 nothing wraps around
  have hcode : ∀ n, n ≤ nbRb → x.product n < 2 ^ 31 →
      nrComputeTbs x n = sizeOf x.R (Ts38214.nInfo x n) := by
    intro n hn hP
    have hbmod : Int.bmod (x.product n) (2 ^ 32) = x.product n := by
      rw [Int.bmod_def]
      omega
    have hlt : x.product n / 10 / 2 ^ (10 + x.tbScaling) < 2 ^ 20 := by
      have h1 : x.product n / 10 / 2 ^ (10 + x.tbScaling) ≤ x.product n / 10 / 2 ^ 10 :=
        Nat.div_le_div_left (Nat.pow_le_pow_right (by decide) (by omega)) (by decide)
      omega
    rw [nrComputeTbs, h.ninfo_eq (hn.trans hle), hbmod, ninfoOf_natCast h.scaling_le hP,
      tbsOf_eq hlt, hspec]
  constructor
  · rintro ⟨heq, -, -⟩
    by_contra hP
    have hlt := tbsOf_lt (R := x.R) h.scaling_le (not_lt.mp hP)
    rw [Ts38214.tbs_eq, hspec, nrComputeTbs, h.ninfo_eq hle] at heq
    exact absurd (Option.some.inj heq) hlt.ne'
  · intro hP
    refine ⟨?_, ?_, fun nbRb' hpos' hle' => ?_⟩
    · rw [hcode nbRb le_rfl hP, Ts38214.tbs_eq]
    · rw [hcode nbRb le_rfl hP]
      exact dvd_sizeOf
    · have hmono := TbsParams.Valid.product_mono (x := x) hle'
      rw [hcode nbRb le_rfl hP, hcode nbRb' hle' (by omega), hspec, hspec]
      exact sizeOf_mono (Nat.div_le_div_right (Nat.div_le_div_right hmono))

/-- Four layers of 256QAM at the highest code rate. -/
def fourLayers : TbsParams where
  Qm := 8
  R := 9480
  nbSymbSch := 14
  nbDmrsPrb := 12
  nbRbOh := 0
  tbScaling := 0
  Nl := 4

theorem tbsRight_fourLayers : TbsRight fourLayers 45 :=
  (tbsRight_iff ⟨by decide, by decide, by decide, by decide, by decide, by decide, by decide,
    by decide, by decide⟩ (by decide)).mpr (by decide)

/-- One block more, and the size falls. -/
theorem tbs_falls : ¬ TbsRight fourLayers 46 := by
  intro h
  have hle := h.2.2 45 (by decide) (by decide)
  revert hle
  decide +kernel

end OaiCu.NrMac
