import OaiCu.Lib.Quantise
import OaiCu.OduSch.TbSizeStandard

/-!
# Transport block sizes of the gNB MAC (`nr_compute_tbs_common.c`)

`nr_compute_tbs` follows TS 38.214, section 5.1.3.2, in integers of 32 bits. The number of information
bits is a product of type `int`, which wraps around, and is converted to `uint32_t`.
-/

namespace OaiCu.NrMac

/-- Tbstable_nr. -/
def TBSTABLE_NR : List ℕ :=
  [24, 32, 40, 48, 56, 64, 72, 80, 88, 96, 104, 112, 120, 128, 136, 144, 152, 160, 168, 176,
    184, 192, 208, 224, 240, 256, 272, 288, 304, 320, 336, 352, 368, 384, 408, 432, 456, 480,
    504, 528, 552, 576, 608, 640, 672, 704, 736, 768, 808, 848, 888, 928, 984, 1032, 1064, 1128,
    1160, 1192, 1224, 1256, 1288, 1320, 1352, 1416, 1480, 1544, 1608, 1672, 1736, 1800, 1864,
    1928, 2024, 2088, 2152, 2216, 2280, 2408, 2472, 2536, 2600, 2664, 2728, 2792, 2856, 2976,
    3104, 3240, 3368, 3496, 3624, 3752, 3824]

/-- A result of type uint32_t. -/
def u32 (x : ℕ) : ℕ := x % 2 ^ 32

/-- CEILIDIV. -/
def ceilIDiv32 (a b : ℕ) : ℕ := u32 (a + b - 1) / b

/-- ROUNDIDIV. -/
def roundIDiv32 (a b : ℕ) : ℕ := u32 (u32 (2 * a) + b) / u32 (2 * b)

/-- The arguments of nr_compute_tbs but for nb_rb. -/
structure TbsParams where
  Qm : ℕ
  R : ℕ
  nbSymbSch : ℕ
  nbDmrsPrb : ℕ
  nbRbOh : ℕ
  tbScaling : ℕ
  Nl : ℕ
  deriving DecidableEq, Repr

namespace TbsParams

variable (x : TbsParams) (nbRb : ℕ)

/-- nb_re, of type uint16_t as nbp_re is. -/
def nbRe : ℕ :=
  let nbpRe := ((12 * x.nbSymbSch - x.nbDmrsPrb - x.nbRbOh : ℤ) % 2 ^ 16).toNat
  min 156 nbpRe * nbRb % 2 ^ 16

end TbsParams

/-- Ninfo for the product of type int. -/
def ninfoOf (product : ℤ) (tbScaling : ℕ) : ℕ :=
  ((product.tdiv 10 / 2 ^ 10 / 2 ^ tbScaling) % 2 ^ 32).toNat

/-- Ninfo. -/
def TbsParams.ninfo (x : TbsParams) (nbRb : ℕ) : ℕ :=
  ninfoOf (Int.bmod (x.nbRe nbRb * x.R * x.Qm * x.Nl) (2 ^ 32)) x.tbScaling

/-- The size for Ninfo up to 3824. -/
def tbsSmall (ninfo : ℕ) : ℕ :=
  let n := max 3 (Nat.log2 ninfo - 6)
  let npInfo := max 24 (ninfo / 2 ^ n * 2 ^ n)
  (TBSTABLE_NR.find? (npInfo ≤ ·)).getD 0

/-- The size for C code blocks. -/
def tbsBlocks (npInfo C : ℕ) : ℕ := u32 (C * 8 * ceilIDiv32 (u32 (npInfo + 24)) (C * 8) + 2 ^ 32 - 24)

/-- Np_info for Ninfo from 3825 on. -/
def npInfoLarge (ninfo : ℕ) : ℕ :=
  let n := Nat.log2 (ninfo - 24) - 5
  max 3840 (u32 (roundIDiv32 (ninfo - 24) (2 ^ n) * 2 ^ n))

/-- The size for Ninfo from 3825 on. -/
def tbsLarge (R ninfo : ℕ) : ℕ :=
  let npInfo := npInfoLarge ninfo
  if R ≤ 2560 then tbsBlocks npInfo (ceilIDiv32 (u32 (npInfo + 24)) 3816)
  else if 8424 < npInfo then tbsBlocks npInfo (ceilIDiv32 (u32 (npInfo + 24)) 8424)
  else u32 (ceilIDiv32 (u32 (npInfo + 24)) 8 * 8 + 2 ^ 32 - 24)

/-- The size for the number of information bits. -/
def tbsOf (R ninfo : ℕ) : ℕ := if ninfo ≤ 3824 then tbsSmall ninfo else tbsLarge R ninfo

/-- nr_compute_tbs, in bits. -/
def nrComputeTbs (x : TbsParams) (nbRb : ℕ) : ℕ := tbsOf x.R (x.ninfo nbRb)

/-! ## The standard -/

namespace Ts38214

open OaiCu.OduSch.Ts38214

/-- The number of information bits, as an integer. R is tabulated as 10 times the code rate. -/
def nInfo (x : TbsParams) (nbRb : ℕ) : ℕ :=
  min 156 (12 * x.nbSymbSch - x.nbDmrsPrb - x.nbRbOh) * nbRb * x.R * x.Qm * x.Nl / 10 /
    2 ^ (10 + x.tbScaling)

/-- The transport block size for a code rate of `R / 10240`. -/
def tbs (R nInfo : ℕ) : Option ℕ :=
  if nInfo ≤ 3824 then OduSch.tbSizeTable.find? (smallInfo nInfo ≤ ·)
  else some <|
    if (R : ℚ) / 10240 ≤ 1 / 4 then blockBits (largeInfo nInfo) (codeBlocks (largeInfo nInfo) 3816)
    else if 8424 < largeInfo nInfo then
      blockBits (largeInfo nInfo) (codeBlocks (largeInfo nInfo) 8424)
    else blockBits (largeInfo nInfo) 1

end Ts38214

/-! ## Sizes without overflow -/

section

open Quantise

/-- Np_info. -/
def npOf (n : ℕ) : ℕ := max 3840 (nearest 0 5 (n - 24))

/-- The size for a number of information bits, in natural numbers. -/
def sizeOf (R n : ℕ) : ℕ :=
  if n ≤ 3824 then (TBSTABLE_NR.find? (max 24 (down 3 6 n) ≤ ·)).getD 0
  else if R ≤ 2560 then parts 8 3816 (npOf n + 24) - 24
  else if 8424 < npOf n then parts 8 8424 (npOf n + 24) - 24
  else 8 * ((npOf n + 24) ⌈/⌉ 8) - 24

variable {R n n' : ℕ}

theorem npOf_mono (hn : 3824 < n) (h : n ≤ n') : npOf n ≤ npOf n' :=
  max_le_max le_rfl (nearest_mono (Nat.zero_le _) (by omega))

/-- The quantisation changes the number by a 64th at most. -/
theorem npOf_bounds (hn : 3824 < n) :
    64 * npOf n ≤ max (64 * 3840) (65 * (n - 24)) ∧ 63 * (n - 24) ≤ 64 * npOf n := by
  have hlog : 0 + 5 ≤ Nat.log2 (n - 24) := (Nat.le_log2 (by omega)).mpr (by omega)
  have hunit := two_pow_exp_le hlog (by omega)
  have hup := two_mul_nearest_le 0 5 (n - 24)
  have hdown := two_mul_le_nearest 0 5 (n - 24)
  unfold npOf
  generalize 2 ^ exp 0 5 (n - 24) = unit at *
  omega

theorem find?_TBSTABLE_NR {x : ℕ} (hx : x ≤ 3824) :
    ∃ t, TBSTABLE_NR.find? (x ≤ ·) = some t ∧ t ∈ TBSTABLE_NR := by
  obtain ⟨t, ht⟩ := OduSch.find?_tbSizeTable hx
  exact ⟨t, ht, List.mem_of_find?_eq_some ht⟩

theorem max_down_le (hn : n ≤ 3824) : max 24 (down 3 6 n) ≤ 3824 :=
  max_le (by decide) (down_le.trans hn)

theorem sizeOf_small (hn : n ≤ 3824) :
    ∃ t ∈ TBSTABLE_NR, TBSTABLE_NR.find? (max 24 (down 3 6 n) ≤ ·) = some t ∧ sizeOf R n = t := by
  obtain ⟨t, ht, hmem⟩ := find?_TBSTABLE_NR (max_down_le hn)
  refine ⟨t, hmem, ht, ?_⟩
  rw [sizeOf, if_pos hn, ht, Option.getD_some]

theorem sizeOf_large (hn : 3824 < n) : sizeOf R n =
    if R ≤ 2560 then parts 8 3816 (npOf n + 24) - 24
    else if 8424 < npOf n then parts 8 8424 (npOf n + 24) - 24
    else 8 * ((npOf n + 24) ⌈/⌉ 8) - 24 :=
  if_neg (not_le.mpr hn)

theorem TBSTABLE_NR_bounds : ∀ t ∈ TBSTABLE_NR, t ≤ 3824 ∧ 8 ∣ t := by decide

/-- A size from the table is at most 3824, and a larger one holds Np_info. -/
theorem sizeOf_bounds :
    (n ≤ 3824 → sizeOf R n ≤ 3824) ∧ (3824 < n → npOf n ≤ sizeOf R n) := by
  constructor
  · intro hn
    obtain ⟨t, hmem, -, ht⟩ := sizeOf_small (R := R) hn
    rw [ht]
    exact (TBSTABLE_NR_bounds t hmem).1
  · intro hn
    have h1 := le_parts (u := 8) (m := 3816) (x := npOf n + 24) (by decide) (by decide)
    have h2 := le_parts (u := 8) (m := 8424) (x := npOf n + 24) (by decide) (by decide)
    have h3 := (ceilDiv_le_iff_le_mul (a := 8) (b := npOf n + 24) (by decide)).mp le_rfl
    rw [sizeOf_large hn]
    split_ifs <;> omega

/-- The code blocks add less than 8 bits each. -/
theorem sizeOf_lt (hn : 3824 < n) : sizeOf R n < npOf n + 8 * ((npOf n + 24) / 3816 + 1) := by
  have h1 := parts_lt (u := 8) (m := 3816) (x := npOf n + 24) (by decide) (by decide) (by omega)
  have h2 := parts_lt (u := 8) (m := 8424) (x := npOf n + 24) (by decide) (by decide) (by omega)
  rw [Nat.ceilDiv_eq_add_pred_div] at h1 h2
  rw [sizeOf_large hn, Nat.ceilDiv_eq_add_pred_div]
  split_ifs <;> omega

theorem dvd_sizeOf : 8 ∣ sizeOf R n := by
  rcases le_or_gt n 3824 with hn | hn
  · obtain ⟨t, hmem, -, ht⟩ := sizeOf_small (R := R) hn
    rw [ht]
    exact (TBSTABLE_NR_bounds t hmem).2
  · rw [sizeOf, if_neg (by omega)]
    split_ifs
    · exact Nat.dvd_sub dvd_parts (by decide)
    · exact Nat.dvd_sub dvd_parts (by decide)
    · exact Nat.dvd_sub (Nat.dvd_mul_right 8 _) (by decide)

/-- More information bits do not have a smaller size. -/
theorem sizeOf_mono (h : n ≤ n') : sizeOf R n ≤ sizeOf R n' := by
  rcases le_or_gt n' 3824 with hn' | hn'
  · obtain ⟨t, -, ht, hs⟩ := sizeOf_small (R := R) (h.trans hn')
    obtain ⟨t', -, ht', hs'⟩ := sizeOf_small (R := R) hn'
    rw [hs, hs']
    exact OduSch.find?_le_mono OduSch.tbSizeTable_ascending (max_le_max le_rfl (down_mono h)) ht ht'
  rcases le_or_gt n 3824 with hn | hn
  · calc
      sizeOf R n ≤ 3824 := sizeOf_bounds.1 hn
      _ ≤ npOf n' := (by decide : 3824 ≤ 3840).trans (le_max_left _ _)
      _ ≤ sizeOf R n' := sizeOf_bounds.2 hn'
  have hnp : npOf n + 24 ≤ npOf n' + 24 := Nat.add_le_add_right (npOf_mono hn h) 24
  have h1 := parts_mono (u := 8) (m := 3816) (by decide) (by decide) (by decide) hnp
  have h2 := parts_mono (u := 8) (m := 8424) (by decide) (by decide) (by decide) hnp
  have h3 := ceilDiv_mono (m := 8) (by decide) hnp
  have hle := le_parts (u := 8) (m := 8424) (x := npOf n' + 24) (by decide) (by decide)
  rw [sizeOf_large hn, sizeOf_large hn']
  -- one code block of up to 8424 bits is not longer than what comes next
  have hone : npOf n ≤ 8424 → 8 * ((npOf n + 24) ⌈/⌉ 8) ≤ 8448 := by
    intro hle
    rw [Nat.ceilDiv_eq_add_pred_div]
    omega
  split_ifs <;> omega

end

/-! ## The code without overflow -/

section

open Quantise

theorem u32_of_lt {a : ℕ} (h : a < 2 ^ 32) : u32 a = a := Nat.mod_eq_of_lt h

theorem ceilIDiv32_eq {a b : ℕ} (h : a + b ≤ 2 ^ 32) : ceilIDiv32 a b = a ⌈/⌉ b := by
  rw [ceilIDiv32, u32_of_lt (by omega), Nat.ceilDiv_eq_add_pred_div]

variable {R n : ℕ}

theorem tbsSmall_eq (hn : n ≤ 3824) : tbsSmall n = sizeOf R n := by
  rw [sizeOf, if_pos hn, tbsSmall, down, exp, Nat.mul_comm]

theorem npInfoLarge_eq (hn : 3824 < n) (hlt : n < 2 ^ 20) : npInfoLarge n = npOf n := by
  have hlog : Nat.log2 (n - 24) < 20 := (Nat.log2_lt (by omega)).mpr (by omega)
  have hexp : exp 0 5 (n - 24) = Nat.log2 (n - 24) - 5 := by
    unfold exp
    omega
  have hunit : 2 ^ (Nat.log2 (n - 24) - 5) ≤ 2 ^ 15 := Nat.pow_le_pow_right (by decide) (by omega)
  have hnp := (npOf_bounds hn).1
  unfold npOf nearest at *
  rw [hexp] at *
  unfold npInfoLarge roundIDiv32
  simp only
  generalize 2 ^ (Nat.log2 (n - 24) - 5) = unit at *
  rw [u32_of_lt (a := 2 * (n - 24)) (by omega), u32_of_lt (a := 2 * (n - 24) + unit) (by omega),
    u32_of_lt (a := 2 * unit) (by omega), Nat.mul_comm, u32_of_lt (by omega)]

theorem tbsBlocks_eq {x m : ℕ} (hx : x < 2 ^ 21) (hm : 0 < m) (hC : (x + 24) ⌈/⌉ m ≤ 1000) :
    tbsBlocks x ((x + 24) ⌈/⌉ m) = parts 8 m (x + 24) - 24 := by
  have hle := le_parts (u := 8) (by decide) hm (x := x + 24)
  have hlt := parts_lt (u := 8) (by decide) hm (x := x + 24) (by omega)
  have hpos := ceilDiv_pos hm (x := x + 24) (by omega)
  rw [parts, Nat.mul_comm 8] at *
  generalize (x + 24) ⌈/⌉ m = C at *
  rw [tbsBlocks, u32_of_lt (a := x + 24) (by omega), ceilIDiv32_eq (by omega)]
  generalize C * 8 * ((x + 24) ⌈/⌉ (C * 8)) = total at *
  unfold u32
  omega

/-- Below 2^20 nothing wraps around. -/
theorem tbsOf_eq (hlt : n < 2 ^ 20) : tbsOf R n = sizeOf R n := by
  rcases le_or_gt n 3824 with hn | hn
  · rw [tbsOf, if_pos hn, tbsSmall_eq hn]
  have hnp := (npOf_bounds hn).1
  have hx : npOf n < 1100000 := by omega
  rw [tbsOf, if_neg (not_le.mpr hn), sizeOf_large hn]
  unfold tbsLarge
  simp only [npInfoLarge_eq hn hlt]
  generalize npOf n = x at *
  rw [u32_of_lt (a := x + 24) (by omega), ceilIDiv32_eq (b := 3816) (by omega),
    ceilIDiv32_eq (b := 8424) (by omega), ceilIDiv32_eq (b := 8) (by omega)]
  have hC : ∀ m, 3816 ≤ m → (x + 24) ⌈/⌉ m ≤ 1000 := by
    intro m hm
    rw [ceilDiv_le_iff_le_mul (by omega)]
    omega
  have hone : x + 24 ≤ 8 * ((x + 24) ⌈/⌉ 8) ∧ 8 * ((x + 24) ⌈/⌉ 8) < 2 ^ 32 := by
    rw [Nat.ceilDiv_eq_add_pred_div]
    omega
  split_ifs
  · exact tbsBlocks_eq (by omega) (by decide) (hC 3816 (by decide))
  · exact tbsBlocks_eq (by omega) (by decide) (hC 8424 (by decide))
  · unfold u32
    omega

end

/-! ## The standard in natural numbers -/

namespace Ts38214

open Quantise OaiCu.OduSch.Ts38214

variable {R n : ℕ}

theorem smallInfo_eq (n : ℕ) : smallInfo n = max 24 (down 3 6 n) := by
  have hexp : smallExp n = exp 3 6 n := by
    unfold smallExp exp
    rw [Int.log_natCast, Nat.log2_eq_log_two]
    omega
  have hfloor := Nat.floor_div_eq_div (K := ℚ) n (2 ^ exp 3 6 n)
  push_cast at hfloor
  rw [smallInfo, hexp, hfloor, down]

theorem floor_div_add_half (m : ℕ) {P : ℕ} (hP : 0 < P) :
    ⌊(m : ℚ) / P + 1 / 2⌋₊ = (2 * m + P) / (2 * P) := by
  have hP' : (P : ℚ) ≠ 0 := by exact_mod_cast hP.ne'
  rw [← Nat.floor_div_eq_div (K := ℚ)]
  congr 1
  push_cast
  field_simp

theorem largeInfo_eq (hn : 3824 < n) : largeInfo n = npOf n := by
  have hsub : (n : ℚ) - 24 = (n - 24 : ℕ) := by
    rw [Nat.cast_sub (by omega)]
    rfl
  have hexp : largeExp n = exp 0 5 (n - 24) := by
    unfold largeExp exp
    rw [hsub, Int.log_natCast, Nat.log2_eq_log_two]
    omega
  have hfloor := floor_div_add_half (n - 24) (P := 2 ^ exp 0 5 (n - 24)) (by positivity)
  push_cast at hfloor
  rw [largeInfo, hexp, hsub, hfloor, npOf, nearest]

theorem codeBlocks_eq (x : ℕ) {m : ℕ} (hm : 0 < m) : codeBlocks x m = (x + 24) ⌈/⌉ m := by
  rw [codeBlocks, ceil_div _ hm, Nat.ceilDiv_eq_add_pred_div]
  congr 1
  omega

theorem blockBits_eq (x : ℕ) {c : ℕ} (hc : 0 < c) :
    blockBits x c = 8 * c * ((x + 24) ⌈/⌉ (8 * c)) - 24 := by
  rw [blockBits, ceil_div _ (by omega), Nat.ceilDiv_eq_add_pred_div]
  congr 3
  omega

/-- The standard's size is the one in natural numbers. -/
theorem tbs_eq : tbs R n = some (sizeOf R n) := by
  rcases le_or_gt n 3824 with hn | hn
  · obtain ⟨t, -, ht, hs⟩ := sizeOf_small (R := R) hn
    rw [tbs, if_pos (by exact_mod_cast hn), smallInfo_eq, hs]
    exact ht
  have hrate : (R : ℚ) / 10240 ≤ 1 / 4 ↔ R ≤ 2560 := by
    rw [div_le_div_iff₀ (by norm_num) (by norm_num)]
    have h : R * 4 ≤ 1 * 10240 ↔ R ≤ 2560 := by omega
    rw [← h]
    exact_mod_cast Iff.rfl
  have hC : ∀ m, 0 < m → 0 < (npOf n + 24) ⌈/⌉ m := fun m hm => ceilDiv_pos hm (by omega)
  rw [tbs, if_neg (by exact_mod_cast not_le.mpr hn), sizeOf_large hn, largeInfo_eq hn]
  simp only [hrate]
  rw [codeBlocks_eq _ (by decide), codeBlocks_eq _ (by decide), blockBits_eq _ (hC _ (by decide)),
    blockBits_eq _ (hC _ (by decide)), blockBits_eq _ (by decide)]
  rfl

end Ts38214

end OaiCu.NrMac
