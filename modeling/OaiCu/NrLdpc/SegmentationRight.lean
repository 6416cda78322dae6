import OaiCu.NrLdpc.Segmentation
import OaiCu.NrMac.TbsRight

/-!
# Transport blocks cut into code blocks

A transport block of whole octets is cut without a rest if its bits and those of the CRCs of the code
blocks are a multiple of 8 bits for each block and a number of 32 bits: Bprime is an `unsigned int`. The
sizes of `nr_compute_tbs` are such sizes for the base graph that is used with the code rate, even where
the number of information bits wraps around.
-/

namespace OaiCu.NrLdpc

open Crc NrMac Quantise

/-- The bits are whole octets, and so are those of each block. -/
def Divisible (bg : BaseGraph) (B : ℕ) : Prop :=
  8 ∣ B ∧ (1 < numBlocks bg B → 8 * numBlocks bg B ∣ B + 24 * numBlocks bg B)

/-- The sizes are those of the standard, and the blocks have the input and their CRCs. -/
structure SegmentedRight (bg : BaseGraph) (B : ℕ) (input : ℕ → BitVec 8) (seg : Segmentation)
    (out : ℕ → ℕ → BitVec 8) : Prop where
  count : seg.C = if B ≤ kcb bg then 1 else B ⌈/⌉ (kcb bg - 24)
  columnsBg1 : bg = .bg1 → seg.Kb = 22
  columnsBg2 : bg = .bg2 → (640 < B → seg.Kb = 10) ∧ (560 < B ∧ B ≤ 640 → seg.Kb = 9) ∧
    (192 < B ∧ B ≤ 560 → seg.Kb = 8) ∧ (B ≤ 192 → seg.Kb = 6)
  kPrime : seg.Kprime = (B + seg.C * seg.L) / seg.C
  crcLen : seg.L = if 1 < seg.C then 24 else 0
  lifting : IsLeast { t | t ∈ liftingSizes ∧ seg.Kprime ≤ seg.Kb * t } seg.Zout
  size : seg.K = columns bg * seg.Zout
  filler : seg.Kprime + seg.F = seg.K
  contents : (List.range seg.C).flatMap
      (fun r => (List.range ((seg.Kprime - seg.L) / 8)).map (out r)) = (List.range (B / 8)).map input
  check : 1 < seg.C → ∀ r < seg.C, checkCrc (out r) seg.Kprime .crc24B = true

variable {bg : BaseGraph} {B : ℕ}

/-- There is a CRC behind the blocks just if there are several. -/
theorem one_lt_numBlocks_iff : 1 < numBlocks bg B ↔ kcb bg < B := by
  constructor
  · intro h
    by_contra hle
    rw [numBlocks, if_pos (Nat.not_lt.mp hle)] at h
    exact Nat.lt_irrefl 1 h
  · intro h
    have hpos : 0 < kcb bg - 24 := by cases bg <;> decide
    rw [numBlocks_of_lt h]
    by_contra hle
    have := (ceilDiv_le_iff_le_mul hpos).mp (Nat.not_lt.mp hle)
    omega

theorem crcBits_eq : crcBits bg B = if 1 < numBlocks bg B then 24 else 0 := by
  rw [crcBits]
  by_cases h : B ≤ kcb bg
  · rw [if_pos h, if_neg (fun hc => Nat.not_lt.mpr h (one_lt_numBlocks_iff.mp hc))]
  · rw [if_neg h, if_pos (one_lt_numBlocks_iff.mpr (Nat.lt_of_not_le h))]

theorem numBlocks_eq : numBlocks bg B = if B ≤ kcb bg then 1 else B ⌈/⌉ (kcb bg - 24) := by
  split
  · rename_i h
    rw [numBlocks, if_pos h]
  · rename_i h
    exact numBlocks_of_lt (Nat.not_le.mp h)

/-- Bprime is not cut to 32 bits. -/
theorem kPrime_eq (h : B + 24 * numBlocks bg B < 2 ^ 32) :
    kPrime bg B = (B + numBlocks bg B * crcBits bg B) / numBlocks bg B := by
  have hle : numBlocks bg B * crcBits bg B ≤ numBlocks bg B * 24 := by
    refine Nat.mul_le_mul_left _ ?_
    rw [crcBits]
    split <;> decide
  rw [kPrime, Nat.mod_eq_of_lt (by omega)]

/-- The octets of a block, and those of all of them. -/
theorem Divisible.octets (h : Divisible bg B) (hB : B + 24 * numBlocks bg B < 2 ^ 32) :
    (1 < numBlocks bg B → kPrime bg B = 8 * ((kPrime bg B - crcBits bg B) / 8 + 3)) ∧
      (kPrime bg B - crcBits bg B) / 8 * numBlocks bg B = B / 8 := by
  obtain ⟨⟨b, rfl⟩, hdvd⟩ := h
  rw [kPrime_eq hB, crcBits_eq]
  by_cases hC : 1 < numBlocks bg (8 * b)
  · obtain ⟨q, hq⟩ := hdvd hC
    have hpos : 0 < numBlocks bg (8 * b) := by omega
    simp only [if_pos hC]
    generalize numBlocks bg (8 * b) = C at *
    have hsum : 8 * b + C * 24 = C * (8 * q) := by
      rw [Nat.mul_comm C 24, hq]
      ring
    have hq3 : 3 ≤ q := by
      by_contra hlt
      have := Nat.mul_le_mul_left C (by omega : 8 * q ≤ 16)
      omega
    rw [hsum, Nat.mul_div_cancel_left _ hpos]
    obtain ⟨m, rfl⟩ := Nat.exists_eq_add_of_le' hq3
    have hpayload : (8 * (m + 3) - 24) / 8 = m := by omega
    rw [hpayload]
    refine ⟨fun _ => rfl, ?_⟩
    have hbytes : 8 * b = 8 * (m * C) := by
      have hexp : C * (8 * (m + 3)) = 8 * (m * C) + C * 24 := by ring
      omega
    omega
  · have hone : numBlocks bg (8 * b) = 1 := by
      have := @numBlocks_pos bg (8 * b)
      omega
    rw [if_neg hC, hone]
    refine ⟨fun h => absurd h (Nat.lt_irrefl 1), ?_⟩
    omega

/-- **The blocks are right.** -/
theorem Divisible.segmentedRight (h : Divisible bg B) (hB : B + 24 * numBlocks bg B < 2 ^ 32)
    (input : ℕ → BitVec 8) (outputBuffers : ℕ → ℕ → BitVec 8) :
    ∃ seg out, nrSegmentation input outputBuffers B bg = some (seg, out) ∧
      SegmentedRight bg B input seg out := by
  obtain ⟨z, hsizes, hleast⟩ := @segmentationSizes_eq bg B
  obtain ⟨hkprime, hoctets⟩ := h.octets hB
  have hroom : kPrime bg B ≤ columns bg * z :=
    Nat.le_trans hleast.1.2 (Nat.mul_le_mul_right z kbOf_bounds.2.1)
  have hcrc : crcBits bg B ≤ kPrime bg B := by
    by_cases hC : 1 < numBlocks bg B
    · have := hkprime hC
      rw [crcBits_eq, if_pos hC]
      omega
    · rw [crcBits_eq, if_neg hC]
      exact Nat.zero_le _
  refine ⟨_, _, by rw [nrSegmentation, hsizes]; rfl, ⟨numBlocks_eq, ?_, ?_, kPrime_eq hB, crcBits_eq,
    hleast, rfl, ?_, ?_, ?_⟩⟩
  · rintro rfl
    rfl
  · rintro rfl
    simp only [kbOf]
    split_ifs <;> omega
  · exact Nat.add_sub_cancel' hroom
  all_goals
    have hblocks := @Segmentation.blocks_eq ⟨numBlocks bg B, kPrime bg B, crcBits bg B, kbOf bg B, z,
      columns bg * z, columns bg * z - kPrime bg B⟩ ((kPrime bg B - crcBits bg B) / 8) hcrc
      (by rw [Segmentation.payload_eq hcrc]; exact Nat.shiftRight_eq_div_pow _ 3)
      (fun hC => ⟨hkprime hC, by change crcBits bg B = 24; rw [crcBits_eq]; exact if_pos hC⟩) input
      outputBuffers (numBlocks bg B)
  · refine (flatMap_parts input _ _ _ fun r hr k hk => (hblocks.2 r hr).payload k hk).trans ?_
    rw [hoctets]
  · intro hC r hr
    have hcheck := checkCrc_of_hasCrc ((hblocks.2 r hr).crc hC)
    have hbits : 8 * ((kPrime bg B - crcBits bg B) / 8 + CrcType.crc24B.crcLen) = kPrime bg B :=
      (hkprime hC).symm
    rw [hbits] at hcheck
    exact hcheck

/-! ## The transport block sizes -/

/-- The bits of the CRC of a transport block. -/
def tbCrcBits (A : ℕ) : ℕ := if A > 3824 then 24 else 16

/-- The base graph for a transport block and a code rate of `R / 10240`, which is compared with 0.6667
and 0.25. -/
def baseGraph (A R : ℕ) : BaseGraph :=
  if A ≤ 292 ∨ (A ≤ 3824 ∧ 10000 * R ≤ 6667 * 10240) ∨ 4 * R ≤ 10240 then .bg2 else .bg1

theorem divisible_of_le (h8 : 8 ∣ B) (h : B ≤ kcb bg) : Divisible bg B :=
  ⟨h8, fun hC => absurd (one_lt_numBlocks_iff.mp hC) (Nat.not_lt.mpr h)⟩

/-- The sizes for several code blocks. -/
theorem divisible_parts {x : ℕ} (h : kcb bg < x) (hm : 8 ∣ kcb bg - 24) :
    Divisible bg (parts 8 (kcb bg - 24) x) := by
  have hpos : 0 < kcb bg - 24 := by cases bg <;> decide
  obtain ⟨hcount, hdvd⟩ := ceilDiv_parts (u := 8) (x := x) hm (by decide) hpos
  refine ⟨dvd_parts, fun _ => ?_⟩
  rw [numBlocks_of_lt (Nat.lt_of_lt_of_le h (le_parts (by decide) hpos)), hcount]
  refine Nat.dvd_add hdvd ?_
  exact ⟨3, by ring⟩

theorem divisible_sizeOf (R n : ℕ) : Divisible (baseGraph (sizeOf R n) R)
    (sizeOf R n + tbCrcBits (sizeOf R n)) := by
  have hkcb : ∀ bg, 3840 ≤ kcb bg := by
    intro bg
    cases bg <;> decide
  rcases Nat.lt_or_ge 3824 n with hn | hn
  · have hlarge := (sizeOf_bounds (R := R)).2 hn
    have hnp : 3840 ≤ npOf n := Nat.le_max_left _ _
    have hcrc : tbCrcBits (sizeOf R n) = 24 := if_pos (by omega)
    have h8 : 8 ∣ sizeOf R n + 24 := Nat.dvd_add dvd_sizeOf (by decide)
    rw [hcrc]
    have hsize := sizeOf_large (R := R) hn
    split_ifs at hsize with hR hnp'
    · -- base graph 2, for the code rates up to 1/4
      have hbg : baseGraph (sizeOf R n) R = .bg2 := if_pos (by omega)
      have hle := le_parts (u := 8) (m := 3816) (x := npOf n + 24) (by decide) (by decide)
      have hparts : sizeOf R n + 24 = parts 8 (kcb .bg2 - 24) (npOf n + 24) := by
        change _ = parts 8 3816 _
        omega
      rw [hbg, hparts]
      refine divisible_parts ?_ (by decide)
      change 3840 < _
      omega
    · have hbg : baseGraph (sizeOf R n) R = .bg1 := if_neg (by omega)
      have hle := le_parts (u := 8) (m := 8424) (x := npOf n + 24) (by decide) (by decide)
      have hparts : sizeOf R n + 24 = parts 8 (kcb .bg1 - 24) (npOf n + 24) := by
        change _ = parts 8 8424 _
        omega
      rw [hbg, hparts]
      refine divisible_parts ?_ (by decide)
      change 8448 < _
      omega
    · -- one block
      have hbg : baseGraph (sizeOf R n) R = .bg1 := if_neg (by omega)
      have hone : 8 * ((npOf n + 24) ⌈/⌉ 8) ≤ 8448 := by
        rw [Nat.ceilDiv_eq_add_pred_div]
        omega
      rw [hbg]
      refine divisible_of_le h8 ?_
      change _ ≤ 8448
      omega
  · have hsmall := (sizeOf_bounds (R := R)).1 hn
    have hcrc : tbCrcBits (sizeOf R n) = 16 := if_neg (by omega)
    rw [hcrc]
    refine divisible_of_le (Nat.dvd_add dvd_sizeOf (by decide)) (Nat.le_trans ?_ (hkcb _))
    omega

/-- The number of information bits is below 2^20, or nearly 2^32. -/
theorem ninfoOf_cases {v : ℤ} (hlow : -2 ^ 31 ≤ v) (hhigh : v < 2 ^ 31) (s : ℕ) :
    ninfoOf v s < 2 ^ 20 ∨ (2 ^ 32 - 209716 ≤ ninfoOf v s ∧ ninfoOf v s < 2 ^ 32) := by
  have hq : -209716 ≤ v.tdiv 10 / 2 ^ 10 ∧ v.tdiv 10 / 2 ^ 10 ≤ 209716 := by
    have htdiv : -214748365 ≤ v.tdiv 10 ∧ v.tdiv 10 ≤ 214748365 := by
      rcases Int.le_total 0 v with h | h
      · rw [Int.tdiv_eq_ediv_of_nonneg h]
        omega
      · obtain ⟨w, rfl⟩ : ∃ w : ℤ, v = -w := ⟨-v, (Int.neg_neg v).symm⟩
        rw [Int.neg_tdiv, Int.tdiv_eq_ediv_of_nonneg (by omega)]
        omega
    omega
  have hpos : (0 : ℤ) < 2 ^ s := by positivity
  unfold ninfoOf
  generalize v.tdiv 10 / 2 ^ 10 = q at *
  have hdiv : -209716 ≤ q / 2 ^ s ∧ q / 2 ^ s ≤ 209716 := by
    constructor
    · refine Int.le_ediv_of_mul_le hpos ?_
      nlinarith
    · rcases Int.le_total 0 q with h | h
      · exact Int.le_trans (Int.ediv_le_self _ h) hq.2
      · have hneg : q / 2 ^ s ≤ 0 := Int.ediv_le_of_le_mul hpos (by omega)
        omega
  omega

/-- Every result of `nr_compute_tbs` is a size for some number of information bits below 2^20. -/
theorem nrComputeTbs_eq_sizeOf (x : TbsParams) (nbRb : ℕ) :
    ∃ n < 2 ^ 20, nrComputeTbs x nbRb = sizeOf x.R n := by
  have hbmod : ∀ P : ℤ, -2 ^ 31 ≤ Int.bmod P (2 ^ 32) ∧ Int.bmod P (2 ^ 32) < 2 ^ 31 := by
    intro P
    rw [Int.bmod_def]
    omega
  obtain ⟨hlow, hhigh⟩ := hbmod (x.nbRe nbRb * x.R * x.Qm * x.Nl)
  rcases ninfoOf_cases hlow hhigh x.tbScaling with hlt | ⟨hle, hlt⟩
  · exact ⟨_, hlt, tbsOf_eq hlt⟩
  · -- as for the least number of the large ones
    refine ⟨3825, by decide, ?_⟩
    have hnp : npInfoLarge 3825 = 3840 := by decide
    rw [← tbsOf_eq (by decide), nrComputeTbs, TbsParams.ninfo, tbsOf, tbsOf, if_neg (by omega),
      if_neg (by decide), tbsLarge, tbsLarge, npInfoLarge_huge hle hlt, hnp]

/-- **The sizes of `nr_compute_tbs` are cut without a rest**, and no sum of the segmentation is too
large for 32 bits. -/
theorem divisible_nrComputeTbs (x : TbsParams) (nbRb : ℕ) :
    Divisible (baseGraph (nrComputeTbs x nbRb) x.R)
      (nrComputeTbs x nbRb + tbCrcBits (nrComputeTbs x nbRb)) ∧
    nrComputeTbs x nbRb + tbCrcBits (nrComputeTbs x nbRb) +
      24 * numBlocks (baseGraph (nrComputeTbs x nbRb) x.R)
        (nrComputeTbs x nbRb + tbCrcBits (nrComputeTbs x nbRb)) < 2 ^ 32 := by
  obtain ⟨n, hn, heq⟩ := nrComputeTbs_eq_sizeOf x nbRb
  rw [heq]
  refine ⟨divisible_sizeOf x.R n, ?_⟩
  have hcrc : tbCrcBits (sizeOf x.R n) ≤ 24 := by
    rw [tbCrcBits]
    split <;> decide
  have hsize : sizeOf x.R n < 2 ^ 21 := by
    rcases Nat.lt_or_ge 3824 n with hlarge | hsmall
    · have hlt := sizeOf_lt (R := x.R) hlarge
      have hnp := (npOf_bounds hlarge).1
      omega
    · have := (sizeOf_bounds (R := x.R)).1 hsmall
      omega
  have hcount : ∀ bg B, numBlocks bg B ≤ B + 1 := by
    intro bg B
    have := Nat.div_le_self B (kcb bg - 24)
    rw [numBlocks]
    simp only
    split_ifs <;> omega
  have := hcount (baseGraph (sizeOf x.R n) x.R) (sizeOf x.R n + tbCrcBits (sizeOf x.R n))
  omega

/-- **`nr_segmentation` is right for every size that is cut without a rest and has room in 32 bits, and
those of `nr_compute_tbs` are such sizes.** -/
theorem nrSegmentation_right (bg : BaseGraph) (B : ℕ) (input : ℕ → BitVec 8)
    (outputBuffers : ℕ → ℕ → BitVec 8) (h8 : 8 ∣ B)
    (hdvd : 1 < numBlocks bg B → 8 * numBlocks bg B ∣ B + 24 * numBlocks bg B)
    (hB : B + 24 * numBlocks bg B < 2 ^ 32) :
    (∃ seg out, nrSegmentation input outputBuffers B bg = some (seg, out) ∧
      SegmentedRight bg B input seg out) ∧
    ∀ (x : TbsParams) (nbRb : ℕ), Divisible (baseGraph (nrComputeTbs x nbRb) x.R)
      (nrComputeTbs x nbRb + tbCrcBits (nrComputeTbs x nbRb)) ∧
      nrComputeTbs x nbRb + tbCrcBits (nrComputeTbs x nbRb) +
        24 * numBlocks (baseGraph (nrComputeTbs x nbRb) x.R)
          (nrComputeTbs x nbRb + tbCrcBits (nrComputeTbs x nbRb)) < 2 ^ 32 :=
  ⟨Divisible.segmentedRight ⟨h8, hdvd⟩ hB input outputBuffers, divisible_nrComputeTbs⟩

/-- Two blocks of 8424 bits and their CRCs. -/
theorem nrSegmentation_right_two :
    ∃ seg out, nrSegmentation (fun _ => 1) (fun _ _ => 0) 16848 .bg1 = some (seg, out) ∧
      SegmentedRight .bg1 16848 (fun _ => 1) seg out :=
  (nrSegmentation_right .bg1 16848 (fun _ => 1) (fun _ _ => 0) (by decide) (by decide) (by decide)).1

/-- **The sum may be too large for 32 bits**: 509848 blocks of 8424 bits and their CRCs have 23 bits
each instead of 8448. -/
theorem nrSegmentation_wraps : 4294959552 < 2 ^ 32 ∧ 8 ∣ 4294959552 ∧
    (1 < numBlocks .bg1 4294959552 →
      8 * numBlocks .bg1 4294959552 ∣ 4294959552 + 24 * numBlocks .bg1 4294959552) ∧
    ¬ ∃ seg out, nrSegmentation (fun _ => 0) (fun _ _ => 0) 4294959552 .bg1 = some (seg, out) ∧
      SegmentedRight .bg1 4294959552 (fun _ => 0) seg out := by
  refine ⟨by decide, by decide, fun _ => by decide, ?_⟩
  rintro ⟨seg, out, hrun, hright⟩
  obtain ⟨z, hsizes, -⟩ := @segmentationSizes_eq .bg1 4294959552
  rw [nrSegmentation, hsizes] at hrun
  obtain ⟨rfl, -⟩ := Prod.mk.inj (Option.some.inj hrun)
  have hK : kPrime .bg1 4294959552 ≠ (4294959552 + numBlocks .bg1 4294959552 *
      crcBits .bg1 4294959552) / numBlocks .bg1 4294959552 := by decide
  exact hK hright.kPrime

end OaiCu.NrLdpc
