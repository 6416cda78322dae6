import OaiCu.NrLdpc.CrcByte
import OaiCu.Lib.Quantise
import Mathlib.Tactic.IntervalCases

/-!
# Code block segmentation (`nr_segmentation.c`)

The sizes of the code blocks, and the blocks: the octets of the transport block in order, a CRC behind
each block if there are several, and zeros up to the size.
-/

namespace OaiCu.NrLdpc

open Crc

inductive BaseGraph
  | bg1
  | bg2
  deriving DecidableEq, Repr

/-- What `nr_segmentation` works out about the blocks, and its result Kb: numbers of 32 bits. -/
structure Segmentation where
  C : ℕ
  Kprime : ℕ
  L : ℕ
  Kb : ℕ
  Zout : ℕ
  K : ℕ
  F : ℕ
  deriving DecidableEq, Repr

def kcb : BaseGraph → ℕ
  | .bg1 => 8448
  | .bg2 => 3840

/-- The number of blocks. -/
def numBlocks (bg : BaseGraph) (B : ℕ) : ℕ :=
  if B ≤ kcb bg then 1
  else
    let C := B / (kcb bg - 24)
    if (kcb bg - 24) * C < B then C + 1 else C

/-- The bits of the CRC of a block. -/
def crcBits (bg : BaseGraph) (B : ℕ) : ℕ := if B ≤ kcb bg then 0 else 24

/-- Bprime / C. The sum is the only one in the sizes that may be too large for an `unsigned int`. -/
def kPrime (bg : BaseGraph) (B : ℕ) : ℕ :=
  (B + numBlocks bg B * crcBits bg B) % 2 ^ 32 / numBlocks bg B

def kbOf : BaseGraph → ℕ → ℕ
  | .bg1, _ => 22
  | .bg2, B => if B > 640 then 10 else if B > 560 then 9 else if B > 192 then 8 else 6

/-- (Z>>s)<<s, and one step more if that is too small. -/
def roundZ (s Z : ℕ) : ℕ :=
  let K := (Z >>> s) <<< s
  if K < Z then K + 2 ^ s else K

/-- The lifting size, or an illegal codeword size. -/
def liftingSize (Z : ℕ) : Option ℕ :=
  if Z ≤ 2 then some 2
  else if Z ≤ 16 then some Z
  else if Z ≤ 32 then some (roundZ 1 Z)
  else if Z ≤ 64 then some (roundZ 2 Z)
  else if Z ≤ 128 then some (roundZ 3 Z)
  else if Z ≤ 256 then some (roundZ 4 Z)
  else if Z ≤ 384 then some (roundZ 5 Z)
  else none

/-- The sizes. -/
def segmentationSizes (bg : BaseGraph) (B : ℕ) : Option Segmentation := do
  let Kprime := kPrime bg B
  let Kb := kbOf bg B
  let Z := if Kprime % Kb > 0 then Kprime / Kb + 1 else Kprime / Kb
  let Zout ← liftingSize Z
  let K := match bg with
    | .bg1 => Zout * 22
    | .bg2 => Zout * 10
  return {
    C := numBlocks bg B
    Kprime := Kprime
    L := crcBits bg B
    Kb := Kb
    Zout := Zout
    K := K
    F := K - Kprime }

/-! ## The blocks -/

/-- The loop that copies octets to a block, with the index into the input. -/
def copyLoop (input : ℕ → BitVec 8) (n : ℕ) (s : ℕ) (block : ℕ → BitVec 8) : ℕ × (ℕ → BitVec 8) :=
  (List.range n).foldl (fun (st : ℕ × (ℕ → BitVec 8)) k =>
    (st.1 + 1, Function.update st.2 k (input st.1))) (s, block)

/-- The CRC of the first `bits` bits, behind `n` octets. -/
def addCrc (bits n : ℕ) (block : ℕ → BitVec 8) : ℕ → BitVec 8 :=
  let crc := crc24b block bits >>> 8
  Function.update (Function.update (Function.update block n ((crc >>> 16).setWidth 8))
    (1 + n) ((crc >>> 8).setWidth 8)) (2 + n) (crc.setWidth 8)

/-- The loop that writes the filler bits. -/
def fillerLoop (start stop : ℕ) (block : ℕ → BitVec 8) : ℕ → BitVec 8 :=
  (List.range' start (stop - start)).foldl (fun block k => Function.update block k 0) block

namespace Segmentation

/-- Kprime - L, which wraps around if Bprime did. -/
def payload (seg : Segmentation) : ℕ :=
  if seg.L ≤ seg.Kprime then seg.Kprime - seg.L else 2 ^ 32 + seg.Kprime - seg.L

/-- One pass of the loop over the blocks. -/
def block (seg : Segmentation) (input : ℕ → BitVec 8) (s : ℕ) (buffer : ℕ → BitVec 8) :
    ℕ × (ℕ → BitVec 8) :=
  let n := seg.payload >>> 3
  let (s, buffer) := copyLoop input n s buffer
  let buffer := if seg.C > 1 then addCrc seg.payload n buffer else buffer
  let buffer := if seg.F > 0 then fillerLoop (seg.Kprime >>> 3) (seg.K >>> 3) buffer else buffer
  (s, buffer)

/-- The loop over the blocks. -/
def blocks (seg : Segmentation) (input : ℕ → BitVec 8) (outputBuffers : ℕ → ℕ → BitVec 8) (r : ℕ) :
    ℕ × (ℕ → ℕ → BitVec 8) :=
  (List.range r).foldl (fun (st : ℕ × (ℕ → ℕ → BitVec 8)) r =>
    let (s, buffer) := seg.block input st.1 (st.2 r)
    (s, Function.update st.2 r buffer)) (0, outputBuffers)

end Segmentation

/-- nr_segmentation, for an `unsigned int` B. -/
def nrSegmentation (input : ℕ → BitVec 8) (outputBuffers : ℕ → ℕ → BitVec 8) (B : ℕ)
    (bg : BaseGraph) : Option (Segmentation × (ℕ → ℕ → BitVec 8)) := do
  let seg ← segmentationSizes bg B
  return (seg, (seg.blocks input outputBuffers seg.C).2)

/-! ## The sizes -/

/-- The lifting sizes of TS 38.212, Table 5.3.2-1. -/
def liftingSizes : List ℕ :=
  [2, 4, 8, 16, 32, 64, 128, 256,
    3, 6, 12, 24, 48, 96, 192, 384,
    5, 10, 20, 40, 80, 160, 320,
    7, 14, 28, 56, 112, 224,
    9, 18, 36, 72, 144, 288,
    11, 22, 44, 88, 176, 352,
    13, 26, 52, 104, 208,
    15, 30, 60, 120, 240]

/-- The least multiple of `2 ^ s` that is large enough. -/
theorem roundZ_least (s Z : ℕ) : 2 ^ s ∣ roundZ s Z ∧ Z ≤ roundZ s Z ∧
    ∀ t, 2 ^ s ∣ t → Z ≤ t → roundZ s Z ≤ t := by
  have hdown : (Z >>> s) <<< s = Z / 2 ^ s * 2 ^ s := by
    rw [Nat.shiftRight_eq_div_pow, Nat.shiftLeft_eq]
  have hpos : 0 < 2 ^ s := Nat.two_pow_pos s
  have hup := Nat.lt_div_mul_add hpos (a := Z)
  have hle := Nat.div_mul_le_self Z (2 ^ s)
  unfold roundZ
  simp only [hdown]
  split
  · rename_i hlt
    refine ⟨⟨Z / 2 ^ s + 1, by ring⟩, hup.le, ?_⟩
    rintro _ ⟨k, rfl⟩ hk
    have hquot : Z / 2 ^ s < k := by
      by_contra hge
      have := Nat.mul_le_mul_right (2 ^ s) (Nat.le_of_not_lt hge)
      rw [Nat.mul_comm k] at this
      omega
    calc
      Z / 2 ^ s * 2 ^ s + 2 ^ s = 2 ^ s * (Z / 2 ^ s + 1) := by ring
      _ ≤ 2 ^ s * k := Nat.mul_le_mul_left _ hquot
  · rename_i hge
    exact ⟨⟨Z / 2 ^ s, Nat.mul_comm _ _⟩, Nat.le_of_not_lt hge, fun t _ ht => hle.trans ht⟩

/-- In the range from `2 ^ (s + 3)` to `2 ^ (s + 4)` the sizes of the table are the multiples. -/
theorem roundZ_mem {s Z : ℕ} (hs : s ∈ [1, 2, 3, 4, 5]) (hlow : 2 ^ (s + 3) < Z)
    (hup : Z ≤ min (2 ^ (s + 4)) 384) : roundZ s Z ∈ liftingSizes ∧ Z ≤ roundZ s Z ∧
      ∀ t ∈ liftingSizes, Z ≤ t → roundZ s Z ≤ t := by
  have hmultiples : ∀ s ∈ [1, 2, 3, 4, 5], ∀ k < 17, 8 < k → 2 ^ s * k ≤ 384 →
      2 ^ s * k ∈ liftingSizes := by decide
  have hdvd : ∀ s ∈ [1, 2, 3, 4, 5], ∀ t ∈ liftingSizes, 2 ^ (s + 3) < t → 2 ^ s ∣ t := by decide
  have hends : ∀ s ∈ [1, 2, 3, 4, 5], 2 ^ s ∣ min (2 ^ (s + 4)) 384 := by decide
  obtain ⟨⟨k, hk⟩, hle, hleast⟩ := roundZ_least s Z
  have hround := hleast _ (hends s hs) hup
  refine ⟨?_, hle, fun t ht hZt => hleast t (hdvd s hs t ht (hlow.trans_le hZt)) hZt⟩
  rw [hk] at hle hround ⊢
  have hpos : 0 < 2 ^ s := Nat.two_pow_pos s
  have h8 : 2 ^ s * 8 < 2 ^ s * k := by
    rw [Nat.pow_add] at hlow
    exact hlow.trans_le hle
  have h16 : 2 ^ s * k ≤ 2 ^ s * 16 := by
    rw [Nat.pow_add] at hround
    exact hround.trans (Nat.min_le_left _ _)
  exact hmultiples s hs k (Nat.lt_succ_of_le (Nat.le_of_mul_le_mul_left h16 hpos))
    (Nat.lt_of_mul_lt_mul_left h8) (hround.trans (Nat.min_le_right _ _))

/-- The ranges of the code have the sizes of the table. -/
theorem liftingSize_least : ∀ Z ≤ 384, ∃ z ∈ liftingSizes, liftingSize Z = some z ∧ Z ≤ z ∧
    ∀ t ∈ liftingSizes, Z ≤ t → z ≤ t := by
  have hsmall : ∀ Z ≤ 16, ∃ z ∈ liftingSizes, liftingSize Z = some z ∧ Z ≤ z ∧
      ∀ t ∈ liftingSizes, Z ≤ t → z ≤ t := by decide +kernel
  have hlarge : ∀ s ∈ [1, 2, 3, 4, 5], ∀ Z, 2 ^ (s + 3) < Z → Z ≤ min (2 ^ (s + 4)) 384 →
      liftingSize Z = some (roundZ s Z) → ∃ z ∈ liftingSizes, liftingSize Z = some z ∧ Z ≤ z ∧
        ∀ t ∈ liftingSizes, Z ≤ t → z ≤ t := by
    intro s hs Z hlow hup h
    obtain ⟨hmem, hle, hleast⟩ := roundZ_mem hs hlow hup
    exact ⟨_, hmem, h, hle, hleast⟩
  intro Z hZ
  rcases Nat.lt_or_ge 16 Z with h16 | h16
  · have hsome : liftingSize Z = if Z ≤ 32 then some (roundZ 1 Z)
        else if Z ≤ 64 then some (roundZ 2 Z)
        else if Z ≤ 128 then some (roundZ 3 Z)
        else if Z ≤ 256 then some (roundZ 4 Z) else some (roundZ 5 Z) := by
      rw [liftingSize, if_neg (by omega), if_neg (by omega), if_pos hZ]
    split_ifs at hsome
    · exact hlarge 1 (by decide) Z (by omega) (by omega) hsome
    · exact hlarge 2 (by decide) Z (by omega) (by omega) hsome
    · exact hlarge 3 (by decide) Z (by omega) (by omega) hsome
    · exact hlarge 4 (by decide) Z (by omega) (by omega) hsome
    · exact hlarge 5 (by decide) Z (by omega) (by omega) hsome
  · exact hsmall Z h16

variable {bg : BaseGraph} {B : ℕ}

theorem numBlocks_of_lt (h : kcb bg < B) : numBlocks bg B = B ⌈/⌉ (kcb bg - 24) := by
  have hpos : 0 < kcb bg - 24 := by cases bg <;> decide
  have hdiv := Nat.div_add_mod B (kcb bg - 24)
  have hmod := Nat.mod_lt B hpos
  rw [numBlocks, if_neg (Nat.not_le.mpr h)]
  simp only
  refine Nat.le_antisymm ?_ ?_
  · by_contra hlt
    have hle : B ≤ (kcb bg - 24) * (B ⌈/⌉ (kcb bg - 24)) := (ceilDiv_le_iff_le_mul hpos).mp le_rfl
    split at hlt
    · have hdown : B ⌈/⌉ (kcb bg - 24) ≤ B / (kcb bg - 24) := by omega
      have := Nat.mul_le_mul_left (kcb bg - 24) hdown
      omega
    · have hdown : B ⌈/⌉ (kcb bg - 24) + 1 ≤ B / (kcb bg - 24) := by omega
      have := Nat.mul_le_mul_left (kcb bg - 24) hdown
      rw [Nat.mul_succ] at this
      omega
  · rw [ceilDiv_le_iff_le_mul hpos]
    split
    · rw [Nat.mul_succ]
      omega
    · omega

theorem numBlocks_pos : 0 < numBlocks bg B := by
  rcases Nat.lt_or_ge (kcb bg) B with h | h
  · rw [numBlocks_of_lt h, Nat.pos_iff_ne_zero]
    intro hzero
    have hpos : 0 < kcb bg - 24 := by cases bg <;> decide
    have := (ceilDiv_le_iff_le_mul hpos).mp hzero.le
    omega
  · rw [numBlocks, if_pos h]
    exact Nat.one_pos

/-- A block is not longer than the largest size. -/
theorem kPrime_le : kPrime bg B ≤ kcb bg := by
  rcases Nat.lt_or_ge (kcb bg) B with h | h
  · have hpos : 0 < kcb bg - 24 := by cases bg <;> decide
    have hle : B ≤ (kcb bg - 24) * numBlocks bg B := by
      rw [numBlocks_of_lt h]
      exact (ceilDiv_le_iff_le_mul hpos).mp le_rfl
    rw [kPrime, crcBits, if_neg (Nat.not_le.mpr h)]
    refine Nat.div_le_of_le_mul ((Nat.mod_le _ _).trans ?_)
    calc
      B + numBlocks bg B * 24 ≤ (kcb bg - 24) * numBlocks bg B + numBlocks bg B * 24 :=
        Nat.add_le_add_right hle _
      _ = numBlocks bg B * kcb bg := by
        rw [Nat.mul_comm, ← Nat.mul_add, Nat.sub_add_cancel]
        cases bg <;> decide
  · rw [kPrime, numBlocks, if_pos h, crcBits, if_pos h, Nat.mul_zero, Nat.add_zero, Nat.div_one]
    exact (Nat.mod_le _ _).trans h

/-- The parts of a block of the base graph that are in use, and all of them. -/
def columns : BaseGraph → ℕ
  | .bg1 => 22
  | .bg2 => 10

theorem kbOf_bounds : 0 < kbOf bg B ∧ kbOf bg B ≤ columns bg ∧ kPrime bg B ≤ kbOf bg B * 384 := by
  have hle := @kPrime_le bg B
  cases bg with
  | bg1 =>
      change kPrime .bg1 B ≤ 8448 at hle
      have hkb : kbOf .bg1 B = 22 := rfl
      have hcolumns : columns .bg1 = 22 := rfl
      rw [hkb, hcolumns]
      omega
  | bg2 =>
      change kPrime .bg2 B ≤ 3840 at hle
      have hsmall : B ≤ 640 → kPrime .bg2 B = B := by
        intro hB
        have h : B ≤ kcb .bg2 := Nat.le_trans hB (by decide)
        rw [kPrime, numBlocks, if_pos h, crcBits, if_pos h, Nat.mul_zero, Nat.add_zero, Nat.div_one]
        exact Nat.mod_eq_of_lt (by omega)
      have hkb : kbOf .bg2 B =
          if B > 640 then 10 else if B > 560 then 9 else if B > 192 then 8 else 6 := rfl
      have hcolumns : columns .bg2 = 10 := rfl
      rw [hkb, hcolumns]
      split_ifs <;> omega

/-- The sizes are found: the least lifting size, and room for the block. -/
theorem segmentationSizes_eq : ∃ z, segmentationSizes bg B =
      some ⟨numBlocks bg B, kPrime bg B, crcBits bg B, kbOf bg B, z, columns bg * z,
        columns bg * z - kPrime bg B⟩ ∧
    IsLeast { t | t ∈ liftingSizes ∧ kPrime bg B ≤ kbOf bg B * t } z := by
  obtain ⟨hpos, -, hmax⟩ := @kbOf_bounds bg B
  have hceil : (if kPrime bg B % kbOf bg B > 0 then kPrime bg B / kbOf bg B + 1
      else kPrime bg B / kbOf bg B) = kPrime bg B ⌈/⌉ kbOf bg B := by
    have hdiv := Nat.div_add_mod (kPrime bg B) (kbOf bg B)
    have hmod := Nat.mod_lt (kPrime bg B) hpos
    refine eq_of_forall_ge_iff fun t => ?_
    rw [ceilDiv_le_iff_le_mul hpos]
    split
    · rename_i hrest
      rw [Nat.succ_le_iff, Nat.div_lt_iff_lt_mul hpos, Nat.mul_comm t]
      constructor
      · exact Nat.le_of_lt
      · intro hle
        refine Nat.lt_of_le_of_ne hle fun heq => ?_
        rw [heq, Nat.mul_mod_right] at hrest
        exact Nat.lt_irrefl 0 hrest
    · have hzero : kPrime bg B % kbOf bg B = 0 := by omega
      rw [hzero, Nat.add_zero] at hdiv
      rw [← hdiv]
      rw [Nat.mul_div_cancel_left _ hpos]
      exact (Nat.mul_le_mul_left_iff hpos).symm
  obtain ⟨z, hz, hsize, hle, hleast⟩ := liftingSize_least (kPrime bg B ⌈/⌉ kbOf bg B)
    ((ceilDiv_le_iff_le_mul hpos).mpr hmax)
  refine ⟨z, ?_, ⟨hz, (ceilDiv_le_iff_le_mul hpos).mp hle⟩, ?_⟩
  · rw [segmentationSizes]
    simp only [hceil, hsize]
    cases bg <;> simp [columns, Nat.mul_comm]
  · rintro t ⟨ht, htle⟩
    exact hleast t ht ((ceilDiv_le_iff_le_mul hpos).mpr htle)

/-! ## The contents of the blocks -/

theorem copyLoop_eq (input block : ℕ → BitVec 8) (n s : ℕ) :
    copyLoop input n s block = (s + n, fun k => if k < n then input (s + k) else block k) := by
  induction n with
  | zero => rfl
  | succ n ih =>
      unfold copyLoop at *
      rw [List.range_succ, List.foldl_append, ih, List.foldl_cons, List.foldl_nil, Nat.add_assoc]
      congr 1
      funext k
      simp only
      rcases Nat.lt_trichotomy k n with hlt | rfl | hgt
      · rw [Function.update_of_ne hlt.ne, if_pos hlt, if_pos (Nat.lt_succ_of_lt hlt)]
      · rw [Function.update_self, if_pos (Nat.lt_succ_self k)]
      · rw [Function.update_of_ne hgt.ne', if_neg (Nat.not_lt.mpr hgt.le),
          if_neg (Nat.not_lt.mpr hgt)]

/-- The filler bits leave what is in front of them. -/
theorem fillerLoop_of_lt {start stop k : ℕ} (block : ℕ → BitVec 8) (h : k < start) :
    fillerLoop start stop block k = block k := by
  have hloop : ∀ (l : List ℕ) (block : ℕ → BitVec 8), (∀ j ∈ l, k ≠ j) →
      l.foldl (fun block k => Function.update block k 0) block k = block k := by
    intro l
    induction l with
    | nil => exact fun _ _ => rfl
    | cons j l ih =>
        intro block hl
        rw [List.foldl_cons, ih _ fun i hi => hl i (List.mem_cons_of_mem j hi),
          Function.update_of_ne (hl j List.mem_cons_self)]
  refine hloop _ block fun j hj => ?_
  have hle := (List.mem_range'_1.mp hj).1
  omega

/-- The CRC stands behind the octets that it is the CRC of. -/
theorem hasCrc_addCrc (block : ℕ → BitVec 8) (n : ℕ) : HasCrc .crc24B (addCrc (8 * n) n block) n := by
  have hfront : ∀ i < n, addCrc (8 * n) n block i = block i := by
    intro i hi
    rw [addCrc, Function.update_of_ne (by omega), Function.update_of_ne (by omega),
      Function.update_of_ne (by omega)]
  have hcrc : crc24b block (8 * n) = run poly24b 0#32 (bits (addCrc (8 * n) n block) (8 * n)) := by
    rw [bits_congr hfront]
    exact CrcKind.compute_eq .crc24b block (8 * n)
  intro i hi
  change i < 3 at hi
  change _ = BitVec.setWidth 8 (run poly24b 0#32 _ >>> _)
  rw [← hcrc, addCrc]
  interval_cases i
  · rw [Function.update_of_ne (by omega), Function.update_of_ne (by omega), Nat.add_zero,
      Function.update_self, ← BitVec.shiftRight_add]
  · rw [Function.update_of_ne (by omega), Nat.add_comm n, Function.update_self,
      ← BitVec.shiftRight_add]
  · rw [Nat.add_comm n, Function.update_self]

namespace Segmentation

/-- A block with the octets of the input from `s` on, and with its CRC if there are several blocks. -/
structure Filled (seg : Segmentation) (input : ℕ → BitVec 8) (s n : ℕ) (buffer : ℕ → BitVec 8) :
    Prop where
  payload : ∀ k < n, buffer k = input (s + k)
  crc : 1 < seg.C → HasCrc .crc24B buffer n

variable {seg : Segmentation} {n : ℕ}

theorem payload_eq (hL : seg.L ≤ seg.Kprime) : seg.payload = seg.Kprime - seg.L := if_pos hL

/-- One block, if it is a whole number of octets where a CRC comes behind them. -/
theorem block_eq (hL : seg.L ≤ seg.Kprime) (hn : seg.payload >>> 3 = n)
    (hcrc : 1 < seg.C → seg.Kprime = 8 * (n + 3) ∧ seg.L = 24) (input : ℕ → BitVec 8) (s : ℕ)
    (buffer : ℕ → BitVec 8) :
    (seg.block input s buffer).1 = s + n ∧
      seg.Filled input s n (seg.block input s buffer).2 := by
  have hle : n ≤ seg.Kprime >>> 3 := by
    rw [payload_eq hL, Nat.shiftRight_eq_div_pow] at *
    omega
  have hcopy : ∀ k < n, (copyLoop input n s buffer).2 k = input (s + k) := by
    intro k hk
    rw [copyLoop_eq]
    exact if_pos hk
  rw [block, hn]
  simp only
  refine ⟨by rw [copyLoop_eq], ?_⟩
  generalize (copyLoop input n s buffer).2 = copied at hcopy
  -- what is behind the octets and the CRC does not matter
  have hfill : ∀ b : ℕ → BitVec 8, ∀ k < seg.Kprime >>> 3,
      (if seg.F > 0 then fillerLoop (seg.Kprime >>> 3) (seg.K >>> 3) b else b) k = b k := by
    intro b k hk
    split
    · exact fillerLoop_of_lt b hk
    · rfl
  have hbefore : ∀ k < n, addCrc seg.payload n copied k = copied k := by
    intro k hk
    rw [addCrc, Function.update_of_ne (by omega), Function.update_of_ne (by omega),
      Function.update_of_ne (by omega)]
  refine ⟨fun k hk => ?_, fun hC => ?_⟩
  · rw [hfill _ k (Nat.lt_of_lt_of_le hk hle)]
    split
    · rw [hbefore k hk, hcopy k hk]
    · exact hcopy k hk
  · obtain ⟨hK, h24⟩ := hcrc hC
    have hend : seg.Kprime >>> 3 = n + 3 := by
      rw [Nat.shiftRight_eq_div_pow]
      omega
    have hbits : seg.payload = 8 * n := by
      rw [payload_eq hL]
      omega
    have hhas := hasCrc_addCrc copied n
    rw [if_pos hC, hbits]
    rw [hend] at hfill ⊢
    intro i hi
    change i < 3 at hi
    rw [hfill _ _ (by omega), hhas i hi, bits_congr fun j hj => hfill _ j (by omega)]

/-- The blocks take the octets in order. -/
theorem blocks_eq (hL : seg.L ≤ seg.Kprime) (hn : seg.payload >>> 3 = n)
    (hcrc : 1 < seg.C → seg.Kprime = 8 * (n + 3) ∧ seg.L = 24) (input : ℕ → BitVec 8)
    (outputBuffers : ℕ → ℕ → BitVec 8) (r : ℕ) :
    (seg.blocks input outputBuffers r).1 = n * r ∧
      ∀ r' < r, seg.Filled input (n * r') n ((seg.blocks input outputBuffers r).2 r') := by
  induction r with
  | zero => exact ⟨rfl, fun _ h => absurd h (Nat.not_lt_zero _)⟩
  | succ r ih =>
      obtain ⟨hs, hfilled⟩ := ih
      have hstep := block_eq hL hn hcrc input (seg.blocks input outputBuffers r).1
        ((seg.blocks input outputBuffers r).2 r)
      have hsucc : seg.blocks input outputBuffers (r + 1) =
          ((seg.block input (seg.blocks input outputBuffers r).1
            ((seg.blocks input outputBuffers r).2 r)).1,
          Function.update (seg.blocks input outputBuffers r).2 r
            (seg.block input (seg.blocks input outputBuffers r).1
              ((seg.blocks input outputBuffers r).2 r)).2) := by
        rw [blocks, List.range_succ, List.foldl_append]
        rfl
      rw [hsucc]
      rw [hs] at hstep ⊢
      refine ⟨hstep.1, fun r' hr' => ?_⟩
      simp only
      rcases Nat.eq_or_lt_of_le (Nat.le_of_lt_succ hr') with rfl | hlt
      · rw [Function.update_self]
        exact hstep.2
      · rw [Function.update_of_ne hlt.ne]
        exact hfilled r' hlt

end Segmentation

/-- Parts of the same size in order are the whole. -/
theorem flatMap_parts {α : Type*} (input : ℕ → α) (out : ℕ → ℕ → α) (n C : ℕ)
    (h : ∀ r < C, ∀ k < n, out r k = input (n * r + k)) :
    (List.range C).flatMap (fun r => (List.range n).map (out r)) = (List.range (n * C)).map input := by
  induction C with
  | zero => rfl
  | succ C ih =>
      rw [List.range_succ, List.flatMap_append, ih fun r hr => h r (Nat.lt_succ_of_lt hr),
        Nat.mul_succ, List.range_add, List.map_append, List.map_map]
      congr 1
      rw [List.flatMap_cons, List.flatMap_nil, List.append_nil]
      exact List.map_congr_left fun k hk => h C (Nat.lt_succ_self C) k (List.mem_range.mp hk)

end OaiCu.NrLdpc
