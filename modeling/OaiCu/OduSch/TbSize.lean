import Mathlib.Data.Rat.Floor
import Mathlib.Data.Int.Log

/-!
# Transport block sizes and numbers of PRBs (`sch_utils.c`)
-/

namespace OaiCu.OduSch

def DEFAULT_MCS : ℕ := 4

/-- `tbSizeTable`: the sizes in bits. -/
def tbSizeTable : List ℕ :=
  [24, 32, 40, 48, 56, 64, 72, 80, 88, 96, 104, 112, 120, 128, 136, 144, 152, 160, 168, 176,
    184, 192, 208, 224, 240, 256, 272, 288, 304, 320, 336, 352, 368, 384, 408, 432, 456, 480,
    504, 528, 552, 576, 608, 640, 672, 704, 736, 768, 808, 848, 888, 928, 984, 1032, 1064, 1128,
    1160, 1192, 1224, 1256, 1288, 1320, 1352, 1416, 1480, 1544, 1608, 1672, 1736, 1800, 1864,
    1928, 2024, 2088, 2152, 2216, 2280, 2408, 2472, 2536, 2600, 2664, 2728, 2792, 2856, 2976,
    3104, 3240, 3368, 3496, 3624, 3752, 3824]

/-- `mcsTable`: the modulation order and the code rate for each index. -/
def mcsTable : List (ℕ × ℕ) :=
  [(2, 120), (2, 157), (2, 193), (2, 251), (2, 308), (2, 379), (2, 449), (2, 526), (2, 602),
    (2, 679), (4, 340), (4, 378), (4, 434), (4, 490), (4, 553), (4, 616), (4, 658), (6, 438),
    (6, 466), (6, 517), (6, 567), (6, 616), (6, 666), (6, 719), (6, 772), (6, 822), (6, 873),
    (6, 910), (6, 948), (2, 0), (4, 0), (6, 0)]

/-- `schCalcTbSize`, in bytes. -/
def schCalcTbSize (payLoadSize : ℕ) : ℕ :=
  let maxTbSize := 3824 / 8
  if maxTbSize ≤ payLoadSize then maxTbSize
  else ((tbSizeTable.find? (payLoadSize * 8 ≤ ·)).getD 3824) / 8

/-- A quotient of `float`, rounded up. A `float` has 24 bits, so that a quotient next to an integer is
that integer. -/
def ceilFloat (a b : ℕ) : ℕ :=
  if a % b = 0 ∨ (a / b ≠ 0 ∧ 2 ^ (24 - Nat.log2 (a / b)) * (a % b) ≤ b) then a / b else a / b + 1

/-- The same as a number of 16 bits. It is not defined for the divisor zero and if the result does
not fit. -/
def ceilFloat16 (a b : ℕ) : Option ℕ :=
  if b = 0 ∨ 2 ^ 16 ≤ ceilFloat a b then none else some (ceilFloat a b)

/-- `schCalcNumPrb`. -/
def schCalcNumPrb (tbSize mcs numSymbols : ℕ) : Option ℕ := do
  let (qm, rValue) ← mcsTable[mcs]?
  let nre ← ceilFloat16 (tbSize * 8 % 2 ^ 16 * 1024) (qm * rValue)
  let nreDash := (12 * numSymbols + 2 ^ 16 - 12) % 2 ^ 16
  ceilFloat16 nre (min 156 nreDash)

/-- What a row of the table for index 0 to 28 has. -/
theorem row_bounds {mcs qm r : ℕ} (hmcs : mcs ≤ 28) (hrow : mcsTable[mcs]? = some (qm, r)) :
    240 ≤ qm * r ∧ qm * r < 5700 ∧ r ≠ 256 := by
  have hall : ∀ row ∈ mcsTable.take 29,
      240 ≤ row.1 * row.2 ∧ row.1 * row.2 < 5700 ∧ row.2 ≠ 256 := by decide
  apply hall (qm, r)
  apply List.mem_of_getElem? (i := mcs)
  rw [List.getElem?_take_of_lt (by omega)]
  exact hrow

theorem ceilFloat16_eq_some_iff {a b q : ℕ} :
    ceilFloat16 a b = some q ↔ b ≠ 0 ∧ q < 2 ^ 16 ∧ ceilFloat a b = q := by
  unfold ceilFloat16
  split
  · rename_i hnone
    refine iff_of_false nofun ?_
    rintro ⟨hb, hq, rfl⟩
    exact hnone.elim hb (Nat.not_le.mpr hq)
  · rename_i hsome
    rw [not_or, Nat.not_le] at hsome
    rw [Option.some_inj]
    exact ⟨fun h => ⟨hsome.1, h ▸ hsome.2, h⟩, fun h => h.2.2⟩

theorem ceilFloat_pos {a b : ℕ} (ha : 0 < a) : 0 < ceilFloat a b := by
  unfold ceilFloat
  split
  · rename_i hint
    rcases hint with hmod | ⟨hk, -⟩
    · have hdiv := Nat.div_add_mod a b
      exact Nat.pos_of_ne_zero fun hz => by
        rw [hmod, hz] at hdiv
        omega
    · exact Nat.pos_of_ne_zero hk
  · exact Nat.succ_pos _

/-- A block that is not empty needs a PRB. -/
theorem schCalcNumPrb_pos {tbSize mcs numSymbols numPrb : ℕ} (ht : 0 < tbSize * 8 % 2 ^ 16)
    (h : schCalcNumPrb tbSize mcs numSymbols = some numPrb) : 0 < numPrb := by
  obtain ⟨⟨qm, rValue⟩, -, h⟩ := Option.bind_eq_some_iff.mp h
  obtain ⟨nre, hnre, h⟩ := Option.bind_eq_some_iff.mp h
  obtain ⟨-, -, rfl⟩ := ceilFloat16_eq_some_iff.mp hnre
  obtain ⟨-, -, rfl⟩ := ceilFloat16_eq_some_iff.mp h
  exact ceilFloat_pos (ceilFloat_pos (by omega))

/-!
## The transport block size for a number of PRBs (`sch_utils.c`)

`schCalcTbSizeFromNPrb` and the computation of TS 38.214, section 5.1.3.2, that it follows. The
code rounds `N_info` up to an integer at once, divides integers where the standard divides
rationals, and returns 16 bits.
-/

/-! ## The code -/

/-- `1<<n`, which is not defined from the width of an `int` on. -/
def shiftOne (n : ℕ) : Option ℕ := if n < 32 then some (2 ^ n) else none

/-- `cmLog2`, cut to an integer of 32 bits, and less a number. -/
def cmLog2Sub (x k : ℕ) : ℕ := (Nat.log2 x + 2 ^ 32 - k) % 2 ^ 32

/-- The bits of `c` code blocks: the quotient under `ceil` is one of integers. -/
def codeBlockBits (nInfoDash c : ℕ) : ℕ := 8 * c * ((nInfoDash + 24) / (8 * c)) - 24

/-- The size for `nInfo` up to 3824, from the table. -/
def tbSizeSmall (nInfo : ℕ) : Option ℕ := do
  let unit ← shiftOne (max 3 (cmLog2Sub nInfo 6))
  let nInfoDash := max 24 (unit * (nInfo / unit))
  tbSizeTable.find? (nInfoDash ≤ ·)

/-- The size for `nInfo` from 3825 on. -/
def tbSizeLarge (rValue nInfo : ℕ) : Option ℕ := do
  let unit ← shiftOne (cmLog2Sub (nInfo - 24) 5)
  let nInfoDash := max 3840 (unit * ((nInfo - 24) / unit))
  return if rValue < 256 then codeBlockBits nInfoDash ((nInfoDash + 24) / 3816)
    else if 8424 < nInfoDash then codeBlockBits nInfoDash ((nInfoDash + 24) / 8424)
    else codeBlockBits nInfoDash 1

/-- `schCalcTbSizeFromNPrb`, in bits. -/
def schCalcTbSizeFromNPrb (numPrb mcs numSymbols : ℕ) : Option ℕ := do
  let (qm, rValue) ← mcsTable[mcs]?
  let nreDash := min 156 (12 * numSymbols - 12)
  let nre := nreDash * numPrb
  let nInfo := (nre * qm * rValue % 2 ^ 32 + 1023) / 1024
  let tbSize ← if nInfo ≤ 3824 then tbSizeSmall nInfo else tbSizeLarge rValue nInfo
  return tbSize % 2 ^ 16

/-! ## The standard -/

namespace Ts38214

/-- `N'_RE`. -/
def nReDash (numSymbols : ℕ) : ℕ := min 156 (12 * numSymbols - 12)

/-- `N_info` for a modulation order and a code rate of `r / 1024`. -/
def nInfo (numPrb qm r numSymbols : ℕ) : ℚ :=
  (nReDash numSymbols * numPrb : ℕ) * (r / 1024) * qm

/-- The exponent of the quantisation up to 3824. -/
def smallExp (nInfo : ℚ) : ℕ := (max 3 (Int.log 2 nInfo - 6)).toNat

/-- `N'_info` up to 3824. -/
def smallInfo (nInfo : ℚ) : ℕ := max 24 (2 ^ smallExp nInfo * ⌊nInfo / 2 ^ smallExp nInfo⌋₊)

/-- The exponent of the quantisation above 3824. -/
def largeExp (nInfo : ℚ) : ℕ := (Int.log 2 (nInfo - 24) - 5).toNat

/-- `N'_info` above 3824. A half is rounded up. -/
def largeInfo (nInfo : ℚ) : ℕ :=
  max 3840 (2 ^ largeExp nInfo * ⌊(nInfo - 24) / 2 ^ largeExp nInfo + 1 / 2⌋₊)

/-- The bits of `c` code blocks. -/
def blockBits (nInfoDash c : ℕ) : ℕ :=
  8 * c * ⌈((nInfoDash + 24 : ℕ) : ℚ) / (8 * c : ℕ)⌉₊ - 24

/-- The number of code blocks of up to `bits` bits. -/
def codeBlocks (nInfoDash bits : ℕ) : ℕ := ⌈((nInfoDash + 24 : ℕ) : ℚ) / bits⌉₊

/-- The transport block size. -/
def tbs (r : ℕ) (nInfo : ℚ) : Option ℕ :=
  if nInfo ≤ 3824 then tbSizeTable.find? (smallInfo nInfo ≤ ·)
  else some <|
    if (r : ℚ) / 1024 ≤ 1 / 4 then
      blockBits (largeInfo nInfo) (codeBlocks (largeInfo nInfo) 3816)
    else if 8424 < largeInfo nInfo then
      blockBits (largeInfo nInfo) (codeBlocks (largeInfo nInfo) 8424)
    else blockBits (largeInfo nInfo) 1

end Ts38214

end OaiCu.OduSch
