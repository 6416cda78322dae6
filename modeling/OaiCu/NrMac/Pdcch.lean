import Mathlib.Algebra.Ring.Int.Defs
import Mathlib.Algebra.Ring.Nat

/-!
# Maps of resource blocks

The MAC keeps 16 bits for each resource block of a slot, one for each of its 14 symbols: set if the
block is used in the symbol (`vrb_map`), or set if it is free (`rballoc_mask`).
-/

namespace OaiCu.NrMac

/-- SL_to_bitmap: the symbols of an allocation. -/
def slToBitmap (startSymbolIndex nrOfSymbols : ℕ) : BitVec 16 :=
  BitVec.ofNat 16 ((2 ^ nrOfSymbols - 1) <<< startSymbolIndex)

section

variable {start n i : ℕ} {a b : BitVec 16}

theorem slToBitmap_getLsbD (hi : i < 16) :
    (slToBitmap start n).getLsbD i = decide (start ≤ i ∧ i < start + n) := by
  rw [slToBitmap, BitVec.getLsbD_ofNat, Nat.testBit_shiftLeft, Nat.testBit_two_pow_sub_one]
  have h : (decide (i < 16) && (decide (i ≥ start) && decide (i - start < n))) =
      decide (i < 16 ∧ i ≥ start ∧ i - start < n) := by simp only [Bool.decide_and]
  rw [h]
  refine decide_eq_decide.mpr ?_
  omega

/-- An allocation has a symbol. -/
theorem slToBitmap_ne_zero (hn : 0 < n) (hstart : start < 16) : slToBitmap start n ≠ 0#16 := by
  intro h
  have hbit := @slToBitmap_getLsbD start n _ hstart
  rw [h, BitVec.getLsbD_zero] at hbit
  exact absurd hbit.symm (by simp [hn])

/-- Two sets of symbols do not meet. -/
theorem and_eq_zero_iff : a &&& b = 0#16 ↔ ∀ i, a.getLsbD i = true → b.getLsbD i = false := by
  constructor
  · intro h i ha
    have hbit := congrArg (·.getLsbD i) h
    simp only [BitVec.getLsbD_and, ha, Bool.true_and] at hbit
    exact hbit.trans BitVec.getLsbD_zero
  · intro h
    refine BitVec.eq_of_getLsbD_eq fun i _ => ?_
    rw [BitVec.getLsbD_and]
    cases ha : a.getLsbD i with
    | false => exact BitVec.getLsbD_zero.symm
    | true =>
        rw [h i ha]
        exact BitVec.getLsbD_zero.symm

end

/-!
## PDCCH candidates of the gNB MAC

`find_pdcch_candidate` looks for a candidate of the search space whose resource blocks are free in
the symbols of the CORESET, and `fill_pdcch_vrb_map` marks them as used.
-/

/-- NR_sched_pdcch_t. -/
structure SchedPdcch where
  bwpStart : ℕ
  nRb : ℕ
  startSymbolIndex : ℕ
  durationSymbols : ℕ
  regBundleSize : ℕ
  interleaverSize : ℕ
  shiftIndex : ℕ
  deriving DecidableEq, Repr

/-- A CORESET: `duration` symbols of `nRb` blocks, in bundles of REGs that the interleaver divides
evenly. -/
structure Coreset where
  controlResourceSetId : ℕ
  bwpStart : ℕ
  nRb : ℕ
  startSymbolIndex : ℕ
  duration : ℕ
  regBundleSize : ℕ
  interleaverSize : ℕ
  shiftIndex : ℕ
  nRb_pos : 0 < nRb
  six_dvd_nRb : 6 ∣ nRb
  duration_mem : duration = 1 ∨ duration = 2 ∨ duration = 3
  symbols_le : startSymbolIndex + duration ≤ 14
  regBundleSize_mem : regBundleSize = duration ∨ regBundleSize = 6
  interleaverSize_mem :
    interleaverSize = 0 ∨ interleaverSize = 2 ∨ interleaverSize = 3 ∨ interleaverSize = 6
  interleaverSize_dvd :
    interleaverSize ≠ 0 → interleaverSize ∣ nRb * duration / regBundleSize

/-- set_pdcch_structure. The duration is copied. -/
def Coreset.pdcch (c : Coreset) : SchedPdcch where
  bwpStart := c.bwpStart
  nRb := c.nRb
  startSymbolIndex := c.startSymbolIndex
  durationSymbols := c.duration
  regBundleSize := c.regBundleSize
  interleaverSize := c.interleaverSize
  shiftIndex := c.shiftIndex

/-- NR_NB_REG_PER_CCE. -/
def NR_NB_REG_PER_CCE : ℕ := 6

/-- CEILIDIV. -/
def ceilIDiv (a b : ℕ) : ℕ := (a + b - 1) / b

/-- cce_to_reg_interleaving. -/
def cceToRegInterleaving (R k nShift C L nRegs : ℕ) : ℕ :=
  if R = 0 then k
  else
    let c := k / R
    let r := k % R
    (r * C + c + nShift) % (nRegs / L)

namespace SchedPdcch

/-- The blocks of REG bundle `k` of a CORESET of `nSymb` symbols. -/
def bundleRbs (p : SchedPdcch) (nSymb k : ℕ) : List ℕ :=
  let nRegs := p.nRb * nSymb
  let R := p.interleaverSize
  let L := p.regBundleSize
  let C := if R > 0 then nRegs / (L * R) else 0
  let bRb := L / nSymb
  let f := cceToRegInterleaving R k p.shiftIndex C L nRegs
  (List.range bRb).map fun rb => p.bwpStart + f * bRb + rb

/-- The blocks of a CCE. -/
def cceRbs (p : SchedPdcch) (nSymb j : ℕ) : List ℕ :=
  (List.range (6 / p.regBundleSize)).flatMap fun i =>
    p.bundleRbs nSymb (6 * j / p.regBundleSize + i)

/-- The blocks that the loops over the CCEs visit. -/
def candidateRbs (p : SchedPdcch) (nSymb firstCce aggregation : ℕ) : List ℕ :=
  (List.range aggregation).flatMap fun i => p.cceRbs nSymb (firstCce + i)

/-- The test of find_pdcch_candidate for one candidate, with the duration of the CORESET. -/
def taken (p : SchedPdcch) (duration : ℕ) (vrbMap : ℕ → BitVec 16) (firstCce aggregation : ℕ) :
    Bool :=
  (p.candidateRbs duration firstCce aggregation).any fun rb =>
    vrbMap rb &&& slToBitmap p.startSymbolIndex duration != 0#16

/-- fill_pdcch_vrb_map, with the duration of the PDCCH. -/
def fillPdcchVrbMap (p : SchedPdcch) (vrbMap : ℕ → BitVec 16) (firstCce aggregation : ℕ) :
    ℕ → BitVec 16 :=
  (p.candidateRbs p.durationSymbols firstCce aggregation).foldl
    (fun map rb =>
      Function.update map rb (map rb ||| slToBitmap p.startSymbolIndex p.durationSymbols))
    vrbMap

end SchedPdcch

/-- What find_pdcch_candidate is asked for. -/
structure PdcchRequest where
  coreset : Coreset
  aggregation : ℕ
  nrOfCandidates : ℕ
  Y : ℕ
  aggregation_pos : 0 < aggregation

/-- The CCEs of the CORESET. -/
def Coreset.nCces (c : Coreset) : ℕ := c.nRb * c.duration / NR_NB_REG_PER_CCE

namespace PdcchRequest

def nCces (r : PdcchRequest) : ℕ := r.coreset.nCces

/-- The first CCE of candidate `m`. -/
def firstCce (r : PdcchRequest) (m : ℕ) : ℕ :=
  r.aggregation *
    ((r.Y + ceilIDiv (m * r.nCces) (r.aggregation * r.nrOfCandidates) + 0) %
      ceilIDiv r.nCces r.aggregation)

end PdcchRequest

/-- `vrb_map` and `pdcch_cand` of the MAC. -/
structure PdcchMac where
  vrbMap : ℕ → BitVec 16
  pdcchCand : ℕ → ℕ

namespace PdcchMac

/-- find_pdcch_candidate. The candidate that is used is kept in `pdcch_cand`. -/
def findPdcchCandidate (mac : PdcchMac) (r : PdcchRequest) : PdcchMac × Option ℕ :=
  let nextCand := mac.pdcchCand r.coreset.controlResourceSetId
  let found := (List.range' nextCand (r.nrOfCandidates - nextCand)).find? fun m =>
    !r.coreset.pdcch.taken r.coreset.duration mac.vrbMap (r.firstCce m) r.aggregation
  match found with
  | none => (mac, none)
  | some m =>
      ({ mac with
          pdcchCand := Function.update mac.pdcchCand r.coreset.controlResourceSetId m },
        some (r.firstCce m))

/-- A DCI and the CCE at which it starts. -/
structure Dci where
  request : PdcchRequest
  firstCce : ℕ

/-- The start of a slot: no candidate was used yet. -/
def slotStart (vrbMap : ℕ → BitVec 16) : PdcchMac where
  vrbMap := vrbMap
  pdcchCand := fun _ => 0

/-- A search, and the marking of what it found. -/
def allocate (mac : PdcchMac) (r : PdcchRequest) : PdcchMac × List Dci :=
  let found := mac.findPdcchCandidate r
  match found.2 with
  | none => (found.1, [])
  | some firstCce =>
      ({ found.1 with
          vrbMap := r.coreset.pdcch.fillPdcchVrbMap found.1.vrbMap firstCce r.aggregation },
        [{ request := r, firstCce := firstCce }])

/-- The searches of a slot, one after another. -/
def allocateAll (mac : PdcchMac) : List PdcchRequest → PdcchMac × List Dci
  | [] => (mac, [])
  | r :: rs =>
      let first := mac.allocate r
      let rest := allocateAll first.1 rs
      (rest.1, first.2 ++ rest.2)

end PdcchMac

end OaiCu.NrMac
