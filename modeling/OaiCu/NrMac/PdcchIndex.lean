import OaiCu.NrMac.Pdcch
import Mathlib.Tactic.Common

/-!
# The index of the next PDCCH candidate

`pdcch_cand` is an `int`, and a caller that undoes an allocation takes one off it. So the search may
start at a negative candidate: its first CCE and its blocks are computed with the division of C, which
rounds towards 0, and may lie before the CORESET.
-/

namespace OaiCu.NrMac

/-- CEILIDIV of an int. -/
def ceilIDivInt (a b : ℤ) : ℤ := (a + b - 1).tdiv b

/-- cce_to_reg_interleaving of an int. -/
def cceToRegInterleavingInt (R : ℕ) (k : ℤ) (nShift C L nRegs : ℕ) : ℤ :=
  if R = 0 then k
  else
    let c := k.tdiv R
    let r := k.tmod R
    (r * C + c + nShift).tmod ((nRegs / L : ℕ) : ℤ)

namespace SchedPdcch

def bundleRbsInt (p : SchedPdcch) (nSymb : ℕ) (k : ℤ) : List ℤ :=
  let nRegs := p.nRb * nSymb
  let R := p.interleaverSize
  let L := p.regBundleSize
  let C := if R > 0 then nRegs / (L * R) else 0
  let bRb := L / nSymb
  let f := cceToRegInterleavingInt R k p.shiftIndex C L nRegs
  (List.range bRb).map fun rb : ℕ => (p.bwpStart : ℤ) + f * bRb + rb

def cceRbsInt (p : SchedPdcch) (nSymb : ℕ) (j : ℤ) : List ℤ :=
  (List.range (6 / p.regBundleSize)).flatMap fun i : ℕ =>
    p.bundleRbsInt nSymb ((6 * j).tdiv p.regBundleSize + i)

def candidateRbsInt (p : SchedPdcch) (nSymb : ℕ) (firstCce : ℤ) (aggregation : ℕ) : List ℤ :=
  (List.range aggregation).flatMap fun i : ℕ => p.cceRbsInt nSymb (firstCce + i)

/-- The test of find_pdcch_candidate. -/
def takenInt (p : SchedPdcch) (duration : ℕ) (vrbMap : ℤ → BitVec 16) (firstCce : ℤ)
    (aggregation : ℕ) : Bool :=
  (p.candidateRbsInt duration firstCce aggregation).any fun rb =>
    vrbMap rb &&& slToBitmap p.startSymbolIndex duration != 0#16

/-- fill_pdcch_vrb_map. -/
def fillPdcchVrbMapInt (p : SchedPdcch) (vrbMap : ℤ → BitVec 16) (firstCce : ℤ)
    (aggregation : ℕ) : ℤ → BitVec 16 :=
  (p.candidateRbsInt p.durationSymbols firstCce aggregation).foldl
    (fun map rb =>
      Function.update map rb (map rb ||| slToBitmap p.startSymbolIndex p.durationSymbols))
    vrbMap

end SchedPdcch

namespace PdcchRequest

/-- The first CCE of candidate `m`. -/
def firstCceInt (r : PdcchRequest) (m : ℤ) : ℤ :=
  r.aggregation *
    ((r.Y + ceilIDivInt (m * r.nCces) (r.aggregation * r.nrOfCandidates) + 0).tmod
      (ceilIDivInt r.nCces r.aggregation))

/-- Is candidate `m` taken? -/
def takenAt (r : PdcchRequest) (vrbMap : ℤ → BitVec 16) (m : ℤ) : Bool :=
  r.coreset.pdcch.takenInt r.coreset.duration vrbMap (r.firstCceInt m) r.aggregation

/-- The candidates from an index on. -/
def candidatesFrom (r : PdcchRequest) (nextCand : ℤ) : List ℤ :=
  (List.range (r.nrOfCandidates - nextCand).toNat).map fun i : ℕ => nextCand + i

/-- The candidate that a search from an index finds. -/
def nextFree (r : PdcchRequest) (vrbMap : ℤ → BitVec 16) (nextCand : ℤ) : Option ℤ :=
  (r.candidatesFrom nextCand).find? fun m => !r.takenAt vrbMap m

/-- Candidate `m` is the first one from an index on that is not taken. -/
structure FirstFree (r : PdcchRequest) (vrbMap : ℤ → BitVec 16) (nextCand m : ℤ) : Prop where
  le : nextCand ≤ m
  lt : m < r.nrOfCandidates
  free : r.takenAt vrbMap m = false
  taken : ∀ k, nextCand ≤ k → k < m → r.takenAt vrbMap k = true

variable {r : PdcchRequest} {vrbMap : ℤ → BitVec 16} {nextCand m : ℤ}

theorem nextFree_eq_some_iff :
    r.nextFree vrbMap nextCand = some m ↔ r.FirstFree vrbMap nextCand m := by
  rw [nextFree, candidatesFrom, List.find?_map, Option.map_eq_some_iff]
  constructor
  · rintro ⟨i, hi, rfl⟩
    rw [List.find?_range_eq_some] at hi
    obtain ⟨hfree, hlt, htaken⟩ := hi
    rw [List.mem_range] at hlt
    refine ⟨by omega, by omega, by simpa using hfree, fun k hk hkm => ?_⟩
    have := htaken (k - nextCand).toNat (by omega)
    rw [Function.comp_apply, show nextCand + ((k - nextCand).toNat : ℤ) = k by omega] at this
    simpa using this
  · intro h
    have hle := h.le
    have hlt := h.lt
    refine ⟨(m - nextCand).toNat, ?_, by omega⟩
    rw [List.find?_range_eq_some]
    refine ⟨?_, by rw [List.mem_range]; omega, fun j hj => ?_⟩
    · rw [Function.comp_apply, show nextCand + ((m - nextCand).toNat : ℤ) = m by omega]
      simpa using h.free
    · simpa using h.taken (nextCand + j) (by omega) (by omega)

theorem nextFree_eq_none_iff :
    r.nextFree vrbMap nextCand = none ↔ ∀ m, ¬ r.FirstFree vrbMap nextCand m := by
  rw [Option.eq_none_iff_forall_ne_some]
  exact forall_congr' fun m => not_congr nextFree_eq_some_iff

end PdcchRequest

/-- `vrb_map`, with the memory around it, and `pdcch_cand` of the MAC. -/
structure PdcchIndex where
  vrbMap : ℤ → BitVec 16
  pdcchCand : ℕ → ℤ

namespace PdcchIndex

/-- find_pdcch_candidate. -/
def findPdcchCandidate (mac : PdcchIndex) (r : PdcchRequest) : PdcchIndex × Option ℤ :=
  match r.nextFree mac.vrbMap (mac.pdcchCand r.coreset.controlResourceSetId) with
  | none => (mac, none)
  | some m =>
      ({ mac with
          pdcchCand := Function.update mac.pdcchCand r.coreset.controlResourceSetId m },
        some (r.firstCceInt m))

/-- `pdcch_cand[cid]--`. -/
def undo (mac : PdcchIndex) (cid : ℕ) : PdcchIndex :=
  { mac with pdcchCand := Function.update mac.pdcchCand cid (mac.pdcchCand cid - 1) }

/-- fill_pdcch_vrb_map for what a search found. -/
def fill (mac : PdcchIndex) (r : PdcchRequest) (cceIndex : ℤ) : PdcchIndex :=
  { mac with vrbMap := r.coreset.pdcch.fillPdcchVrbMapInt mac.vrbMap cceIndex r.aggregation }

/-- A search finds nothing and leaves the index, or finds the first candidate that is free. -/
theorem findPdcchCandidate_cases (mac : PdcchIndex) (r : PdcchRequest) :
    (mac.findPdcchCandidate r = (mac, none) ∧
      ∀ m, ¬ r.FirstFree mac.vrbMap (mac.pdcchCand r.coreset.controlResourceSetId) m) ∨
    ∃ m, mac.findPdcchCandidate r =
        ({ mac with
            pdcchCand := Function.update mac.pdcchCand r.coreset.controlResourceSetId m },
          some (r.firstCceInt m)) ∧
      ∀ m', r.FirstFree mac.vrbMap (mac.pdcchCand r.coreset.controlResourceSetId) m' ↔ m' = m := by
  rw [findPdcchCandidate]
  cases hfind : r.nextFree mac.vrbMap (mac.pdcchCand r.coreset.controlResourceSetId) with
  | none => exact .inl ⟨rfl, PdcchRequest.nextFree_eq_none_iff.mp hfind⟩
  | some m =>
      refine .inr ⟨m, rfl, fun m' => ?_⟩
      rw [← PdcchRequest.nextFree_eq_some_iff, hfind, Option.some.injEq, eq_comm]

/-- Undoing is exact if the search went on by one candidate. -/
theorem undo_update_eq_iff (mac : PdcchIndex) (cid : ℕ) (m : ℤ) :
    { mac with pdcchCand := Function.update mac.pdcchCand cid m }.undo cid = mac ↔
      m = mac.pdcchCand cid + 1 := by
  rw [undo]
  simp only [Function.update_self, Function.update_idem]
  constructor
  · intro h
    have hcid := congrFun (congrArg pdcchCand h) cid
    simp only [Function.update_self] at hcid
    omega
  · rintro rfl
    rw [Int.add_sub_cancel, Function.update_eq_self]

end PdcchIndex

end OaiCu.NrMac
