import Mathlib.Algebra.Order.Ring.Int
import Mathlib.Data.List.Basic
import Mathlib.Tactic.Ring
import OaiCu.NrMac.Pdcch

/-!
# PUCCHs for CSI reports

At the start of a frame `nr_csi_meas_reporting` reserves a PUCCH for each CSI report that is due in
the frame. `extract_pucch_csi_report` tests on its own whether a report is due in a slot.
-/

namespace OaiCu.NrMac

/-- nr_slots_per_frame. -/
def nrSlotsPerFrame : Fin 5 → ℕ := [10, 20, 40, 80, 160].get

/-- MAX_BWP_SIZE. -/
def MAX_BWP_SIZE : ℕ := 275

/-- NR_CSI_ReportPeriodicityAndOffset. -/
inductive CsiReportPeriodicityAndOffset
  | slots4 (offset : Fin 4)
  | slots5 (offset : Fin 5)
  | slots8 (offset : Fin 8)
  | slots10 (offset : Fin 10)
  | slots16 (offset : Fin 16)
  | slots20 (offset : Fin 20)
  | slots40 (offset : Fin 40)
  | slots80 (offset : Fin 80)
  | slots160 (offset : Fin 160)
  | slots320 (offset : Fin 320)
  deriving DecidableEq, Repr

/-- csi_period_offset. -/
def csiPeriodOffset : CsiReportPeriodicityAndOffset → ℕ × ℕ
  | .slots4 offset => (4, offset)
  | .slots5 offset => (5, offset)
  | .slots8 offset => (8, offset)
  | .slots10 offset => (10, offset)
  | .slots16 offset => (16, offset)
  | .slots20 offset => (20, offset)
  | .slots40 offset => (40, offset)
  | .slots80 offset => (80, offset)
  | .slots160 offset => (160, offset)
  | .slots320 offset => (320, offset)

/-- The formats of a PUCCH, with the numbers that a CSI report needs. -/
inductive PucchFormat
  | format0
  | format1
  | format2 (nrofPRBs startingSymbolIndex nrofSymbols : ℕ)
  | format3 (nrofPRBs startingSymbolIndex nrofSymbols : ℕ)
  | format4 (startingSymbolIndex nrofSymbols : ℕ)
  deriving DecidableEq, Repr

/-- NR_PUCCH_Resource. -/
structure PucchResource where
  pucchResourceId : ℕ
  startingPRB : ℕ
  format : PucchFormat
  deriving DecidableEq, Repr

/-- NR_PUCCH_Config. The second resource set is the one for formats above 1. -/
structure PucchConfig where
  resourceList : List ℕ
  resourceToAddModList : List PucchResource
  simultaneousHarqAckCsi2 : Bool
  simultaneousHarqAckCsi3 : Bool
  simultaneousHarqAckCsi4 : Bool

/-- NR_CSI_ReportConfig, with what nr_get_csi_bitlen gives for it. -/
structure CsiReportConfig where
  reportSlotConfig : CsiReportPeriodicityAndOffset
  pucchResource : ℕ
  csiBitlen : ℕ

/-- NR_sched_pucch_t. -/
structure SchedPucch where
  frame : ℕ
  ulSlot : ℕ
  srFlag : Bool
  csiBits : ℕ
  simultaneousHarqcsi : Bool
  daiC : ℕ
  timingIndicator : ℕ
  resourceIndicator : ℕ
  rPucch : ℤ
  prbStart : ℕ
  secondHopPrb : ℕ
  nrOfSymb : ℕ
  startSymb : ℕ
  deriving DecidableEq, Repr

/-- memset(curr_pucch, 0, sizeof(*curr_pucch)). -/
def SchedPucch.zero : SchedPucch := ⟨0, 0, false, 0, false, 0, 0, 0, 0, 0, 0, 0, 0⟩

/-- sched_pucch[1] of a UE, and vrb_map_UL for all slots of a frame. -/
structure CsiState where
  pucch : SchedPucch
  vrbMapUl : ℕ → BitVec 16

/-- What ends the process. -/
inductive CsiFault
  | divisionByZero
  | assertFatal
  deriving DecidableEq, Repr

/-- The blocks, the symbols and the flag of the formats that carry CSI. -/
def PucchConfig.csiFormat (cfg : PucchConfig) : PucchFormat → Option (ℕ × BitVec 16 × Bool)
  | .format2 len start symbols => some (len, slToBitmap start symbols, cfg.simultaneousHarqAckCsi2)
  | .format3 len start symbols => some (len, slToBitmap start symbols, cfg.simultaneousHarqAckCsi3)
  | .format4 start symbols => some (1, slToBitmap start symbols, cfg.simultaneousHarqAckCsi4)
  | _ => none

/-- A block of the resource: the request is wiped if the block is not free. -/
def CsiState.reservePrb (mask : BitVec 16) (st : CsiState) (prb : ℕ) : CsiState :=
  if st.vrbMapUl prb &&& mask ≠ 0#16 then { st with pucch := .zero }
  else { st with vrbMapUl := Function.update st.vrbMapUl prb (st.vrbMapUl prb ||| mask) }

/-- The places in vrb_map_UL of the blocks of a resource. -/
def resourcePrbs (bwpStart slot start len : ℕ) : List ℕ :=
  (List.range' start len).map fun i => slot * MAX_BWP_SIZE + (i + bwpStart)

/-- The pass for a resource with the id of the report's. -/
def CsiState.reserveResource (cfg : PucchConfig) (bwpStart slot : ℕ) (st : CsiState)
    (pucchres : PucchResource) : Except CsiFault CsiState :=
  match cfg.csiFormat pucchres.format with
  | none => .error .assertFatal
  | some (len, mask, simultaneous) =>
      .ok ((resourcePrbs bwpStart slot pucchres.startingPRB len).foldl (reservePrb mask)
        { st with pucch := { st.pucch with simultaneousHarqcsi := simultaneous } })

/-- The pass of nr_csi_meas_reporting for a report. -/
def csiReport (nSlotsFrame frame bwpStart : ℕ) (cfg : PucchConfig) (st : CsiState)
    (csirep : CsiReportConfig) : Except CsiFault CsiState :=
  let (period, offset) := csiPeriodOffset csirep.reportSlotConfig
  let schedSlot := (period + offset) % nSlotsFrame
  if period / nSlotsFrame = 0 then .error .divisionByZero
  else if frame % (period / nSlotsFrame) ≠ offset / nSlotsFrame then .ok st
  else
    match cfg.resourceList.findIdx? (· == csirep.pucchResource) with
    | none => .error .assertFatal
    | some resIndex =>
        if st.pucch.csiBits ≠ 0 ∨ st.pucch.srFlag = true ∨ st.pucch.daiC ≠ 0 then
          .error .assertFatal
        else
          (cfg.resourceToAddModList.filter
              fun pucchres => pucchres.pucchResourceId == csirep.pucchResource).foldlM
            (CsiState.reserveResource cfg bwpStart schedSlot)
            { st with
              pucch :=
                { st.pucch with
                  rPucch := -1
                  frame := frame
                  ulSlot := schedSlot
                  resourceIndicator := resIndex
                  csiBits := st.pucch.csiBits + csirep.csiBitlen } }

/-- A UE: whether it is passed over, its PUCCH configuration and its reports. -/
structure CsiUe where
  skipped : Bool
  bwpStart : ℕ
  pucchConfig : PucchConfig
  reports : List CsiReportConfig

/-- The pass of nr_csi_meas_reporting for a UE. -/
def CsiUe.measReporting (ue : CsiUe) (nSlotsFrame frame : ℕ) (st : CsiState) :
    Except CsiFault CsiState :=
  if ue.skipped then .ok st
  else if ue.reports.isEmpty then .error .assertFatal
  else ue.reports.foldlM (csiReport nSlotsFrame frame ue.bwpStart ue.pucchConfig) st

/-- nr_csi_meas_reporting for a list of UEs, each with its sched_pucch[1]. -/
def nrCsiMeasReporting (nSlotsFrame frame : ℕ) :
    List (CsiUe × SchedPucch) → (ℕ → BitVec 16) → Except CsiFault (List SchedPucch × (ℕ → BitVec 16))
  | [], vrbMapUl => .ok ([], vrbMapUl)
  | (ue, pucch) :: ues, vrbMapUl => do
      let st ← ue.measReporting nSlotsFrame frame ⟨pucch, vrbMapUl⟩
      let rest ← nrCsiMeasReporting nSlotsFrame frame ues st.vrbMapUl
      return (st.pucch :: rest.1, rest.2)

/-- The test of extract_pucch_csi_report. -/
def csiDue (nSlotsFrame frame slot : ℕ) (slotConfig : CsiReportPeriodicityAndOffset) : Bool :=
  let (period, offset) := csiPeriodOffset slotConfig
  Int.tmod (nSlotsFrame * frame + slot - offset) period == 0

/-! ## The blocks of a resource -/

section

variable {mask : BitVec 16} {prbs : List ℕ} {st : CsiState}

theorem reservePrb_map (p prb : ℕ) : (st.reservePrb mask p).vrbMapUl prb =
    if prb = p ∧ st.vrbMapUl prb &&& mask = 0#16 then st.vrbMapUl prb ||| mask
    else st.vrbMapUl prb := by
  unfold CsiState.reservePrb
  split_ifs with hocc hboth hboth
  · exact absurd (hboth.1 ▸ hboth.2) hocc
  · rfl
  · obtain ⟨rfl, -⟩ := hboth
    exact Function.update_self ..
  · refine Function.update_of_ne (fun h => hboth ⟨h, ?_⟩) _ _
    rw [h]
    exact not_not.mp hocc

theorem reservePrb_pucch (p : ℕ) : (st.reservePrb mask p).pucch =
    if st.vrbMapUl p &&& mask ≠ 0#16 then .zero else st.pucch := by
  unfold CsiState.reservePrb
  split_ifs <;> rfl

/-- The loop over the blocks marks those that are free. -/
theorem foldl_reservePrb_map (mask : BitVec 16) :
    ∀ {prbs : List ℕ} (_ : prbs.Nodup) (st : CsiState) (prb : ℕ),
    (prbs.foldl (CsiState.reservePrb mask) st).vrbMapUl prb =
      if prb ∈ prbs ∧ st.vrbMapUl prb &&& mask = 0#16 then st.vrbMapUl prb ||| mask
      else st.vrbMapUl prb
  | [], _, st, prb => by simp
  | p :: prbs, hnodup, st, prb => by
      obtain ⟨hnew, hnodup⟩ := List.nodup_cons.mp hnodup
      rw [List.foldl_cons, foldl_reservePrb_map mask hnodup, reservePrb_map]
      rcases eq_or_ne prb p with rfl | hne
      · rw [if_neg fun h => hnew h.1]
        simp
      · simp [hne]

/-- It wipes the request if one of them is not free. -/
theorem foldl_reservePrb_pucch : ∀ {prbs : List ℕ} (_ : prbs.Nodup) (st : CsiState),
    (prbs.foldl (CsiState.reservePrb mask) st).pucch =
      if ∃ prb ∈ prbs, st.vrbMapUl prb &&& mask ≠ 0#16 then .zero else st.pucch
  | [], _, st => by simp
  | p :: prbs, hnodup, st => by
      obtain ⟨hnew, hnodup⟩ := List.nodup_cons.mp hnodup
      have hother : (∃ prb ∈ prbs, (st.reservePrb mask p).vrbMapUl prb &&& mask ≠ 0#16) ↔
          ∃ prb ∈ prbs, st.vrbMapUl prb &&& mask ≠ 0#16 := by
        refine exists_congr fun prb => and_congr_right fun hprb => ?_
        have hne : prb ≠ p := fun h => hnew (h ▸ hprb)
        rw [reservePrb_map, if_neg fun h => hne h.1]
      rw [List.foldl_cons, foldl_reservePrb_pucch hnodup, reservePrb_pucch]
      simp only [hother, List.exists_mem_cons_iff]
      by_cases htail : ∃ prb ∈ prbs, st.vrbMapUl prb &&& mask ≠ 0#16
      · rw [if_pos htail, if_pos (.inr htail)]
      · simp only [htail, or_false, if_false]

/-- The map is unchanged if and only if no block is free. -/
theorem foldl_reservePrb_unchanged (hnodup : prbs.Nodup) (hmask : mask ≠ 0#16) :
    (prbs.foldl (CsiState.reservePrb mask) st).vrbMapUl = st.vrbMapUl ↔
      ∀ prb ∈ prbs, st.vrbMapUl prb &&& mask ≠ 0#16 := by
  constructor
  · intro h prb hprb hfree
    have hcell := foldl_reservePrb_map mask hnodup st prb
    rw [h, if_pos ⟨hprb, hfree⟩] at hcell
    -- the block has all symbols of the mask now, so it was not free
    refine hmask (BitVec.eq_of_getLsbD_eq fun i hi => ?_)
    have hor := congrArg (·.getLsbD i) hcell
    have hand := congrArg (·.getLsbD i) hfree
    simp only [BitVec.getLsbD_or, BitVec.getLsbD_and, BitVec.getLsbD_zero] at hor hand ⊢
    cases hm : mask.getLsbD i with
    | false => rfl
    | true =>
        rw [hm, Bool.or_true] at hor
        rw [hm, Bool.and_true, hor] at hand
        exact hand
  · intro h
    funext prb
    rw [foldl_reservePrb_map mask hnodup st prb, if_neg fun ⟨hprb, hfree⟩ => h prb hprb hfree]

end

end OaiCu.NrMac
