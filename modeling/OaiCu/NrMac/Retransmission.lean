import OaiCu.Lib.Scan
import OaiCu.NrMac.FindNbRb
import OaiCu.NrMac.PdcchIndex
import OaiCu.NrMac.SemiStatic

/-!
# Allocating resources for a UE

A retransmission gets resource blocks, a CCE and, in the downlink, a PUCCH occasion, one after the
other. `allocate_dl_retransmission` and `allocate_ul_retransmission` give up at the first of these
that is missing, and so does `pf_dl` for new data. `nr_acknack_scheduling`, which uses none of the
resources here, is given.
-/

namespace OaiCu.NrMac

open Scan

/-! ## Resource blocks -/

/-- A block is free in the symbols of an allocation. -/
def freeRb (rballocMask : ℕ → BitVec 16) (startSymbolIndex nrOfSymbols rb : ℕ) : Bool :=
  rballocMask rb &&& slToBitmap startSymbolIndex nrOfSymbols ==
    slToBitmap startSymbolIndex nrOfSymbols

/-- The blocks of an allocation change their state in its symbols. -/
def flipRbs (rballocMask : ℕ → BitVec 16) (startSymbolIndex nrOfSymbols rbStart rbSize : ℕ) :
    ℕ → BitVec 16 := fun rb =>
  if rbStart ≤ rb ∧ rb < rbStart + rbSize then
    rballocMask rb ^^^ slToBitmap startSymbolIndex nrOfSymbols
  else rballocMask rb

/-- The free blocks that follow one another from the first one that is free. -/
def firstRun (free : ℕ → Bool) (bwpSize : ℕ) : ℕ :=
  up (fun k => free (nextFree free bwpSize 0 + k)) (bwpSize - nextFree free bwpSize 0) 0

/-! ## Downlink -/

/-- NR_sched_pdsch_t. -/
structure PdschRecord where
  rbSize : ℕ
  rbStart : ℕ
  mcs : ℕ
  R : ℕ
  Qm : ℕ
  tbSize : ℕ
  dlHarqPid : ℤ
  pucchAllocation : ℕ
  timeDomainAllocation : ℕ
  deriving DecidableEq, Repr

/-- The resources that a downlink allocation uses: those of the slot, the record that is stored with
the HARQ process, and the parameters of the UE. -/
structure DlResources where
  rballocMask : ℕ → BitVec 16
  nRbSched : ℤ
  pdcch : PdcchIndex
  retInfo : PdschRecord
  pdschSemiStatic : PdschSemiStatic

/-- What an allocation puts into `sched_ctrl`. -/
structure DlGrant where
  cceIndex : ℤ
  schedPdsch : PdschRecord
  deriving DecidableEq, Repr

/-- What a downlink allocation for a UE in a slot reads. -/
structure DlAttempt where
  bwpSize : ℕ
  tda : ℕ
  cfg : PdschCfg
  request : PdcchRequest
  acknackScheduling : ℤ → Option ℕ

namespace DlAttempt

variable (x : DlAttempt) (s : DlResources)

/-- The coreset of the request. -/
def cid : ℕ := x.request.coreset.controlResourceSetId

/-- The blocks that are free for some parameters. -/
def free (ps : PdschSemiStatic) : ℕ → Bool :=
  freeRb s.rballocMask ps.startSymbolIndex ps.nrOfSymbols

/-- The parameters of the time domain allocation of the slot. -/
def tempPs : PdschSemiStatic :=
  x.cfg.setPdschSemiStatic x.tda s.pdschSemiStatic.nrOfLayers s.pdschSemiStatic

/-- The blocks for the old transport block in another time domain allocation. -/
def newRbs : FoundNbRb :=
  let search : FindParams :=
    { Qm := s.retInfo.Qm
      R := s.retInfo.R
      nrOfLayers := (x.tempPs s).nrOfLayers
      nbSymbSch := (x.tempPs s).nrOfSymbols
      nbDmrsPrb := (x.tempPs s).nPrbDmrs * (x.tempPs s).nDmrsSlot }
  search.nrFindNbRb s.retInfo.tbSize 1 (firstRun (free s (x.tempPs s)) x.bwpSize)

/-- allocate_dl_retransmission up to the search for a CCE: the first block, or no blocks. -/
def findRbs : Option (ℕ × DlResources) :=
  if x.tda = s.retInfo.timeDomainAllocation then
    match findRun (free s s.pdschSemiStatic) x.bwpSize s.retInfo.rbSize 0 0 with
    | none => none
    | some rbStart =>
        some (rbStart,
          if s.pdschSemiStatic.timeDomainAllocation ≠ x.tda then
            { s with pdschSemiStatic := x.tempPs s }
          else s)
  else
    let new := x.newRbs s
    if !new.ret || new.tbs ≠ s.retInfo.tbSize then none
    else
      some (nextFree (free s (x.tempPs s)) x.bwpSize 0,
        { s with
          retInfo :=
            { s.retInfo with
              tbSize := new.tbs
              rbSize := new.nbRb
              timeDomainAllocation := x.tda }
          pdschSemiStatic := x.tempPs s })

/-- allocate_dl_retransmission. Without a grant it returns false. -/
def allocateDlRetransmission : Option DlGrant × DlResources :=
  match x.findRbs s with
  | none => (none, s)
  | some (rbStart, s) =>
      match s.pdcch.findPdcchCandidate x.request with
      | (pdcch, none) => (none, { s with pdcch := pdcch })
      | (pdcch, some cceIndex) =>
          match x.acknackScheduling cceIndex with
          | none => (none, { s with pdcch := pdcch.undo x.cid })
          | some alloc =>
              (some
                { cceIndex := cceIndex
                  schedPdsch := { s.retInfo with rbStart := rbStart, pucchAllocation := alloc } },
                { s with
                  pdcch := pdcch.fill x.request cceIndex
                  nRbSched := s.nRbSched - s.retInfo.rbSize
                  rballocMask := flipRbs s.rballocMask s.pdschSemiStatic.startSymbolIndex
                    s.pdschSemiStatic.nrOfSymbols rbStart s.retInfo.rbSize })

end DlAttempt

/-! ## New downlink data -/

/-- What `pf_dl` reads for a UE that it takes from the list of those with new data. -/
structure DlNewData extends DlAttempt where
  availableHarq : Bool
  maxNumUe : ℕ
  layers : ℕ
  numTotalBytes : ℕ
  timingAdvance : Bool
  getQmDl : ℕ → ℕ → ℕ
  getCodeRateDl : ℕ → ℕ → ℕ

/-- How `pf_dl` leaves the turn of a UE. -/
inductive PfDlTurn
  | noHarq
  | noCce
  | noPucch
  | full (cceIndex : ℤ)
  | scheduled (grant : DlGrant)
  deriving DecidableEq, Repr

/-- min_rbSize of pf_dl. -/
def minRbSize : ℕ := 5

/-- The turn of a UE in the second loop of pf_dl. A UE is counted twice, so the last one keeps its
CCE and its PUCCH occasion, and is not scheduled. -/
def DlNewData.pfDl (x : DlNewData) (schedPdsch : PdschRecord) (s : DlResources) :
    PfDlTurn × DlResources :=
  if !x.availableHarq then (.noHarq, s)
  else
    match s.pdcch.findPdcchCandidate x.request with
    | (pdcch, none) => (.noCce, { s with pdcch := pdcch })
    | (pdcch, some cceIndex) =>
        match x.acknackScheduling cceIndex with
        | none => (.noPucch, { s with pdcch := pdcch.undo x.cid })
        | some alloc =>
            let s := { s with pdcch := pdcch.fill x.request cceIndex }
            if x.maxNumUe < 2 then (.full cceIndex, s)
            else
              let ps :=
                if s.pdschSemiStatic.nrOfLayers ≠ x.layers ∨
                    s.pdschSemiStatic.timeDomainAllocation ≠ x.tda then
                  x.cfg.setPdschSemiStatic x.tda x.layers s.pdschSemiStatic
                else s.pdschSemiStatic
              let free := DlAttempt.free s ps
              let rbStart := nextFree free x.bwpSize 0
              let maxRbSize := up (fun k => free (rbStart + k)) (x.bwpSize - rbStart) 1
              let Qm := x.getQmDl schedPdsch.mcs ps.mcsTableIdx
              let R := x.getCodeRateDl schedPdsch.mcs ps.mcsTableIdx
              let oh := 3 * 4 + 2 * x.timingAdvance.toNat
              let search : FindParams :=
                { Qm := Qm
                  R := R
                  nrOfLayers := ps.nrOfLayers
                  nbSymbSch := ps.nrOfSymbols
                  nbDmrsPrb := ps.nPrbDmrs * ps.nDmrsSlot }
              let rbs := search.nrFindNbRb (x.numTotalBytes + oh) minRbSize maxRbSize
              (.scheduled
                { cceIndex := cceIndex
                  schedPdsch :=
                    { schedPdsch with
                      Qm := Qm
                      R := R
                      pucchAllocation := alloc
                      rbSize := rbs.nbRb
                      rbStart := rbStart
                      tbSize := rbs.tbs } },
                { s with
                  pdschSemiStatic := ps
                  nRbSched := s.nRbSched - rbs.nbRb
                  rballocMask := flipRbs s.rballocMask ps.startSymbolIndex ps.nrOfSymbols rbStart
                    rbs.nbRb })

/-! ## Uplink -/

/-- NR_sched_pusch_t. -/
structure PuschRecord where
  frame : ℕ
  slot : ℕ
  rbSize : ℕ
  rbStart : ℕ
  mcs : ℕ
  R : ℕ
  Qm : ℕ
  tbSize : ℕ
  ulHarqPid : ℤ
  timeDomainAllocation : ℕ
  deriving DecidableEq, Repr

/-- The resources that an uplink allocation uses. -/
structure UlResources where
  rballocMask : ℕ → BitVec 16
  nRbSched : ℤ
  pdcch : PdcchIndex
  retInfo : PuschRecord
  puschSemiStatic : PuschSemiStatic

/-- What an allocation puts into `sched_ctrl`. -/
structure UlGrant where
  cceIndex : ℤ
  schedPusch : PuschRecord
  deriving DecidableEq, Repr

/-- What an uplink allocation for a UE in a slot reads: `get_ul_tda`, whether there is an active BWP,
and the slot that was chosen for the PUSCH. -/
structure UlAttempt where
  bwpSize : ℕ
  getUlTda : ℕ → ℕ
  activeBwp : Bool
  dciFormat : UlDciFormat
  cfg : PuschCfg
  request : PdcchRequest
  schedFrame : ℕ
  schedSlot : ℕ

namespace UlAttempt

variable (x : UlAttempt) (s : UlResources)

/-- The time domain allocation of the slot of the last transmission. -/
def tda : ℕ := x.getUlTda s.retInfo.slot

/-- nrOfLayers of allocate_ul_retransmission. -/
def nrOfLayers : ℕ := 1

/-- num_dmrs_cdm_grps_no_data of allocate_ul_retransmission. -/
def numDmrsCdmGrpsNoData : ℕ := if x.activeBwp || x.cfg.ubwpdPuschConfig.isSome then 1 else 2

/-- The blocks that are free for some parameters. -/
def free (ps : PuschSemiStatic) : ℕ → Bool :=
  freeRb s.rballocMask ps.startSymbolIndex ps.nrOfSymbols

/-- The parameters of the time domain allocation. -/
def tempPs : PuschSemiStatic :=
  x.cfg.setPuschSemiStatic x.dciFormat (x.tda s) x.numDmrsCdmGrpsNoData nrOfLayers

/-- The parameters of the UE, set anew if they are not those of the retransmission. -/
def switchedPs : PuschSemiStatic :=
  if s.puschSemiStatic.timeDomainAllocation ≠ x.tda s ∨
      s.puschSemiStatic.dciFormat ≠ x.dciFormat ∨
      s.puschSemiStatic.nrOfLayers ≠ nrOfLayers ∨
      s.puschSemiStatic.numDmrsCdmGrpsNoData ≠ x.numDmrsCdmGrpsNoData then x.tempPs s
  else s.puschSemiStatic

/-- The blocks for the old transport block in another time domain allocation. -/
def newRbs : FoundNbRb :=
  let search : FindParams :=
    { Qm := s.retInfo.Qm
      R := s.retInfo.R
      nrOfLayers := 1
      nbSymbSch := (x.tempPs s).nrOfSymbols
      nbDmrsPrb := (x.tempPs s).nPrbDmrs * (x.tempPs s).numDmrsSymb }
  search.nrFindNbRb s.retInfo.tbSize 1 (firstRun (free s (x.tempPs s)) x.bwpSize)

/-- allocate_ul_retransmission up to the search for a CCE. The parameters are set before the blocks
are looked at, and only the first block is. -/
def findRbs : Option ℕ × UlResources :=
  if x.tda s = s.retInfo.timeDomainAllocation then
    let rbStart := nextFree (free s (x.switchedPs s)) x.bwpSize 0
    (if rbStart + s.retInfo.rbSize > x.bwpSize then none else some rbStart,
      { s with puschSemiStatic := x.switchedPs s })
  else
    let new := x.newRbs s
    if !new.ret || new.tbs ≠ s.retInfo.tbSize then (none, s)
    else
      (some (nextFree (free s (x.tempPs s)) x.bwpSize 0),
        { s with
          retInfo :=
            { s.retInfo with
              tbSize := new.tbs
              rbSize := new.nbRb
              timeDomainAllocation := x.tda s }
          puschSemiStatic := x.tempPs s })

/-- allocate_ul_retransmission. Without a grant it returns false. What is taken off for the blocks is
taken off the pointer `n_rb_sched`, and not off the number. -/
def allocateUlRetransmission : Option UlGrant × UlResources :=
  match x.findRbs s with
  | (none, s) => (none, s)
  | (some rbStart, s) =>
      match s.pdcch.findPdcchCandidate x.request with
      | (pdcch, none) => (none, { s with pdcch := pdcch })
      | (pdcch, some cceIndex) =>
          let retInfo := { s.retInfo with frame := x.schedFrame, slot := x.schedSlot }
          (some { cceIndex := cceIndex, schedPusch := { retInfo with rbStart := rbStart } },
            { s with
              pdcch := pdcch.fill x.request cceIndex
              retInfo := retInfo
              rballocMask := flipRbs s.rballocMask s.puschSemiStatic.startSymbolIndex
                s.puschSemiStatic.nrOfSymbols rbStart retInfo.rbSize })

end UlAttempt

end OaiCu.NrMac
