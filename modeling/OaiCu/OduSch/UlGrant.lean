import OaiCu.OduSch.RaReq
import OaiCu.OduSch.Reserved
import OaiCu.OduSch.LcPrbEstimate

/-!
# O-DU scheduler: a UL grant for a request or a buffer report (`sch_common.c`, `sch_ue_mgr.c`)

`schProcessSrOrBsrReq` finds a slot for the PUSCH, distributes its PRBs among the logical channel
groups that reported data, and then reserves them. A group has the channel with its own number. A
report has at most 81338368 bytes for a group, so that no sum comes to 32 bits.
-/

namespace OaiCu.OduSch

def MAX_NUM_LOGICAL_CHANNEL_GROUPS : ℕ := 8
def UL_GRANT_SIZE : ℕ := 224
def UL_TX_BUFFER_SIZE : ℕ := 5

/-- What the scheduler keeps of a UE for the uplink, with the volumes of `bsrInfo`. -/
structure UlUe where
  srRcvd : Bool
  bsrRcvd : Bool
  dataVol : ℕ → ℕ
  ulLcPrbEst : SchLcPrbEstimate

/-- The configuration of the UE, with the channels that are dedicated. -/
structure UlUeCfg where
  crnti : ℕ
  isDedicated : ℕ → Bool
  mcsIndex : ℕ
  k2InfoTbl : ℕ → List K2Entry

structure DciInfo where
  pusch : Option SchPuschInfo
  slotIndInfo : SlotTimingInfo
deriving DecidableEq, Repr

/-- What `schProcessSrOrBsrReq` finds in the cell, and the memory that there is. -/
structure UlCell where
  tdd : TddCell
  occasions : OccasionCfg
  duplex_eq : occasions.duplex = tdd.duplex
  owners : SlotOwners
  ulPrb : ℕ → SchPrbAlloc
  schPuschInfo : ℕ → Option SchPuschInfo
  ulGrant : ℕ → Option DciInfo
  lcMemory : ℕ → Bool
  dciMemory : Bool
  puschMemory : Bool

/-- What a channel gets for the uplink. -/
def ulTake (tbs : TbCfg) (srRcvd : Bool) (reqBO maxPRB : ℕ) : Option LcTake := do
  let reqBO := if srRcvd then reqBO + UL_GRANT_SIZE else reqBO
  let (allocBO, estPrb) ← estimateTbSize tbs.mcsIdx tbs.numSymbols reqBO maxPRB
  return ⟨reqBO - allocBO, allocBO, estPrb⟩

/-- `updateGrantSizeForBoRpt` for both lists. -/
def SchLcPrbEstimate.totalAllocBO (est : SchLcPrbEstimate) : ℕ :=
  (est.dedLcList.map (·.allocBO)).sum + (est.defLcList.map (·.allocBO)).sum

/-- The request of a group that has a volume. -/
def UlUe.payloadSize (ue : UlUe) (lcgIdx : ℕ) : Option ℕ :=
  if ue.dataVol lcgIdx = 0 then none else some (ue.dataVol lcgIdx)

/-- `schCalculateUlTbs`: its result, `totTBS`, `startPrb` and the UE. -/
def UlUe.schCalculateUlTbs (cfg : UlUeCfg) (cell : UlCell) (puschTime : SlotTimingInfo)
    (symbLen : ℕ) (ue : UlUe) : Option (Bool × ℕ × ℕ × UlUe) := do
  let (lcgIdx, est) ← ue.ulLcPrbEst.updateLcs cfg.isDedicated cell.lcMemory ue.payloadSize
    MAX_NUM_LOGICAL_CHANNEL_GROUPS 0
  let ue := { ue with ulLcPrbEst := est }
  if lcgIdx < MAX_NUM_LOGICAL_CHANNEL_GROUPS then return (false, 0, 0, ue)
  else if est.defLcList = [] ∧ est.dedLcList = [] then
    return if ue.srRcvd then (true, schCalcTbSize UL_GRANT_SIZE, cell.tdd.duplex.maxNumRb, ue)
      else (true, 0, 0, ue)
  else
    let reserved ← cell.occasions.reservedUl puschTime
    let (maxFreePRB, startPrb) :=
      searchLargestFreeBlock reserved (cell.ulPrb puschTime.slot).freePrbBlockList
    let (srRcvd, est) ← est.estimatePrb (ulTake ⟨cfg.mcsIndex, symbLen⟩) maxFreePRB ue.srRcvd
    return (est.totalAllocBO ≠ 0, est.totalAllocBO, startPrb,
      { ue with srRcvd := srRcvd, ulLcPrbEst := est })

/-- One list in `updateBsrAndLcList`: the nodes that stay, and the volumes. After a success a grant
is forgotten, after a failure it is added to the request again. -/
def updateBsrAndLcList (ok : Bool) : List LcInfo → (ℕ → ℕ) → List LcInfo × (ℕ → ℕ)
  | [], dataVol => ([], dataVol)
  | n :: rest, dataVol =>
    let allocBO := if ok then 0 else n.allocBO
    let reqBO := n.reqBO + allocBO
    let (lcLL, dataVol) := updateBsrAndLcList ok rest (Function.update dataVol n.lcId reqBO)
    (if reqBO = 0 then lcLL else ⟨n.lcId, reqBO, allocBO, n.allocPRB⟩ :: lcLL, dataVol)

/-- `updateBsrAndLcList` for both lists. -/
def UlUe.updateBsr (ok : Bool) (ue : UlUe) : UlUe :=
  let (ded, dataVol) := updateBsrAndLcList ok ue.ulLcPrbEst.dedLcList ue.dataVol
  let (lcLL, dataVol) := updateBsrAndLcList ok ue.ulLcPrbEst.defLcList dataVol
  { ue with
    dataVol := dataVol
    ulLcPrbEst := { ue.ulLcPrbEst.setDedLcList ded with defLcList := lcLL } }

namespace UlCell

/-- The PRBs of a PUSCH, and what `allocatePrbUl` makes of the request for them. -/
def puschPrb (cell : UlCell) (cfg : UlUeCfg) (puschTime : SlotTimingInfo) (tbSize startPrb : ℕ)
    (e : K2Entry) : Option (ℕ × PrbRsp) := do
  let numPrb ← schCalcNumPrb (tbSize + UL_TX_BUFFER_SIZE) cfg.mcsIndex e.symbolLength
  let numRb := numPrb % 2 ^ 8
  let rsp ← allocatePrbUl cell.occasions puschTime
    ⟨e.startSymbol, e.symbolLength, startPrb, numRb⟩ (cell.ulPrb puschTime.slot)
  return (numRb, rsp)

/-- `schFillPuschAlloc`. The result of `allocatePrbUl` is not looked at. -/
def schFillPuschAlloc (cfg : UlUeCfg) (cell : UlCell) (puschTime : SlotTimingInfo)
    (tbSize startPrb : ℕ) (e : K2Entry) : Option (UlCell × Option SchPuschInfo) := do
  let (numRb, rsp) ← cell.puschPrb cfg puschTime tbSize startPrb e
  let info : Option SchPuschInfo :=
    if cell.puschMemory then
      some ⟨cfg.crnti, rsp.startPrb, numRb, e.startSymbol, e.symbolLength, cfg.mcsIndex⟩
    else none
  return ({ cell with
    ulPrb := Function.update cell.ulPrb puschTime.slot rsp.prbAlloc
    schPuschInfo := Function.update cell.schPuschInfo puschTime.slot info }, info)

def setUlGrant (cell : UlCell) (slot : ℕ) (dci : DciInfo) : UlCell :=
  { cell with ulGrant := Function.update cell.ulGrant slot (some dci) }

/-- `schProcessSrOrBsrReq`. -/
def schProcessSrOrBsrReq (cfg : UlUeCfg) (currTime : SlotTimingInfo) (ueId : ℕ) (cell : UlCell)
    (ue : UlUe) : Option (Bool × UlCell × UlUe) := do
  match ← cell.tdd.findK2 cell.owners cfg.k2InfoTbl currTime with
  | none => return (false, cell, ue)
  | some c =>
    let (ret, totDataReq, startPrb, ue) ←
      ue.schCalculateUlTbs cfg cell c.ulTime c.entry.symbolLength
    if 0 < totDataReq ∧ ret then
      if !cell.dciMemory then return (false, cell, ue.updateBsr false)
      else
        let cell := cell.setUlGrant c.dciTime.slot ⟨none, ⟨0, 0⟩⟩
        let (cell, info) ← cell.schFillPuschAlloc cfg c.ulTime totDataReq startPrb c.entry
        match info with
        | some info =>
          let cell := cell.setUlGrant c.dciTime.slot ⟨some info, c.dciTime⟩
          return (true, { cell with owners := { cell.owners with
              puschUe := Function.update cell.owners.puschUe c.ulTime.slot ueId } },
            { ue with srRcvd := false, bsrRcvd := false }.updateBsr true)
        | none => return (ret, cell, ue.updateBsr false)
    else return (ret, cell, ue)

end UlCell

end OaiCu.OduSch
