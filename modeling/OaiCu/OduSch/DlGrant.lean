import OaiCu.OduSch.RaReq
import OaiCu.OduSch.Reserved
import OaiCu.OduSch.LcPrbEstimate

/-!
# O-DU scheduler: a DL message for the buffers of the RLC (`sch_slot_ind.c`, `sch_common.c`)

`schFillBoGrantDlSchedInfo` finds the slots of a DL message, moves the buffer occupancies to the
lists of the channels, distributes the PRBs of the slot among them, and then reserves what the bytes
that came out of it need. Sizes are numbers of 32 bits.
-/

namespace OaiCu.OduSch

def MAX_NUM_LC : ℕ := 33
def MAC_HDR_SIZE : ℕ := 3

/-- What the scheduler keeps of a UE for the downlink: `bo` of each `dlLcCtxt`, the lists, and its
bit of `boIndBitMap`. -/
structure DlUe where
  bo : ℕ → ℕ
  dlLcPrbEst : SchLcPrbEstimate
  boInd : Bool

/-- The configuration of the UE: which channels there are and which of them are dedicated, the MCS,
and the time domain allocations by their index. -/
structure DlUeCfg where
  crnti : ℕ
  isConfigured : ℕ → Bool
  isDedicated : ℕ → Bool
  mcsIndex : ℕ
  k0K1InfoTbl : ℕ → List K0Entry
  pdschTimeDom : ℕ → ℕ × ℕ

/-- `LcSchInfo`. -/
structure LcSchInfo where
  lcId : ℕ
  schBytes : ℕ
deriving DecidableEq, Repr

/-- `DlMsgSchInfo`. -/
structure DlMsgSchInfo where
  lcSchInfo : List LcSchInfo
  tbSize : ℕ
  dlMsgPdschCfg : PdschAlloc
  pduPres : DlPduType
  pdschSlot : ℕ
deriving DecidableEq, Repr

/-- `DlMsgAlloc`, with the entries that `numSchedInfo` counts. -/
structure DlMsgAlloc where
  crnti : ℕ
  dlMsgSchedInfo : List DlMsgSchInfo
deriving DecidableEq, Repr

/-- What `schFillBoGrantDlSchedInfo` finds in the cell, and the memory that there is. The messages
are those of the UE. -/
structure DlCell where
  tdd : TddCell
  occasions : OccasionCfg
  owners : SlotOwners
  dlPrb : ℕ → SchPrbAlloc
  dlMsgAlloc : ℕ → Option DlMsgAlloc
  schPucchInfo : ℕ → Option ℕ
  lcMemory : ℕ → Bool
  dciSlotMemory : Bool
  dlMsgMemory : Bool

/-- What a channel gets for the downlink. The header is added for the first one, and taken off
again. -/
def dlTake (tbs : TbCfg) (first : Bool) (reqBO maxPRB : ℕ) : Option LcTake := do
  let (size, estPrb) ← estimateTbSize tbs.mcsIdx tbs.numSymbols
    (if first then (reqBO + TX_PAYLOAD_HDR_LEN) % 2 ^ 32 else reqBO) maxPRB
  let allocBO := if first then (size + 2 ^ 32 - TX_PAYLOAD_HDR_LEN) % 2 ^ 32 else size
  return ⟨(reqBO + 2 ^ 32 - allocBO) % 2 ^ 32, allocBO, estPrb⟩

/-- `updateGrantSizeForBoRpt` for one list: what is reported, and the nodes that stay. -/
def updateGrantSizeForBoRpt (lcLL : List LcInfo) : List LcSchInfo × List LcInfo :=
  (lcLL.map fun n => ⟨n.lcId, n.allocBO⟩, lcLL.filter (·.reqBO ≠ 0))

/-- The report for both lists. -/
def SchLcPrbEstimate.boRpt (est : SchLcPrbEstimate) : List LcSchInfo × SchLcPrbEstimate :=
  let (ded, dedLcList) := updateGrantSizeForBoRpt est.dedLcList
  let (def_, defLcList) := updateGrantSizeForBoRpt est.defLcList
  (ded ++ def_, { est.setDedLcList dedLcList with defLcList := defLcList })

namespace DlUe

/-- The request of a channel with a buffer occupancy. -/
def payloadSize (ue : DlUe) (lcIdx : ℕ) : Option ℕ :=
  if ue.bo lcIdx = 0 then none else some ((ue.bo lcIdx + MAC_HDR_SIZE) % 2 ^ 32)

end DlUe

namespace DlUeCfg

/-- What `schDlRsrcAllocDlMsg` asks for: the symbols from that of the DMRS on. -/
def pdschPrbReq (cfg : DlUeCfg) (e : K0Entry) (tbSize startPrb : ℕ) : Option PrbReq := do
  let numPrb ← schCalcNumPrb tbSize cfg.mcsIndex (cfg.pdschTimeDom e.k0Index).2
  return ⟨2, NUM_DMRS_SYMBOLS + (cfg.pdschTimeDom e.k0Index).2, startPrb, numPrb⟩

/-- `schDlRsrcAllocDlMsg`: the size of the block, its PDSCH, and the result of `allocatePrbDl`. -/
def schDlRsrcAllocDlMsg (cfg : DlUeCfg) (cell : DlCell) (pdschTime : SlotTimingInfo) (e : K0Entry)
    (tbSize startPrb : ℕ) : Option (ℕ × PdschAlloc × PrbRsp) := do
  let tbSize := (tbSize + TX_PAYLOAD_HDR_LEN) % 2 ^ 32
  let req ← cfg.pdschPrbReq e tbSize startPrb
  let rsp ← allocatePrbDl cell.occasions pdschTime req (cell.dlPrb pdschTime.slot)
  return (tbSize, ⟨(cfg.pdschTimeDom e.k0Index).1, (cfg.pdschTimeDom e.k0Index).2, rsp.startPrb,
    req.numPrb⟩, rsp)

end DlUeCfg

namespace DlCell

def setDlMsgAlloc (cell : DlCell) (slot : ℕ) (alloc : Option DlMsgAlloc) : DlCell :=
  { cell with dlMsgAlloc := Function.update cell.dlMsgAlloc slot alloc }

/-- The messages of the UE in a slot, in new memory if there are none. -/
def messages (cell : DlCell) (cfg : DlUeCfg) (slot : ℕ) : DlMsgAlloc :=
  (cell.dlMsgAlloc slot).getD ⟨cfg.crnti, []⟩

/-- The entry that was being filled is dropped, and the memory if it was the only one. -/
def dropMessage (cell : DlCell) (cfg : DlUeCfg) (slot : ℕ) : DlCell :=
  if (cell.messages cfg slot).dlMsgSchedInfo = [] then cell.setDlMsgAlloc slot none else cell

/-- An entry is kept. -/
def keepMessage (cell : DlCell) (cfg : DlUeCfg) (slot : ℕ) (entry : DlMsgSchInfo) : DlCell :=
  let alloc := cell.messages cfg slot
  cell.setDlMsgAlloc slot (some { alloc with dlMsgSchedInfo := alloc.dlMsgSchedInfo ++ [entry] })

/-- The message is stored for the slot of its DCI and, if that is another one, for the slot of its
PDSCH. -/
def storeMessage (cell : DlCell) (cfg : DlUeCfg) (dciSlot pdschSlot : ℕ) (entry : DlMsgSchInfo) :
    Bool × DlCell :=
  if dciSlot = pdschSlot then (true, cell.keepMessage cfg dciSlot { entry with pduPres := .both })
  else if cell.dlMsgAlloc pdschSlot = none ∧ !cell.dlMsgMemory then
    (false, cell.dropMessage cfg dciSlot)
  else
    (true, (cell.keepMessage cfg pdschSlot { entry with pduPres := .pdschPdu }).keepMessage cfg
      dciSlot { entry with pduPres := .pdcchPdu, pdschSlot := pdschSlot })

/-- The slots belong to the UE from now on. -/
def takeSlots (cell : DlCell) (cfg : DlUeCfg) (ueId : ℕ) (c : ChosenSlots K0Entry) : DlCell :=
  { cell with
    schPucchInfo := Function.update cell.schPucchInfo c.ulTime.slot (some cfg.crnti)
    owners := { cell.owners with
      pdcchUe := Function.update cell.owners.pdcchUe c.dciTime.slot ueId
      pdschUe := Function.update cell.owners.pdschUe c.dlTime.slot ueId
      pucchUe := Function.update cell.owners.pucchUe c.ulTime.slot ueId } }

/-- The bytes that were estimated are scheduled in the slots that were found. -/
def scheduleMessage (cfg : DlUeCfg) (ueId : ℕ) (c : ChosenSlots K0Entry) (startPrb : ℕ)
    (lcSchInfo : List LcSchInfo) (cell : DlCell) : Option (Bool × DlCell) :=
  let accumalatedSize := (lcSchInfo.map (·.schBytes)).sum % 2 ^ 32
  if accumalatedSize = 0 then some (false, cell)
  else do
    let (tbSize, pdsch, rsp) ←
      cfg.schDlRsrcAllocDlMsg cell c.dlTime c.entry accumalatedSize startPrb
    let cell := { cell with dlPrb := Function.update cell.dlPrb c.dlTime.slot rsp.prbAlloc }
    if rsp.ok then
      let (stored, cell) := cell.storeMessage cfg c.dciTime.slot c.dlTime.slot
        ⟨lcSchInfo, tbSize, pdsch, .none, 0⟩
      return if stored then (true, cell.takeSlots cfg ueId c) else (false, cell)
    else return (false, cell.dropMessage cfg c.dciTime.slot)

/-- `schFillBoGrantDlSchedInfo`. -/
def schFillBoGrantDlSchedInfo (cfg : DlUeCfg) (currTime : SlotTimingInfo) (ueId : ℕ) (cell : DlCell)
    (ue : DlUe) : Option (Bool × DlCell × DlUe) := do
  match ← cell.tdd.findValidK0K1Value cell.owners cfg.k0K1InfoTbl currTime with
  | none => return (false, cell, ue)
  | some c =>
    if cell.dlMsgAlloc c.dciTime.slot = none ∧ !cell.dciSlotMemory then return (false, cell, ue)
    else
      let cell := cell.setDlMsgAlloc c.dciTime.slot (some (cell.messages cfg c.dciTime.slot))
      let (lcIdx, est) ← ue.dlLcPrbEst.updateLcs cfg.isDedicated cell.lcMemory ue.payloadSize
        MAX_NUM_LC 0
      let ue := { ue with bo := fun lcId => if lcId < lcIdx then 0 else ue.bo lcId, dlLcPrbEst := est }
      if lcIdx < MAX_NUM_LC then return (false, cell.dropMessage cfg c.dciTime.slot, ue)
      else if est.defLcList = [] ∧ est.dedLcList = [] then
        return (true, cell.dropMessage cfg c.dciTime.slot, { ue with boInd := false })
      else
        let reserved ← cell.occasions.reservedDl c.dlTime
        let (maxFreePRB, startPrb) :=
          searchLargestFreeBlock reserved (cell.dlPrb c.dlTime.slot).freePrbBlockList
        let (_, est) ← est.estimatePrb
          (dlTake ⟨cfg.mcsIndex, (cfg.pdschTimeDom c.entry.k0Index).2⟩) maxFreePRB true
        let (lcSchInfo, est) := est.boRpt
        let (scheduled, cell) ← cell.scheduleMessage cfg ueId c startPrb lcSchInfo
        return (scheduled, cell,
          { ue with dlLcPrbEst := est, boInd := if scheduled then false else ue.boInd })

end DlCell

end OaiCu.OduSch
