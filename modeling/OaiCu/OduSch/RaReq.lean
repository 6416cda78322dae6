import OaiCu.OduSch.PrbRuns
import OaiCu.OduSch.TddDirection
import OaiCu.OduSch.TbSize

/-!
# O-DU scheduler: a pending request for random access (`sch_rach.c`)

`schProcessRaReq` looks for the slots of the RAR and of MSG3 (or, in a handover, of the next PUCCH)
and reserves PRBs in them. Whether an allocation of memory succeeds is an input.
-/

namespace OaiCu.OduSch

def RAR_PAYLOAD_SIZE : ℕ := 10
def TX_PAYLOAD_HDR_LEN : ℕ := 32
def ODU_START_CRNTI : ℕ := 100

/-- `GET_UE_ID`, a number of 8 bits. -/
def getUeId (crnti : ℕ) : ℕ := (crnti + 2 ^ 16 - ODU_START_CRNTI + 1) % 2 ^ 8

/-- `puschDeltaTable`. -/
def puschDeltaTable : List ℕ := [2, 3, 4, 6]

/-- `minMsg3SchTime`. -/
def minMsg3SchTime : List ℕ := [6, 6, 6, 6]

/-- `DlPduType`. -/
inductive DlPduType
  | none
  | pdcchPdu
  | pdschPdu
  | both
deriving DecidableEq, Repr

/-- `SchUeState`. -/
inductive SchUeState
  | inactive
  | active
  | handinInProgress
deriving DecidableEq, Repr

/-- `RaRspWindowStatus`. -/
inductive RaRspWindowStatus
  | withinWindow
  | windowExpired
  | windowYetToStart
deriving DecidableEq, Repr

/-- `RachIndInfo`. -/
structure RachIndInfo where
  crnti : ℕ
  preambleIdx : ℕ
  timingAdv : ℕ
deriving DecidableEq, Repr

structure SchRaReq where
  raRnti : ℕ
  rachInd : RachIndInfo
  isCFRA : Bool
  winStartTime : SlotTimingInfo
  winEndTime : SlotTimingInfo
deriving DecidableEq, Repr

/-- `Msg3UlGrant`. -/
structure Msg3UlGrant where
  freqHopFlag : ℕ
  bwpSize : ℕ
  startPrb : ℕ
  numPrb : ℕ
  k2Index : ℕ
  mcs : ℕ
  tpc : ℕ
  csiReq : ℕ
deriving DecidableEq, Repr

/-- The grant in memory that was just allocated. -/
def Msg3UlGrant.zero : Msg3UlGrant := ⟨0, 0, 0, 0, 0, 0, 0, 0⟩

structure RarInfo where
  raRnti : ℕ
  tcrnti : ℕ
  rapid : ℕ
  ta : ℕ
  ulGrant : Msg3UlGrant
deriving DecidableEq, Repr

/-- The resources of a PDSCH. -/
structure PdschAlloc where
  startSymb : ℕ
  numSymb : ℕ
  startPrb : ℕ
  numPrb : ℕ
deriving DecidableEq, Repr

structure RarAlloc where
  pduPres : DlPduType
  pdschSlot : ℕ
  rarInfo : RarInfo
  rarPdschCfg : PdschAlloc
deriving DecidableEq, Repr

structure SchPuschInfo where
  crnti : ℕ
  startPrb : ℕ
  numPrb : ℕ
  startSymb : ℕ
  numSymb : ℕ
  mcs : ℕ
deriving DecidableEq, Repr

/-- `SchRaCb`. -/
structure SchRaCb where
  tcrnti : ℕ
  msg4recvd : Bool
deriving DecidableEq, Repr

/-- The configuration of a cell for the random access. The values of k1 depend on the UE. -/
structure RaCfg where
  tdd : TddCell
  occasions : OccasionCfg
  numSlots : ℕ
  k0K1InfoTbl : ℕ → ℕ → List K0Entry
  msg3K2InfoTbl : ℕ → List K2Entry
  pdschTimeDom : ℕ → ℕ × ℕ
  ulBwpNumPrb : ℕ
  duplex_eq : occasions.duplex = tdd.duplex
  slotFrmt_eq : (occasions.numSlotsInPeriodicity, occasions.slotFrmtBitMap) =
    schInitTddSlotCfg tdd.scs tdd.tddCfg

/-- What `schProcessRaReq` reads and writes of a cell. The slots are indexed by their number, and
the UEs by their id. -/
structure RaCell where
  owners : SlotOwners
  dlPrb : ℕ → SchPrbAlloc
  ulPrb : ℕ → SchPrbAlloc
  rarAlloc : ℕ → ℕ → Option RarAlloc
  schPuschInfo : ℕ → Option SchPuschInfo
  schPucchInfo : ℕ → Option ℕ
  raReq : ℕ → Option SchRaReq
  raCb : ℕ → SchRaCb
  ueState : ℕ → SchUeState
  numActvUe : ℕ
  actvUe : ℕ → Bool

/-- The allocations of memory that succeed. -/
structure RaMemory where
  dciSlotAlloc : Bool
  schPuschInfo : Bool
  rarSlotAlloc : Bool

/-- `isInRaRspWindow`. -/
def SchRaReq.isInRaRspWindow (raReq : SchRaReq) (frameToCheck : SlotTimingInfo) (numSlots : ℕ) :
    RaRspWindowStatus :=
  let winStartTime := raReq.winStartTime.sfn * numSlots + raReq.winStartTime.slot
  let winEndTime := raReq.winEndTime.sfn * numSlots + raReq.winEndTime.slot
  let timeToCheck := frameToCheck.sfn * numSlots + frameToCheck.slot
  if winStartTime ≤ timeToCheck ∧ timeToCheck ≤ winEndTime then .withinWindow
  else if timeToCheck < winStartTime then .windowYetToStart
  else .windowExpired

namespace RaCell

def setRarAlloc (s : RaCell) (slot ueId : ℕ) (alloc : Option RarAlloc) : RaCell :=
  { s with rarAlloc := Function.update s.rarAlloc slot (Function.update (s.rarAlloc slot) ueId alloc) }

/-- `schAllocPucchResource`. -/
def schAllocPucchResource (s : RaCell) (pucchTime : SlotTimingInfo) (crnti : ℕ) : RaCell :=
  { s with schPucchInfo := Function.update s.schPucchInfo pucchTime.slot (some crnti) }

/-- `createSchRaCb`. -/
def createSchRaCb (s : RaCell) (raReq : SchRaReq) (ueId : ℕ) : RaCell :=
  if raReq.isCFRA then
    if s.ueState ueId = .handinInProgress then
      { s with
        numActvUe := s.numActvUe + 1
        actvUe := Function.update s.actvUe ueId true
        ueState := Function.update s.ueState ueId .active }
    else s
  else
    { s with raCb := Function.update s.raCb (getUeId raReq.rachInd.crnti) ⟨raReq.rachInd.crnti, false⟩ }

end RaCell

namespace RaCfg

/-- What `schFillRar` asks for, at an unknown place: the symbols from that of the DMRS on. -/
def rarPrbReq (cell : RaCfg) (e : K0Entry) : Option PrbReq := do
  let tbSize := schCalcTbSize (RAR_PAYLOAD_SIZE + TX_PAYLOAD_HDR_LEN)
  let numPrb ← schCalcNumPrb tbSize DEFAULT_MCS (cell.pdschTimeDom e.k0Index).2
  return {
    startSymbol := 2
    symbolLength := NUM_DMRS_SYMBOLS + (cell.pdschTimeDom e.k0Index).2
    startPrb := cell.tdd.duplex.maxNumRb
    numPrb := numPrb }

/-- `schFillRar`: the PDSCH of the RAR, and the result of `allocatePrbDl`. -/
def schFillRar (cell : RaCfg) (s : RaCell) (rarTime : SlotTimingInfo) (e : K0Entry) :
    Option (PdschAlloc × PrbRsp) := do
  let req ← cell.rarPrbReq e
  let rsp ← allocatePrbDl cell.occasions rarTime req (s.dlPrb rarTime.slot)
  return (⟨(cell.pdschTimeDom e.k0Index).1, (cell.pdschTimeDom e.k0Index).2, rsp.startPrb,
    req.numPrb⟩, rsp)

/-- What `schAllocMsg3Pusch` asks for, at an unknown place. -/
def msg3PrbReq (cell : RaCfg) (e : K2Entry) : Option PrbReq := do
  let numRb ← schCalcNumPrb (schCalcTbSize 8) DEFAULT_MCS e.symbolLength
  return ⟨e.startSymbol, e.symbolLength, cell.tdd.duplex.maxNumRb, numRb + 1⟩

/-- `schAllocMsg3Pusch`. The result of `allocatePrbUl` is not looked at. -/
def schAllocMsg3Pusch (cell : RaCfg) (memory : Bool) (s : RaCell) (crnti : ℕ) (e : K2Entry)
    (msg3SlotTime : SlotTimingInfo) : Option (Option SchPuschInfo × RaCell) := do
  let req ← cell.msg3PrbReq e
  let rsp ← allocatePrbUl cell.occasions msg3SlotTime req (s.ulPrb msg3SlotTime.slot)
  let info : Option SchPuschInfo :=
    if memory then some ⟨crnti, rsp.startPrb, req.numPrb, e.startSymbol, e.symbolLength, DEFAULT_MCS⟩
    else none
  return (info, { s with
    ulPrb := Function.update s.ulPrb msg3SlotTime.slot rsp.prbAlloc
    schPuschInfo := Function.update s.schPuschInfo msg3SlotTime.slot info })

/-- The grant of the RAR, which stays zero without the information on the PUSCH. -/
def ulGrant (cell : RaCfg) (e : K2Entry) : Option SchPuschInfo → Msg3UlGrant
  | none => .zero
  | some info => {
      freqHopFlag := 0
      bwpSize := cell.ulBwpNumPrb
      startPrb := info.startPrb
      numPrb := info.numPrb
      k2Index := e.k2Index
      mcs := info.mcs
      tpc := 3
      csiReq := 0 }

/-- The search for the slots of the RAR and of MSG3. -/
def findMsg3 (cell : RaCfg) (s : RaCell) (currTime : SlotTimingInfo) (ueId : ℕ) :
    Option (Option (ChosenSlots (K0Entry × K2Entry))) := do
  let msg3Delta ← puschDeltaTable[cell.occasions.numerology]?
  let msg3MinSchTime ← minMsg3SchTime[cell.occasions.numerology]?
  cell.tdd.findRarK2 s.owners (cell.k0K1InfoTbl ueId) cell.msg3K2InfoTbl msg3Delta msg3MinSchTime
    currTime

/-- The search for the slots of the RAR and of the PUCCH. -/
def findRarPucch (cell : RaCfg) (s : RaCell) (currTime : SlotTimingInfo) (ueId : ℕ) :
    Option (Option (ChosenSlots K0Entry)) :=
  cell.tdd.findRarK1 s.owners (cell.k0K1InfoTbl ueId) currTime

/-- The slots belong to the UE from now on, and the request is done. -/
def finishRaReq (s : RaCell) (raReq : SchRaReq) (ueId : ℕ) (owners : SlotOwners) : RaCell :=
  let s := { s with owners := owners }.createSchRaCb raReq ueId
  { s with raReq := Function.update s.raReq ueId none }

/-- The RAR is stored for the slot of its DCI and, if that is another one, for the slot of its
PDSCH. -/
def storeRar (memory : Bool) (s : RaCell) (dciSlot rarSlot ueId : ℕ) (rar : RarAlloc) :
    Bool × RaCell :=
  if dciSlot = rarSlot then (true, s.setRarAlloc dciSlot ueId (some { rar with pduPres := .both }))
  else if memory then
    (true, (s.setRarAlloc rarSlot ueId (some { rar with pduPres := .pdschPdu })).setRarAlloc dciSlot
      ueId (some { rar with pduPres := .pdcchPdu, pdschSlot := rarSlot }))
  else (false, s.setRarAlloc dciSlot ueId none)

/-- What the RAR tells the UE. -/
def rarInfo (raReq : SchRaReq) (grant : Msg3UlGrant) : RarInfo where
  raRnti := raReq.raRnti
  tcrnti := raReq.rachInd.crnti
  rapid := raReq.rachInd.preambleIdx
  ta := raReq.rachInd.timingAdv
  ulGrant := grant

/-- The request is scheduled in the slots that were found, with MSG3. -/
def scheduleMsg3 (cell : RaCfg) (memory : RaMemory) (s : RaCell) (raReq : SchRaReq) (ueId : ℕ)
    (c : ChosenSlots (K0Entry × K2Entry)) : Option (Bool × RaCell) :=
  if memory.dciSlotAlloc then do
    let (pdsch, rsp) ← cell.schFillRar s c.dlTime c.entry.1
    let s := { s with dlPrb := Function.update s.dlPrb c.dlTime.slot rsp.prbAlloc }
    if rsp.ok then
      let (info, s) ← cell.schAllocMsg3Pusch memory.schPuschInfo s raReq.rachInd.crnti c.entry.2 c.ulTime
      let rar : RarAlloc := ⟨.none, 0, rarInfo raReq (cell.ulGrant c.entry.2 info), pdsch⟩
      let (stored, s) := storeRar memory.rarSlotAlloc s c.dciTime.slot c.dlTime.slot ueId rar
      return if stored then (true, finishRaReq s raReq ueId { s.owners with
          pdcchUe := Function.update s.owners.pdcchUe c.dciTime.slot ueId
          pdschUe := Function.update s.owners.pdschUe c.dlTime.slot ueId
          puschUe := Function.update s.owners.puschUe c.ulTime.slot ueId })
        else (false, s)
    else return (false, s.setRarAlloc c.dciTime.slot ueId none)
  else some (false, s)

/-- The request is scheduled in the slots that were found, with a PUCCH. -/
def schedulePucch (cell : RaCfg) (memory : RaMemory) (s : RaCell) (raReq : SchRaReq) (ueId : ℕ)
    (c : ChosenSlots K0Entry) : Option (Bool × RaCell) :=
  if memory.dciSlotAlloc then do
    let (pdsch, rsp) ← cell.schFillRar s c.dlTime c.entry
    let s := { s with dlPrb := Function.update s.dlPrb c.dlTime.slot rsp.prbAlloc }
    if rsp.ok then
      let s := s.schAllocPucchResource c.ulTime raReq.rachInd.crnti
      let rar : RarAlloc := ⟨.none, 0, rarInfo raReq .zero, pdsch⟩
      let (stored, s) := storeRar memory.rarSlotAlloc s c.dciTime.slot c.dlTime.slot ueId rar
      return if stored then (true, finishRaReq s raReq ueId { s.owners with
          pdcchUe := Function.update s.owners.pdcchUe c.dciTime.slot ueId
          pdschUe := Function.update s.owners.pdschUe c.dlTime.slot ueId
          pucchUe := Function.update s.owners.pucchUe c.ulTime.slot ueId })
        else (false, s)
    else return (false, s.setRarAlloc c.dciTime.slot ueId none)
  else some (false, s)

/-- `schProcessRaReq`. -/
def schProcessRaReq (cell : RaCfg) (memory : RaMemory) (currTime : SlotTimingInfo) (ueId : ℕ)
    (s : RaCell) : Option (Bool × RaCell) := do
  let raReq ← s.raReq ueId
  let dciTime := cell.tdd.dciTime currTime
  let dlSlot ← cell.tdd.dlSlotOk dciTime.slot
  if dlSlot && s.owners.pdcchUe dciTime.slot = 0 then
    match raReq.isInRaRspWindow dciTime cell.numSlots with
    | .withinWindow =>
      if raReq.isCFRA then
        match ← cell.findRarPucch s currTime ueId with
        | none => return (false, s)
        | some c => cell.schedulePucch memory s raReq ueId c
      else
        match ← cell.findMsg3 s currTime ueId with
        | none => return (false, s)
        | some c => cell.scheduleMsg3 memory s raReq ueId c
    | .windowExpired => return (false, { s with raReq := Function.update s.raReq ueId none })
    | .windowYetToStart => return (false, s)
  else return (false, s)

end RaCfg

end OaiCu.OduSch
