import OaiCu.OduRlc.Segments
import OaiCu.Lib.Machine

/-!
# O-DU RLC UM uplink (`rlc_umm_ul.c`)

A PDU with a whole SDU is passed up at once. The segments of an SN are gathered in the record of
the SN, and the SDU is passed up when they are complete; the record stays in the table until
`vrUr` has passed it. SNs are compared relative to the lower edge `vrUh - umWinSz` of the
reassembly window. The payload of a segment is of any type: the entity only joins the payloads
of the segments of an SDU.
-/

namespace OaiCu.OduRlc

/-- `RLC_UM_CFG_6BIT_SN_LEN` and `RLC_UM_CFG_12BIT_SN_LEN`. -/
inductive UmSnLen
  | bits6
  | bits12
deriving DecidableEq, Repr

def UmSnLen.umWinSz : UmSnLen → ℕ
  | .bits6 => 32
  | .bits12 => 2048

def UmSnLen.modBitMask (snLen : UmSnLen) : ℕ := (snLen.umWinSz <<< 1) - 1

/-- `RlcUmUl`. The timer is running or not. -/
structure RlcUmUl (snLen : UmSnLen) (α : Type*) where
  recBufLst : RecBufLst (UmRecBuf α) := fun _ => none
  vrUr : ℕ := 0
  vrUh : ℕ := 0
  vrUx : ℕ := 0
  reAsmblTmr : Bool := false
  /-- The payloads of the SDU that is being joined. -/
  assembleSdu : Option (List α) := none

/-- `RlcUmHdr` of a PDU with a segment, as `rlcUmmExtractHdr` fills it: a first segment comes
without an offset. -/
structure RlcUmHdr (snLen : UmSnLen) where
  si : Si
  sn : ℕ
  so : ℕ
  sn_le : sn ≤ snLen.modBitMask
  so_first : si = .first → so = 0

/-- A PDU behind `rlcUmmExtractHdr`: with a whole SDU, or with a segment. -/
inductive UmPdu (snLen : UmSnLen) (α : Type*)
  | complete (pdu : α)
  | segment (umHdr : RlcUmHdr snLen) (pduSz : ℕ) (pdu : α)

variable {snLen : UmSnLen} {α : Type*}

def RlcUmHdr.seg (umHdr : RlcUmHdr snLen) (pduSz : ℕ) (pdu : α) : RcvdSeg α where
  si := umHdr.si
  so := umHdr.so
  pduSz := pduSz
  pdu := pdu

/-- `x - y` on 32 bits. -/
def sub32 (x y : ℕ) : ℕ := (x + 2 ^ 32 - y) % 2 ^ 32

namespace RlcUmUl

/-- `RLC_UM_GET_VALUE`. -/
def getValue (umUl : RlcUmUl snLen α) (val : ℕ) : ℕ :=
  sub32 val (sub32 umUl.vrUh snLen.umWinSz) &&& snLen.modBitMask

/-- `rlcUtlGetUmRecBuf`: the SN of the record that is found. -/
def findRecBuf (umUl : RlcUmUl snLen α) (sn : ℕ) : Option ℕ := (umUl.recBufLst sn).map fun _ => sn

/-- `rlcUmmRelAllSegs` and `rlcUtlDelUmRecBuf`. -/
def delRecBuf (umUl : RlcUmUl snLen α) (recBuf : Option ℕ) : RlcUmUl snLen α :=
  match recBuf with
  | some sn => { umUl with recBufLst := Function.update umUl.recBufLst sn none }
  | none => umUl

/-- Whether there is a record of the SN with all its segments. -/
def allSegRcvd (umUl : RlcUmUl snLen α) (sn : ℕ) : Bool := (umUl.recBufLst sn).any (·.allRcvd)

/-- The loop of `rlcUmmFindRxNextReassembly`, cut off when the fuel is used up. `vrUr` is
incremented without the mask. -/
def findLoop : ℕ → RlcUmUl snLen α → ℕ → ℕ → ℕ → Option ℕ → Option (RlcUmUl snLen α)
  | 0, _, _, _, _, _ => none
  | fuel + 1, umUl, ur, nextSn, nextSnToCompare, prevRecBuf =>
    if ur < nextSnToCompare then
      if ur + 1 = nextSnToCompare then
        if umUl.allSegRcvd nextSn then
          let umUl := umUl.delRecBuf prevRecBuf
          let nextSn' := (nextSn + 1) &&& snLen.modBitMask
          findLoop fuel umUl ur nextSn' (umUl.getValue nextSn') (umUl.findRecBuf nextSn)
        else some ({ umUl with vrUr := nextSn }.delRecBuf prevRecBuf)
      else
        let umUl := { umUl with vrUr := umUl.vrUr + 1 }.delRecBuf prevRecBuf
        findLoop fuel umUl (umUl.getValue umUl.vrUr) nextSn nextSnToCompare
          (umUl.findRecBuf umUl.vrUr)
    else some umUl

def rlcUmmFindRxNextReassembly (nextSn : ℕ) (umUl : RlcUmUl snLen α) : Option (RlcUmUl snLen α) :=
  findLoop (4 * snLen.umWinSz + 2) umUl (umUl.getValue umUl.vrUr) nextSn
    (umUl.getValue nextSn) (umUl.findRecBuf umUl.vrUr)

def rlcUmmCheckSnInReassemblyWindow (sn : ℕ) (umUl : RlcUmUl snLen α) : Bool :=
  umUl.getValue sn < umUl.getValue umUl.vrUh

/-- `rlcUmmReAssembleSdus` over the segments with `rlcUmmProcSeg`: what stays of the SDU being
joined, and the SDUs that are passed up. All segments of a record have its SN. -/
def procSegs : List (StoredSeg α) → ℕ → Option (List α) → Option (List α) × List (List α)
  | [], _, assembleSdu => (assembleSdu, [])
  | seg :: segs, expSo, assembleSdu =>
    if expSo ≠ seg.so then (none, [])
    else
      let expSo := (seg.soEnd + 1) % 2 ^ 16
      match seg.si with
      | .first => procSegs segs expSo (some [seg.seg])
      -- there is nothing to append to if the first segment was not one
      | .mid => procSegs segs expSo (assembleSdu.map (· ++ [seg.seg]))
      | .last =>
        let r := procSegs segs expSo none
        (r.1, (assembleSdu.getD [] ++ [seg.seg]) :: r.2)

/-- `rlcUmmReAssembleSdus`: the record is left without segments. -/
def rlcUmmReAssembleSdus (sn : ℕ) (recBuf : UmRecBuf α) (umUl : RlcUmUl snLen α) :
    RlcUmUl snLen α × List (List α) :=
  let r := procSegs recBuf.segLst 0 umUl.assembleSdu
  ({ umUl with
    recBufLst := Function.update umUl.recBufLst sn (some { recBuf with segLst := [] })
    assembleSdu := r.1 }, r.2)

/-- The records of `packetCount` SNs from `sn` on go. -/
def discardRecBufs : ℕ → ℕ → RlcUmUl snLen α → RlcUmUl snLen α
  | 0, _, umUl => umUl
  | packetCount + 1, sn, umUl =>
    discardRecBufs packetCount ((sn + 1) &&& snLen.modBitMask)
      (umUl.delRecBuf (umUl.findRecBuf sn))

/-- The entity, and the SN from which `rlcUmmFindRxNextReassembly` is called, if it is. -/
abbrev UmScan (snLen : UmSnLen) (α : Type*) := RlcUmUl snLen α × Option ℕ

def scanNext (umUl : RlcUmUl snLen α) : UmScan snLen α :=
  (umUl, some ((umUl.vrUr + 1) &&& snLen.modBitMask))

/-- The lower edge of the window has passed `vrUr`. -/
def discardBelow (umUl : RlcUmUl snLen α) : UmScan snLen α :=
  let sn := umUl.vrUr
  let lowerEdge := sub32 umUl.vrUh snLen.umWinSz &&& snLen.modBitMask
  let packetCount := sub32 lowerEdge sn &&& snLen.modBitMask
  let umUl := discardRecBufs packetCount sn { umUl with vrUr := lowerEdge }
  if umUl.allSegRcvd umUl.vrUr then umUl.scanNext else (umUl, none)

/-- A segment beyond the window moves its upper edge. -/
def moveVrUh (curSn : ℕ) (umUl : RlcUmUl snLen α) : UmScan snLen α :=
  let umUl := { umUl with vrUh := (curSn + 1) &&& snLen.modBitMask }
  if umUl.rlcUmmCheckSnInReassemblyWindow umUl.vrUr then (umUl, none) else umUl.discardBelow

/-- What follows a segment that was stored, up to the scan. `ur` and `seqNum` are from
before. -/
def segStored (curSn ur seqNum : ℕ) (umUl : RlcUmUl snLen α) : UmScan snLen α × List (List α) :=
  match umUl.recBufLst curSn with
  | none => ((umUl, none), [])
  | some recBuf =>
    if recBuf.allRcvd then
      let r := umUl.rlcUmmReAssembleSdus curSn recBuf
      (if seqNum = ur then r.1.scanNext else (r.1, none), r.2)
    else if umUl.rlcUmmCheckSnInReassemblyWindow curSn then ((umUl, none), [])
    else (umUl.moveVrUh curSn, [])

def runScan : UmScan snLen α → Option (RlcUmUl snLen α)
  | (umUl, some nextSn) => umUl.rlcUmmFindRxNextReassembly nextSn
  | (umUl, none) => some umUl

/-- The flag `noMissingSeg` of the record of the SN, if there is one. -/
def noMissingSeg (umUl : RlcUmUl snLen α) (sn : ℕ) : Option Bool :=
  (umUl.recBufLst sn).map (·.noMissingSeg)

/-- The reassembly timer has no reason to run on. -/
def stopsTmr (umUl : RlcUmUl snLen α) : Bool :=
  let tRxNextReassemblyNxt := umUl.getValue ((umUl.vrUr + 1) &&& snLen.modBitMask)
  umUl.getValue umUl.vrUx ≤ umUl.getValue umUl.vrUr ||
    (!umUl.rlcUmmCheckSnInReassemblyWindow umUl.vrUx &&
      umUl.getValue umUl.vrUx ≠ umUl.getValue umUl.vrUh) ||
    (umUl.getValue umUl.vrUh = tRxNextReassemblyNxt && umUl.noMissingSeg umUl.vrUr = some true)

/-- It has a reason to start, with the record that is looked at. -/
def startsTmr (sn : ℕ) (umUl : RlcUmUl snLen α) : Bool :=
  let tRxNextReassemblyNxt := umUl.getValue ((umUl.vrUr + 1) &&& snLen.modBitMask)
  tRxNextReassemblyNxt < umUl.getValue umUl.vrUh ||
    (umUl.getValue umUl.vrUh = tRxNextReassemblyNxt && umUl.noMissingSeg sn = some false)

def startTmr (umUl : RlcUmUl snLen α) : RlcUmUl snLen α :=
  { umUl with
    reAsmblTmr := true
    vrUx := umUl.vrUh }

/-- The reassembly timer after a segment. -/
def updateTmr (curSn : ℕ) (umUl : RlcUmUl snLen α) : RlcUmUl snLen α :=
  let umUl := { umUl with reAsmblTmr := umUl.reAsmblTmr && !umUl.stopsTmr }
  if !umUl.reAsmblTmr && umUl.startsTmr curSn then umUl.startTmr else umUl

/-- The reassembly timer after its expiry. -/
def restartTmr (umUl : RlcUmUl snLen α) : RlcUmUl snLen α :=
  if umUl.startsTmr umUl.vrUr then umUl.startTmr else umUl

end RlcUmUl

/-- What happens to the entity: a PDU comes in, or the reassembly timer expires, which it can
only do if it is running. -/
inductive UmUlOp (snLen : UmSnLen) (α : Type*)
  | pdu (pdu : UmPdu snLen α)
  | reAsmblTmrExp

namespace UmUlOp

open RlcUmUl

/-- `rlcUmmProcessPdus` with one PDU, and `rlcUmmReAsmblTmrExp`, up to the scan: with the SDUs
that are passed up, and the update of the timer that follows. -/
def untilScan (umUl : RlcUmUl snLen α) : UmUlOp snLen α →
    UmScan snLen α × List (List α) × (RlcUmUl snLen α → RlcUmUl snLen α)
  | .pdu (.complete sdu) => ((umUl, none), [[sdu]], id)
  | .pdu (.segment umHdr pduSz mBuf) =>
    let ur := umUl.getValue umUl.vrUr
    let seqNum := umUl.getValue umHdr.sn
    if seqNum < ur then ((umUl, none), [], id)
    else
      match rlcUmmAddRcvdSeg umHdr.sn (umHdr.seg pduSz mBuf) umUl.recBufLst with
      | (false, recBufLst) => (({ umUl with recBufLst := recBufLst }, none), [], id)
      | (true, recBufLst) =>
        let r := { umUl with recBufLst := recBufLst }.segStored umHdr.sn ur seqNum
        (r.1, r.2, updateTmr umHdr.sn)
  | .reAsmblTmrExp =>
    if umUl.reAsmblTmr then
      (({ umUl with reAsmblTmr := false }, some umUl.vrUx), [], restartTmr)
    else ((umUl, none), [], id)

/-- A step, unless the scan does not end. -/
def step (umUl : RlcUmUl snLen α) (op : UmUlOp snLen α) :
    Option (RlcUmUl snLen α × List (List α)) :=
  let r := op.untilScan umUl
  (runScan r.1).map fun umUl => (r.2.2 umUl, r.2.1)

end UmUlOp

end OaiCu.OduRlc
