import OaiCu.OduRlc.AmDl
import OaiCu.OduRlc.Segments

/-!
# O-DU RLC AM uplink: the reception of AMD PDUs (`rlc_amm_ul.c`)

`rlcAmmProcessPdus` places a PDU in the record of its SN, passes a complete SDU up at once, and
moves `rxNextHighestRcvd`, `rxHighestStatus` and `rxNext`. The record of a complete SDU stays in
the table until `rxNext` passes it. The reassembly timer watches the SNs below
`rxNextStatusTrig`; after its expiry a STATUS reports what is missing below `rxHighestStatus`.

The STATUS itself is built in `OaiCu.OduRlc.AmUl`; here it is only seen that one is sent. The
payload of a PDU is of any type: the entity only joins the payloads of the segments of an SDU.
-/

namespace OaiCu.OduRlc

/-- `RlcAmUl`. A timer is running or not. -/
structure AmUl (snLen : SnLen) (α : Type*) where
  recBufLst : RecBufLst (AmRecBuf α) := fun _ => none
  rxNext : ℕ := 0
  rxNextHighestRcvd : ℕ := 0
  rxNextStatusTrig : ℕ := 0
  vrMr : ℕ := snLen.winSz
  rxHighestStatus : ℕ := 0
  staTrg : Bool := false
  gatherStaPduInfo : Bool := false
  reAsmblTmr : Bool := false
  staProhTmr : Bool := false
  expSn : ℕ := 0
  expSo : ℕ := 0
  /-- The payloads of the SDU that is being joined. -/
  partialSdu : Option (List α) := none
  isOutOfSeq : Bool := false

/-- `RlcAmHdr` of a data PDU, as `rlcAmmExtractHdr` fills it: there is an offset only with a
middle or last segment. `si` is `none` for a complete PDU. -/
structure AmUlHdr (snLen : SnLen) where
  p : Bool
  si : Option Si
  sn : ℕ
  so : ℕ
  sn_le : sn ≤ snLen.snModMask
  so_first : si = none ∨ si = some .first → so = 0

/-- What the environment sees: an SDU that is passed up, and a STATUS that is sent. -/
inductive AmUlOut (α : Type*)
  | sdu (sdu : List α)
  | staPdu

variable {snLen : SnLen} {α : Type*}

namespace AmUl

/-- The distance of an SN from `rxNext`. -/
def pos (amUl : AmUl snLen α) (sn : ℕ) : ℕ := modamr sn amUl.rxNext snLen.snModMask

/-- `RLC_AM_CHK_SN_WITHIN_RECV_WINDOW`. -/
def inRecvWindow (amUl : AmUl snLen α) (sn : ℕ) : Bool := amUl.pos sn < amUl.pos amUl.vrMr

/-- Whether there is a record of the SN with everything received. -/
def allRcvd (amUl : AmUl snLen α) (sn : ℕ) : Bool := (amUl.recBufLst sn).any (·.allRcvd)

/-- A complete PDU goes into the record of its SN, unless that is complete. Segments that are
there already are released. -/
def placeComplete (sn : ℕ) (pdu : α) (recBufLst : RecBufLst (AmRecBuf α)) :
    Bool × RecBufLst (AmRecBuf α) :=
  let recBuf := (recBufLst sn).getD { sn := sn }
  if recBuf.allRcvd then (false, recBufLst)
  else (true, Function.update recBufLst sn (some { recBuf with
    segLst := []
    si := none
    pdu := some pdu
    allRcvd := true
    isDelvUpperLayer := false }))

/-- `rlcAmmUlPlacePduInRecBuf`. -/
def rlcAmmUlPlacePduInRecBuf (amHdr : AmUlHdr snLen) (pduSz : ℕ) (pdu : α)
    (amUl : AmUl snLen α) : Bool × RecBufLst (AmRecBuf α) :=
  if !amUl.inRecvWindow amHdr.sn then (false, amUl.recBufLst)
  else
    match amHdr.si with
    | none => placeComplete amHdr.sn pdu amUl.recBufLst
    | some si => rlcAmmAddRcvdSeg amHdr.sn ⟨si, amHdr.so, pduSz, pdu⟩ amUl.recBufLst

/-- `rlcAmmProcPduOrSeg`: an SDU that is being joined is given up when something else is
expected. -/
def rlcAmmProcPduOrSeg (sn so : ℕ) (si : Option Si) (pdu : α) (amUl : AmUl snLen α) :
    AmUl snLen α × List (AmUlOut α) :=
  let amUl :=
    if amUl.expSn ≠ sn ∨ amUl.expSo ≠ so then { amUl with
      isOutOfSeq := true
      partialSdu := none }
    else amUl
  match si with
  | none => ({ amUl with partialSdu := none }, [.sdu [pdu]])
  | some .first => ({ amUl with partialSdu := some [pdu] }, [])
  -- there is nothing to append to if the first segment was not one
  | some .mid => ({ amUl with partialSdu := amUl.partialSdu.map (· ++ [pdu]) }, [])
  | some .last =>
    ({ amUl with partialSdu := none }, [.sdu (amUl.partialSdu.getD [] ++ [pdu])])

/-- The segments of a record one after the other. -/
def procSegs (sn : ℕ) (amUl : AmUl snLen α) :
    List (StoredSeg α) → AmUl snLen α × List (AmUlOut α)
  | [] => (amUl, [])
  | seg :: segs =>
    let r := amUl.rlcAmmProcPduOrSeg sn seg.so (some seg.si) seg.seg
    let r' := procSegs sn { r.1 with expSo := (seg.soEnd + 1) % 2 ^ 16 } segs
    (r'.1, r.2 ++ r'.2)

/-- `rlcAmmUlReassembleSdus`: the record is left without PDU and segments. -/
def rlcAmmUlReassembleSdus (recBuf : AmRecBuf α) (amUl : AmUl snLen α) :
    AmRecBuf α × AmUl snLen α × List (AmUlOut α) :=
  let expSn := (recBuf.sn + 1) &&& snLen.snModMask
  match recBuf.si, recBuf.pdu with
  | none, some pdu =>
    let r := amUl.rlcAmmProcPduOrSeg recBuf.sn 0 none pdu
    ({ recBuf with pdu := none }, { r.1 with
      expSn := expSn
      expSo := 0 }, r.2)
  -- there is a PDU if the last one that was placed was complete
  | none, none => (recBuf, amUl, [])
  | some _, _ =>
    let amUl : AmUl snLen α := { amUl with
      expSn := recBuf.sn
      expSo := 0 }
    let r := amUl.procSegs recBuf.sn recBuf.segLst
    ({ recBuf with segLst := [] }, { r.1 with
      expSn := expSn
      expSo := 0 }, r.2)

/-- `rxNextHighestRcvd` is behind the SN. -/
def updRxNextHighestRcvd (sn : ℕ) (amUl : AmUl snLen α) : AmUl snLen α :=
  if amUl.pos amUl.rxNextHighestRcvd ≤ amUl.pos sn then
    { amUl with rxNextHighestRcvd := (sn + 1) &&& snLen.snModMask }
  else amUl

/-- The loop that looks for the next `rxHighestStatus`, for as many SNs as are left up to `vrMr`;
with the record it looked at last. -/
def updRxHighestStatus : ℕ → ℕ → Option (AmRecBuf α) → AmUl snLen α →
    AmUl snLen α × Option (AmRecBuf α)
  | 0, _, recBuf, amUl => (amUl, recBuf)
  | n + 1, tSn, recBuf, amUl =>
    if !recBuf.any (·.allRcvd) then ({ amUl with rxHighestStatus := tSn }, recBuf)
    else
      let tSn := (tSn + 1) &&& snLen.snModMask
      updRxHighestStatus n tSn (amUl.recBufLst tSn) amUl

def rlcUtlDelRecBuf (sn : ℕ) (amUl : AmUl snLen α) : AmUl snLen α :=
  { amUl with recBufLst := Function.update amUl.recBufLst sn none }

/-- The loop that looks for the next `rxNext`, and drops the records of the SDUs that were passed
up. -/
def updRxNext : ℕ → ℕ → Option (AmRecBuf α) → AmUl snLen α → AmUl snLen α × Option (AmRecBuf α)
  | 0, _, recBuf, amUl => (amUl, recBuf)
  | n + 1, tSn, recBuf, amUl =>
    if recBuf.any fun recBuf => recBuf.allRcvd && recBuf.isDelvUpperLayer then
      let amUl := amUl.rlcUtlDelRecBuf tSn
      let tSn := (tSn + 1) &&& snLen.snModMask
      updRxNext n tSn (amUl.recBufLst tSn) amUl
    else ({ amUl with
      rxNext := tSn
      vrMr := (tSn + snLen.winSz) &&& snLen.snModMask }, recBuf)

/-- A complete SDU is passed up. The record stays. -/
def passUp (sn : ℕ) (recBuf : AmRecBuf α) (amUl : AmUl snLen α) :
    AmUl snLen α × AmRecBuf α × List (AmUlOut α) :=
  let r := amUl.rlcAmmUlReassembleSdus recBuf
  let recBuf := { r.1 with isDelvUpperLayer := true }
  ({ r.2.1 with recBufLst := Function.update r.2.1.recBufLst sn (some recBuf) }, recBuf, r.2.2)

/-- What follows a PDU that was placed, up to the timer: with the record that was looked at
last. -/
def pduPlaced (sn : ℕ) (amUl : AmUl snLen α) :
    (AmUl snLen α × Option (AmRecBuf α)) × List (AmUlOut α) :=
  match amUl.recBufLst sn with
  | none => ((amUl, none), [])
  | some recBuf =>
    if recBuf.allRcvd then
      let r := amUl.passUp sn recBuf
      let tVrMr := r.1.pos r.1.vrMr
      let s :=
        if sn = r.1.rxHighestStatus then
          let tSn := (sn + 1) &&& snLen.snModMask
          r.1.updRxHighestStatus (tVrMr + 1 - r.1.pos tSn) tSn (r.1.recBufLst tSn)
        else (r.1, some r.2.1)
      (if sn = s.1.rxNext then s.1.updRxNext (tVrMr + 1 - s.1.pos sn) sn (s.1.recBufLst sn) else s,
        r.2.2)
    else ((amUl, some recBuf), [])

/-- The reassembly timer has no reason to run on. -/
def stopsTmr (recBuf : Option (AmRecBuf α)) (amUl : AmUl snLen α) : Bool :=
  amUl.rxNextStatusTrig = amUl.rxNext ||
    (!amUl.inRecvWindow amUl.rxNextStatusTrig && amUl.rxNextStatusTrig ≠ amUl.vrMr) ||
    (amUl.rxNextStatusTrig = amUl.rxNext && recBuf.any (·.noMissingSeg))

/-- It has a reason to start after a PDU. The SNs are compared as they are. -/
def startsTmr (recBuf : Option (AmRecBuf α)) (amUl : AmUl snLen α) : Bool :=
  amUl.rxNext < amUl.rxNextHighestRcvd ||
    (amUl.rxNextHighestRcvd = amUl.rxNext && recBuf.any fun recBuf => !recBuf.noMissingSeg)

def startTmr (amUl : AmUl snLen α) : AmUl snLen α :=
  { amUl with
    reAsmblTmr := true
    rxNextStatusTrig := amUl.rxNextHighestRcvd }

/-- The reassembly timer after a PDU. -/
def updateTmr (recBuf : Option (AmRecBuf α)) (amUl : AmUl snLen α) : AmUl snLen α :=
  let amUl := { amUl with reAsmblTmr := amUl.reAsmblTmr && !amUl.stopsTmr recBuf }
  if !amUl.reAsmblTmr && amUl.startsTmr recBuf then amUl.startTmr else amUl

/-- A STATUS is to be sent, now or after the prohibit timer. -/
def triggerStatus (amUl : AmUl snLen α) : AmUl snLen α :=
  { amUl with
    staTrg := true
    gatherStaPduInfo := !amUl.staProhTmr }

/-- `rlcAmmTriggerStatus`, for a PDU with the poll bit. -/
def rlcAmmTriggerStatus (sn : ℕ) (discFlg : Bool) (amUl : AmUl snLen α) : AmUl snLen α :=
  if discFlg || amUl.pos sn < amUl.pos amUl.rxHighestStatus || amUl.pos amUl.vrMr ≤ amUl.pos sn then
    amUl.triggerStatus
  else amUl

/-- The body of the loop of `rlcAmmProcessPdus`, for a data PDU. -/
def processPdu (amHdr : AmUlHdr snLen) (pduSz : ℕ) (pdu : α) (amUl : AmUl snLen α) :
    AmUl snLen α × List (AmUlOut α) :=
  if amHdr.si = some .last ∧ amHdr.so = 0 then (amUl, [])
  else
    let (placed, recBufLst) := amUl.rlcAmmUlPlacePduInRecBuf amHdr pduSz pdu
    let amUl := { amUl with recBufLst := recBufLst }
    let (amUl, out) :=
      if placed then
        let r := (amUl.updRxNextHighestRcvd amHdr.sn).pduPlaced amHdr.sn
        (r.1.1.updateTmr r.1.2, r.2)
      else (amUl, [])
    (if amHdr.p then amUl.rlcAmmTriggerStatus amHdr.sn !placed else amUl, out)

/-- The state that `rlcAmmUlAssembleCntrlInfo` leaves. -/
def rlcAmmUlAssembleCntrlInfo (amUl : AmUl snLen α) : AmUl snLen α × List (AmUlOut α) :=
  ({ amUl with
    staTrg := false
    gatherStaPduInfo := false }, [.staPdu])

/-- The end of `rlcAmmProcessPdus`. -/
def gatherStatus (amUl : AmUl snLen α) : AmUl snLen α × List (AmUlOut α) :=
  if amUl.gatherStaPduInfo then amUl.rlcAmmUlAssembleCntrlInfo else (amUl, [])

/-- The loop of `rlcAmmReAsmblTmrExp`, for as many SNs as are left below `vrMr`. The record is the
one of the first SN all along. -/
def reAsmblLoop (recBuf : Option (AmRecBuf α)) : ℕ → ℕ → AmUl snLen α →
    AmUl snLen α × List (AmUlOut α)
  | 0, _, amUl => (amUl, [])
  | n + 1, sn, amUl =>
    if !recBuf.any (·.allRcvd) then
      ({ amUl with rxHighestStatus := sn }.triggerStatus).gatherStatus
    else reAsmblLoop recBuf n ((sn + 1) &&& snLen.snModMask) amUl

/-- The reassembly timer after its expiry. -/
def restartTmr (recBuf : Option (AmRecBuf α)) (amUl : AmUl snLen α) : AmUl snLen α :=
  let mrxNextHighestRcvd := amUl.pos amUl.rxNextHighestRcvd
  let mrxHighestStatus := amUl.pos amUl.rxHighestStatus
  if mrxHighestStatus < mrxNextHighestRcvd ∨ (mrxNextHighestRcvd = mrxHighestStatus ∧
      recBuf.any (fun recBuf => !recBuf.noMissingSeg) = true) then amUl.startTmr
  else amUl

/-- `rlcAmmReAsmblTmrExp`. -/
def rlcAmmReAsmblTmrExp (amUl : AmUl snLen α) : AmUl snLen α × List (AmUlOut α) :=
  let sn := amUl.rxNextStatusTrig
  let recBuf := amUl.recBufLst sn
  let r := reAsmblLoop recBuf (amUl.pos amUl.vrMr - amUl.pos sn) sn amUl
  (r.1.restartTmr recBuf, r.2)

/-- `rlcAmmStaProTmrExp`. -/
def rlcAmmStaProTmrExp (amUl : AmUl snLen α) : AmUl snLen α × List (AmUlOut α) :=
  if amUl.staTrg then amUl.rlcAmmUlAssembleCntrlInfo
  else ({ amUl with gatherStaPduInfo := false }, [])

end AmUl

/-- What happens to the entity. A call of `rlcAmmProcessPdus` is its PDUs and their end. A timer
can only expire if it is running, and the downlink side starts the prohibit timer when it sends
a STATUS. -/
inductive AmUlOp (snLen : SnLen) (α : Type*)
  | pdu (amHdr : AmUlHdr snLen) (pduSz : ℕ) (pdu : α)
  | pdusEnd
  | reAsmblTmrExp
  | staProhTmrStart
  | staProhTmrExp

namespace AmUlOp

open AmUl

def step (amUl : AmUl snLen α) : AmUlOp snLen α → Except Unit (AmUl snLen α × List (AmUlOut α))
  | .pdu amHdr pduSz mBuf => .ok (amUl.processPdu amHdr pduSz mBuf)
  | .pdusEnd => .ok amUl.gatherStatus
  | .reAsmblTmrExp => .ok (
    if amUl.reAsmblTmr then { amUl with reAsmblTmr := false }.rlcAmmReAsmblTmrExp else (amUl, []))
  | .staProhTmrStart => .ok ({ amUl with staProhTmr := true }, [])
  | .staProhTmrExp => .ok (
    if amUl.staProhTmr then { amUl with staProhTmr := false }.rlcAmmStaProTmrExp else (amUl, []))

end AmUlOp

end OaiCu.OduRlc
