import OaiCu.NrRlc.AmEntity
import OaiCu.NrRlc.Reassembly

/-!
# RLC AM: PDU RX functions (`nr_rlc_entity_am.c`)
-/

namespace OaiCu.NrRlc

/-- `modulus_rx`: the modulus base is `rx_next`. -/
def modulusRx (cfg : AmConfig) (rx : AmRx) (a : ℤ) : ℤ :=
  let r := a - rx.rxNext
  if r < 0 then r + cfg.snModulus else r

def snInRecvWindow (cfg : AmConfig) (rx : AmRx) (sn : ℤ) : Bool :=
  decide (modulusRx cfg rx sn < cfg.windowSize)

def snCompareRx (cfg : AmConfig) (rx : AmRx) (a b : ℤ) : ℤ :=
  modulusRx cfg rx a - modulusRx cfg rx b

/-- `segment_already_received`, from a suffix of `rx_list` on: each PDU takes off the
bytes it covers at the front or at the back of the segment. -/
def segmentAlreadyReceived : List Pdu → ℤ → ℤ → ℤ → Bool
  | [], _, _, size => decide (size ≤ 0)
  | l :: next, sn, so, size =>
      if size > 0 then
        if l.sn = sn then
          if l.so ≤ so ∧ so < l.so + l.size then
            segmentAlreadyReceived next sn (so + (l.size - (so - l.so)))
              (size - (l.size - (so - l.so)))
          else if l.so ≤ so + size - 1 ∧ so + size - 1 < l.so + l.size then
            segmentAlreadyReceived next sn so (size - (size - (l.so - so)))
          else segmentAlreadyReceived next sn so size
        else segmentAlreadyReceived next sn so size
      else true

/-! ## `reception_actions` -/

/-- Frees the delivered SDUs at the head of `rx_list`. Every iteration frees at least
one PDU, so the length of the list bounds the iterations. -/
def popDelivered (snModulus : ℤ) : ℕ → List Pdu → ℤ → List Pdu × ℤ
  | 0, l, rxNext => (l, rxNext)
  | _ + 1, [], rxNext => ([], rxNext)
  | fuel + 1, p :: l, rxNext =>
      if p.data.isNone && decide (p.sn = rxNext) then
        popDelivered snModulus fuel (l.dropWhile fun p => p.sn = rxNext)
          ((rxNext + 1) % snModulus)
      else (p :: l, rxNext)

/-- `reassemble_and_deliver` as the AM entity does it: the data is freed, the size of
the PDU stays. -/
def amReassembleAndDeliver (rx : AmRx) (sn : ℤ) : AmRx × List Event :=
  ({ rx with
      rxList := mapRun sn Pdu.freeData rx.rxList
      rxSize := rx.rxSize - runSize rx.rxList sn },
    (reassemble rx.rxList sn).events)

/-- `rx_highest_status` passes over delivered SDUs if it was the SN delivered. -/
def advanceHighestStatus (cfg : AmConfig) (rx : AmRx) (x : ℤ) : AmRx :=
  if x = rx.rxHighestStatus then
    { rx with
      rxHighestStatus :=
        skipDelivered cfg.snModulus rx.rxList rx.rxList.length rx.rxHighestStatus }
  else rx

/-- `rx_next` passes over delivered SDUs, and frees them, if it was the SN delivered. -/
def advanceRxNext (cfg : AmConfig) (rx : AmRx) (x : ℤ) : AmRx :=
  if x = rx.rxNext then
    { rx with
      rxList := (popDelivered cfg.snModulus rx.rxList.length rx.rxList rx.rxNext).1
      rxNext := (popDelivered cfg.snModulus rx.rxList.length rx.rxList rx.rxNext).2 }
  else rx

/-- The conditions under which a running `t_reassembly` is stopped. -/
def stopTReassembly (cfg : AmConfig) (rx : AmRx) : AmRx :=
  if rx.tReassemblyStart ≠ 0 ∧
      (rx.rxNextStatusTrigger = rx.rxNext ∨
        (rx.rxNextStatusTrigger = (rx.rxNext + 1) % cfg.snModulus ∧
          sduHasMissingBytes rx.rxList rx.rxNext = false) ∨
        (snInRecvWindow cfg rx rx.rxNextStatusTrigger = false ∧
          rx.rxNextStatusTrigger ≠ (rx.rxNext + cfg.windowSize) % cfg.snModulus)) then
    { rx with tReassemblyStart := 0 }
  else rx

/-- The conditions under which `t_reassembly` is started, when it does not run, for
what is missing from `sn` on. -/
def startTReassembly (cfg : AmConfig) (tCurrent : ℕ) (rx : AmRx) (sn : ℤ) : AmRx :=
  if rx.tReassemblyStart = 0 ∧
      (snCompareRx cfg rx rx.rxNextHighest ((sn + 1) % cfg.snModulus) > 0 ∨
        (rx.rxNextHighest = (sn + 1) % cfg.snModulus ∧
          sduHasMissingBytes rx.rxList sn = true)) then
    { rx with tReassemblyStart := tCurrent, rxNextStatusTrigger := rx.rxNextHighest }
  else rx

/-- The first statement of `reception_actions`. -/
def raiseNextHighest (cfg : AmConfig) (rx : AmRx) (x : ℤ) : AmRx :=
  if snCompareRx cfg rx x rx.rxNextHighest ≥ 0 then
    { rx with rxNextHighest := (x + 1) % cfg.snModulus }
  else rx

/-- `reception_actions` for a PDU with SN `x` that is in `rx_list`. -/
def receptionActions (cfg : AmConfig) (tCurrent : ℕ) (rx : AmRx) (x : ℤ) :
    AmRx × List Event :=
  let rx := raiseNextHighest cfg rx x
  let (rx, events) :=
    if sduFull rx.rxList x then
      let (rx, events) := amReassembleAndDeliver rx x
      (advanceRxNext cfg (advanceHighestStatus cfg rx x) x, events)
    else (rx, [])
  let rx := stopTReassembly cfg rx
  (startTReassembly cfg tCurrent rx rx.rxNext, events)

/-! ## Data PDUs -/

/-- The fields of a data PDU. -/
structure DataPdu where
  sn : ℤ
  so : ℕ
  isFirst : Bool
  isLast : Bool
  data : List UInt8
deriving DecidableEq, Repr

/-- The fields after the P bit. `none` stands for a decoding error, a bad SO and a PDU
without data: all three are discarded in the same way. -/
def decodeDataFields (cfg : AmConfig) (decoder : Decoder) : Option DataPdu := do
  let (si, decoder) ← decoder.getBits 2
  let isFirst := !si.testBit 1
  let isLast := !si.testBit 0
  let (_, decoder) ← (if cfg.snFieldLength = 18 then decoder.getBits 2 else some (0, decoder))
  let (sn, decoder) ← decoder.getBits cfg.snFieldLength
  let (so, decoder) ← (if isFirst then some (0, decoder) else decoder.getBits 16)
  let data := decoder.buffer.drop decoder.byte
  if (!isFirst && so == 0) || data.isEmpty then none
  else some { sn, so, isFirst, isLast, data }

/-- A segment that passes the checks of `recv_pdu` goes into `rx_list`: there is room in
the RX buffer, the SN is in the window and some byte of the segment is new. -/
def accepted (cfg : AmConfig) (rx : AmRx) (h : DataPdu) : Bool :=
  !decide (rx.rxSize + h.data.length > cfg.rxMaxsize) &&
    snInRecvWindow cfg rx h.sn &&
    !segmentAlreadyReceived rx.rxList h.sn h.so h.data.length

/-- The PDU in the pdu reception list. -/
def storePdu (cfg : AmConfig) (rx : AmRx) (h : DataPdu) : AmRx :=
  { rx with
    rxSize := rx.rxSize + h.data.length
    rxList := pduListAdd (snCompareRx cfg rx) rx.rxList
      (newPdu h.sn h.so h.isFirst h.isLast h.data) }

/-- Polled: a status is triggered whether the PDU is kept or discarded. -/
def triggerStatus (p : Bool) (rx : AmRx) : AmRx :=
  if p then { rx with statusTriggered := true } else rx

/-- `nr_rlc_entity_am_recv_pdu` for a data PDU, from the P bit on. -/
def recvDataPdu (cfg : AmConfig) (tCurrent : ℕ) (rx : AmRx) (decoder : Decoder) :
    AmRx × List Event :=
  match decoder.getBits 1 with
  | none => (rx, [])
  | some (p, decoder) =>
      match decodeDataFields cfg decoder with
      | none => (triggerStatus (p == 1) rx, [])
      | some h =>
          if accepted cfg rx h then
            let (rx, events) := receptionActions cfg tCurrent (storePdu cfg rx h) h.sn
            (triggerStatus (p == 1) rx, events)
          else (triggerStatus (p == 1) rx, [])

/-! ## Timer -/

/-- `check_t_reassembly`. -/
def checkTReassembly (cfg : AmConfig) (tCurrent : ℕ) (rx : AmRx) : AmRx :=
  if timerExpired tCurrent rx.tReassemblyStart cfg.tReassembly then
    let rx :=
      { rx with
        tReassemblyStart := 0
        rxHighestStatus :=
          skipDelivered cfg.snModulus rx.rxList rx.rxList.length rx.rxNextStatusTrigger
        statusTriggered := true }
    startTReassembly cfg tCurrent rx rx.rxHighestStatus
  else rx

end OaiCu.NrRlc
