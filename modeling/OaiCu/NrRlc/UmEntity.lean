import OaiCu.NrRlc.Reassembly
import OaiCu.Lib.Machine

/-!
# The RLC UM entity (`nr_rlc_entity_um.h`, `new_nr_rlc_entity_um`)
-/

namespace OaiCu.NrRlc

/-- The configuration of a UM entity. `new_nr_rlc_entity_um` exits on any other SN field
length. -/
structure UmConfig where
  rxMaxsize : ℤ
  txMaxsize : ℤ
  tReassembly : ℕ
  snFieldLength : ℕ
  snFieldLength_valid : snFieldLength = 6 ∨ snFieldLength = 12

def UmConfig.snModulus (cfg : UmConfig) : ℤ := 2 ^ cfg.snFieldLength

def UmConfig.windowSize (cfg : UmConfig) : ℤ := cfg.snModulus / 2

/-- The receiving side of a UM entity. -/
structure UmRx where
  rxNextHighest : ℤ := 0
  rxNextReassembly : ℤ := 0
  rxTimerTrigger : ℤ := 0
  /-- 0 means not running. -/
  tReassemblyStart : ℕ := 0
  rxList : List Pdu := []
  rxSize : ℤ := 0

/-- The transmitting side of a UM entity, with the heap of SDUs and the address of the next
list node as for `AmTx`. -/
structure UmTx where
  txNext : ℤ := 0
  txList : List Segment := []
  txEnd : Option ℕ := none
  txSize : ℤ := 0
  bstatusTxSize : ℤ := 0
  heap : ℕ → Sdu := fun _ => newSdu [] 0
  nextSdu : ℕ := 0
  nextSeg : ℕ := 0

/-- `nr_rlc_entity_um_t`. -/
structure UmEntity where
  cfg : UmConfig
  tCurrent : ℕ := 0
  rx : UmRx := {}
  tx : UmTx := {}

/-- `new_nr_rlc_entity_um`: everything not configured is zero. -/
def newUmEntity (cfg : UmConfig) : UmEntity := { cfg }

/-! ## PDU RX functions (`nr_rlc_entity_um.c`) -/

namespace Um

/-- `modulus_rx`: the modulus base is `rx_next_highest - window_size`. -/
def modulusRx (cfg : UmConfig) (rx : UmRx) (a : ℤ) : ℤ :=
  let r := a - (rx.rxNextHighest - cfg.windowSize)
  (if r < 0 then r + cfg.snModulus else r) % cfg.snModulus

def snCompareRx (cfg : UmConfig) (rx : UmRx) (a b : ℤ) : ℤ :=
  modulusRx cfg rx a - modulusRx cfg rx b

/-- What the UM entity does to a segment once it is copied: the data is freed and the size
set to 0. -/
def emptyPdu (p : Pdu) : Pdu := { p with data := none, size := 0 }

/-- `reassemble_and_deliver`. -/
def reassembleAndDeliver (rx : UmRx) (sn : ℤ) : UmRx × List Event :=
  ({ rx with
      rxList := mapRun sn emptyPdu rx.rxList
      rxSize := rx.rxSize - runSize rx.rxList sn },
    (reassemble rx.rxList sn).events)

/-- `reception_actions` for a full SDU. -/
def deliverFull (cfg : UmConfig) (rx : UmRx) (x : ℤ) : UmRx × List Event :=
  let (rx, events) := reassembleAndDeliver rx x
  (if x = rx.rxNextReassembly then
      { rx with
        rxNextReassembly :=
          skipDelivered cfg.snModulus rx.rxList rx.rxList.length rx.rxNextReassembly }
    else rx, events)

/-- "discard PDUs not in reassembly window". -/
def discardOutOfWindow (cfg : UmConfig) (rx : UmRx) : UmRx :=
  let out (p : Pdu) : Bool := decide (snCompareRx cfg rx p.sn rx.rxNextHighest ≥ 0)
  { rx with
    rxList := rx.rxList.dropWhile out
    rxSize := rx.rxSize - ((rx.rxList.takeWhile out).map fun p => (p.size : ℤ)).sum }

/-- `reception_actions` for an SDU that is not full: the window moves up if `x` is beyond
it. -/
def moveWindow (cfg : UmConfig) (rx : UmRx) (x : ℤ) : UmRx :=
  if snCompareRx cfg rx x rx.rxNextHighest ≥ 0 then
    let rx := { rx with rxNextHighest := (x + 1) % cfg.snModulus }
    let rx := discardOutOfWindow cfg rx
    if snCompareRx cfg rx rx.rxNextReassembly rx.rxNextHighest ≥ 0 then
      { rx with
        rxNextReassembly :=
          skipDelivered cfg.snModulus rx.rxList rx.rxList.length
            ((rx.rxNextHighest - cfg.windowSize + cfg.snModulus) % cfg.snModulus) }
    else rx
  else rx

/-- The conditions under which a running `t_reassembly` is stopped. -/
def stopTReassembly (cfg : UmConfig) (rx : UmRx) : UmRx :=
  if rx.tReassemblyStart ≠ 0 ∧
      (snCompareRx cfg rx rx.rxTimerTrigger rx.rxNextReassembly ≤ 0 ∨
        snCompareRx cfg rx rx.rxTimerTrigger rx.rxNextHighest > 0 ∨
        (rx.rxNextHighest = (rx.rxNextReassembly + 1) % cfg.snModulus ∧
          sduHasMissingBytes rx.rxList rx.rxNextReassembly = false)) then
    { rx with tReassemblyStart := 0 }
  else rx

/-- `t_reassembly` is started when it does not run and there is something missing before
`rx_next_highest`. `next` is `rx_next_reassembly + 1` as the caller computes it for the
comparison of equality. -/
def startTReassembly (cfg : UmConfig) (tCurrent : ℕ) (rx : UmRx) (next : ℤ) : UmRx :=
  if rx.tReassemblyStart = 0 ∧
      (snCompareRx cfg rx rx.rxNextHighest ((rx.rxNextReassembly + 1) % cfg.snModulus) > 0 ∨
        (rx.rxNextHighest = next ∧
          sduHasMissingBytes rx.rxList rx.rxNextReassembly = true)) then
    { rx with tReassemblyStart := tCurrent, rxTimerTrigger := rx.rxNextHighest }
  else rx

/-- `reception_actions` for a PDU with SN `x` that is in `rx_list`. -/
def receptionActions (cfg : UmConfig) (tCurrent : ℕ) (rx : UmRx) (x : ℤ) :
    UmRx × List Event :=
  let (rx, events) :=
    if sduFull rx.rxList x then deliverFull cfg rx x else (moveWindow cfg rx x, [])
  let rx := stopTReassembly cfg rx
  (startTReassembly cfg tCurrent rx ((rx.rxNextReassembly + 1) % cfg.snModulus), events)

/-! ## PDUs -/

/-- A PDU as decoded. -/
inductive UmPdu where
  /-- A complete SDU. -/
  | sdu (data : List UInt8)
  | segment (sn : ℤ) (so : ℕ) (isFirst isLast : Bool) (data : List UInt8)

/-- The fields of a PDU. `none` stands for a decoding error, a bad SO and a PDU without
data: all three are discarded. -/
def decodePdu (cfg : UmConfig) (buffer : List UInt8) : Option UmPdu := do
  let (si, decoder) ← (decoderInit buffer).getBits 2
  let isFirst := !si.testBit 1
  let isLast := !si.testBit 0
  if isFirst && isLast then
    if buffer.length < 2 then none else some (.sdu (buffer.drop 1))
  else
    let (_, decoder) ← (if cfg.snFieldLength = 12 then decoder.getBits 2 else some (0, decoder))
    let (sn, decoder) ← decoder.getBits cfg.snFieldLength
    let (so, decoder) ← (if isFirst then some (0, decoder) else decoder.getBits 16)
    let data := decoder.buffer.drop decoder.byte
    if (!isFirst && so == 0) || data.isEmpty then none
    else some (.segment sn so isFirst isLast data)

/-- There is room in the RX buffer and the SN is not before `rx_next_reassembly`. -/
def accepted (cfg : UmConfig) (rx : UmRx) (sn : ℤ) (data : List UInt8) : Bool :=
  !decide (rx.rxSize + data.length > cfg.rxMaxsize) &&
    !decide (snCompareRx cfg rx sn rx.rxNextReassembly < 0)

/-- The PDU in the pdu reception list. -/
def storePdu (cfg : UmConfig) (rx : UmRx) (sn : ℤ) (so : ℕ) (isFirst isLast : Bool)
    (data : List UInt8) : UmRx :=
  { rx with
    rxSize := rx.rxSize + data.length
    rxList := pduListAdd (snCompareRx cfg rx) rx.rxList (newPdu sn so isFirst isLast data) }

/-- `nr_rlc_entity_um_recv_pdu`. -/
def recvPdu (cfg : UmConfig) (tCurrent : ℕ) (rx : UmRx) (buffer : List UInt8) :
    UmRx × List Event :=
  match decodePdu cfg buffer with
  | none => (rx, [])
  | some (.sdu data) => (rx, [.deliverSdu data])
  | some (.segment sn so isFirst isLast data) =>
      if accepted cfg rx sn data then
        receptionActions cfg tCurrent (storePdu cfg rx sn so isFirst isLast data) sn
      else (rx, [])

/-! ## Timer -/

/-- `check_t_reassembly`. The PDUs before the new `rx_next_reassembly` are freed, `rx_size`
stays as it is. -/
def checkTReassembly (cfg : UmConfig) (tCurrent : ℕ) (rx : UmRx) : UmRx :=
  if timerExpired tCurrent rx.tReassemblyStart cfg.tReassembly then
    let rx :=
      { rx with
        tReassemblyStart := 0
        rxNextReassembly :=
          skipDelivered cfg.snModulus rx.rxList rx.rxList.length rx.rxTimerTrigger }
    let rx :=
      { rx with
        rxList := rx.rxList.dropWhile fun p =>
          decide (snCompareRx cfg rx p.sn rx.rxNextReassembly < 0) }
    startTReassembly cfg tCurrent rx (rx.rxNextReassembly + 1)
  else rx

/-! ## TX functions, and the entity as a machine (`nr_rlc_entity_um.c`) -/

/-- `compute_pdu_header_size`. -/
def computePduHeaderSize (cfg : UmConfig) (isFirst isLast : Bool) : ℕ :=
  1 + (if !(isFirst && isLast) && cfg.snFieldLength == 12 then 1 else 0) +
    (if isFirst then 0 else 2)

/-- The size of the PDU that carries the segment. -/
def pduSize (cfg : UmConfig) (sdu : Segment) : ℕ :=
  computePduHeaderSize cfg sdu.isFirst sdu.isLast + sdu.size

/-- `serialize_sdu`. -/
def serializeSdu (cfg : UmConfig) (sdu : Segment) (s : Sdu) (buffer : List UInt8) :
    Except Fault (List UInt8) := do
  let encoder ← (encoderInit buffer).putBits (if sdu.isFirst then 0 else 1) 1
  let encoder ← encoder.putBits (if sdu.isLast then 0 else 1) 1
  let encoder ←
    (if sdu.isFirst && sdu.isLast then encoder.putBits 0 6
    else do
      let encoder ← (if cfg.snFieldLength = 12 then encoder.putBits 0 2 else .ok encoder)
      encoder.putBits s.sn.toNat cfg.snFieldLength)
  let encoder ← (if sdu.isFirst then .ok encoder else encoder.putBits sdu.so 16)
  return encoder.buffer.take encoder.byte ++ (s.data.drop sdu.so).take sdu.size

/-- `resegment`; `none` if `size` is too small for the new segment. -/
def resegment (cfg : UmConfig) (sdu : Segment) (size addr : ℕ) : Option (Segment × Segment) :=
  let pduHeaderSize := computePduHeaderSize cfg sdu.isFirst false
  if pduHeaderSize + 1 > size then none
  else
    let overSize := pduHeaderSize + sdu.size - size
    some
      ({ sdu with size := sdu.size - overSize, isLast := false },
        { sdu with
          addr
          size := overSize
          so := sdu.so + (sdu.size - overSize)
          isFirst := false })

/-- `generate_tx_pdu` once the segment to send is cut to size. -/
def sendSegment (cfg : UmConfig) (tx : UmTx) (sdu : Segment) (buffer : List UInt8) :
    Except Fault (UmTx × List UInt8) := do
  let tx :=
    if !sdu.isFirst && sdu.isLast then { tx with txNext := (tx.txNext + 1) % cfg.snModulus }
    else tx
  let pdu ← serializeSdu cfg sdu (tx.heap sdu.sdu) buffer
  return ({ tx with
    txSize := tx.txSize - sdu.size
    heap := Function.update tx.heap sdu.sdu (tx.heap sdu.sdu).freeSegment }, pdu)

/-- `generate_tx_pdu`. A segment that turns out not to fit is gone from `tx_list`. -/
def generateTxPdu (cfg : UmConfig) (tx : UmTx) (buffer : List UInt8) :
    Except Fault (UmTx × List UInt8) :=
  match tx.txList with
  | [] => .ok (tx, [])
  | sdu :: next =>
      if computePduHeaderSize cfg sdu.isFirst sdu.isLast + 1 > buffer.length then .ok (tx, [])
      else
        let tx :=
          { tx with
            txList := next
            txEnd := if next.isEmpty then none else tx.txEnd
            heap := Function.update tx.heap sdu.sdu { tx.heap sdu.sdu with sn := tx.txNext }
            bstatusTxSize := tx.bstatusTxSize - pduSize cfg sdu }
        if pduSize cfg sdu > buffer.length then
          let tx :=
            { tx with
              heap := Function.update tx.heap sdu.sdu
                { tx.heap sdu.sdu with refCount := (tx.heap sdu.sdu).refCount + 1 } }
          match resegment cfg sdu buffer.length tx.nextSeg with
          | none => .ok (tx, [])
          | some (sdu, nextSdu) =>
              sendSegment cfg
                { tx with
                  nextSeg := tx.nextSeg + 1
                  txList := nextSdu :: tx.txList
                  txEnd := if tx.txEnd.isNone then some nextSdu.addr else tx.txEnd
                  bstatusTxSize := tx.bstatusTxSize + pduSize cfg nextSdu } sdu buffer
        else sendSegment cfg tx sdu buffer

/-- `nr_rlc_entity_um_recv_sdu`. -/
def recvSdu (cfg : UmConfig) (tx : UmTx) (buffer : List UInt8) (sduId : ℤ) :
    Except Fault UmTx := do
  if buffer.length > nrSduMax then
    throw .exit
  if tx.txSize + buffer.length > cfg.txMaxsize then
    return tx
  let sdu := newSegment tx.nextSeg tx.nextSdu buffer.length
  let (txList, txEnd) ← segmentListAppend tx.txList tx.txEnd sdu
  return { tx with
    txSize := tx.txSize + buffer.length
    heap := Function.update tx.heap tx.nextSdu (newSdu buffer sduId)
    nextSdu := tx.nextSdu + 1
    nextSeg := tx.nextSeg + 1
    txList, txEnd
    bstatusTxSize := tx.bstatusTxSize + pduSize cfg sdu }

/-- `nr_rlc_entity_um_discard_sdu`; `tx_size` stays as it is. -/
def discardSdu (cfg : UmConfig) (tx : UmTx) (sduId : ℤ) : UmTx :=
  let front := tx.txList.takeWhile fun s => (tx.heap s.sdu).upperLayerId ≠ sduId
  match tx.txList.dropWhile fun s => (tx.heap s.sdu).upperLayerId ≠ sduId with
  | [] => tx
  | cur :: next =>
      if !cur.isFirst || !cur.isLast then tx
      else
        { tx with
          txList := front ++ next
          txEnd :=
            if tx.txEnd = some cur.addr then front.getLast?.map Segment.addr else tx.txEnd
          bstatusTxSize := tx.bstatusTxSize - pduSize cfg cur
          heap := Function.update tx.heap cur.sdu (tx.heap cur.sdu).freeSegment }

/-- `nr_rlc_entity_um_reestablishment`. -/
def reestablishment (e : UmEntity) : UmEntity :=
  { e with
    tCurrent := 0
    rx := {}
    tx :=
      { heap := e.tx.txList.foldl
          (fun heap s => Function.update heap s.sdu (heap s.sdu).freeSegment) e.tx.heap
        nextSdu := e.tx.nextSdu
        nextSeg := e.tx.nextSeg } }

/-! ## The calls -/

/-- What one call does to the entity and what its environment sees of it. -/
def step (e : UmEntity) : Op → Except Fault (UmEntity × List Event)
  | .recvPdu buffer =>
      let (rx, events) := recvPdu e.cfg e.tCurrent e.rx buffer
      .ok ({ e with rx }, events)
  | .recvSdu buffer sduId => do
      let tx ← recvSdu e.cfg e.tx buffer sduId
      return ({ e with tx }, [])
  | .generatePdu buffer => do
      let (tx, pdu) ← generateTxPdu e.cfg e.tx buffer
      return ({ e with tx }, if pdu.isEmpty then [] else [.sendPdu pdu])
  | .setTime now =>
      .ok ({ e with
        tCurrent := now.toNat
        rx := checkTReassembly e.cfg now.toNat e.rx }, [])
  | .discardSdu sduId => .ok ({ e with tx := discardSdu e.cfg e.tx sduId }, [])
  | .reestablishment => .ok (reestablishment e, [])

/-- A sequence of calls. -/
def run : UmEntity → List Op → Except Fault (UmEntity × List Event) := Machine.run step

end Um

end OaiCu.NrRlc
