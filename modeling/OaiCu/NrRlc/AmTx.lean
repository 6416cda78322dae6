import OaiCu.NrRlc.AmEntity

/-!
# RLC AM: TX functions, SDU RX functions, discard and re-establishment
(`nr_rlc_entity_am.c`)

Buffers handed in by the caller are byte lists whose length is the size argument; a
generated PDU is the byte list that the call leaves at the front of the buffer, empty
if it returns 0.
-/

namespace OaiCu.NrRlc

/-- The SN of the SDU that the segment belongs to. -/
def AmTx.sn (tx : AmTx) (s : Segment) : ℤ := (tx.heap s.sdu).sn

/-- `compute_pdu_header_size`. -/
def computePduHeaderSize (cfg : AmConfig) (sdu : Segment) : ℕ :=
  2 + (if cfg.snFieldLength = 18 then 1 else 0) + (if sdu.isFirst then 0 else 2)

/-- The size of the PDU that carries the segment. -/
def pduSize (cfg : AmConfig) (sdu : Segment) : ℕ := computePduHeaderSize cfg sdu + sdu.size

def modulusTx (cfg : AmConfig) (tx : AmTx) (a : ℤ) : ℤ :=
  let r := a - tx.txNextAck
  if r < 0 then r + cfg.snModulus else r

def snCompareTx (cfg : AmConfig) (tx : AmTx) (a b : ℤ) : ℤ :=
  modulusTx cfg tx a - modulusTx cfg tx b

/-- Stalling if not `tx_next_ack <= tx_next < tx_next_ack + window_size`. -/
def isWindowStalling (cfg : AmConfig) (tx : AmTx) : Bool :=
  !(decide (snCompareTx cfg tx tx.txNextAck tx.txNext ≤ 0) &&
    decide (snCompareTx cfg tx tx.txNext ((tx.txNextAck + cfg.windowSize) % cfg.snModulus) < 0))

/-! ## Polling -/

/-- `include_poll`: sets the P bit in the PDU and restarts `t_poll_retransmit`. -/
def includePoll (cfg : AmConfig) (tCurrent : ℕ) (tx : AmTx) (pdu : List UInt8) :
    AmTx × List UInt8 :=
  ({ tx with
      pduWithoutPoll := 0
      byteWithoutPoll := 0
      pollSn := (tx.txNext - 1 + cfg.snModulus) % cfg.snModulus
      tPollRetransmitStart := tCurrent },
    pdu.modify 0 (· ||| 0x40))

def checkPollAfterPduAssembly (cfg : AmConfig) (tx : AmTx) : Bool :=
  (tx.txList.isEmpty && tx.retransmitList.isEmpty) || isWindowStalling cfg tx

/-! ## Data PDUs -/

/-- The header that `serialize_sdu` puts in front of the data; the P bit is 0. -/
def dataHeader (cfg : AmConfig) (sn so : ℕ) (isFirst isLast : Bool) (buffer : List UInt8) :
    Except Fault (List UInt8) := do
  let encoder ← (encoderInit buffer).putBits 1 1
  let encoder ← encoder.putBits 0 1
  let encoder ← encoder.putBits (if isFirst then 0 else 1) 1
  let encoder ← encoder.putBits (if isLast then 0 else 1) 1
  let encoder ← (if cfg.snFieldLength = 18 then encoder.putBits 0 2 else .ok encoder)
  let encoder ← encoder.putBits sn cfg.snFieldLength
  let encoder ← (if isFirst then .ok encoder else encoder.putBits so 16)
  return encoder.buffer.take encoder.byte

/-- `serialize_sdu`. -/
def serializeSdu (cfg : AmConfig) (tCurrent : ℕ) (tx : AmTx) (sdu : Segment)
    (buffer : List UInt8) (p : Bool) : Except Fault (AmTx × List UInt8) := do
  let header ← dataHeader cfg (tx.sn sdu).toNat sdu.so sdu.isFirst sdu.isLast buffer
  let pdu := header ++ ((tx.heap sdu.sdu).data.drop sdu.so).take sdu.size
  return if p then includePoll cfg tCurrent tx pdu else (tx, pdu)

/-- `resegment`: the segment cut down to a PDU of `size` bytes, and the new segment
for the remaining bytes. -/
def resegment (cfg : AmConfig) (sdu : Segment) (size addr : ℕ) : Segment × Segment :=
  let overSize := computePduHeaderSize cfg sdu + sdu.size - size
  ({ sdu with size := sdu.size - overSize, isLast := false },
    { sdu with
      addr
      size := overSize
      so := sdu.so + (sdu.size - overSize)
      isFirst := false })

/-- The part of `resegment` that works on the entity: the SDU has one more segment. -/
def AmTx.addRef (tx : AmTx) (sdu : Segment) : AmTx :=
  { tx with
    heap := Function.update tx.heap sdu.sdu
      { tx.heap sdu.sdu with refCount := (tx.heap sdu.sdu).refCount + 1 }
    nextSeg := tx.nextSeg + 1 }

/-- "put SDU/SDU segment in the wait list", as `generate_retx_pdu` and
`generate_tx_pdu` do it: at the end if it comes after `wait_end`, else in order. -/
def putInWaitList (cfg : AmConfig) (tx : AmTx) (sdu : Segment) : Except Fault AmTx :=
  let append : Except Fault AmTx := do
    let (waitList, waitEnd) ← segmentListAppend tx.waitList tx.waitEnd sdu
    return { tx with waitList, waitEnd }
  match tx.waitEnd with
  | none => append
  | some addr =>
      match tx.waitList.find? (fun s => s.addr = addr) with
      | none => .error .freedNode
      | some waitEnd =>
          let cmp := snCompareTx cfg tx (tx.sn sdu) (tx.sn waitEnd)
          if cmp > 0 ∨ (cmp = 0 ∧ sdu.so > waitEnd.so) then append
          else
            let waitList := segmentListAdd (snCompareTx cfg tx) tx.sn tx.waitList sdu
            match waitList with
            | [s] => .ok { tx with waitList, waitEnd := some s.addr }
            | _ => .ok { tx with waitList }

/-- A pending `force_poll` adds a poll, once. -/
def takeForcePoll (tx : AmTx) (p : Bool) : AmTx × Bool :=
  ({ tx with forcePoll := false }, p || tx.forcePoll)

/-- The head of `retransmit_list` is taken off, and what does not fit into a PDU of `size`
bytes is put back. -/
def takeRetx (cfg : AmConfig) (tx : AmTx) (sdu : Segment) (next : List Segment) (size : ℕ) :
    AmTx × Segment :=
  let tx :=
    { tx with
      retransmitList := next
      bstatusRetxSize := tx.bstatusRetxSize - pduSize cfg sdu }
  if pduSize cfg sdu > size then
    let (sdu, nextSdu) := resegment cfg sdu size tx.nextSeg
    ({ tx.addRef sdu with
        retransmitList := nextSdu :: tx.retransmitList
        bstatusRetxSize := tx.bstatusRetxSize + pduSize cfg nextSdu }, sdu)
  else (tx, sdu)

/-- `generate_retx_pdu`, with the head and the rest of `retransmit_list`. -/
def generateRetxPdu (cfg : AmConfig) (tCurrent : ℕ) (tx : AmTx) (sdu : Segment)
    (next : List Segment) (buffer : List UInt8) : Except Fault (AmTx × List UInt8) := do
  if computePduHeaderSize cfg sdu + 1 > buffer.length then
    return (tx, [])
  let (tx, sdu) := takeRetx cfg tx sdu next buffer.length
  let tx ← putInWaitList cfg tx sdu
  let (tx, p) := takeForcePoll tx (checkPollAfterPduAssembly cfg tx)
  serializeSdu cfg tCurrent tx sdu buffer p

/-- The polling actions for a new PDU. -/
def pollForNewPdu (cfg : AmConfig) (tx : AmTx) : Bool :=
  if (cfg.pollPdu ≠ -1 ∧ tx.pduWithoutPoll ≥ cfg.pollPdu) ∨
      (cfg.pollByte ≠ -1 ∧ tx.byteWithoutPoll ≥ cfg.pollByte) then true
  else checkPollAfterPduAssembly cfg tx

/-- The head of `tx_list` gets its SN and is taken off, and what does not fit into a PDU of
`size` bytes is put back. -/
def takeTx (cfg : AmConfig) (tx : AmTx) (sdu : Segment) (next : List Segment) (size : ℕ) :
    AmTx × Segment :=
  let tx :=
    { tx with
      txList := next
      txEnd := if next.isEmpty then none else tx.txEnd
      bstatusTxSize := tx.bstatusTxSize - pduSize cfg sdu
      heap := Function.update tx.heap sdu.sdu { tx.heap sdu.sdu with sn := tx.txNext } }
  if pduSize cfg sdu > size then
    let (sdu, nextSdu) := resegment cfg sdu size tx.nextSeg
    ({ tx.addRef sdu with
        txList := nextSdu :: tx.txList
        txEnd := if tx.txEnd.isNone then some nextSdu.addr else tx.txEnd
        bstatusTxSize := tx.bstatusTxSize + pduSize cfg nextSdu }, sdu)
  else (tx, sdu)

/-- `tx_next` goes up with the last segment of an SDU. -/
def raiseTxNext (cfg : AmConfig) (tx : AmTx) (sdu : Segment) : AmTx :=
  if sdu.isLast then { tx with txNext := (tx.txNext + 1) % cfg.snModulus } else tx

/-- `generate_tx_pdu`. -/
def generateTxPdu (cfg : AmConfig) (tCurrent : ℕ) (tx : AmTx) (buffer : List UInt8) :
    Except Fault (AmTx × List UInt8) := do
  if isWindowStalling cfg tx then
    return (tx, [])
  match tx.txList with
  | [] => return (tx, [])
  | sdu :: next =>
      if computePduHeaderSize cfg sdu + 1 > buffer.length then
        return (tx, [])
      let (tx, sdu) := takeTx cfg tx sdu next buffer.length
      let tx ← putInWaitList cfg (raiseTxNext cfg tx sdu) sdu
      let tx :=
        { tx with
          pduWithoutPoll := tx.pduWithoutPoll + 1
          byteWithoutPoll := tx.byteWithoutPoll + sdu.size }
      let (tx, p) := takeForcePoll tx (pollForNewPdu cfg tx)
      serializeSdu cfg tCurrent tx sdu buffer p

/-! ## SDU RX functions -/

/-- The log of rejected SDUs, at most once per second. -/
def logRejected (tCurrent : ℕ) (tx : AmTx) : AmTx :=
  if tx.sduRejected ≠ 0 ∧ tCurrent > (tx.tLogBufferFull + 1000) % 2 ^ 64 then
    { tx with sduRejected := 0, tLogBufferFull := tCurrent }
  else tx

/-- `nr_rlc_entity_am_recv_sdu`. -/
def recvSdu (cfg : AmConfig) (tCurrent : ℕ) (tx : AmTx) (buffer : List UInt8) (sduId : ℤ) :
    Except Fault AmTx := do
  if buffer.length > nrSduMax then
    throw .exit
  let tx := logRejected tCurrent tx
  if tx.txSize + buffer.length > cfg.txMaxsize then
    return { tx with sduRejected := tx.sduRejected + 1 }
  let sdu := newSegment tx.nextSeg tx.nextSdu buffer.length
  let (txList, txEnd) ← segmentListAppend tx.txList tx.txEnd sdu
  return { tx with
    txSize := tx.txSize + buffer.length
    heap := Function.update tx.heap tx.nextSdu (newSdu buffer sduId)
    nextSdu := tx.nextSdu + 1
    nextSeg := tx.nextSeg + 1
    txList, txEnd
    bstatusTxSize := tx.bstatusTxSize + pduSize cfg sdu }

/-! ## Retransmission of a segment of the wait list -/

/-- The segment of the wait list becomes a retransmission: `retx_count` goes up, the
upper layer is told once it reaches the threshold, and the buffer status grows. -/
def AmTx.countRetx (cfg : AmConfig) (tx : AmTx) (s : Segment) : AmTx × List Event :=
  let sdu := { tx.heap s.sdu with retxCount := (tx.heap s.sdu).retxCount + 1 }
  ({ tx with
      heap := Function.update tx.heap s.sdu sdu
      bstatusRetxSize := tx.bstatusRetxSize + pduSize cfg s },
    if sdu.retxCount ≥ cfg.maxRetxThreshold * sdu.refCount then [.maxRetxReached] else [])

/-- `check_t_poll_retransmit`. -/
def checkTPollRetransmit (cfg : AmConfig) (tCurrent : ℕ) (tx : AmTx) :
    Except Fault (AmTx × List Event) :=
  if timerExpired tCurrent tx.tPollRetransmitStart cfg.tPollRetransmit then
    let tx := { tx with tPollRetransmitStart := 0, forcePoll := true }
    if checkPollAfterPduAssembly cfg tx then
      match tx.waitList with
      | [] => .error .nullPointer
      | cur :: next =>
          let tx :=
            { tx with
              waitList := next
              waitEnd := if next.isEmpty then none else tx.waitEnd }
          let (tx, events) := tx.countRetx cfg cur
          .ok ({ tx with
            retransmitList := segmentListAdd (snCompareTx cfg tx) tx.sn tx.retransmitList cur },
            events)
    else .ok (tx, [])
  else .ok (tx, [])

/-! ## Freeing, discard, re-establishment -/

/-- `nr_rlc_free_sdu_segment`. -/
def AmTx.freeSduSegment (tx : AmTx) (s : Segment) : AmTx :=
  { tx with
    heap := Function.update tx.heap s.sdu (tx.heap s.sdu).freeSegment
    freed := tx.freed ++ [s] }

/-- `nr_rlc_entity_am_discard_sdu`: nothing is done if the SDU is not in `tx_list` or some
bytes of it have been sent. -/
def discardSdu (cfg : AmConfig) (tx : AmTx) (sduId : ℤ) : AmTx :=
  let front := tx.txList.takeWhile fun s => (tx.heap s.sdu).upperLayerId ≠ sduId
  match tx.txList.dropWhile fun s => (tx.heap s.sdu).upperLayerId ≠ sduId with
  | [] => tx
  | cur :: next =>
      if !cur.isFirst || !cur.isLast then tx
      else
        let tx :=
          { tx with
            txList := front ++ next
            txEnd :=
              if tx.txEnd = some cur.addr then front.getLast?.map Segment.addr else tx.txEnd
            bstatusTxSize := tx.bstatusTxSize - pduSize cfg cur
            txSize := tx.txSize - (tx.heap cur.sdu).size }
        tx.freeSduSegment cur

/-- The transmitter after `clear_entity`. -/
def clearTx (tx : AmTx) : AmTx :=
  let tx := (tx.txList ++ tx.waitList ++ tx.retransmitList).foldl AmTx.freeSduSegment tx
  { heap := tx.heap, nextSdu := tx.nextSdu, nextSeg := tx.nextSeg, freed := tx.freed }

end OaiCu.NrRlc
