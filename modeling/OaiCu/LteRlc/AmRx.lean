import OaiCu.Lib.Serial
import OaiCu.NrRlc.Pdu

/-!
# LTE RLC AM: the receiver (`rlc_entity_am.c`, `rlc_pdu.c`)

The PDU decoder is the one of the NR entity. Reassembly frees every segment that is moved to it; the
function that moves them returns them.
-/

namespace OaiCu.LteRlc

open NrRlc (Decoder decoderInit)

/-- `rlc_rx_pdu_segment_t`: `size` is that of the data, with the header. -/
structure RxSegment where
  sn : ℤ
  so : ℕ
  isLast : Bool
  data : List UInt8
  dataOffset : ℕ
deriving DecidableEq, Repr

def RxSegment.size (s : RxSegment) : ℕ := s.data.length

/-- The last byte of the original PDU that is in the segment. -/
def RxSegment.lastByte (s : RxSegment) : ℤ := s.so + s.size - s.dataOffset - 1

structure AmConfig where
  rxMaxsize : ℕ
  tReordering : ℕ
deriving DecidableEq, Repr

/-- The fields of `rlc_entity_am_t` that belong to the receiver. -/
structure AmRx where
  vrR : ℤ := 0
  vrX : ℤ := 0
  vrMs : ℤ := 0
  vrH : ℤ := 0
  statusTriggered : Bool := false
  tCurrent : ℕ := 0
  tReorderingStart : ℕ := 0
  tStatusProhibitStart : ℕ := 0
  rxList : List RxSegment := []
  rxSize : ℤ := 0
deriving DecidableEq, Repr

/-! ## Windows -/

/-- `modulus_rx`: the modulus base is VR(R). -/
def modulusRx (rx : AmRx) (a : ℤ) : ℤ :=
  let r := a - rx.vrR
  if r < 0 then r + 1024 else r

/-- `sn_in_recv_window`. -/
def snInRecvWindow (rx : AmRx) (sn : ℤ) : Bool := decide (modulusRx rx sn < 512)

/-- `sn_compare_rx`. -/
def snCompareRx (rx : AmRx) (a b : ℤ) : ℤ := modulusRx rx a - modulusRx rx b

/-- `segment_already_received`. -/
def segmentAlreadyReceived (list : List RxSegment) (sn : ℤ) (so dataSize : ℕ) : Bool :=
  list.any fun l =>
    decide (l.sn = sn ∧ l.so ≤ so ∧ (l.so : ℤ) + l.size - l.dataOffset ≥ so + dataSize)

/-- The loop of `rlc_am_segment_full` over the segments of `sn`. -/
def fullFrom (sn lastByte : ℤ) : List RxSegment → Bool
  | [] => false
  | l :: next =>
      if l.sn = sn then
        if (l.so : ℤ) > lastByte + 1 then false
        else if l.isLast then true
        else fullFrom sn (if l.lastByte > lastByte then l.lastByte else lastByte) next
      else false

/-- The list from the first segment of `sn` on. -/
def fromSn (sn : ℤ) (list : List RxSegment) : List RxSegment := list.dropWhile fun l => l.sn ≠ sn

/-- `rlc_am_segment_full`. -/
def segmentFull (list : List RxSegment) (sn : ℤ) : Bool := fullFrom sn (-1) (fromSn sn list)

/-! ## Reception -/

/-- `rlc_rx_pdu_segment_list_add`. -/
def segmentListAdd (snCompare : ℤ → ℤ → ℤ) (list : List RxSegment) (s : RxSegment) :
    List RxSegment :=
  list.orderedInsert
    (fun s cur => snCompare cur.sn s.sn > 0 ∨ (cur.sn = s.sn ∧ cur.so > s.so)) s

/-- The loops over SNs that are full. There are 1024 SNs. -/
def skipFull (list : List RxSegment) : ℕ → ℤ → ℤ
  | 0, sn => sn
  | fuel + 1, sn => if segmentFull list sn then skipFull list fuel ((sn + 1) % 1024) else sn

/-- The loop over `vr_r`: the segments with this SN are moved from the list to reassembly. -/
def moveFull : ℕ → List RxSegment → ℤ → List RxSegment → List RxSegment × ℤ × List RxSegment
  | 0, list, vrR, moved => (list, vrR, moved)
  | fuel + 1, list, vrR, moved =>
      if segmentFull list vrR then
        moveFull fuel (list.dropWhile fun l => l.sn = vrR) ((vrR + 1) % 1024)
          (moved ++ list.takeWhile fun l => l.sn = vrR)
      else (list, vrR, moved)

/-- `rlc_am_reception_actions` up to reassembly, for a segment with the SN `x`. -/
def moveToReassembly (rx : AmRx) (x : ℤ) : AmRx × List RxSegment :=
  let rx := if modulusRx rx x ≥ modulusRx rx rx.vrH then { rx with vrH := (x + 1) % 1024 } else rx
  let rx := { rx with vrMs := skipFull rx.rxList 1024 rx.vrMs }
  if x = rx.vrR then
    let (rxList, vrR, moved) := moveFull 1024 rx.rxList rx.vrR []
    ({ rx with rxList, vrR }, moved)
  else (rx, [])

/-- `rlc_am_reassemble`, as far as it concerns the buffer: every segment is freed. -/
def freeMoved (rx : AmRx) (moved : List RxSegment) : AmRx :=
  { rx with rxSize := rx.rxSize - (moved.map fun s => (s.size : ℤ)).sum }

/-- `rlc_am_reception_actions` from reassembly on: `t_reordering`. -/
def reorderingTimer (rx : AmRx) : AmRx :=
  let vrX := if rx.vrX < rx.vrR then rx.vrX + 1024 else rx.vrX
  let rx :=
    if rx.tReorderingStart ≠ 0 ∧ (vrX = rx.vrR ∨ vrX > rx.vrR + 512) then
      { rx with tReorderingStart := 0 }
    else rx
  if rx.tReorderingStart = 0 ∧ snCompareRx rx rx.vrH rx.vrR > 0 then
    { rx with tReorderingStart := rx.tCurrent, vrX := rx.vrH }
  else rx

/-- `rlc_am_reception_actions`, with the segments that were reassembled. -/
def receptionActions (rx : AmRx) (x : ℤ) : AmRx × List RxSegment :=
  let (rx, moved) := moveToReassembly rx x
  (reorderingTimer (freeMoved rx moved), moved)

/-! ## `rlc_entity_am_recv_pdu` for a data PDU -/

/-- The loop over the LIs: their sum, and where the header ends. `none` is an LI of 0 or a header
that is cut off. An LI takes 12 bits, so the size of the buffer bounds their number. -/
def readLis : ℕ → Bool → ℕ → Decoder → Option (ℕ × Decoder)
  | _, false, sum, decoder => some (sum, decoder)
  | 0, true, _, _ => none
  | fuel + 1, true, sum, decoder => do
      let (dataE, decoder) ← decoder.getBits 1
      let (dataLi, decoder) ← decoder.getBits 11
      if dataLi = 0 then none else readLis fuel (dataE == 1) (sum + dataLi) decoder

/-- `rlc_pdu_decoder_align`, and the byte it leads to. -/
def alignedByte (decoder : Decoder) : ℕ :=
  if decoder.bit = 0 then decoder.byte else decoder.byte + 1

/-- The fields after the P bit, up to the SN. -/
structure DataHeader where
  rf : Bool
  fi : ℕ
  e : Bool
  sn : ℕ
deriving DecidableEq, Repr

def readHeader (rf : Bool) (decoder : Decoder) : Option (DataHeader × Decoder) := do
  let (fi, decoder) ← decoder.getBits 2
  let (e, decoder) ← decoder.getBits 1
  let (sn, decoder) ← decoder.getBits 10
  some ({ rf, fi, e := e == 1, sn }, decoder)

/-- From the segment offset on: the segment that is stored. `none` is a PDU that is discarded. -/
def readSegment (buffer : List UInt8) (h : DataHeader) (decoder : Decoder) : Option RxSegment := do
  let (lsf, decoder) ← if h.rf then decoder.getBits 1 else some (1, decoder)
  let (so, decoder) ← if h.rf then decoder.getBits 15 else some (0, decoder)
  let (indicatedDataSize, decoder) ← readLis buffer.length h.e 0 decoder
  let dataStart := alignedByte decoder
  if buffer.length ≤ dataStart then none
  else if indicatedDataSize ≥ buffer.length - dataStart then none
  else
    some { sn := h.sn, so, isLast := lsf == 1, data := buffer, dataOffset := dataStart }

/-- The checks of a data PDU: room in the RX buffer, the window, the header, and that the segment is
not there. -/
def acceptSegment (cfg : AmConfig) (rx : AmRx) (buffer : List UInt8) (h : DataHeader)
    (decoder : Decoder) : Option RxSegment := do
  if rx.rxSize + buffer.length > cfg.rxMaxsize then none
  else if !snInRecvWindow rx h.sn then none
  else
    let s ← readSegment buffer h decoder
    if segmentAlreadyReceived rx.rxList s.sn s.so (s.size - s.dataOffset) then none else some s

/-- The segment is put in the list. -/
def storeSegment (rx : AmRx) (s : RxSegment) : AmRx :=
  { rx with
    rxSize := rx.rxSize + s.size
    rxList := segmentListAdd (snCompareRx rx) rx.rxList s }

/-- Polled: a STATUS is triggered whether the PDU is kept or discarded. -/
def triggerStatus (p : Bool) (rx : AmRx) : AmRx :=
  if p then { rx with statusTriggered := true } else rx

/-- `rlc_entity_am_recv_pdu` for a data PDU, from the RF bit on, with the segments that were
reassembled. -/
def recvDataPdu (cfg : AmConfig) (rx : AmRx) (buffer : List UInt8) (decoder : Decoder) :
    AmRx × List RxSegment :=
  match decoder.getBits 1 with
  | none => (rx, [])
  | some (rf, decoder) =>
      match decoder.getBits 1 with
      | none => (rx, [])
      | some (p, decoder) =>
          match readHeader (rf == 1) decoder with
          | none => (triggerStatus (p == 1) rx, [])
          | some (h, decoder) =>
              match acceptSegment cfg rx buffer h decoder with
              | none => (triggerStatus (p == 1) rx, [])
              | some s =>
                  let (rx, moved) := receptionActions (storeSegment rx s) s.sn
                  (triggerStatus (p == 1) rx, moved)

/-- `rlc_entity_am_recv_pdu`, as far as it concerns the receiver: a control PDU is for the
transmitter. -/
def recvPdu (cfg : AmConfig) (rx : AmRx) (buffer : List UInt8) : AmRx × List RxSegment :=
  match (decoderInit buffer).getBits 1 with
  | none => (rx, [])
  | some (dc, decoder) => if dc = 0 then (rx, []) else recvDataPdu cfg rx buffer decoder

/-! ## Timer -/

/-- `check_t_reordering`. -/
def checkTReordering (cfg : AmConfig) (rx : AmRx) : AmRx :=
  if rx.tReorderingStart = 0 ∨ rx.tCurrent ≤ rx.tReorderingStart + cfg.tReordering then rx
  else
    let rx := { rx with tReorderingStart := 0, vrMs := skipFull rx.rxList 1024 rx.vrX }
    let rx :=
      if snCompareRx rx rx.vrH rx.vrMs > 0 then
        { rx with tReorderingStart := rx.tCurrent, vrX := rx.vrH }
      else rx
    { rx with statusTriggered := true }

/-- `rlc_entity_am_set_time`, as far as it concerns the receiver. -/
def setTime (cfg : AmConfig) (rx : AmRx) (now : ℕ) : AmRx :=
  checkTReordering cfg { rx with tCurrent := now }

end OaiCu.LteRlc
