import OaiCu.LteRlc.AmRx

/-!
# LTE RLC AM: the STATUS PDU (`rlc_entity_am.c`, `rlc_pdu.c`)

`generate_status` works with three encoders on one buffer: the one at the end of the PDU, the one of
ACK_SN and the one of the last E1. The buffer is passed along, an encoder is a position in it.
-/

namespace OaiCu.LteRlc

open NrRlc (Decoder decoderInit)

/-! ## PDU encoder -/

/-- `rlc_pdu_encoder_t` without its buffer, whose length is the size. -/
structure Encoder where
  byte : ℕ := 0
  bit : ℕ := 0
deriving DecidableEq, Repr

/-- `put_bit`. `none` stands for `exit(1)`. -/
def putBit (buffer : List UInt8) (e : Encoder) (bit : Bool) : Option (List UInt8 × Encoder) :=
  match buffer[e.byte]? with
  | none => none
  | some b =>
      let mask : UInt8 := 1 <<< UInt8.ofNat (7 - e.bit)
      some (buffer.set e.byte (if bit then b ||| mask else b &&& ~~~mask),
        if e.bit + 1 = 8 then { byte := e.byte + 1, bit := 0 } else { e with bit := e.bit + 1 })

/-- `rlc_pdu_encoder_put_bits`: the `count` low bits of the `int`. -/
def putBits (buffer : List UInt8) (e : Encoder) (value : ℤ) : ℕ → Option (List UInt8 × Encoder)
  | 0 => some (buffer, e)
  | count + 1 => do
      let (buffer, e) ← putBit buffer e (decide (value / 2 ^ count % 2 = 1))
      putBits buffer e value count

/-- `rlc_pdu_encoder_align`. -/
def align (buffer : List UInt8) (e : Encoder) : Option (List UInt8 × Encoder) :=
  if e.bit = 0 then some (buffer, e) else putBits buffer e 0 (8 - e.bit)

/-! ## Missing parts -/

/-- The loop of `count_nack_missing_parts` over the segments of `sn`. -/
def countMissingFrom (sn lastByte : ℤ) (count : ℕ) : List RxSegment → ℕ
  | [] => count + 1
  | l :: next =>
      if l.sn = sn then
        let count := if (l.so : ℤ) > lastByte + 1 then count + 1 else count
        if l.isLast then count
        else countMissingFrom sn (if l.lastByte > lastByte then l.lastByte else lastByte) count next
      else count + 1

/-- `count_nack_missing_parts`: 0 if nothing was received. -/
def countNackMissingParts (list : List RxSegment) (sn : ℤ) : ℕ :=
  match fromSn sn list with
  | [] => 0
  | l :: next => countMissingFrom sn (-1) 0 (l :: next)

/-- The loop to the next segment with missing data before it. -/
def nextGap (sn lastByte : ℤ) : List RxSegment → ℤ × List RxSegment
  | [] => (lastByte, [])
  | l :: next =>
      if l.sn = sn ∧ ¬ (l.so : ℤ) > lastByte + 1 then
        nextGap sn (if l.lastByte > lastByte then l.lastByte else lastByte) next
      else (lastByte, l :: next)

/-- The SOstart and SOend of the missing parts. -/
def missingParts (sn : ℤ) : ℕ → ℤ → List RxSegment → List (ℤ × ℤ)
  | 0, _, _ => []
  | count + 1, lastByte, l =>
      match nextGap sn lastByte l with
      | (lastByte, []) => (lastByte + 1, 0x7fff) :: missingParts sn count lastByte []
      | (lastByte, s :: next) =>
          (lastByte + 1, (s.so : ℤ) - 1) :: missingParts sn count s.lastByte (s :: next)

/-! ## `generate_status` -/

/-- The local variables of the loop over the SNs. -/
structure StatusLoop where
  buffer : List UInt8
  encoder : Encoder
  previousE1 : Encoder
  bits : ℕ
  ack : ℤ

/-- The loop over the parts: NACK_SN, E1, E2 and the SOs. -/
def putParts (sn : ℤ) (s : StatusLoop) : List (ℤ × ℤ) → Option StatusLoop
  | [] => some s
  | (soStart, soEnd) :: parts => do
      let (buffer, encoder) ← putBits s.buffer s.encoder sn 10
      let previousE1 := encoder
      let (buffer, encoder) ← putBits buffer encoder (if parts = [] then 0 else 1) 1
      let (buffer, encoder) ← putBits buffer encoder 1 1
      let (buffer, encoder) ← putBits buffer encoder soStart 15
      let (buffer, encoder) ← putBits buffer encoder soEnd 15
      putParts sn { s with buffer, encoder, previousE1 } parts

/-- The NACKs of an SN that is not full. -/
def putNacks (rx : AmRx) (sn : ℤ) (s : StatusLoop) : Option StatusLoop := do
  let count := countNackMissingParts rx.rxList sn
  let (buffer, _) ← putBits s.buffer s.previousE1 1 1
  if count = 0 then
    let (buffer, encoder) ← putBits buffer s.encoder sn 10
    let previousE1 := encoder
    let (buffer, encoder) ← putBits buffer encoder 0 2
    some { s with buffer, encoder, previousE1 }
  else putParts sn { s with buffer } (missingParts sn count (-1) (fromSn sn rx.rxList))

/-- The bits that the NACKs of an SN take. -/
def nackBits (list : List RxSegment) (sn : ℤ) : ℕ :=
  if countNackMissingParts list sn = 0 then 12 else countNackMissingParts list sn * (12 + 30)

/-- The loop over the SNs from VR(R) up to VR(MS). There are 1024 SNs. -/
def statusLoop (rx : AmRx) (size : ℕ) : ℕ → ℤ → StatusLoop → Option StatusLoop
  | 0, _, s => some s
  | fuel + 1, sn, s =>
      if snCompareRx rx sn rx.vrMs < 0 then
        if segmentFull rx.rxList sn then
          statusLoop rx size fuel ((sn + 1) % 1024) { s with ack := (sn + 1) % 1024 }
        else if s.bits + nackBits rx.rxList sn > size then some s
        else do
          let s' ← putNacks rx sn s
          statusLoop rx size fuel ((sn + 1) % 1024)
            { s' with bits := s.bits + nackBits rx.rxList sn }
      else some s

/-- `generate_status`: the buffer and the size of the PDU. `none` stands for `exit(1)`. -/
def generateStatus (rx : AmRx) (buffer : List UInt8) : Option (List UInt8 × ℕ) :=
  let size := 8 * buffer.length
  if 15 > size then some (buffer, 0)
  else do
    let (buffer, encoder) ← putBits buffer {} 0 1
    let (buffer, encoder) ← putBits buffer encoder 0 3
    let encoderAck := encoder
    let (buffer, encoder) ← putBits buffer encoder 0 10
    let previousE1 := encoder
    let (buffer, encoder) ← putBits buffer encoder 0 1
    let s ← statusLoop rx size 1024 rx.vrR
      { buffer, encoder, previousE1, bits := 15, ack := rx.vrR }
    let (buffer, encoder) ← align s.buffer s.encoder
    let (buffer, _) ← putBits buffer encoderAck s.ack 10
    some (buffer, encoder.byte)

/-- What `generate_status` does to the entity. -/
def statusSent (rx : AmRx) : AmRx :=
  { rx with statusTriggered := false, tStatusProhibitStart := rx.tCurrent }

/-! ## A control PDU received -/

/-- A NACK as it is processed: `soEnd = -1` stands for the end of the PDU. -/
structure Nack where
  sn : ℕ
  soStart : ℤ
  soEnd : ℤ
deriving DecidableEq, Repr

/-- The SOs of a NACK, as `rlc_entity_am_recv_pdu` corrects them. -/
def correctedSos (soStart soEnd : ℕ) : ℤ × ℤ :=
  if soEnd < soStart then (0, -1)
  else (soStart, if soEnd = 0x7fff then -1 else soEnd)

/-- One NACK, and the E1 in it. -/
def readNack (decoder : Decoder) : Option (Nack × Bool × Decoder) := do
  let (sn, decoder) ← decoder.getBits 10
  let (e1, decoder) ← decoder.getBits 1
  let (e2, decoder) ← decoder.getBits 1
  if e2 = 1 then
    let (soStart, decoder) ← decoder.getBits 15
    let (soEnd, decoder) ← decoder.getBits 15
    some ({ sn, soStart := (correctedSos soStart soEnd).1, soEnd := (correctedSos soStart soEnd).2 },
      e1 == 1, decoder)
  else some ({ sn, soStart := 0, soEnd := -1 }, e1 == 1, decoder)

/-- The loop over the NACKs. A NACK takes more than a byte, so the size of the buffer bounds their
number. -/
def readNacks : ℕ → Bool → Decoder → Option (List Nack)
  | _, false, _ => some []
  | 0, true, _ => none
  | fuel + 1, true, decoder => do
      let (nack, e1, decoder) ← readNack decoder
      let nacks ← readNacks fuel e1 decoder
      some (nack :: nacks)

/-- The control branch of `rlc_entity_am_recv_pdu`: ACK_SN and the NACKs. They are read twice, and
nothing is processed before all of them were read. `none` is an error, or a CPT that is not 0. -/
def readControl (buffer : List UInt8) : Option (ℕ × List Nack) := do
  let (dc, decoder) ← (decoderInit buffer).getBits 1
  if dc ≠ 0 then none
  else
    let (cpt, decoder) ← decoder.getBits 3
    if cpt ≠ 0 then none
    else
      let (ackSn, decoder) ← decoder.getBits 10
      let (e1, decoder) ← decoder.getBits 1
      let nacks ← readNacks buffer.length (e1 == 1) decoder
      some (ackSn, nacks)

end OaiCu.LteRlc
