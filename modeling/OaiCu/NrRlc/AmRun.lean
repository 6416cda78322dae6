import OaiCu.Lib.Machine
import OaiCu.NrRlc.AmControl
import OaiCu.NrRlc.AmRxInv

/-!
# RLC AM: status reporting (`nr_rlc_entity_am.c`)
-/

namespace OaiCu.NrRlc

/-! ## Missing data -/

/-- `missing_data_t`: a missing part from `soStart` of `snStart` to `soEnd` of `snEnd`, and
the PDUs to look at for the next one. -/
structure Missing where
  snStart : ℤ
  soStart : ℤ
  snEnd : ℤ
  soEnd : ℤ
  next : List Pdu
deriving DecidableEq, Repr

/-- The SN before `rx_highest_status`. -/
def lastReportable (cfg : AmConfig) (rx : AmRx) : ℤ :=
  (rx.rxHighestStatus - 1 + cfg.snModulus) % cfg.snModulus

/-- `sn` is out of the reporting window. -/
def outOfReport (cfg : AmConfig) (rx : AmRx) (sn : ℤ) : Bool :=
  decide (snCompareRx cfg rx rx.rxHighestStatus sn ≤ 0)

/-- From `set_end_different_sdu` on: the missing part ends before `cur`, and not beyond
`rx_highest_status - 1`. -/
def setEndDifferentSdu (cfg : AmConfig) (rx : AmRx) (snStart soStart : ℤ) (cur : Pdu)
    (next : List Pdu) : Missing :=
  let snEnd := if cur.isFirst then (cur.sn - 1 + cfg.snModulus) % cfg.snModulus else cur.sn
  let soEnd : ℤ := if cur.isFirst then 0xffff else cur.so - 1
  if outOfReport cfg rx snEnd then
    { snStart, soStart, snEnd := lastReportable cfg rx, soEnd := 0xffff, next := [] }
  else { snStart, soStart, snEnd, soEnd, next := cur :: next }

/-- From `next_pdu` on, with the PDU `cur` and those after it. `none` if there is nothing
to report any more. -/
def nextPdu (cfg : AmConfig) (rx : AmRx) :
    ℤ → Bool → Pdu → List Pdu → Option Missing
  | maxSo, lastReached, cur, rest =>
      let maxSo := max maxSo ((cur.so : ℤ) + cur.size - 1)
      let lastReached := lastReached || cur.isLast
      match rest with
      | [] =>
          -- data already processed, or no byte missing at the end: from the next SDU on
          let snStart :=
            if cur.data.isNone || lastReached then (cur.sn + 1) % cfg.snModulus else cur.sn
          let soStart := if cur.data.isNone || lastReached then 0 else maxSo + 1
          if outOfReport cfg rx snStart then none
          else
            some { snStart, soStart, snEnd := lastReportable cfg rx, soEnd := 0xffff, next := [] }
      | next :: rest =>
          if next.sn = cur.sn ∧ maxSo ≥ (next.so : ℤ) - 1 then
            nextPdu cfg rx maxSo lastReached next rest
          else if next.sn = (cur.sn + 1) % cfg.snModulus ∧ lastReached = true ∧
              next.isFirst = true then
            nextPdu cfg rx 0 false next rest
          else if next.sn = cur.sn then
            if outOfReport cfg rx cur.sn then none
            else
              some
                { snStart := cur.sn
                  soStart := maxSo + 1
                  snEnd := cur.sn
                  soEnd := next.so - 1
                  next := next :: rest }
          else
            let snStart := if lastReached then (cur.sn + 1) % cfg.snModulus else cur.sn
            let soStart := if lastReached then 0 else maxSo + 1
            if outOfReport cfg rx snStart then none
            else some (setEndDifferentSdu cfg rx snStart soStart next rest)

/-- `next_missing`. -/
def nextMissing (cfg : AmConfig) (rx : AmRx) (cur : Pdu) (next : List Pdu) (checkHead : Bool) :
    Option Missing :=
  if checkHead = true ∧ (cur.sn ≠ rx.rxNext ∨ cur.isFirst = false) then
    if outOfReport cfg rx rx.rxNext then none
    else some (setEndDifferentSdu cfg rx rx.rxNext 0 cur next)
  else nextPdu cfg rx 0 false cur next

/-! ## NACKs -/

/-- A NACK with its range. -/
structure Range where
  snStart : ℤ
  soStart : ℤ
  snEnd : ℤ
  soEnd : ℤ
  snCount : ℕ
deriving DecidableEq, Repr

/-- SO start and SO end have to be given. -/
def Range.e2 (r : Range) : Bool := !(decide (r.soStart = 0) && decide (r.soEnd = 0xffff))

/-- A range has to be given. -/
def Range.e3 (r : Range) : Bool := !decide (r.snStart = r.snEnd)

/-- `nack_size`. -/
def nackSize (cfg : AmConfig) (r : Range) : ℕ :=
  2 + (if cfg.snFieldLength = 18 then 1 else 0) + (if r.e2 then 4 else 0) +
    (if r.e3 then 1 else 0)

/-- The encoder with the position of the last E1 bit and of the last SO end. -/
structure StatusEncoder where
  encoder : Encoder
  e1Byte : ℕ
  e1Bit : ℕ
  soEndAddress : Option ℕ

/-- `encoder->buffer[*e1_byte] |= 1 << *e1_bit`. -/
def StatusEncoder.setE1 (st : StatusEncoder) : Encoder :=
  { st.encoder with
    buffer := st.encoder.buffer.modify st.e1Byte (· ||| 1 <<< UInt8.ofNat st.e1Bit) }

/-- Serializes one NACK; its E1 bit is 0 for now, and the one before becomes 1. -/
def putNack (cfg : AmConfig) (st : StatusEncoder) (r : Range) : Except Fault StatusEncoder := do
  let encoder := st.setE1
  let e1Byte := encoder.byte + if cfg.snFieldLength = 18 then 2 else 1
  let e1Bit := if cfg.snFieldLength = 18 then 5 else 3
  let encoder ← encoder.putBits r.snStart.toNat cfg.snFieldLength
  let encoder ← encoder.putBits 0 1
  let encoder ← encoder.putBits r.e2.toNat 1
  let encoder ← encoder.putBits r.e3.toNat 1
  let encoder ← encoder.putBits 0 (if cfg.snFieldLength = 18 then 3 else 1)
  let encoder ← (if r.e2 then encoder.putBits r.soStart.toNat 16 else .ok encoder)
  let soEndAddress := if r.e2 then some encoder.byte else none
  let encoder ← (if r.e2 then encoder.putBits r.soEnd.toNat 16 else .ok encoder)
  let encoder ← (if r.e3 then encoder.putBits r.snCount 8 else .ok encoder)
  return { encoder, e1Byte, e1Bit, soEndAddress }

/-- The range that starts at `snStart`, with `snCount` SNs of the missing part left: at
most 255 SNs. -/
def Missing.range (cfg : AmConfig) (m : Missing) (snStart : ℤ) (snCount : ℕ) : Range :=
  { snStart
    soStart := if snStart = m.snStart then m.soStart else 0
    snEnd := if snCount ≤ 255 then m.snEnd else (snStart + 254) % cfg.snModulus
    soEnd := if snCount ≤ 255 then m.soEnd else 0xffff
    snCount := min snCount 255 }

/-- The loop of `generate_missing`: the encoder, the last NACK generated (-1 if none) and
whether the generation was truncated. The first argument bounds the iterations, each of
which reports an SN. -/
def generateRanges (cfg : AmConfig) (m : Missing) :
    ℕ → ℕ → ℤ → ℤ → StatusEncoder → Except Fault (StatusEncoder × ℤ × Bool)
  | 0, _, _, lastNack, st => .ok (st, lastNack, false)
  | _ + 1, 0, _, lastNack, st => .ok (st, lastNack, false)
  | fuel + 1, snCount + 1, snStart, lastNack, st => do
      let r := m.range cfg snStart (snCount + 1)
      if st.encoder.byte + nackSize cfg r > st.encoder.buffer.length then
        return (st, lastNack, true)
      let st ← putNack cfg st r
      generateRanges cfg m fuel (snCount + 1 - r.snCount)
        ((snStart + r.snCount) % cfg.snModulus)
        (if r.e3 then snStart + r.snCount - 1 else snStart) st

/-- The number of SNs of a missing part. -/
def Missing.snCount (cfg : AmConfig) (m : Missing) : ℕ :=
  ((m.snEnd - m.snStart + cfg.snModulus) % cfg.snModulus + 1).toNat

/-- `generate_missing`. -/
def generateMissing (cfg : AmConfig) (m : Missing) (st : StatusEncoder) :
    Except Fault (StatusEncoder × ℤ × Bool) :=
  generateRanges cfg m (m.snCount cfg) (m.snCount cfg) m.snStart (-1) st

/-- The SO end put last becomes "end of SDU". -/
def forceSoEnd (st : StatusEncoder) : StatusEncoder :=
  match st.soEndAddress with
  | none => st
  | some addr =>
      { st with
        encoder :=
          { st.encoder with
            buffer := (st.encoder.buffer.set addr 0xff).set (addr + 1) 0xff } }

/-- The loop of `generate_status` over the missing parts. The first call of `next_missing`
may leave the list as it is, every other one takes a PDU off it. -/
def generateNacks (cfg : AmConfig) (rx : AmRx) :
    ℕ → List Pdu → Bool → ℤ → StatusEncoder → Except Fault (StatusEncoder × ℤ)
  | 0, _, _, lastNack, st => .ok (st, lastNack)
  | _ + 1, [], _, lastNack, st => .ok (st, lastNack)
  | fuel + 1, cur :: next, checkHead, lastNack, st =>
      match nextMissing cfg rx cur next checkHead with
      | none => .ok (st, lastNack)
      | some m => do
          let (st, ln, truncated) ← generateMissing cfg m st
          let lastNack := if ln = -1 then lastNack else ln
          if truncated then generateNacks cfg rx fuel [] false lastNack (forceSoEnd st)
          else generateNacks cfg rx fuel m.next false lastNack st

/-! ## `generate_status` -/

/-- `ack_sn` goes into the first bytes. -/
def putAckSn (cfg : AmConfig) (ackSn : ℕ) (buffer : List UInt8) : List UInt8 :=
  if cfg.snFieldLength = 12 then
    (buffer.set 0 (UInt8.ofNat (ackSn / 2 ^ 8))).set 1 (UInt8.ofNat ackSn)
  else
    ((buffer.set 0 (UInt8.ofNat (ackSn / 2 ^ 14))).set 1 (UInt8.ofNat (ackSn / 2 ^ 6))).modify 2
      (· ||| UInt8.ofNat (ackSn % 2 ^ 6) <<< 2)

/-- The STATUS PDU that `generate_status` writes into `buffer`, empty if there is no room. -/
def statusPdu (cfg : AmConfig) (rx : AmRx) (buffer : List UInt8) :
    Except Fault (List UInt8) := do
  if buffer.length < 3 then
    return []
  let encoder ← (encoderInit buffer).putBits 0 24
  let (st, lastNack) ← generateNacks cfg rx (rx.rxList.length + 1) rx.rxList true
    ((rx.rxNext - 1 + cfg.snModulus) % cfg.snModulus)
    { encoder
      e1Byte := 2
      e1Bit := if cfg.snFieldLength = 18 then 1 else 7
      soEndAddress := none }
  let ackSn := (lastNack + 1) % cfg.snModulus
  return (putAckSn cfg ackSn.toNat st.encoder.buffer).take st.encoder.byte

/-- `generate_status`: the trigger is reset and `t_status_prohibit` started. -/
def generateStatus (cfg : AmConfig) (tCurrent : ℕ) (rx : AmRx) (buffer : List UInt8) :
    Except Fault (AmRx × List UInt8) := do
  let pdu ← statusPdu cfg rx buffer
  if pdu.isEmpty then return (rx, [])
  else return ({ rx with statusTriggered := false, tStatusProhibitStart := tCurrent }, pdu)

/-- `status_to_report`; the times are unsigned 64-bit numbers. -/
def statusToReport (cfg : AmConfig) (tCurrent : ℕ) (rx : AmRx) : Bool :=
  rx.statusTriggered &&
    (rx.tStatusProhibitStart == 0 ||
      decide ((tCurrent + 2 ^ 64 - rx.tStatusProhibitStart) % 2 ^ 64 > cfg.tStatusProhibit))

/-!
## RLC AM: the entity as a machine

The functions of `nr_rlc_entity_t` that an AM entity implements, as the calls of one
machine.
-/

/-! ## The calls -/

/-- The part of `process_control_pdu` that is seen from outside. A decoding error may leave
the lists of the entity in pieces. As long as its two pointers lead to lists of their own
the entity goes on with these; else the next call that walks a list goes wrong, and the
run ends here. -/
def recvControlPdu (cfg : AmConfig) (tx : AmTx) (buffer : List UInt8) :
    Except Fault (AmTx × List Event) :=
  match processControlPdu cfg tx buffer with
  | .done tx events => .ok (tx, events)
  | .err state =>
      match state.waitList, state.retransmitList with
      | some waitList, some retransmitList =>
          if ((waitList ++ retransmitList).map Segment.addr).Nodup then
            .ok ({ state.tx with waitList, retransmitList }, state.events)
          else .error .sharedNode
      | _, _ => .error .freedNode

/-- `nr_rlc_entity_am_recv_pdu`. -/
def amRecvPdu (e : AmEntity) (buffer : List UInt8) : Except Fault (AmEntity × List Event) :=
  match (decoderInit buffer).getBits 1 with
  | none => .ok (e, [])
  | some (dc, decoder) =>
      if dc = 0 then do
        let (tx, events) ← recvControlPdu e.cfg e.tx buffer
        return ({ e with tx }, events)
      else
        let (rx, events) := recvDataPdu e.cfg e.tCurrent e.rx decoder
        .ok ({ e with rx }, events)

/-- The PDU of `nr_rlc_entity_am_generate_pdu` if it is not a STATUS PDU. -/
def generateDataPdu (cfg : AmConfig) (tCurrent : ℕ) (tx : AmTx) (buffer : List UInt8) :
    Except Fault (AmTx × List UInt8) :=
  match tx.retransmitList with
  | [] => generateTxPdu cfg tCurrent tx buffer
  | sdu :: next => do
      let (tx, pdu) ← generateRetxPdu cfg tCurrent tx sdu next buffer
      if pdu.isEmpty then generateTxPdu cfg tCurrent tx buffer
      else return (tx, pdu)

/-- The STATUS PDU of `nr_rlc_entity_am_generate_pdu`, if there is one. -/
def generateStatusPdu (cfg : AmConfig) (tCurrent : ℕ) (rx : AmRx) (buffer : List UInt8) :
    Except Fault (AmRx × List UInt8) :=
  if statusToReport cfg tCurrent rx then generateStatus cfg tCurrent rx buffer
  else .ok (rx, [])

/-- `nr_rlc_entity_am_generate_pdu`. -/
def amGeneratePdu (e : AmEntity) (buffer : List UInt8) :
    Except Fault (AmEntity × List UInt8) := do
  let (rx, pdu) ← generateStatusPdu e.cfg e.tCurrent e.rx buffer
  if pdu.isEmpty then
    let (tx, pdu) ← generateDataPdu e.cfg e.tCurrent e.tx buffer
    return ({ e with rx, tx }, pdu)
  else return ({ e with rx }, pdu)

/-- `nr_rlc_entity_am_set_time`. -/
def amSetTime (e : AmEntity) (now : ℕ) : Except Fault (AmEntity × List Event) := do
  let (tx, events) ← checkTPollRetransmit e.cfg now e.tx
  return ({ e with tCurrent := now, tx, rx := checkTReassembly e.cfg now e.rx }, events)

/-- `nr_rlc_entity_am_reestablishment`. -/
def amReestablishment (e : AmEntity) : AmEntity :=
  { e with tCurrent := 0, rx := {}, tx := clearTx e.tx }

/-- What one call does to the entity and what its environment sees of it. -/
def amStep (e : AmEntity) : Op → Except Fault (AmEntity × List Event)
  | .recvPdu buffer => amRecvPdu e buffer
  | .recvSdu buffer sduId => do
      let tx ← recvSdu e.cfg e.tCurrent e.tx buffer sduId
      return ({ e with tx }, [])
  | .generatePdu buffer => do
      let (e, pdu) ← amGeneratePdu e buffer
      return (e, if pdu.isEmpty then [] else [.sendPdu pdu])
  | .setTime now => amSetTime e now.toNat
  | .discardSdu sduId => .ok ({ e with tx := discardSdu e.cfg e.tx sduId }, [])
  | .reestablishment => .ok (amReestablishment e, [])

/-- A sequence of calls. -/
def amRun : AmEntity → List Op → Except Fault (AmEntity × List Event) := Machine.run amStep

/-! ## What a call does to the receiver -/

/-- The fields of a data PDU; `none` for a control PDU and for a PDU that is discarded
unseen. -/
def decodeDataPdu (cfg : AmConfig) (buffer : List UInt8) : Option DataPdu := do
  let (dc, decoder) ← (decoderInit buffer).getBits 1
  if dc = 0 then none
  else
    let (_, decoder) ← decoder.getBits 1
    decodeDataFields cfg decoder

theorem decodeDataPdu_wf {cfg : AmConfig} {buffer : List UInt8} {f : DataPdu}
    (h : decodeDataPdu cfg buffer = some f) : f.WF cfg := by
  unfold decodeDataPdu at h
  obtain ⟨⟨dc, d⟩, -, h⟩ := Option.bind_eq_some_iff.mp h
  simp only at h
  split at h
  · cases h
  · obtain ⟨⟨p, d'⟩, -, h⟩ := Option.bind_eq_some_iff.mp h
    exact decodeDataFields_wf h

section Receiver

variable {e e' : AmEntity} {op : Op} {events : List Event}

theorem ok_pair {α β : Type*} {ε : Type*} {a a' : α} {b b' : β}
    (h : (Except.ok (a, b) : Except ε (α × β)) = .ok (a', b')) : a = a' ∧ b = b' := by
  injection h with h
  injection h with h1 h2
  exact ⟨h1, h2⟩

/-- `generate_status` resets the trigger and starts the prohibit timer, no more. -/
theorem rx_generateStatusPdu {cfg : AmConfig} {t : ℕ} {rx rx' : AmRx} {buffer pdu : List UInt8}
    (h : generateStatusPdu cfg t rx buffer = .ok (rx', pdu)) :
    ∃ triggered start,
      rx' = { rx with statusTriggered := triggered, tStatusProhibitStart := start } := by
  unfold generateStatusPdu at h
  split at h
  · unfold generateStatus at h
    obtain ⟨pdu', -, h⟩ := Machine.bind_ok h
    split at h
    · obtain ⟨rfl, -⟩ := ok_pair h
      exact ⟨_, _, rfl⟩
    · obtain ⟨rfl, -⟩ := ok_pair h
      exact ⟨_, _, rfl⟩
  · obtain ⟨rfl, -⟩ := ok_pair h
    exact ⟨_, _, rfl⟩

theorem amGeneratePdu_rx {buffer pdu : List UInt8}
    (h : amGeneratePdu e buffer = .ok (e', pdu)) :
    e'.cfg = e.cfg ∧ ∃ triggered start,
      e'.rx = { e.rx with statusTriggered := triggered, tStatusProhibitStart := start } := by
  unfold amGeneratePdu at h
  obtain ⟨⟨rx, pdu₁⟩, hst, h⟩ := Machine.bind_ok h
  simp only at h
  split at h
  · obtain ⟨⟨tx, pdu₂⟩, -, h⟩ := Machine.bind_ok h
    obtain ⟨rfl, -⟩ := ok_pair h
    exact ⟨rfl, rx_generateStatusPdu hst⟩
  · obtain ⟨rfl, -⟩ := ok_pair h
    exact ⟨rfl, rx_generateStatusPdu hst⟩

/-- The receiver changes in a call in one of four ways. -/
theorem amStep_rx (h : amStep e op = .ok (e', events)) :
    e'.cfg = e.cfg ∧
      ((∃ triggered start,
          e'.rx = { e.rx with statusTriggered := triggered, tStatusProhibitStart := start }) ∨
        (∃ buffer p f, op = .recvPdu buffer ∧ decodeDataPdu e.cfg buffer = some f ∧
          accepted e.cfg e.rx f = true ∧
          e'.rx = triggerStatus p
            (receptionActions e.cfg e.tCurrent (storePdu e.cfg e.rx f) f.sn).1 ∧
          events = (receptionActions e.cfg e.tCurrent (storePdu e.cfg e.rx f) f.sn).2) ∨
        (∃ now, op = .setTime now ∧ e'.rx = checkTReassembly e.cfg now.toNat e.rx) ∨
        e'.rx = {}) := by
  cases op with
  | recvPdu buffer =>
      simp only [amStep, amRecvPdu] at h
      split at h
      · obtain ⟨rfl, -⟩ := ok_pair h
        exact ⟨rfl, .inl ⟨_, _, rfl⟩⟩
      · rename_i dc decoder hbit
        split at h
        · obtain ⟨⟨tx, ev⟩, -, h⟩ := Machine.bind_ok h
          obtain ⟨rfl, -⟩ := ok_pair h
          exact ⟨rfl, .inl ⟨_, _, rfl⟩⟩
        · rename_i hdc
          obtain ⟨⟨rx', ev⟩, hrecv⟩ :
              ∃ res, recvDataPdu e.cfg e.tCurrent e.rx decoder = res := ⟨_, rfl⟩
          rw [hrecv] at h
          obtain ⟨rfl, rfl⟩ := ok_pair h
          refine ⟨rfl, ?_⟩
          rcases recvDataPdu_cases hrecv with
            ⟨-, b, hrx⟩ | ⟨p, d, f, hp, hf, hacc, hrx, hev⟩
          · exact .inl ⟨b, _, hrx⟩
          · refine .inr (.inl ⟨buffer, _, f, rfl, ?_, hacc, hrx, hev⟩)
            simp only [decodeDataPdu, hbit, Option.bind_eq_bind, Option.bind_some, if_neg hdc, hp,
              hf]
  | recvSdu buffer sduId =>
      obtain ⟨tx, -, h⟩ := Machine.bind_ok h
      obtain ⟨rfl, -⟩ := ok_pair h
      exact ⟨rfl, .inl ⟨_, _, rfl⟩⟩
  | generatePdu buffer =>
      obtain ⟨⟨e₁, pdu⟩, hg, h⟩ := Machine.bind_ok h
      obtain ⟨rfl, -⟩ := ok_pair h
      exact ⟨(amGeneratePdu_rx hg).1, .inl (amGeneratePdu_rx hg).2⟩
  | setTime now =>
      simp only [amStep, amSetTime] at h
      obtain ⟨⟨tx, ev⟩, -, h⟩ := Machine.bind_ok h
      obtain ⟨rfl, -⟩ := ok_pair h
      exact ⟨rfl, .inr (.inr (.inl ⟨now, rfl, rfl⟩))⟩
  | discardSdu sduId =>
      obtain ⟨rfl, -⟩ := ok_pair h
      exact ⟨rfl, .inl ⟨_, _, rfl⟩⟩
  | reestablishment =>
      obtain ⟨rfl, -⟩ := ok_pair h
      exact ⟨rfl, .inr (.inr (.inr rfl))⟩

/-- **The receive window under any call.** -/
theorem inv_amStep (hI : e.rx.Inv e.cfg) (h : amStep e op = .ok (e', events)) :
    e'.rx.Inv e'.cfg := by
  obtain ⟨hcfg, ⟨b, t, hrx⟩ | ⟨buffer, p, f, -, hf, hacc, hrx, -⟩ | ⟨now, -, hrx⟩ | hrx⟩ :=
    amStep_rx h
  · rw [hcfg, hrx]
    exact ⟨{ hI.toOrderInv with }, hI.undelivered, hI.trigger⟩
  · rw [hcfg, hrx]
    exact inv_accepted hI (decodeDataPdu_wf hf) hacc e.tCurrent p
  · rw [hcfg, hrx]
    exact inv_checkTReassembly hI _
  · rw [hrx]
    exact inv_init

end Receiver

/-! ## An entity that only receives

Without SDUs to send the transmitter has nothing to do: no call can go wrong, whatever the
control PDUs say. -/

/-- Nothing is to be sent, nothing was sent. -/
structure AmTx.Idle (tx : AmTx) : Prop where
  waitList : tx.waitList = []
  retransmitList : tx.retransmitList = []
  timer : tx.tPollRetransmitStart = 0

/-- A merge of empty lists. -/
structure Merge.Idle (m : Merge) : Prop where
  tx : m.tx.Idle
  events : m.events = []
  waitFront : m.waitFront = []
  curWait : m.curWait = []
  waitRest : m.waitRest = []
  newRetx : m.newRetx = []
  curRetx : m.curRetx = []
  retxRest : m.retxRest = []

section Idle

variable {cfg : AmConfig} {ackSn : ℤ} {m : Merge}

theorem idle_processRange (h : m.Idle) (nacks : List Nack) (prev : Option Nack) :
    (processRange cfg ackSn nacks prev m).1 = m := by
  cases nacks with
  | nil => rfl
  | cons nack nacks =>
      rw [processRange]
      split
      · rfl
      · have : processNack cfg ackSn nack m.fuel m = (m, true) := by
          simp [Merge.fuel, h.curWait, h.curRetx, processNack]
        rw [this]

theorem idle_stopPollOnNack (h : m.Idle) (b : NackBlock) : (stopPollOnNack cfg b m).Idle := by
  unfold stopPollOnNack
  split
  · exact { h with tx := { h.tx with timer := rfl } }
  · exact h

theorem idle_processNacks (h : m.Idle) (blocks : List NackBlock) (prev : Option Nack) :
    (processNacks cfg ackSn blocks prev m).1.Idle := by
  induction blocks generalizing m prev with
  | nil => exact h
  | cons b blocks ih =>
      have hm := @idle_processRange cfg ackSn m h (b.nacks cfg) prev
      rw [processNacks]
      split <;> rename_i hr <;> rw [hr] at hm <;> subst hm
      · exact h
      · exact ih (idle_stopPollOnNack h b) _
      · exact ih (idle_stopPollOnNack h b) _

theorem idle_finishStatus (h : m.Idle) :
    (finishStatus cfg ackSn m).1.Idle ∧ (finishStatus cfg ackSn m).2 = [] := by
  simp only [finishStatus, h.curWait, ackWaitList, h.curRetx, ackRetransmitList, Merge.commit,
    h.waitFront, h.waitRest, h.newRetx]
  exact ⟨⟨rfl, rfl, h.tx.timer⟩, h.events⟩

theorem idle_err (h : m.Idle) :
    m.err.tx.Idle ∧ m.err.waitList = some [] ∧ m.err.retransmitList = some [] ∧
      m.err.events = [] := by
  refine ⟨h.tx, ?_, ?_, h.events⟩
  · simp [Merge.err, h.tx.waitList, Merge.seenFrom]
  · simp [Merge.err, h.tx.retransmitList, Merge.seenFrom]

theorem idle_startMerge {tx : AmTx} (h : tx.Idle) : (startMerge cfg ackSn tx).Idle := by
  refine ⟨?_, rfl, rfl, h.waitList, rfl, rfl, h.retransmitList, rfl⟩
  simp only [startMerge]
  split
  · exact { h with timer := rfl }
  · exact h

theorem recvControlPdu_idle {tx : AmTx} (h : tx.Idle) (buffer : List UInt8) :
    ∃ tx', recvControlPdu cfg tx buffer = .ok (tx', []) ∧ tx'.Idle := by
  have herr : ∀ {m : Merge}, m.Idle → processControlPdu cfg tx buffer = .err m.err →
      ∃ tx', recvControlPdu cfg tx buffer = .ok (tx', []) ∧ tx'.Idle := by
    intro m hm hp
    obtain ⟨htx, hw, hr, hev⟩ := idle_err hm
    refine ⟨{ m.err.tx with waitList := [], retransmitList := [] }, ?_, { htx with
      waitList := rfl
      retransmitList := rfl }⟩
    simp [recvControlPdu, hp, hw, hr, hev]
  cases hd : decodeStatus cfg buffer with
  | none =>
      exact @herr { tx, curWait := tx.waitList, curRetx := tx.retransmitList }
        ⟨h, rfl, rfl, h.waitList, rfl, rfl, h.retransmitList, rfl⟩
        (by simp only [processControlPdu, hd])
  | some status =>
      have hm := @idle_processNacks cfg status.ackSn _ (@idle_startMerge cfg status.ackSn tx h)
        status.blocks none
      by_cases hdone : ((processNacks cfg status.ackSn status.blocks none
          (startMerge cfg status.ackSn tx)).2 || status.complete) = true
      · obtain ⟨htx, hev⟩ := @idle_finishStatus cfg status.ackSn _ hm
        refine ⟨_, ?_, htx⟩
        simp only [recvControlPdu, processControlPdu, hd, if_pos hdone, hev]
      · exact herr hm (by simp only [processControlPdu, hd, if_neg hdone])

end Idle

/-- A call on an entity that only receives returns. -/
theorem amStep_idle {e : AmEntity} (h : e.tx.Idle) (op : RxOp) :
    ∃ e' events, amStep e op.op = .ok (e', events) ∧ e'.tx.Idle := by
  cases op with
  | recvPdu buffer =>
      simp only [RxOp.op, amStep, amRecvPdu]
      split
      · exact ⟨e, [], rfl, h⟩
      · split
        · obtain ⟨tx', hp, htx⟩ := @recvControlPdu_idle e.cfg e.tx h buffer
          exact ⟨{ e with tx := tx' }, [], by rw [hp]; rfl, htx⟩
        · exact ⟨_, _, rfl, h⟩
  | setTime now =>
      have ht : checkTPollRetransmit e.cfg now.toNat e.tx = .ok (e.tx, []) := by
        simp [checkTPollRetransmit, timerExpired, h.timer]
      refine ⟨{ e with
        tCurrent := now.toNat
        rx := checkTReassembly e.cfg now.toNat e.rx }, [], ?_, h⟩
      simp only [RxOp.op, amStep, amSetTime, ht]
      rfl

/-- Every sequence of PDUs and times has a run, and what every call keeps holds at its
end. -/
theorem amRun_rxOps {I : AmEntity → Prop} {cfg : AmConfig} (hinit : I (newAmEntity cfg))
    (hstep : ∀ {e e' : AmEntity} {op : RxOp} {events : List Event}, e.rx.Inv e.cfg → I e →
      amStep e op.op = .ok (e', events) → I e') (ops : List RxOp) :
    ∃ e events, amRun (newAmEntity cfg) (ops.map RxOp.op) = .ok (e, events) ∧ e.cfg = cfg ∧
      e.rx.Inv cfg ∧ I e := by
  obtain ⟨e, events, hrun, hcfg, -, hinv, hI⟩ := @Machine.run_total _ _ _ _
    (fun e op => amStep e (RxOp.op op))
    (fun e => e.cfg = cfg ∧ e.tx.Idle ∧ e.rx.Inv e.cfg ∧ I e)
    (fun e op ⟨hcfg, htx, hinv, hI⟩ => by
      obtain ⟨e', events, hs, htx'⟩ := amStep_idle htx op
      exact ⟨e', events, hs, (amStep_rx hs).1.trans hcfg, htx', inv_amStep hinv hs,
        hstep hinv hI hs⟩)
    ops (newAmEntity cfg) ⟨rfl, ⟨rfl, rfl, rfl⟩, inv_init, hinit⟩
  refine ⟨e, events, ?_, hcfg, hcfg ▸ hinv, hI⟩
  rw [amRun, Machine.run_map, hrun]

/-- **The receive window.** Whatever is received, with SNs taken relative to `rx_next`:
`rx_next <= rx_highest_status <= rx_next_highest <= rx_next + window_size`, the SDU of
`rx_highest_status` is not delivered, `rx_list` is sorted and lies between `rx_next` and
`rx_next_highest`, and the trigger of a running `t_reassembly` is above `rx_next` and in the
window. -/
theorem receive_window (cfg : AmConfig) (ops : List RxOp) :
    ∃ e events, amRun (newAmEntity cfg) (ops.map RxOp.op) = .ok (e, events) ∧
      let rel := Serial.rel cfg.snModulus e.rx.rxNext
      rel e.rx.rxHighestStatus ≤ rel e.rx.rxNextHighest ∧
      rel e.rx.rxNextHighest ≤ cfg.windowSize ∧
      sduDelivered e.rx.rxList e.rx.rxHighestStatus = false ∧
      (∀ p ∈ e.rx.rxList, 0 ≤ p.sn ∧ p.sn < cfg.snModulus ∧ rel p.sn < rel e.rx.rxNextHighest) ∧
      e.rx.rxList.Pairwise (posLe cfg.snModulus e.rx.rxNext) ∧
      (e.rx.tReassemblyStart ≠ 0 →
        0 < rel e.rx.rxNextStatusTrigger ∧ rel e.rx.rxNextStatusTrigger ≤ cfg.windowSize) := by
  obtain ⟨e, events, hrun, -, hinv, -⟩ :=
    @amRun_rxOps (fun _ => True) cfg trivial (fun _ _ _ => trivial) ops
  refine ⟨e, events, hrun, hinv.highestStatus_le, hinv.nextHighest_le, hinv.undelivered, ?_,
    hinv.sorted, ?_⟩
  · intro p hp
    exact ⟨(hinv.mem_range p hp).1, (hinv.mem_range p hp).2, hinv.mem_lt p hp⟩
  · intro ht
    exact ⟨(hinv.trigger ht).1, (hinv.trigger ht).2.trans hinv.nextHighest_le⟩

end OaiCu.NrRlc
