import OaiCu.NrRlc.AmTx

/-!
# RLC AM: STATUS PDUs received (`process_control_pdu`)

The function decodes NACKs and, after each of them, goes on with the merge of
`wait_list` and `retransmit_list`. Decoding does not depend on the merge, so the
model decodes first: a PDU with a decoding error gives the NACKs before the error.

The lists are spliced in place through list heads on the stack. `Merge` keeps the
chains that exist at a given moment: the nodes from `head_wait_list` to
`prev_wait_list`, those from `cur_wait_list` on, those from `head_retransmit_list` to
`new_retransmit_list` and those from `cur_retransmit_list` on. The entity gets the new
lists at the end only; when decoding fails its pointers still are the ones to the
old heads, and it sees whatever chain these are in by then.
-/

namespace OaiCu.NrRlc

/-! ## Decoding -/

/-- A NACK as decoded: `soEnd = -1` stands for the end of the SDU. -/
structure NackBlock where
  nackSn : ℤ
  soStart : ℤ
  soEnd : ℤ
  range : ℕ
deriving DecidableEq, Repr

/-- One SN of a NACK. -/
structure Nack where
  sn : ℤ
  soStart : ℤ
  soEnd : ℤ
deriving DecidableEq, Repr

/-- The loop over the range: only the first SN has the SO start, only the last one
the SO end. -/
def NackBlock.nacks (cfg : AmConfig) (b : NackBlock) : List Nack :=
  (List.range b.range).map fun i =>
    { sn := (b.nackSn + i) % cfg.snModulus
      soStart := if i = 0 then b.soStart else 0
      soEnd := if i + 1 = b.range then b.soEnd else -1 }

/-- One NACK and the E1 bit after it. -/
def decodeNack (cfg : AmConfig) (decoder : Decoder) : Option (NackBlock × Bool × Decoder) := do
  let (nackSn, decoder) ← decoder.getBits cfg.snFieldLength
  let (e1, decoder) ← decoder.getBits 1
  let (e2, decoder) ← decoder.getBits 1
  let (e3, decoder) ← decoder.getBits 1
  let (_, decoder) ← decoder.getBits (if cfg.snFieldLength = 18 then 3 else 1)
  let (soStart, decoder) ← (if e2 = 1 then decoder.getBits 16 else some (0, decoder))
  let (soEnd, decoder) ← (if e2 = 1 then decoder.getBits 16 else some (0xffff, decoder))
  let (range, decoder) ← (if e3 = 1 then decoder.getBits 8 else some (1, decoder))
  return ({ nackSn, soStart, soEnd := if soEnd = 0xffff then -1 else soEnd, range }, e1 == 1,
    decoder)

/-- The NACKs of a STATUS PDU, and whether they were all decoded. A NACK takes at least
two bytes, so the size of the buffer bounds their number. -/
def decodeNacks (cfg : AmConfig) : ℕ → Bool → Decoder → List NackBlock × Bool
  | _, false, _ => ([], true)
  | 0, true, _ => ([], false)
  | fuel + 1, true, decoder =>
      match decodeNack cfg decoder with
      | none => ([], false)
      | some (block, e1, decoder) =>
          let (blocks, complete) := decodeNacks cfg fuel e1 decoder
          (block :: blocks, complete)

/-- A STATUS PDU as far as it could be decoded. -/
structure StatusPdu where
  ackSn : ℤ
  blocks : List NackBlock
  complete : Bool
deriving DecidableEq, Repr

/-- `none` stands for an error before the first NACK: a PDU that is too short, or a
`CPT` that is not 0. -/
def decodeStatus (cfg : AmConfig) (buffer : List UInt8) : Option StatusPdu := do
  let (_, decoder) ← (decoderInit buffer).getBits 1
  let (cpt, decoder) ← decoder.getBits 3
  if cpt ≠ 0 then none
  else
    let (ackSn, decoder) ← decoder.getBits cfg.snFieldLength
    let (e1, decoder) ← decoder.getBits 1
    let (_, decoder) ← decoder.getBits (if cfg.snFieldLength = 18 then 1 else 7)
    let (blocks, complete) := decodeNacks cfg buffer.length (e1 == 1) decoder
    return { ackSn, blocks, complete }

/-! ## The merge -/

def soOverlap (s1 e1 s2 e2 : ℤ) : Bool :=
  if s1 < s2 then decide (e1 = -1 ∨ e1 ≥ s2) else decide (e2 = -1 ∨ s1 ≤ e2)

/-- `end_wait_list`, when it is not `NULL`. -/
inductive ListPos where
  | head
  | node (addr : ℕ)
deriving DecidableEq, Repr

/-- The local variables of `process_control_pdu`, with the entity fields that change on
the way. -/
structure Merge where
  tx : AmTx
  events : List Event := []
  /-- From `head_wait_list` to `prev_wait_list`. -/
  waitFront : List Segment := []
  /-- From `cur_wait_list` on. -/
  curWait : List Segment
  /-- What follows `prev_wait_list` once `cur_wait_list` is reset before the end. -/
  waitRest : List Segment := []
  /-- From `head_retransmit_list` to `new_retransmit_list`. -/
  newRetx : List Segment := []
  /-- From `cur_retransmit_list` on. -/
  curRetx : List Segment
  /-- What follows `new_retransmit_list` once the remaining list was put there. -/
  retxRest : List Segment := []
  endWait : Option ListPos := none

def Merge.prevWait (m : Merge) : ListPos :=
  match m.waitFront.getLast? with
  | none => .head
  | some s => .node s.addr

/-- Frees an acked segment, and indicates successful delivery if the SDU is fully acked. -/
def Merge.ack (m : Merge) (s : Segment) : Merge :=
  let sdu := (m.tx.heap s.sdu).freeSegment
  let tx := m.tx.freeSduSegment s
  if sdu.isFreed then
    { m with
      tx := { tx with txSize := tx.txSize - sdu.size }
      events := m.events ++ [.sduSuccessfulDelivery sdu.upperLayerId] }
  else { m with tx }

/-- The NACK overlaps with the head of the wait list: to the retransmit list. -/
def Merge.nackWait (cfg : AmConfig) (m : Merge) (s : Segment) (next : List Segment) : Merge :=
  let (tx, events) := m.tx.countRetx cfg s
  { m with
    tx
    events := m.events ++ events
    curWait := next
    newRetx := m.newRetx ++ [s]
    endWait := if m.tx.waitEnd = some s.addr then some m.prevWait else m.endWait }

/-- The head of the wait list is acked while NACKs are processed. `wait_end` is compared
with the node that comes next. -/
def Merge.ackWait (m : Merge) (s : Segment) (next : List Segment) : Merge :=
  { m with
    curWait := next
    endWait :=
      if next.head?.map Segment.addr = m.tx.waitEnd then some m.prevWait else m.endWait }.ack s

/-- The head of the wait list is neither acked nor NACKed. -/
def Merge.skipWait (m : Merge) (s : Segment) (next : List Segment) : Merge :=
  { m with waitFront := m.waitFront ++ [s], curWait := next }

/-- `cur_wait_list = NULL`. -/
def Merge.dropWait (m : Merge) : Merge := { m with waitRest := m.curWait, curWait := [] }

/-- The head of the retransmit list stays there. -/
def Merge.keepRetx (m : Merge) (s : Segment) (next : List Segment) : Merge :=
  { m with newRetx := m.newRetx ++ [s], curRetx := next }

/-- The head of the retransmit list is acked. -/
def Merge.ackRetx (cfg : AmConfig) (m : Merge) (s : Segment) (next : List Segment) : Merge :=
  { m with
    tx := { m.tx with bstatusRetxSize := m.tx.bstatusRetxSize - pduSize cfg s }
    curRetx := next }.ack s

/-- "put the remaining retransmit list at the end of the new retransmit list". -/
def Merge.keepAllRetx (m : Merge) : Merge := { m with retxRest := m.curRetx, curRetx := [] }

/-- Where the labels of the merge lead to. -/
inductive Goto where
  | processNextPdu (m : Merge)
  | doneNack
  | listsOver (m : Merge)

/-- `process_wait_list_head`. -/
def processWaitListHead (cfg : AmConfig) (ackSn : ℤ) (nack : Nack) (m : Merge) (cur : Segment)
    (next : List Segment) : Goto :=
  let sn := m.tx.sn cur
  if sn = nack.sn ∧
      soOverlap nack.soStart nack.soEnd cur.so ((cur.so : ℤ) + cur.size - 1) = true then
    .processNextPdu (m.nackWait cfg cur next)
  else if snCompareTx cfg m.tx sn nack.sn > 0 ∨ (sn = nack.sn ∧ (cur.so : ℤ) > nack.soStart) then
    .doneNack
  else if snCompareTx cfg m.tx sn ackSn < 0 then .processNextPdu (m.ackWait cur next)
  else if snCompareTx cfg m.tx sn ackSn > 0 then .processNextPdu m.dropWait
  else .processNextPdu (m.skipWait cur next)

/-- `process_retransmit_list_head`. -/
def processRetransmitListHead (cfg : AmConfig) (ackSn : ℤ) (nack : Nack) (m : Merge)
    (cur : Segment) (next : List Segment) : Goto :=
  let sn := m.tx.sn cur
  if sn = nack.sn ∧
      soOverlap nack.soStart nack.soEnd cur.so ((cur.so : ℤ) + cur.size - 1) = true then
    .processNextPdu (m.keepRetx cur next)
  else if snCompareTx cfg m.tx sn nack.sn > 0 ∨ (sn = nack.sn ∧ (cur.so : ℤ) > nack.soStart) then
    .doneNack
  else if snCompareTx cfg m.tx sn ackSn < 0 then .processNextPdu (m.ackRetx cfg cur next)
  else if m.curWait.isEmpty then .listsOver m.keepAllRetx
  else .processNextPdu (m.keepRetx cur next)

/-- "process smallest SN either from wait_list or retransmit list": the SNs are compared
as plain numbers. -/
def waitBeforeRetx (tx : AmTx) (w r : Segment) : Prop :=
  tx.sn w < tx.sn r ∨ (tx.sn w = tx.sn r ∧ w.so < r.so)

instance (tx : AmTx) (w r : Segment) : Decidable (waitBeforeRetx tx w r) := by
  unfold waitBeforeRetx; infer_instance

/-- The code from `process_next_pdu` on, for one pass. -/
def processNextPdu (cfg : AmConfig) (ackSn : ℤ) (nack : Nack) (m : Merge) : Goto :=
  match m.curWait, m.curRetx with
  | [], [] => .listsOver m
  | [], r :: rs => processRetransmitListHead cfg ackSn nack m r rs
  | w :: ws, [] => processWaitListHead cfg ackSn nack m w ws
  | w :: ws, r :: rs =>
      if waitBeforeRetx m.tx w r then processWaitListHead cfg ackSn nack m w ws
      else processRetransmitListHead cfg ackSn nack m r rs

/-- All passes for one NACK; `true` if the lists are over. Each pass takes a node off the
lists, so there are at most as many as nodes. -/
def processNack (cfg : AmConfig) (ackSn : ℤ) (nack : Nack) : ℕ → Merge → Merge × Bool
  | 0, m => (m, true)
  | fuel + 1, m =>
      match processNextPdu cfg ackSn nack m with
      | .processNextPdu m => processNack cfg ackSn nack fuel m
      | .doneNack => (m, false)
      | .listsOver m => (m, true)

def Merge.fuel (m : Merge) : ℕ := m.curWait.length + m.curRetx.length

/-- A NACK that is not after the previous one or is above the ACK: it is skipped with all
that follow. -/
def badNack (cfg : AmConfig) (tx : AmTx) (ackSn : ℤ) (prev : Option Nack) (nack : Nack) : Bool :=
  (match prev with
    | none => false
    | some p =>
        let cmp := snCompareTx cfg tx nack.sn p.sn
        decide (cmp < 0 ∨ (cmp = 0 ∧ (p.soEnd = -1 ∨ nack.soStart ≤ p.soEnd)))) ||
    decide (snCompareTx cfg tx nack.sn ackSn > 0)

/-- How the loop over the range of a NACK is left. -/
inductive RangeExit where
  | rangeDone (prev : Option Nack)
  | listsOver (prev : Option Nack)
  | nacksDone

/-- The loop over the range of a NACK. -/
def processRange (cfg : AmConfig) (ackSn : ℤ) :
    List Nack → Option Nack → Merge → Merge × RangeExit
  | [], prev, m => (m, .rangeDone prev)
  | nack :: nacks, prev, m =>
      if badNack cfg m.tx ackSn prev nack then (m, .nacksDone)
      else
        match processNack cfg ackSn nack m.fuel m with
        | (m, true) => (m, .listsOver prev)
        | (m, false) => processRange cfg ackSn nacks (some nack) m

/-- `t_poll_retransmit` is stopped when a NACK is received for `poll_sn`. -/
def stopPollOnNack (cfg : AmConfig) (b : NackBlock) (m : Merge) : Merge :=
  if snCompareTx cfg m.tx b.nackSn m.tx.pollSn ≤ 0 ∧
      snCompareTx cfg m.tx m.tx.pollSn ((b.nackSn + b.range) % cfg.snModulus) < 0 then
    { m with tx := { m.tx with tPollRetransmitStart := 0 } }
  else m

/-- The loop over the NACKs; `true` if it was left for `nacks_done`. -/
def processNacks (cfg : AmConfig) (ackSn : ℤ) :
    List NackBlock → Option Nack → Merge → Merge × Bool
  | [], _, m => (m, false)
  | b :: blocks, prev, m =>
      match processRange cfg ackSn (b.nacks cfg) prev m with
      | (m, .nacksDone) => (m, true)
      | (m, .listsOver prev) => processNacks cfg ackSn blocks prev (stopPollOnNack cfg b m)
      | (m, .rangeDone prev) => processNacks cfg ackSn blocks prev (stopPollOnNack cfg b m)

/-! ## After the NACKs -/

/-- The head of the wait list is acked after the NACKs. -/
def Merge.ackLate (m : Merge) (s : Segment) (next : List Segment) : Merge :=
  { m with
    curWait := next
    endWait := if m.tx.waitEnd = some s.addr then some m.prevWait else m.endWait }.ack s

/-- "deal with wait list". -/
def ackWaitList (cfg : AmConfig) (ackSn : ℤ) : List Segment → Merge → Merge
  | [], m => { m with curWait := [] }
  | s :: next, m =>
      if snCompareTx cfg m.tx (m.tx.sn s) ackSn < 0 then
        ackWaitList cfg ackSn next (m.ackLate s next)
      else { m with curWait := s :: next }

/-- "deal with retransmit list". -/
def ackRetransmitList (cfg : AmConfig) (ackSn : ℤ) : List Segment → Merge → Merge
  | [], m => { m with curRetx := [] }
  | s :: next, m =>
      if snCompareTx cfg m.tx (m.tx.sn s) ackSn < 0 then
        ackRetransmitList cfg ackSn next (m.ackRetx cfg s next)
      else { m with curRetx := s :: next }

/-- `tx_next_ack` goes down to the SN of the list head, if that is smaller. -/
def lowerTxNextAck (cfg : AmConfig) (tx : AmTx) (list : List Segment) (txNextAck : ℤ) : ℤ :=
  match list with
  | [] => txNextAck
  | s :: _ => if snCompareTx cfg tx (tx.sn s) txNextAck < 0 then tx.sn s else txNextAck

/-- `tx_next_ack` after a STATUS: the smallest SN for which no positive acknowledgement
has been received. -/
def updateTxNextAck (cfg : AmConfig) (ackSn : ℤ) (tx : AmTx) : ℤ :=
  let txNextAck := lowerTxNextAck cfg tx tx.waitList tx.txNext
  let txNextAck := lowerTxNextAck cfg tx tx.retransmitList txNextAck
  if snCompareTx cfg tx ackSn txNextAck < 0 then ackSn else txNextAck

/-- The entity gets the new lists. The link from `new_retransmit_list` is set to
`cur_retransmit_list`. -/
def Merge.commit (m : Merge) : AmTx :=
  { m.tx with
    waitList := m.waitFront ++ m.curWait ++ m.waitRest
    retransmitList := m.newRetx ++ m.curRetx
    waitEnd :=
      match m.endWait with
      | none => m.tx.waitEnd
      | some .head => none
      | some (.node addr) => some addr }

/-- The code from `nacks_done` on. -/
def finishStatus (cfg : AmConfig) (ackSn : ℤ) (m : Merge) : AmTx × List Event :=
  let m := ackWaitList cfg ackSn m.curWait m
  let m := ackRetransmitList cfg ackSn m.curRetx m
  let tx := m.commit
  ({ tx with txNextAck := updateTxNextAck cfg ackSn tx }, m.events)

/-! ## A decoding error -/

/-- The list from the node at `addr` on. -/
def suffixFrom (addr : ℕ) : List Segment → Option (List Segment)
  | [] => none
  | s :: l => if s.addr = addr then some (s :: l) else suffixFrom addr l

/-- The list that a pointer of the entity leads to in the middle of the merge; `none` if
it points to a freed node. -/
def Merge.seenFrom (m : Merge) (head : Option ℕ) : Option (List Segment) :=
  match head with
  | none => some []
  | some addr =>
      (suffixFrom addr (m.waitFront ++ m.curWait ++ m.waitRest)).or
        ((suffixFrom addr (m.newRetx ++ m.retxRest)).or (suffixFrom addr m.curRetx))

/-- What a decoding error leaves behind: the entity fields and the two lists as the
unchanged pointers of the entity see them. -/
structure ErrState where
  tx : AmTx
  waitList : Option (List Segment)
  retransmitList : Option (List Segment)
  events : List Event

def Merge.err (m : Merge) : ErrState :=
  { tx := m.tx
    waitList := m.seenFrom (m.tx.waitList.head?.map Segment.addr)
    retransmitList := m.seenFrom (m.tx.retransmitList.head?.map Segment.addr)
    events := m.events }

/-! ## `process_control_pdu` -/

/-- The lists before the first NACK, with `t_poll_retransmit` stopped when an ACK is
received for `poll_sn`. -/
def startMerge (cfg : AmConfig) (ackSn : ℤ) (tx : AmTx) : Merge :=
  { tx :=
      if snCompareTx cfg tx tx.pollSn ackSn < 0 then { tx with tPollRetransmitStart := 0 }
      else tx
    curWait := tx.waitList
    curRetx := tx.retransmitList }

inductive ControlResult where
  | done (tx : AmTx) (events : List Event)
  | err (state : ErrState)

def processControlPdu (cfg : AmConfig) (tx : AmTx) (buffer : List UInt8) : ControlResult :=
  match decodeStatus cfg buffer with
  | none => .err (Merge.err { tx, curWait := tx.waitList, curRetx := tx.retransmitList })
  | some status =>
      let (m, nacksDone) :=
        processNacks cfg status.ackSn status.blocks none (startMerge cfg status.ackSn tx)
      if nacksDone || status.complete then
        let (tx, events) := finishStatus cfg status.ackSn m
        .done tx events
      else .err m.err

end OaiCu.NrRlc
