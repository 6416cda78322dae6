import OaiCu.OduRlc.AmUl
import Mathlib.Data.List.DropRight

/-!
# O-DU RLC AM downlink: the transmission buffers and the STATUS (`rlc_amm_dl.c`)

What was sent and is not acknowledged waits in `txBufLst`, by SN, until it is acknowledged or
reported missing; then it goes to `retxLst`, which is ordered by SN. `rlcAmmDlHndlStatusPdu`
walks both with the NACKs of a STATUS.

A pointer to an SDU is its place in `sdus`, and a pointer to a node of `retxLst` is the SN and
the offset of the node; an access through a pointer to nothing is `none`. The buffer occupancy of
new data and the estimate of the header sizes are left out: nothing here depends on them.
-/

namespace OaiCu.OduRlc

def KWU_MAX_DAT_CFM : ℕ := 1024

def RLC_MAX_PDU : ℕ := 16
def RLC_MAX_NEW_DL_PDU : ℕ := 16

def RLC_SI_FIRST_SEG : ℕ := 0x01
def RLC_SI_LAST_SEG : ℕ := 0x02
def RLC_SI_MID_SEG : ℕ := 0x03

/-- `RLC_AM_GET_WIN_SZ`. -/
def SnLen.winSz : SnLen → ℕ
  | .bits12 => 2048
  | .bits18 => 131072

/-- `RlcAmHdr`. -/
structure RlcAmHdr where
  p : Bool := false
  si : ℕ := 0
  sn : ℕ
  so : ℕ := 0
deriving DecidableEq, Repr

/-- `RlcSduMap`: how many bytes of which SDU. -/
structure RlcSduMap where
  sduSz : ℕ
  sdu : ℕ
deriving DecidableEq, Repr

/-- `RlcDlPduInfo`: a PDU that was sent once. -/
structure RlcDlPduInfo where
  pduSz : ℕ
  hdrSz : ℕ
  amHdr : RlcAmHdr
  sduMap : RlcSduMap
deriving DecidableEq, Repr

/-- `RlcRetx`: a PDU that was reported missing, or is sent again for the poll. -/
structure RlcRetx where
  segSz : ℕ
  hdrSz : ℕ
  amHdr : RlcAmHdr
  soEnd : ℕ
  retxCnt : ℕ
  pendingReTrans : Bool
  sduMap : RlcSduMap
deriving DecidableEq, Repr

/-- `RlcSdu`. `sduSz` is the size of what is not sent yet. -/
structure RlcSdu where
  sduId : ℕ := 0
  actSz : ℕ := 0
  sduSz : ℕ := 0
  rcvdSz : ℕ := 0
  isSegmented : Bool := false
  sn : ℕ := 0
deriving DecidableEq, Repr

/-- A pointer to the node. -/
def RlcRetx.key (retx : RlcRetx) : ℕ × ℕ := (retx.amHdr.sn, retx.amHdr.so)

/-- `RlcAmDl`. Of `sduQ` only the part from `nxtTx` on is kept; the SDUs in front of it are
sent and wait for their acknowledgement. `pollRetxTmr` says whether the timer runs. -/
structure RlcAmDl where
  snLen : SnLen
  maxRetx : ℕ
  pollPdu : ℤ := -1
  pollByte : ℤ := -1
  sdus : ℕ → RlcSdu := fun _ => {}
  numSdu : ℕ := 0
  sduQ : List ℕ := []
  txBufLst : ℕ → Option (List RlcDlPduInfo) := fun _ => none
  retxLst : List RlcRetx := []
  nxtRetx : Option (ℕ × ℕ) := none
  retxBo : ℤ := 0
  pollRetxTmr : Bool := false
  pollSn : ℕ := 0
  pduWoPoll : ℤ := 0
  byteWoPoll : ℤ := 0
  txNext : ℕ := 0
  txNextAck : ℕ := 0
  maxReTxReached : Bool := false
  /-- The confirmation under construction and those sent to PDCP. -/
  datCfm : List ℕ := []
  kwuDatCfm : List (List ℕ) := []

/-- `RlcUdxStaPdu`; `nackCnt` is the length of the list. -/
structure RlcUdxStaPdu where
  ackSn : ℕ
  nackInfo : List RlcNackInfo
deriving DecidableEq, Repr

/-- `MODAMT`. -/
def modamt (x z mask : ℕ) : ℕ := modamr x z mask

namespace RlcAmDl

/-- The SN relative to `txNextAck`. -/
def pos (amDl : RlcAmDl) (sn : ℕ) : ℕ := modamt sn amDl.txNextAck amDl.snLen.snModMask

def nextSn (amDl : RlcAmDl) (sn : ℕ) : ℕ := (sn + 1) &&& amDl.snLen.snModMask

/-- `RLC_AM_IS_TRANS_WIN_STALLED`. -/
def transWinStalled (amDl : RlcAmDl) : Bool := amDl.snLen.winSz ≤ amDl.pos amDl.txNext

end RlcAmDl

/-- The end of a sent PDU, computed on 32 bits. -/
def RlcDlPduInfo.pduSoEnd (pduInfo : RlcDlPduInfo) : ℕ :=
  (pduInfo.amHdr.so + pduInfo.sduMap.sduSz + 2 ^ 32 - 1) % 2 ^ 32

/-- The state of `rlcAmmDlHndlStatusPdu`. While it runs `retxLst` is kept here, as the nodes
in front of `retxNode` and those from `retxNode` on. -/
structure StaProc where
  amDl : RlcAmDl
  passed : List RlcRetx := []
  ahead : List RlcRetx

namespace StaProc

/-- The SDU id goes to the confirmation; a full one is sent first. -/
def confirm (c : StaProc) (sduId : ℕ) : StaProc :=
  if c.amDl.datCfm.length < KWU_MAX_DAT_CFM then
    { c with amDl := { c.amDl with datCfm := c.amDl.datCfm ++ [sduId] } }
  else
    { c with amDl := { c.amDl with
      datCfm := [sduId]
      kwuDatCfm := c.amDl.kwuDatCfm ++ [c.amDl.datCfm] } }

def rlcAmmDlCheckIsSDUDelivered (c : StaProc) (sduMap : RlcSduMap) : StaProc :=
  let sdu := c.amDl.sdus sduMap.sdu
  let sdu := { sdu with rcvdSz := sdu.rcvdSz + sduMap.sduSz }
  let c := { c with amDl := { c.amDl with sdus := Function.update c.amDl.sdus sduMap.sdu sdu } }
  if sdu.rcvdSz = sdu.actSz then c.confirm sdu.sduId else c

end StaProc

/-- The node that `rlcAmmDlMoveSduByteSegFrmTxtoRetxBuffer` makes of a sent PDU. -/
def RlcDlPduInfo.toRetx (pduInfo : RlcDlPduInfo) : RlcRetx where
  segSz := pduInfo.pduSz
  hdrSz := pduInfo.hdrSz
  amHdr := pduInfo.amHdr
  soEnd := (pduInfo.amHdr.so + pduInfo.pduSz + 2 ^ 16 - 1) % 2 ^ 16
  retxCnt := 1
  pendingReTrans := true
  sduMap := pduInfo.sduMap

/-- The new node goes behind the last one that is not after it by SN. The result is cut behind
the new node. -/
def rlcAmmAddPduToRetxLst (amDl : RlcAmDl) (retx : RlcRetx) (retxLst : List RlcRetx) :
    List RlcRetx × List RlcRetx :=
  let after (t : RlcRetx) := decide (amDl.pos retx.amHdr.sn < amDl.pos t.amHdr.sn)
  (retxLst.rdropWhile after ++ [retx], retxLst.rtakeWhile after)

/-- A PDU that was sent is put in the retransmission list, and `retxNode` behind it. In the
source `retxNode` is only set after the last of the PDUs of an SN. -/
def rlcAmmDlMoveSduByteSegFrmTxtoRetxBuffer (pduInfo : RlcDlPduInfo) (c : StaProc) : StaProc :=
  let retx := pduInfo.toRetx
  let (passed, ahead) := rlcAmmAddPduToRetxLst c.amDl retx (c.passed ++ c.ahead)
  { amDl := { c.amDl with
      nxtRetx := c.amDl.nxtRetx.or (some retx.key)
      retxBo := c.amDl.retxBo + retx.segSz }
    passed := passed
    ahead := ahead }

namespace RlcAmDl

def setTxBuf (amDl : RlcAmDl) (sn : ℕ) (txBuf : Option (List RlcDlPduInfo)) : RlcAmDl :=
  { amDl with txBufLst := Function.update amDl.txBufLst sn txBuf }

end RlcAmDl

namespace StaProc

def setTxBuf (c : StaProc) (sn : ℕ) (txBuf : Option (List RlcDlPduInfo)) : StaProc :=
  { c with amDl := c.amDl.setTxBuf sn txBuf }

end StaProc

/-- The loop over the PDUs of an SN that is partly missing. The result has the PDUs that stay;
`moved` says whether `retx` was set. -/
def hndlStatusSegs (nackSnInfo : RlcNackInfo) :
    List RlcDlPduInfo → StaProc → Bool → List RlcDlPduInfo × StaProc × Bool
  | [], c, moved => ([], c, moved)
  | pduInfo :: pduLst, c, moved =>
    if pduInfo.pduSoEnd < nackSnInfo.soStart then
      hndlStatusSegs nackSnInfo pduLst (c.rlcAmmDlCheckIsSDUDelivered pduInfo.sduMap) moved
    else if pduInfo.pduSoEnd ≤ nackSnInfo.soEnd then
      hndlStatusSegs nackSnInfo pduLst (rlcAmmDlMoveSduByteSegFrmTxtoRetxBuffer pduInfo c) true
    else
      let (kept, c, moved) := hndlStatusSegs nackSnInfo pduLst c moved
      (pduInfo :: kept, c, moved)

def rlcAmmDlHndlStatus4SduByteSegInTxBuf (nackSnInfo : RlcNackInfo) (pduLst : List RlcDlPduInfo)
    (c : StaProc) : StaProc × Bool :=
  let (kept, c, moved) := hndlStatusSegs nackSnInfo pduLst c false
  (c.setTxBuf nackSnInfo.sn (if kept = [] then none else some kept), moved)

/-- All PDUs of an SN go to the retransmission list. -/
def rlcAmmDlMoveFrmTxtoRetxBuffer (sn : ℕ) (pduLst : List RlcDlPduInfo) (c : StaProc) :
    StaProc × Bool :=
  ((pduLst.foldl (fun c pduInfo => rlcAmmDlMoveSduByteSegFrmTxtoRetxBuffer pduInfo c) c).setTxBuf
    sn none, pduLst ≠ [])

/-- The node at `retxNode` leaves the list, which is otherwise `passed` and `ahead`. -/
def rlcRemRetxPdu (retx : RlcRetx) (ahead : List RlcRetx) (c : StaProc) : StaProc :=
  { c with
    amDl := { c.amDl with
      nxtRetx := if c.passed ++ ahead = [] then none else c.amDl.nxtRetx
      retxBo := if retx.pendingReTrans then c.amDl.retxBo - retx.segSz else c.amDl.retxBo }
    ahead := ahead }

def rlcAmmDlProcessSuccessfulReTx (retx : RlcRetx) (ahead : List RlcRetx) (c : StaProc) :
    StaProc :=
  rlcRemRetxPdu retx ahead (c.rlcAmmDlCheckIsSDUDelivered retx.sduMap)

/-- The node at `retxNode` is marked, and `retxNode` moves behind it. A node that was sent too
often is removed. -/
def rlcAmmDlMarkPduForReTx (retx : RlcRetx) (ahead : List RlcRetx) (c : StaProc) : StaProc :=
  if c.amDl.maxReTxReached || retx.pendingReTrans then
    { c with
      passed := c.passed ++ [retx]
      ahead := ahead }
  else
    let retx := { retx with
      pendingReTrans := true
      retxCnt := retx.retxCnt + 1 }
    let amDl := { c.amDl with retxBo := c.amDl.retxBo + retx.segSz }
    if c.amDl.maxRetx < retx.retxCnt then
      rlcRemRetxPdu retx ahead { c with amDl := { amDl with
        maxReTxReached := true
        retxBo := 0 } }
    else
      { amDl := { amDl with nxtRetx := amDl.nxtRetx.or (some retx.key) }
        passed := c.passed ++ [retx]
        ahead := ahead }

/-- The loop over the nodes from `retxNode` on that have the NACK_SN. -/
def nackRetxLoop (nackSnInfo : RlcNackInfo) : List RlcRetx → StaProc → StaProc
  | [], c => c
  | retx :: ahead, c =>
    if retx.amHdr.sn ≠ nackSnInfo.sn then c
    else if nackSnInfo.isSegment && retx.soEnd < nackSnInfo.soStart then
      nackRetxLoop nackSnInfo ahead (rlcAmmDlProcessSuccessfulReTx retx ahead c)
    else if !nackSnInfo.isSegment || retx.soEnd ≤ nackSnInfo.soEnd then
      nackRetxLoop nackSnInfo ahead (rlcAmmDlMarkPduForReTx retx ahead c)
    else c

/-- `none` is the access through `retx` when no PDU was moved and it is not set. -/
def rlcAmmDlUpdateTxAndReTxBufForNackSn (nackSnInfo : RlcNackInfo) (c : StaProc) :
    Option StaProc :=
  match c.amDl.txBufLst nackSnInfo.sn with
  | some pduLst =>
    let (c, moved) :=
      if nackSnInfo.isSegment then rlcAmmDlHndlStatus4SduByteSegInTxBuf nackSnInfo pduLst c
      else rlcAmmDlMoveFrmTxtoRetxBuffer nackSnInfo.sn pduLst c
    if moved then some c else none
  | none => some (nackRetxLoop nackSnInfo c.ahead c)

/-- The offsets of the PDUs with the SN, first those in `txBufLst`, then those at `retxNode`. -/
def StaProc.offsets (c : StaProc) (sn : ℕ) : List (ℕ × ℕ) :=
  ((c.amDl.txBufLst sn).getD []).map (fun pduInfo =>
      (pduInfo.amHdr.so, (pduInfo.amHdr.so + pduInfo.sduMap.sduSz + 2 ^ 16 - 1) % 2 ^ 16)) ++
    (c.ahead.takeWhile (·.amHdr.sn = sn)).map (fun retx => (retx.amHdr.so, retx.soEnd))

/-- What a NACK range says about its SN number `idx`: the offsets of one PDU, or the whole SN. -/
def rlcDlAmmGetNackSnInfoFrmNackRangeIdx (c : StaProc) (nackInfo nackSnInfo : RlcNackInfo)
    (idx : ℕ) : RlcNackInfo :=
  if !nackInfo.isSegment || (idx = 0 && nackSnInfo.nackRange ≠ 0 && nackInfo.soStart = 0) then
    { nackSnInfo with
      isSegment := false
      soStart := 0
      soEnd := 0 }
  else
    match (c.offsets nackSnInfo.sn).find? fun (so, soEnd) =>
        (idx = 0 && so = nackInfo.soStart) ||
          (idx = nackSnInfo.nackRange - 1 && soEnd = nackInfo.soEnd) with
    | some (so, soEnd) =>
      { nackSnInfo with
        isSegment := true
        soStart := so
        soEnd := soEnd }
    | none => { nackSnInfo with isSegment := false }

/-- The loop over the SNs of a NACK range, with `n` of them left. -/
def nackRangeLoop (nackInfo : RlcNackInfo) : ℕ → ℕ → RlcNackInfo → StaProc → Option StaProc
  | 0, _, _, c => some c
  | n + 1, idx, nackSnInfo, c => do
    let nackSnInfo := rlcDlAmmGetNackSnInfoFrmNackRangeIdx c nackInfo nackSnInfo idx
    let c ← rlcAmmDlUpdateTxAndReTxBufForNackSn nackSnInfo c
    nackRangeLoop nackInfo n (idx + 1) { nackSnInfo with sn := c.amDl.nextSn nackSnInfo.sn } c

/-- All PDUs of the SN are acknowledged. -/
def rlcAmmDlProcessSuccessfulTxPdu (sn : ℕ) (c : StaProc) : StaProc :=
  match c.amDl.txBufLst sn with
  | some pduLst =>
    (pduLst.foldl (fun c pduInfo => c.rlcAmmDlCheckIsSDUDelivered pduInfo.sduMap) c).setTxBuf sn none
  | none => c

/-- The loop over `txBufLst` from `sn` up to the position `m`. -/
def ackTxLoop (m : ℕ) : ℕ → ℕ → StaProc → StaProc
  | 0, _, c => c
  | fuel + 1, sn, c =>
    if c.amDl.pos sn < m then
      ackTxLoop m fuel (c.amDl.nextSn sn) (rlcAmmDlProcessSuccessfulTxPdu sn c)
    else c

/-- The nodes from `retxNode` on that are before the position `m` are acknowledged. -/
def ackRetxBelow (m : ℕ) : List RlcRetx → StaProc → StaProc
  | [], c => c
  | retx :: ahead, c =>
    if c.amDl.pos retx.amHdr.sn < m then
      ackRetxBelow m ahead (rlcAmmDlProcessSuccessfulReTx retx ahead c)
    else c

def rlcAmmDlUpdTxAndReTxBufForLessThanNackSn (sn mNackSn : ℕ) (c : StaProc) : StaProc :=
  ackTxLoop mNackSn (c.amDl.snLen.modulus) sn (ackRetxBelow mNackSn c.ahead c)

/-- The same to the end of the list, without a stop at the first node that stays. -/
def ackRetxAll (m : ℕ) : List RlcRetx → StaProc → StaProc
  | [], c => c
  | retx :: ahead, c =>
    if c.amDl.pos retx.amHdr.sn < m then
      ackRetxAll m ahead (rlcAmmDlProcessSuccessfulReTx retx ahead c)
    else
      ackRetxAll m ahead { c with
        passed := c.passed ++ [retx]
        ahead := ahead }

def rlcAmmDlUpdateTxAndReTxBufForAckSn (mAckSn : ℕ) (c : StaProc) : StaProc :=
  ackTxLoop mAckSn (c.amDl.snLen.modulus) c.amDl.txNextAck (ackRetxAll mAckSn c.ahead c)

/-- One NACK of the STATUS. -/
def nackStep (transWinStartSn : ℕ) (nackInfo : RlcNackInfo) (c : StaProc) : Option StaProc :=
  let c := rlcAmmDlUpdTxAndReTxBufForLessThanNackSn transWinStartSn (c.amDl.pos nackInfo.sn) c
  if nackInfo.nackRange = 0 then rlcAmmDlUpdateTxAndReTxBufForNackSn nackInfo c
  else nackRangeLoop nackInfo nackInfo.nackRange 0 nackInfo c

/-- The loop over the NACKs. It ends with `false` at a NACK_SN that is not in the window. -/
def nackLoop (mAckSn mTxNext : ℕ) : List RlcNackInfo → ℕ → StaProc → Option (StaProc × Bool)
  | [], _, c => some (c, true)
  | nackInfo :: nacks, transWinStartSn, c =>
    let mNackSn := c.amDl.pos nackInfo.sn
    if mAckSn < mNackSn ∨ mTxNext ≤ mNackSn then some (c, false)
    else do
      let c ← nackStep transWinStartSn nackInfo c
      let count := if nackInfo.nackRange = 0 then 1 else nackInfo.nackRange
      nackLoop mAckSn mTxNext nacks ((nackInfo.sn + count) &&& c.amDl.snLen.snModMask) c

namespace StaProc

/-- `retxLst` is put back. -/
def close (c : StaProc) : RlcAmDl := { c.amDl with retxLst := c.passed ++ c.ahead }

/-- The confirmation is sent if there is something in it. -/
def sendDatCfm (c : StaProc) : StaProc :=
  if c.amDl.datCfm = [] then c
  else { c with amDl := { c.amDl with kwuDatCfm := c.amDl.kwuDatCfm ++ [c.amDl.datCfm] } }

def setTxNextAck (c : StaProc) (sn : ℕ) : StaProc :=
  { c with amDl := { c.amDl with txNextAck := sn } }

end StaProc

namespace RlcAmDl

/-- `rlcAmmDlCheckAndStopPollTmr`. -/
def rlcAmmDlCheckAndStopPollTmr (amDl : RlcAmDl) (mAckSn : ℕ) : RlcAmDl :=
  { amDl with pollRetxTmr := if amDl.pos amDl.pollSn ≤ mAckSn then false else amDl.pollRetxTmr }

/-- `rlcAmmCalculateBo` makes sure that the occupancy is not negative. -/
def rlcAmmCalculateBo (amDl : RlcAmDl) : RlcAmDl :=
  { amDl with retxBo := if amDl.retxBo < 0 then 0 else amDl.retxBo }

/-- `nxtRetx` is set to the first node. -/
def resetNxtRetx (amDl : RlcAmDl) : RlcAmDl :=
  { amDl with nxtRetx := amDl.retxLst.head?.map RlcRetx.key }

end RlcAmDl

/-- The STATUS is looked at with `retxNode` at the first node. -/
def StaProc.start (amDl : RlcAmDl) : StaProc where
  amDl := { amDl with
    retxLst := []
    datCfm := [] }
  ahead := amDl.retxLst

/-- What is done after the last NACK. -/
def endStatus (pStaPdu : RlcUdxStaPdu) (mAckSn : ℕ) (oldRetxBo : ℤ) (c : StaProc) : RlcAmDl :=
  let c := rlcAmmDlUpdateTxAndReTxBufForAckSn mAckSn c
  -- the first NACK_SN, if there is one, is the lowest SN that is still missing
  let txNextAck := (pStaPdu.nackInfo.head?.map (·.sn)).getD pStaPdu.ackSn
  let amDl := (c.setTxNextAck txNextAck).sendDatCfm.close.resetNxtRetx
  if oldRetxBo ≠ amDl.retxBo then amDl.rlcAmmCalculateBo else amDl

def rlcAmmDlHndlStatusPdu (pStaPdu : RlcUdxStaPdu) (amDl : RlcAmDl) : Option RlcAmDl :=
  let mAckSn := amDl.pos pStaPdu.ackSn
  let mTxNext := amDl.pos amDl.txNext
  if mTxNext < mAckSn then some amDl
  else
    let c := StaProc.start (amDl.rlcAmmDlCheckAndStopPollTmr mAckSn)
    match nackLoop mAckSn mTxNext pStaPdu.nackInfo amDl.txNextAck c with
    | none => none
    | some (c, false) => some c.close
    | some (c, true) => some (endStatus pStaPdu mAckSn amDl.retxBo c)

/-! ## Sending -/

/-- A new SDU of `size` bytes. -/
def rlcAmmQSdu (sduId size : ℕ) (amDl : RlcAmDl) : RlcAmDl :=
  RlcAmDl.rlcAmmCalculateBo { amDl with
    sdus := Function.update amDl.sdus amDl.numSdu {
      sduId := sduId
      actSz := size
      sduSz := size }
    numSdu := amDl.numSdu + 1
    sduQ := amDl.sduQ ++ [amDl.numSdu] }

/-- The fields of the data request that the loops work on: the bytes that are left, the number
of PDUs and the data PDUs in it. -/
structure RlcDatReq where
  pduSz : ℤ
  numPdu : ℕ := 0
  pduInfo : List (RlcAmHdr × RlcSduMap) := []

/-- A data PDU goes into the request, and `pduSz` bytes are left. -/
def RlcDatReq.put (datReq : RlcDatReq) (amHdr : RlcAmHdr) (sduMap : RlcSduMap) (pduSz : ℤ) :
    RlcDatReq where
  pduSz := pduSz
  numPdu := datReq.numPdu + 1
  pduInfo := datReq.pduInfo ++ [(amHdr, sduMap)]

/-- `rlcAmmDlCheckAndSetPoll`. It sees whether `nxtTx` is set and not what is left of the
queue. -/
def rlcAmmDlCheckAndSetPoll (newPdu : Bool) (bufSz : ℕ) (nxtTx : Bool) (amDl : RlcAmDl) :
    Bool × RlcAmDl :=
  let amDl := if newPdu then
      { amDl with
        pduWoPoll := amDl.pduWoPoll + 1
        byteWoPoll := amDl.byteWoPoll + bufSz }
    else amDl
  let pollBit := (newPdu && ((amDl.pollPdu ≠ -1 && amDl.pollPdu ≤ amDl.pduWoPoll) ||
      (amDl.pollByte ≠ -1 && amDl.pollByte ≤ amDl.byteWoPoll))) ||
    (!nxtTx && amDl.nxtRetx.isNone) || amDl.transWinStalled
  if pollBit then
    (true, { amDl with
      pduWoPoll := 0
      byteWoPoll := 0
      pollSn := (amDl.txNext + 2 ^ 32 - 1) % 2 ^ 32 &&& amDl.snLen.snModMask
      pollRetxTmr := true })
  else (false, amDl)

/-- The size of the header that `rlcConstructAmHdr` makes. -/
def amHdrSz (snLen : SnLen) (si : ℕ) : ℕ :=
  (match snLen with
    | .bits12 => 2
    | .bits18 => 3) + (if si = RLC_SI_MID_SEG ∨ si = RLC_SI_LAST_SEG then 2 else 0)

/-- The PDUs that are in the transmission buffer for the SDU. -/
def RlcAmDl.txBufOf (amDl : RlcAmDl) (sdu : RlcSdu) : Option (List RlcDlPduInfo) :=
  if sdu.isSegmented then amDl.txBufLst amDl.txNext else some []

/-- `rlcAmmCreatePdu`: the PDU is put behind those of `txNext`, which goes on after the last one
of an SDU. -/
def rlcAmmCreatePdu (si so sduSz sdu : ℕ) (pduLst : List RlcDlPduInfo) (amDl : RlcAmDl) :
    RlcDlPduInfo × RlcAmDl :=
  let sn := amDl.txNext
  let amDl := { amDl with
    txNext := if si = 0 ∨ si = RLC_SI_LAST_SEG then amDl.nextSn sn else sn }
  let (p, amDl) := rlcAmmDlCheckAndSetPoll true sduSz true amDl
  let pduInfo : RlcDlPduInfo := {
    pduSz := sduSz
    hdrSz := amHdrSz amDl.snLen si
    amHdr := {
      p := p
      si := si
      sn := sn
      so := so }
    sduMap := {
      sduSz := sduSz
      sdu := sdu } }
  (pduInfo, amDl.setTxBuf sn (some (pduLst ++ [pduInfo])))

/-- The PDU that one round of `rlcAssembleSdus` makes of the SDU at `sdu`, with `macGrntSz`
bytes for it. -/
def assemblePdu (macGrntSz i : ℕ) (sduQ : List ℕ) (amDl : RlcAmDl) (pduLst : List RlcDlPduInfo) :
    RlcDlPduInfo × RlcAmDl :=
  let sdu := amDl.sdus i
  let so := if sdu.isSegmented then sdu.actSz - sdu.sduSz else 0
  if sdu.sduSz ≤ macGrntSz then
    let si := if sdu.isSegmented then RLC_SI_LAST_SEG else 0
    let (pduInfo, amDl) := rlcAmmCreatePdu si so sdu.sduSz i pduLst amDl
    (pduInfo, { amDl with
      sdus := Function.update amDl.sdus i { sdu with isSegmented := false }
      sduQ := sduQ })
  else
    let si := if sdu.isSegmented then RLC_SI_MID_SEG else RLC_SI_FIRST_SEG
    let sn := if sdu.isSegmented then sdu.sn else amDl.txNext
    let (pduInfo, amDl) := rlcAmmCreatePdu si so macGrntSz i pduLst amDl
    (pduInfo, { amDl with sdus := Function.update amDl.sdus i { sdu with
      isSegmented := true
      sn := sn
      sduSz := sdu.sduSz - macGrntSz } })

/-- The bytes of the MAC header. -/
def macHdrSz (pduSz : ℤ) : ℤ := if pduSz < 255 then RLC_MAC_HDR_SZ2 else RLC_MAC_HDR_SZ3

/-- The bytes that the headers take before a PDU of the SDU. -/
def hdrEstmt (amDl : RlcAmDl) (sdu : RlcSdu) (macGrntSz : ℤ) : ℤ :=
  let hdrEstmt : ℤ := amHdrSz amDl.snLen 0 + (if sdu.isSegmented then 2 else 0)
  hdrEstmt + macHdrSz (min macGrntSz (sdu.sduSz + hdrEstmt))

/-- The loop of `rlcAssembleSdus` over the queue from `nxtTx` on. `expired` are the SDUs whose
discard timer has run out; they are dropped if nothing of them was sent. -/
def rlcAssembleSdus (expired : ℕ → Bool) (numNewPdu : ℕ) : List ℕ → RlcAmDl → RlcDatReq →
    Option (RlcAmDl × RlcDatReq)
  | [], amDl, datReq => some ({ amDl with sduQ := [] }, datReq)
  | i :: sduQ, amDl, datReq =>
    if datReq.pduSz ≤ amHdrSz amDl.snLen 0 ∨ RLC_MAX_PDU ≤ datReq.numPdu ∨
        RLC_MAX_NEW_DL_PDU ≤ numNewPdu then
      some ({ amDl with sduQ := i :: sduQ }, datReq)
    else if expired i && !(amDl.sdus i).isSegmented then
      rlcAssembleSdus expired numNewPdu sduQ amDl datReq
    else if amDl.transWinStalled then some ({ amDl with sduQ := i :: sduQ }, datReq)
    else
      let macGrntSz := datReq.pduSz - hdrEstmt amDl (amDl.sdus i) datReq.pduSz
      if macGrntSz ≤ 0 then
        some ({ amDl with sduQ := i :: sduQ }, { datReq with pduSz := macGrntSz })
      else
        match amDl.txBufOf (amDl.sdus i) with
        | none => none
        | some pduLst =>
          let whole := (amDl.sdus i).sduSz ≤ macGrntSz.toNat
          let (pduInfo, amDl) := assemblePdu macGrntSz.toNat i sduQ
            { amDl with sduQ := i :: sduQ } pduLst
          let datReq := datReq.put pduInfo.amHdr pduInfo.sduMap (macGrntSz - pduInfo.sduMap.sduSz)
          -- after a part of an SDU no byte is left, so the loop is over
          if whole then rlcAssembleSdus expired (numNewPdu + 1) sduQ amDl datReq
          else some (amDl, datReq)

/-- `rlcSplitPdu`: the two parts of a node. -/
def rlcSplitPdu (snLen : SnLen) (crnt : RlcRetx) (size : ℕ) : RlcRetx × RlcRetx :=
  let so := crnt.amHdr.so + size
  let si := crnt.amHdr.si ||| RLC_SI_FIRST_SEG
  ({ crnt with
      amHdr := { crnt.amHdr with
        p := false
        si := si }
      segSz := size
      hdrSz := if si = RLC_SI_FIRST_SEG then amHdrSz snLen RLC_SI_FIRST_SEG
        else amHdrSz snLen RLC_SI_MID_SEG
      soEnd := so - 1
      sduMap := { crnt.sduMap with sduSz := size } },
    { crnt with
      amHdr := {
        p := false
        si := crnt.amHdr.si ||| RLC_SI_LAST_SEG
        sn := crnt.amHdr.sn
        so := so }
      segSz := crnt.segSz - size
      hdrSz := amHdrSz snLen RLC_SI_LAST_SEG
      sduMap := { crnt.sduMap with sduSz := crnt.segSz - size } })

/-- The node is sent again, with the poll bit `p`. -/
def RlcRetx.resend (retx : RlcRetx) (p : Bool) : RlcRetx :=
  { retx with
    amHdr := { retx.amHdr with p := p }
    soEnd := (retx.amHdr.so + retx.segSz + 2 ^ 16 - 1) % 2 ^ 16
    pendingReTrans := false }

/-- What one round of `rlcResegRetxPdus` does for the node `retx` between the nodes `front` and
`ahead`: `false` if the loop ends without sending it. -/
def resegRound (front : List RlcRetx) (retx : RlcRetx) (ahead : List RlcRetx) (amDl : RlcAmDl)
    (datReq : RlcDatReq) : Bool × RlcAmDl × RlcDatReq :=
  let whole : ℤ := retx.segSz + retx.hdrSz
  let pduSz := datReq.pduSz - macHdrSz (min whole datReq.pduSz)
  if pduSz ≤ retx.hdrSz then (false, amDl, { datReq with pduSz := pduSz })
  else
    -- `rlcGetNxtRetx`
    let amDl := { amDl with nxtRetx := (ahead.find? (·.pendingReTrans)).map RlcRetx.key }
    if whole ≤ pduSz then
      let (p, amDl) := rlcAmmDlCheckAndSetPoll false 0 (amDl.sduQ ≠ []) amDl
      (true, { amDl with
          retxLst := front ++ [retx.resend p] ++ ahead
          retxBo := amDl.retxBo - retx.segSz },
        datReq.put { retx.amHdr with p := p } retx.sduMap (pduSz - whole))
    else
      let size := pduSz - (if retx.amHdr.si < RLC_SI_LAST_SEG then amHdrSz amDl.snLen 0
        else amHdrSz amDl.snLen RLC_SI_LAST_SEG)
      if size ≤ 0 then (false, amDl, { datReq with pduSz := size })
      else
        let (crnt, next) := rlcSplitPdu amDl.snLen retx size.toNat
        (true, { amDl with
            retxLst := front ++ [crnt.resend false, next] ++ ahead
            nxtRetx := some next.key
            retxBo := amDl.retxBo - crnt.segSz },
          datReq.put crnt.amHdr crnt.sduMap 0)

/-- The loop of `rlcResegRetxPdus`. A round that sends something adds a PDU. -/
def rlcResegRetxPdus : ℕ → RlcAmDl → RlcDatReq → Option (RlcAmDl × RlcDatReq)
  | 0, amDl, datReq => some (amDl, datReq)
  | fuel + 1, amDl, datReq =>
    match amDl.nxtRetx with
    | none => some (amDl, datReq)
    | some key =>
      if datReq.pduSz ≤ 0 ∨ RLC_MAX_PDU ≤ datReq.numPdu then some (amDl, datReq)
      else
        match amDl.retxLst.dropWhile (·.key ≠ key) with
        | [] => none
        | retx :: ahead =>
          match resegRound (amDl.retxLst.takeWhile (·.key ≠ key)) retx ahead amDl datReq with
          | (false, amDl, datReq) => some (amDl, datReq)
          | (true, amDl, datReq) => rlcResegRetxPdus fuel amDl datReq

/-- The new PDUs of a request, if there are bytes left for them. -/
def newSdus (expired : ℕ → Bool) (amDl : RlcAmDl) (datReq : RlcDatReq) :
    Option (RlcAmDl × RlcDatReq) :=
  if 0 < datReq.pduSz then rlcAssembleSdus expired 0 amDl.sduQ amDl datReq
  else some (amDl, datReq)

/-- `rlcAmmProcessSdus`, after the STATUS PDU is filled in: `numPdu` is 1 if there is one, and
`pduSz` bytes are left. -/
def rlcAmmProcessSdus (pduSz : ℤ) (numPdu : ℕ) (expired : ℕ → Bool) (amDl : RlcAmDl) :
    Option (RlcAmDl × RlcDatReq) := do
  let datReq : RlcDatReq := {
    pduSz := pduSz
    numPdu := numPdu }
  let (amDl, datReq) ← rlcResegRetxPdus (RLC_MAX_PDU + 1) amDl datReq
  let (amDl, datReq) ← newSdus expired amDl datReq
  return (amDl.rlcAmmCalculateBo, datReq)

/-- `rlcAmmPollRetxTmrExp`: if nothing else can be sent, the last PDU is sent again. -/
def rlcAmmPollRetxTmrExp (amDl : RlcAmDl) : RlcAmDl :=
  if (amDl.sduQ = [] ∧ amDl.nxtRetx = none) ∨ amDl.transWinStalled then
    let sn := (amDl.txNext + 2 ^ 32 - 1) % 2 ^ 32 &&& amDl.snLen.snModMask
    match amDl.txBufLst sn, amDl.retxLst.getLast? with
    | some pduLst, _ =>
      (rlcAmmDlMoveFrmTxtoRetxBuffer sn pduLst ⟨amDl, amDl.retxLst, []⟩).1.close.rlcAmmCalculateBo
    | none, some retx =>
      (rlcAmmDlMarkPduForReTx retx [] ⟨amDl, amDl.retxLst.dropLast, []⟩).close.rlcAmmCalculateBo
    | none, none => amDl
  else amDl

/-- The timer runs out. -/
def pollRetxTmrFires (amDl : RlcAmDl) : RlcAmDl :=
  if amDl.pollRetxTmr then rlcAmmPollRetxTmrExp { amDl with pollRetxTmr := false } else amDl

/-! ## Runs -/

/-- What happens to the entity. -/
inductive DlOp
  | qSdu (sduId size : ℕ)
  | processSdus (pduSz : ℤ) (numPdu : ℕ) (expired : ℕ → Bool)
  | pollRetxTmrExp
  | status (pStaPdu : RlcUdxStaPdu)

def DlOp.step (amDl : RlcAmDl) : DlOp → Option RlcAmDl
  | .qSdu sduId size => some (rlcAmmQSdu sduId size amDl)
  | .processSdus pduSz numPdu expired => (rlcAmmProcessSdus pduSz numPdu expired amDl).map Prod.fst
  | .pollRetxTmrExp => some (pollRetxTmrFires amDl)
  | .status pStaPdu => rlcAmmDlHndlStatusPdu pStaPdu amDl

end OaiCu.OduRlc
