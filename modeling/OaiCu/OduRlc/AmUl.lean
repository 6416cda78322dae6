import Mathlib.Data.List.Basic
import Mathlib.Algebra.Ring.Int.Defs
import Mathlib.Algebra.Ring.Nat

/-!
# O-DU RLC AM uplink: the STATUS information (`rlc_amm_ul.c`)

`rlcAmmUlAssembleCntrlInfo` scans the reception buffer from `rxNext` to `rxHighestStatus` and
gathers what is missing in the `nackInfo` array of a `RlcUdxDlStaPdu`. The array has
`RLC_MAX_NACK_CNT` places; an access outside of it is `none` here. The buffer the structure
lies in comes from `RLC_ALLOC_SHRABL_BUF`, which clears it.
-/

namespace OaiCu.OduRlc

def RLC_MAX_NACK_CNT : ℕ := 100

def RLC_ALL_BYTES_MISSING : ℕ := 0xffff

def RLC_RCV_BUF_BIN_SIZE : ℕ := 512

def RLC_MAC_HDR_SZ2 : ℕ := 2

def RLC_MAC_HDR_SZ3 : ℕ := 3

/-- `RLC_AM_CFG_12BIT_SN_LEN` and `RLC_AM_CFG_18BIT_SN_LEN`. -/
inductive SnLen
  | bits12
  | bits18
deriving DecidableEq, Repr

/-- How many sequence numbers there are. -/
def SnLen.modulus : SnLen → ℕ
  | .bits12 => 2 ^ 12
  | .bits18 => 2 ^ 18

def SnLen.snModMask (snLen : SnLen) : ℕ := snLen.modulus - 1

/-- The segmentation info of a byte segment. -/
inductive Si
  | first
  | last
  | mid
deriving DecidableEq, Repr

/-- `RlcSeg`, without the bytes themselves. -/
structure RlcSeg where
  si : Si
  so : ℕ
  soEnd : ℕ
deriving DecidableEq, Repr

/-- `RlcAmRecBuf`. A complete PDU has `pdu` set until it is delivered, and then neither `pdu`
nor segments. The segments are kept in the order of their offsets and do not overlap; only
the last segment of an SDU can end at the highest offset there is. -/
structure RlcAmRecBuf where
  sn : ℕ
  pdu : Option (List UInt8) := none
  segLst : List RlcSeg := []
  ordered : segLst.Pairwise fun seg seg' => seg.soEnd < seg'.so
  offsets : ∀ seg ∈ segLst, seg.so ≤ seg.soEnd ∧ seg.soEnd ≤ RLC_ALL_BYTES_MISSING ∧
    (seg.si ≠ .last → seg.soEnd < RLC_ALL_BYTES_MISSING)

theorem RlcAmRecBuf.nil_ordered :
    ([] : List RlcSeg).Pairwise fun seg seg' => seg.soEnd < seg'.so := .nil

theorem RlcAmRecBuf.nil_offsets : ∀ seg ∈ ([] : List RlcSeg), seg.so ≤ seg.soEnd ∧
    seg.soEnd ≤ RLC_ALL_BYTES_MISSING ∧ (seg.si ≠ .last → seg.soEnd < RLC_ALL_BYTES_MISSING) :=
  fun _ hseg => absurd hseg List.not_mem_nil

/-- `RlcAmUl`, as far as the STATUS is concerned. -/
structure RlcAmUl where
  snLen : SnLen
  rxNext : ℕ
  rxHighestStatus : ℕ
  /-- The bins of the reception buffer. -/
  recBufLst : ℕ → List RlcAmRecBuf
  rxNext_lt : rxNext < snLen.modulus
  rxHighestStatus_lt : rxHighestStatus < snLen.modulus

def RlcAmUl.snModMask (amUl : RlcAmUl) : ℕ := amUl.snLen.snModMask

/-- `RlcNackInfo`. -/
structure RlcNackInfo where
  nackRange : ℕ := 0
  isSegment : Bool := false
  sn : ℕ := 0
  soStart : ℕ := 0
  soEnd : ℕ := 0
deriving DecidableEq, Repr

/-- `RlcUdxDlStaPdu`. -/
structure RlcUdxDlStaPdu where
  ackSn : ℕ := 0
  nackInfo : Vector RlcNackInfo RLC_MAX_NACK_CNT := Vector.replicate RLC_MAX_NACK_CNT {}
  nackCount : ℕ := 0
  controlBo : ℕ := 0
deriving DecidableEq, Repr

/-- `nackInfo[i] = nack`. -/
def RlcUdxDlStaPdu.store (statusPdu : RlcUdxDlStaPdu) (i : ℕ) (nack : RlcNackInfo) :
    Option RlcUdxDlStaPdu :=
  if h : i < RLC_MAX_NACK_CNT then
    some { statusPdu with nackInfo := statusPdu.nackInfo.set i nack h }
  else none

/-- `MODAMR`: the distance of `x` from `z`, computed on 32 bits. -/
def modamr (x z mask : ℕ) : ℕ := (x + 2 ^ 32 - z) % 2 ^ 32 &&& mask

def rlcUtlGetRecBuf (recBufLst : ℕ → List RlcAmRecBuf) (sn : ℕ) : Option RlcAmRecBuf :=
  (recBufLst (sn % RLC_RCV_BUF_BIN_SIZE)).find? (·.sn == sn)

/-- The value of `prevNackSn` before the first NACK. -/
def noNackSn : ℕ := 0xffffffff

/-- The variables of the scan that `rlcAmmUlSetNackInfo` changes. -/
structure Scan where
  statusPdu : RlcUdxDlStaPdu := {}
  prevNackSn : ℕ := noNackSn
  staPduEncSize : ℕ := 3
deriving DecidableEq, Repr

/-- The arguments of one call of `rlcAmmUlSetNackInfo`: what is missing of one SN. -/
structure Loss where
  sn : ℕ
  isSegment : Bool := false
  soStart : ℕ := 0
  soEnd : ℕ := 0
deriving DecidableEq, Repr

/-- The cases in which `rlcAmmUlSetNackInfo` fills a new entry. The last one compares without
the mask. -/
def startsEntry (mask : ℕ) (nackInfo : RlcNackInfo) (prevNackSn : ℕ) (loss : Loss) : Bool :=
  prevNackSn = noNackSn || (prevNackSn + 1) &&& mask ≠ loss.sn ||
    (prevNackSn = loss.sn && nackInfo.soEnd + 1 ≠ loss.soStart) ||
    (nackInfo.isSegment && prevNackSn + 1 = loss.sn &&
      nackInfo.soEnd ≠ RLC_ALL_BYTES_MISSING)

/-- The bytes for the range of an entry that is complete. -/
def rangeSize (nackInfo : RlcNackInfo) : ℕ :=
  if nackInfo.nackRange ≠ 0 then
    if nackInfo.soEnd ≠ 0 ∧ nackInfo.soStart = 0 then 5 else 1
  else 0

/-- The bytes for an entry without its range. -/
def nackSize (snLen : SnLen) (isSegment : Bool) : ℕ :=
  match snLen, isSegment with
  | .bits12, true => 6
  | .bits18, true => 7
  | .bits12, false => 2
  | .bits18, false => 3

/-- A new entry for what is missing. -/
def Loss.entry (loss : Loss) : RlcNackInfo where
  sn := loss.sn
  isSegment := loss.isSegment
  soStart := loss.soStart
  soEnd := loss.soEnd

/-- The entry counts one SN more. An entry without a range stands for one SN, so the first
SN that joins it makes two. -/
def RlcNackInfo.countSn (nackInfo : RlcNackInfo) : RlcNackInfo :=
  { nackInfo with nackRange := (if nackInfo.nackRange = 0 then 1 else nackInfo.nackRange) + 1 }

/-- The end of the entry moves to the end of what is missing. -/
def RlcNackInfo.moveEnd (nackInfo : RlcNackInfo) (loss : Loss) : RlcNackInfo :=
  if loss.isSegment then { nackInfo with isSegment := true, soEnd := loss.soEnd }
  else if nackInfo.isSegment then { nackInfo with soEnd := RLC_ALL_BYTES_MISSING }
  else { nackInfo with soStart := 0, soEnd := 0 }

def rlcAmmUlSetNackInfo (snLen : SnLen) (loss : Loss) (c : Scan) : Option Scan := do
  let statusPdu := c.statusPdu
  let nackInfo ← statusPdu.nackInfo[statusPdu.nackCount]?
  if startsEntry snLen.snModMask nackInfo c.prevNackSn loss then
    let nackCount :=
      if c.prevNackSn ≠ noNackSn then statusPdu.nackCount + 1 else statusPdu.nackCount
    let statusPdu ← statusPdu.store nackCount loss.entry
    return {
      statusPdu := { statusPdu with nackCount := nackCount }
      prevNackSn := loss.sn
      staPduEncSize := (c.staPduEncSize + rangeSize nackInfo + nackSize snLen loss.isSegment) % 2 ^ 16 }
  else
    -- here the SN is the next one after `prevNackSn`, so the range counts it
    let counted := nackInfo.countSn
    let full := counted.nackRange = 255
    let size := if full then (if counted.isSegment then 1 else if loss.isSegment then 5 else 0) else 0
    let statusPdu ← statusPdu.store statusPdu.nackCount (counted.moveEnd loss)
    return {
      statusPdu := { statusPdu with
        nackCount := if full then statusPdu.nackCount + 1 else statusPdu.nackCount }
      prevNackSn := loss.sn
      staPduEncSize := (c.staPduEncSize + size) % 2 ^ 16 }

/-- The loop over the byte segments of an SN; `seqSo` is the offset expected next. -/
def assembleSegs (snLen : SnLen) (nackCnt sn : ℕ) : List RlcSeg → ℕ → Scan → Option (ℕ × Scan)
  | [], seqSo, c => some (seqSo, c)
  | seg :: segs, seqSo, c =>
    if nackCnt < RLC_MAX_NACK_CNT then do
      let c ←
        if seg.so ≠ seqSo then
          rlcAmmUlSetNackInfo snLen ⟨sn, true, seqSo, (seg.so + 2 ^ 16 - 1) % 2 ^ 16⟩ c
        else some c
      assembleSegs snLen nackCnt sn segs ((seg.soEnd + 1) % 2 ^ 16) c
    else some (seqSo, c)

/-- The body of the loop over the SNs: what is missing of `sn`. -/
def assembleSn (snLen : SnLen) (nackCnt sn : ℕ) (recBuf : Option RlcAmRecBuf) (c : Scan) :
    Option Scan :=
  match recBuf with
  | none =>
    if nackCnt < RLC_MAX_NACK_CNT then rlcAmmUlSetNackInfo snLen { sn := sn } c else some c
  | some recBuf =>
    if recBuf.pdu = none ∧ 0 < recBuf.segLst.length then do
      let (seqSo, c) ← assembleSegs snLen nackCnt sn recBuf.segLst 0 c
      match recBuf.segLst.getLast? with
      | some seg =>
        if seg.si ≠ .last ∧ nackCnt < RLC_MAX_NACK_CNT then
          rlcAmmUlSetNackInfo snLen ⟨sn, true, seqSo, RLC_ALL_BYTES_MISSING⟩ c
        else some c
      | none => some c
    else some c

/-- The condition of the `break`: something of the SN is not received. -/
def unreceived (recBuf : Option RlcAmRecBuf) : Bool :=
  match recBuf with
  | none => true
  | some recBuf => recBuf.pdu.isNone && 0 < recBuf.segLst.length

/-- The loop over the SNs. `nackCnt` is the local variable of that name, which the loop reads
and does not change. -/
def assembleLoop (amUl : RlcAmUl) (nackCnt high : ℕ) : ℕ → ℕ → ℕ → Scan → Option (ℕ × ℕ × Scan)
  | 0, sn, mSn, c => some (sn, mSn, c)
  | fuel + 1, sn, mSn, c =>
    if mSn < high then do
      let c ← assembleSn amUl.snLen nackCnt sn (rlcUtlGetRecBuf amUl.recBufLst sn) c
      let sn := (sn + 1) &&& amUl.snModMask
      let mSn := modamr sn amUl.rxNext amUl.snModMask
      if nackCnt = RLC_MAX_NACK_CNT ∧ unreceived (rlcUtlGetRecBuf amUl.recBufLst sn) then
        return (sn, mSn, c)
      assembleLoop amUl nackCnt high fuel sn mSn c
    else some (sn, mSn, c)

/-- The structure that is sent to the downlink side. -/
def rlcAmmUlAssembleCntrlInfo (amUl : RlcAmUl) : Option RlcUdxDlStaPdu := do
  let nackCnt := 0
  let mSn := modamr amUl.rxNext amUl.rxNext amUl.snModMask
  let high := modamr amUl.rxHighestStatus amUl.rxNext amUl.snModMask
  let (sn, mSn, c) ← assembleLoop amUl nackCnt high high amUl.rxNext mSn {}
  let nackInfo ← c.statusPdu.nackInfo[c.statusPdu.nackCount]?
  return { c.statusPdu with
    nackCount :=
      if c.prevNackSn ≠ noNackSn then c.statusPdu.nackCount + 1 else c.statusPdu.nackCount
    ackSn := if mSn = high then amUl.rxHighestStatus else sn
    controlBo := (c.staPduEncSize + rangeSize nackInfo) % 2 ^ 16 }

end OaiCu.OduRlc
