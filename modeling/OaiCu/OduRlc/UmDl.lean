import OaiCu.OduRlc.UmUl
import OaiCu.OduRlc.AmDl

/-!
# O-DU RLC UM downlink (`rlc_umm_dl.c`)

The SDUs wait in a queue. A grant is filled from its head: an SDU that fits goes as a whole or as
a last segment, else the grant ends with a first segment or one from the middle. An SDU that has
waited too long is dropped when its turn comes, as long as no part of it was sent, and the upper
layer can have the head of the queue dropped in the same way.
-/

namespace OaiCu.OduRlc

def RLC_MIN_HDRSZ : ℕ := 1

def RLC_MAX_HDRSZ : ℕ := 5

abbrev Octets := List UInt8

/-- `rbCb->m.umDl.snLen`: the octets of a header with an SN. -/
def UmSnLen.octets : UmSnLen → ℕ
  | .bits6 => 1
  | .bits12 => 2

/-- The values of the field SI; without it the PDU holds a whole SDU. -/
def siValue : Option Si → ℕ
  | none => 0
  | some .first => RLC_SI_FIRST_SEG
  | some .last => RLC_SI_LAST_SEG
  | some .mid => RLC_SI_MID_SEG

/-! ## Headers -/

/-- The header of `rlcUmmCreatePdu`, with `sn` from `txNext`. -/
def umHdrOctets (snLen : UmSnLen) (sn : ℕ) (si : Option Si) (so : ℕ) : Octets :=
  match si with
  | none => [0]
  | some s =>
    let sns : Octets := match snLen with
      | .bits6 => [UInt8.ofNat ((siValue si <<< 6) ||| sn)]
      | .bits12 => [UInt8.ofNat ((siValue si <<< 6) ||| (sn >>> 8)), UInt8.ofNat (sn &&& 0xff)]
    match s with
    | .first => sns
    | _ => sns ++ [UInt8.ofNat (so >>> 8), UInt8.ofNat (so &&& 0xff)]

/-- The SN of `rlcUmmExtractHdr`, and what follows it. -/
def umExtractSn (snLen : UmSnLen) (dst : UInt8) (pdu : Octets) :
    Option ({ sn : ℕ // sn ≤ snLen.modBitMask } × Octets) :=
  match snLen with
  | .bits6 => some (⟨dst.toNat &&& 0x3F, Nat.and_le_right⟩, pdu)
  | .bits12 =>
    match pdu with
    | [] => none
    | dst' :: pdu => some (⟨((dst.toNat &&& 0x0F) <<< 8) ||| dst'.toNat, Nat.le_of_lt_succ
        (Nat.or_lt_two_pow (show _ < 2 ^ 12 from by
            have : dst.toNat &&& 0x0F ≤ 15 := Nat.and_le_right
            rw [Nat.shiftLeft_eq]
            omega)
          (dst'.toNat_lt.trans (by decide)))⟩, pdu)

/-- The SO of a segment that is not the first one. -/
def umExtractSo : Octets → Option (ℕ × Octets)
  | dst0 :: dst1 :: pdu => some ((dst0.toNat <<< 8) ||| dst1.toNat, pdu)
  | _ => none

/-- `rlcUmmExtractHdr`: the header, and the PDU without it. -/
def rlcUmmExtractHdr (snLen : UmSnLen) : Octets → Option (UmPdu snLen Octets)
  | [] => none
  | dst :: pdu =>
    match dst.toNat >>> 6 with
    | 0 => some (.complete pdu)
    | 1 => do
      let (sn, pdu) ← umExtractSn snLen dst pdu
      some (.segment ⟨.first, sn.1, 0, sn.2, fun _ => rfl⟩ pdu.length pdu)
    | 2 => do
      let (sn, pdu) ← umExtractSn snLen dst pdu
      let (so, pdu) ← umExtractSo pdu
      some (.segment ⟨.last, sn.1, so, sn.2, nofun⟩ pdu.length pdu)
    | _ => do
      let (sn, pdu) ← umExtractSn snLen dst pdu
      let (so, pdu) ← umExtractSo pdu
      some (.segment ⟨.mid, sn.1, so, sn.2, nofun⟩ pdu.length pdu)

/-! ## The queue -/

/-- `RlcSdu` of UM. -/
structure RlcUmSdu where
  mBuf : Octets
  sduSz : ℕ
  actSz : ℕ
  sduId : ℕ
  isSegmented : Bool := false
  arrTime : ℕ
deriving DecidableEq

/-- `RlcUmDl`. `bo` is signed and may be read as a number: what is queued is far below its
bounds. -/
structure RlcUmDl where
  sduQ : List RlcUmSdu := []
  bo : ℤ := 0
  txNext : ℕ := 0
deriving DecidableEq

/-- What `RlcDlRbCb` says about the bearer. -/
structure RlcDlRbCb where
  snLen : UmSnLen
  discTmrInt : ℤ
  /-- `rlcId.rbType == CM_LTE_DRB` -/
  isDrb : Bool

/-- What leaves the entity: a PDU for the MAC, or an SDU that is dropped. -/
inductive UmDlOut
  | pdu (pdu : Octets)
  | discarded (sdu : Octets)
deriving DecidableEq

/-- `rlcUmmQSdu` -/
def rlcUmmQSdu (sduId arrTime : ℕ) (mBuf : Octets) (umDl : RlcUmDl) : RlcUmDl :=
  let sdu : RlcUmSdu := { mBuf, sduSz := mBuf.length, actSz := mBuf.length, sduId, arrTime }
  { umDl with
    sduQ := umDl.sduQ ++ [sdu]
    bo := umDl.bo + mBuf.length + RLC_MAX_HDRSZ }

/-- `RLC_TIME_DIFF`, as it is kept in 16 bits. -/
def rlcTimeDiff (t1 t2 : ℕ) : ℤ :=
  Int.bmod (if t1 < t2 then 0xffffffff - t2 + t1 else t1 - t2) (2 ^ 16)

namespace RlcDlRbCb

/-- The SDU has waited too long, and no part of it was sent. -/
def discards (rbCb : RlcDlRbCb) (curTime : ℕ) (sdu : RlcUmSdu) : Bool :=
  !sdu.isSegmented && 0 < rbCb.discTmrInt && rbCb.isDrb &&
    rbCb.discTmrInt ≤ rlcTimeDiff curTime sdu.arrTime

/-- The size of a PDU with the rest of the SDU, or what the grant leaves for one. -/
def rlcPduSz (sduSz pduSz rlcHdrSz macHdrSz : ℕ) : ℕ :=
  if sduSz + rlcHdrSz < sub32 pduSz macHdrSz then sduSz + rlcHdrSz else sub32 pduSz macHdrSz

def macHdrSz (rlcPduSz : ℕ) : ℕ := if 255 < rlcPduSz then RLC_MAC_HDR_SZ3 else RLC_MAC_HDR_SZ2

/-- The sizes of the RLC and MAC headers that are taken off the grant for a PDU with the SDU. -/
def hdrEstmt (rbCb : RlcDlRbCb) (sdu : RlcUmSdu) (pduSz : ℕ) : ℕ :=
  let hdrSz := if sdu.isSegmented then rbCb.snLen.octets + 2 else RLC_MIN_HDRSZ
  let sz := rlcPduSz sdu.sduSz pduSz hdrSz RLC_MAC_HDR_SZ2
  let macSz := macHdrSz sz
  let sz := if macSz = RLC_MAC_HDR_SZ2 then sz else rlcPduSz sdu.sduSz pduSz hdrSz macSz
  let macSz := if macSz = RLC_MAC_HDR_SZ2 then macSz else macHdrSz sz
  -- the SDU is to be segmented for the first time
  if !sdu.isSegmented && sub32 sz hdrSz < sdu.sduSz then
    rbCb.snLen.octets + macHdrSz (rlcPduSz sdu.sduSz pduSz rbCb.snLen.octets macSz)
  else hdrSz + macSz

/-- The SI of the PDU that ends the SDU, and that of one that does not. -/
def lastSi (sdu : RlcUmSdu) : Option Si := if sdu.isSegmented then some .last else none

def partSi (sdu : RlcUmSdu) : Option Si := if sdu.isSegmented then some .mid else some .first

/-- `rlcUmmCreatePdu` -/
def rlcUmmCreatePdu (rbCb : RlcDlRbCb) (si : Option Si) (so : ℕ) (mBuf : Octets)
    (umDl : RlcUmDl) : RlcUmDl × UmDlOut :=
  ({ umDl with
      txNext := if si = some .last then (umDl.txNext + 1) &&& rbCb.snLen.modBitMask
        else umDl.txNext },
    .pdu (umHdrOctets rbCb.snLen umDl.txNext si so ++ mBuf))

def hdrSo (sdu : RlcUmSdu) : ℕ := if sdu.isSegmented then sdu.actSz - sdu.sduSz else 0

/-- The rest of the SDU is sent. -/
def sendLast (rbCb : RlcDlRbCb) (sdu : RlcUmSdu) (umDl : RlcUmDl) : RlcUmDl × UmDlOut :=
  rbCb.rlcUmmCreatePdu (lastSi sdu) (hdrSo sdu) sdu.mBuf { umDl with
    bo := umDl.bo - sdu.sduSz - RLC_MAX_HDRSZ }

/-- A part of the SDU is sent. -/
def sendPart (rbCb : RlcDlRbCb) (sdu : RlcUmSdu) (pduSz : ℕ) (umDl : RlcUmDl) :
    RlcUmDl × UmDlOut :=
  rbCb.rlcUmmCreatePdu (partSi sdu) (hdrSo sdu) (sdu.mBuf.take pduSz) { umDl with
    bo := umDl.bo - pduSz }

/-- The SDU without the part. -/
def remSdu (sdu : RlcUmSdu) (pduSz : ℕ) : RlcUmSdu :=
  { sdu with
    isSegmented := true
    sduSz := sdu.sduSz - pduSz
    mBuf := sdu.mBuf.drop pduSz }

/-- The loop of `rlcUmmProcessSdus` over the queue, of which it goes on with the part that is
left. -/
def fillGrant (rbCb : RlcDlRbCb) (curTime : ℕ) :
    List RlcUmSdu → ℕ → ℕ → RlcUmDl → RlcUmDl × List UmDlOut
  | [], _, _, umDl => ({ umDl with sduQ := [] }, [])
  | sdu :: sduQ, pduSz, numPdu, umDl =>
    if pduSz = 0 ∨ RLC_MAX_PDU ≤ numPdu then ({ umDl with sduQ := sdu :: sduQ }, [])
    else if rbCb.discards curTime sdu then
      let r := fillGrant rbCb curTime sduQ pduSz numPdu { umDl with bo := umDl.bo - sdu.sduSz }
      (r.1, .discarded sdu.mBuf :: r.2)
    else if pduSz ≤ rbCb.hdrEstmt sdu pduSz then ({ umDl with sduQ := sdu :: sduQ }, [])
    else
      let pduSz := pduSz - rbCb.hdrEstmt sdu pduSz
      if sdu.sduSz ≤ pduSz then
        let c := rbCb.sendLast sdu umDl
        let r := fillGrant rbCb curTime sduQ (pduSz - sdu.sduSz) (numPdu + 1) c.1
        (r.1, c.2 :: r.2)
      else
        let c := rbCb.sendPart sdu pduSz umDl
        ({ c.1 with sduQ := remSdu sdu pduSz :: sduQ }, [c.2])

/-- `rlcUmmProcessSdus` with a grant. -/
def rlcUmmProcessSdus (rbCb : RlcDlRbCb) (curTime pduSz : ℕ) (umDl : RlcUmDl) :
    RlcUmDl × List UmDlOut :=
  rbCb.fillGrant curTime umDl.sduQ pduSz 0 umDl

end RlcDlRbCb

/-- `rlcUmmDiscSdu` -/
def rlcUmmDiscSdu (sduId : ℕ) (umDl : RlcUmDl) : RlcUmDl × List UmDlOut :=
  match umDl.sduQ with
  | [] => (umDl, [])
  | sdu :: sduQ =>
    if sdu.sduId = sduId ∧ sdu.isSegmented = false then
      ({ umDl with sduQ := sduQ }, [.discarded sdu.mBuf])
    else (umDl, [])

/-- What happens to the entity. The length of an SDU is a signed number of 16 bits. -/
inductive UmDlOp
  | qSdu (sduId arrTime : ℕ) (mBuf : Octets) (length_lt : mBuf.length < 2 ^ 15)
  | processSdus (curTime pduSz : ℕ)
  | discSdu (sduId : ℕ)

def UmDlOp.step (rbCb : RlcDlRbCb) (umDl : RlcUmDl) :
    UmDlOp → Except Empty (RlcUmDl × List UmDlOut)
  | .qSdu sduId arrTime mBuf _ => .ok (rlcUmmQSdu sduId arrTime mBuf umDl, [])
  | .processSdus curTime pduSz => .ok (rbCb.rlcUmmProcessSdus curTime pduSz umDl)
  | .discSdu sduId => .ok (rlcUmmDiscSdu sduId umDl)

end OaiCu.OduRlc
