import OaiCu.OduRlc.AmDl
import OaiCu.Lib.BitStream

/-!
# The STATUS PDU at its receiver (`rlc_amm_ul.c`)

`rlcAmmUlHndlStatusPdu` reads a STATUS PDU field by field and hands what it read to the
transmitter. The fields do not keep to the octets: `rlcAmmExtractElmnt` holds what is left of
the last octet it took from the message. In terms of the bits still to be read it takes the next
`len` of them, as long as they span no more octets than it is written for.
-/

namespace OaiCu.OduRlc

open BitStream

def RLC_BYTE_LEN : ℕ := 8

def RLC_E1_LEN : ℕ := 1

def RLC_CPT_LEN : ℕ := 3

def RLC_SO_LEN_5GNR : ℕ := 16

def RLC_NACK_RANGE_LEN : ℕ := 8

def RLC_CNTRL_PDU : ℕ := 0

/-- `RlcExtHdr`, with the message it reads from. The first `pLen` bits of `hdr` are still to be
read. -/
structure RlcExtHdr where
  val : ℕ := 0
  hdr : ℕ := 0
  pLen : ℕ := 0
  pdu : List UInt8

namespace RlcExtHdr

/-- `ODU_REM_PRE_MSG(&hdr, pdu)`. An empty message leaves the octet as it was. -/
def remPreMsg (hdrInfo : RlcExtHdr) : RlcExtHdr :=
  match hdrInfo.pdu with
  | [] => hdrInfo
  | octet :: pdu => { hdrInfo with
      hdr := octet.toNat
      pdu := pdu }

/-- The octet that is begun, or the next one. -/
def begun (hdrInfo : RlcExtHdr) : RlcExtHdr :=
  if hdrInfo.pLen = 0 then { hdrInfo.remPreMsg with pLen := 8 } else hdrInfo

/-- The last `rLen` bits of a field that did not end in its first octet. -/
def lastOctet (rLen val : ℕ) (hdrInfo : RlcExtHdr) : RlcExtHdr :=
  { hdrInfo with
    val := val ||| hdrInfo.hdr >>> (RLC_BYTE_LEN - rLen)
    hdr := hdrInfo.hdr <<< rLen % 2 ^ 8
    pLen := RLC_BYTE_LEN - rLen }

end RlcExtHdr

/-- The next field of `len` bits, in `val`. -/
def rlcAmmExtractElmnt (len : ℕ) (hdrInfo : RlcExtHdr) : RlcExtHdr :=
  let hdrInfo := hdrInfo.begun
  if len ≤ 8 then
    { hdrInfo with
      val := hdrInfo.hdr >>> (RLC_BYTE_LEN - len)
      hdr := hdrInfo.hdr <<< len % 2 ^ 8
      pLen := (hdrInfo.pLen + 2 ^ 8 - len) % 2 ^ 8 }
  else
    let fLen := hdrInfo.pLen
    let rLen := len - fLen
    let val := hdrInfo.hdr >>> (RLC_BYTE_LEN - fLen) <<< rLen
    let hdrInfo := hdrInfo.remPreMsg
    if rLen ≤ 8 then hdrInfo.lastOctet rLen val
    else
      let rLen := rLen - RLC_BYTE_LEN
      hdrInfo.remPreMsg.lastOctet rLen (val ||| hdrInfo.hdr <<< rLen % 2 ^ 16)

/-- The bits of an SN, and the reserved ones behind ACK_SN and NACK_SN. -/
def SnLen.bits : SnLen → ℕ
  | .bits12 => 12
  | .bits18 => 18

def SnLen.resrvdBitsAckSn : SnLen → ℕ
  | .bits12 => 7
  | .bits18 => 1

def SnLen.resrvdBitsNackSn : SnLen → ℕ
  | .bits12 => 1
  | .bits18 => 3

/-- SOstart and SOend, if the NACK is one of a segment. -/
def extractSo (isSegment : Bool) (hdrInfo : RlcExtHdr) : ℕ × ℕ × RlcExtHdr :=
  if isSegment then
    let soStart := rlcAmmExtractElmnt RLC_SO_LEN_5GNR hdrInfo
    let soEnd := rlcAmmExtractElmnt RLC_SO_LEN_5GNR soStart
    (soStart.val, soEnd.val, soEnd)
  else (0, 0, hdrInfo)

/-- The NACK range, if there is one. The structure starts out clear. -/
def extractRange (e3 : ℕ) (hdrInfo : RlcExtHdr) : ℕ × RlcExtHdr :=
  if e3 ≠ 0 then
    let snRange := rlcAmmExtractElmnt RLC_NACK_RANGE_LEN hdrInfo
    (snRange.val % 2 ^ 8, snRange)
  else (0, hdrInfo)

/-- One NACK, and its E1. -/
def extractNack (snLen : SnLen) (hdrInfo : RlcExtHdr) : RlcNackInfo × ℕ × RlcExtHdr :=
  let sn := rlcAmmExtractElmnt snLen.bits hdrInfo
  let e1 := rlcAmmExtractElmnt RLC_E1_LEN sn
  let e2 := rlcAmmExtractElmnt RLC_E1_LEN e1
  let e3 := rlcAmmExtractElmnt RLC_E1_LEN e2
  let resrvd := rlcAmmExtractElmnt snLen.resrvdBitsNackSn e3
  let isSegment : Bool := e2.val ≠ 0
  let so := extractSo isSegment resrvd
  let range := extractRange e3.val so.2.2
  ({ nackRange := range.1
     isSegment := isSegment
     sn := sn.val
     soStart := so.1
     soEnd := so.2.1 }, e1.val, range.2)

/-- The loop over the NACKs: the array has room for `left` more. -/
def extractNacks (snLen : SnLen) : ℕ → ℕ → RlcExtHdr → List RlcNackInfo
  | 0, _, _ => []
  | left + 1, e1, hdrInfo =>
    if e1 ≠ 0 then
      let nack := extractNack snLen hdrInfo
      nack.1 :: extractNacks snLen left nack.2.1 nack.2.2
    else []

/-- ACK_SN is not used when the array is full. -/
def ackSnOf (snLen : SnLen) (ackSn : ℕ) (nackInfo : List RlcNackInfo) : ℕ :=
  if nackInfo.length = RLC_MAX_NACK_CNT then
    (nackInfo.getLast?.elim 0 (·.sn) + 1) &&& snLen.snModMask
  else ackSn

/-- What is handed to the transmitter; nothing if CPT has a reserved value. The first octet has
been taken from the message. -/
def rlcAmmUlHndlStatusPdu (snLen : SnLen) (fByte : UInt8) (cntrlPdu : List UInt8) :
    Option RlcUdxStaPdu :=
  let hdr := fByte.toNat <<< 1 % 2 ^ 8
  if hdr &&& 0xE0 ≠ 0 then none
  else
    let cpt : RlcExtHdr := {
      hdr := hdr <<< RLC_CPT_LEN % 2 ^ 8
      pLen := 4
      pdu := cntrlPdu }
    let ackSn := rlcAmmExtractElmnt snLen.bits cpt
    let e1 := rlcAmmExtractElmnt RLC_E1_LEN ackSn
    let resrvd := rlcAmmExtractElmnt snLen.resrvdBitsAckSn e1
    let nackInfo := extractNacks snLen RLC_MAX_NACK_CNT e1.val resrvd
    some {
      ackSn := ackSnOf snLen ackSn.val nackInfo
      nackInfo := nackInfo }

/-- `rlcAmmProcessPdus` on a control PDU: D/C is in the first octet. -/
def rcvCntrlPdu (snLen : SnLen) : List UInt8 → Option RlcUdxStaPdu
  | [] => none
  | fByte :: pdu =>
    if (fByte.toNat &&& 0x80) >>> 7 = RLC_CNTRL_PDU then rlcAmmUlHndlStatusPdu snLen fByte pdu
    else none

/-! ## The bits that are read -/

namespace RlcExtHdr

/-- The bits still to be read. -/
def toBits (hdrInfo : RlcExtHdr) : List Bool :=
  (bitsOf 8 hdrInfo.hdr).take hdrInfo.pLen ++ bytesBits hdrInfo.pdu

/-- The bits `s` are still to be read, and an octet read to its end is left behind. -/
structure Reads (hdrInfo : RlcExtHdr) (s : List Bool) : Prop where
  pLen_lt : hdrInfo.pLen < 8
  hdr_lt : hdrInfo.hdr < 2 ^ 8
  toBits : hdrInfo.toBits = s

variable {hdrInfo : RlcExtHdr} {s : List Bool}

theorem Reads.length (h : hdrInfo.Reads s) : s.length = hdrInfo.pLen + 8 * hdrInfo.pdu.length := by
  have := h.pLen_lt
  rw [← h.toBits, RlcExtHdr.toBits, List.length_append, List.length_take, bitsOf_length,
    bytesBits_length]
  omega

theorem remPreMsg_eq {octet : UInt8} {pdu : List UInt8} (h : hdrInfo.pdu = octet :: pdu) :
    hdrInfo.remPreMsg = { hdrInfo with
      hdr := octet.toNat
      pdu := pdu } := by
  simp [remPreMsg, h]

/-- The octet that is begun has bits left. -/
theorem Reads.begun (h : hdrInfo.Reads s) (hs : s ≠ []) :
    0 < hdrInfo.begun.pLen ∧ hdrInfo.begun.pLen ≤ 8 ∧ hdrInfo.begun.hdr < 2 ^ 8 ∧
      hdrInfo.begun.toBits = s := by
  have hlt := h.pLen_lt
  rw [RlcExtHdr.begun]
  split
  case isFalse hp => exact ⟨Nat.pos_of_ne_zero hp, hlt.le, h.hdr_lt, h.toBits⟩
  case isTrue hp =>
    cases hpdu : hdrInfo.pdu with
    | nil =>
        have hl := h.length
        rw [hp, hpdu] at hl
        exact absurd (List.eq_nil_of_length_eq_zero hl) hs
    | cons octet pdu =>
        refine ⟨Nat.succ_pos 7, le_refl 8, ?_, ?_⟩
        · rw [remPreMsg_eq hpdu]
          exact octet.toNat_lt
        · have hb := h.toBits
          rw [RlcExtHdr.toBits, hp, hpdu, List.take_zero, List.nil_append] at hb
          rw [remPreMsg_eq hpdu, RlcExtHdr.toBits, List.take_of_length_le (by simp), ← hb]
          rfl

/-- `k` bits of the octet that is begun. -/
theorem toBits_take {k : ℕ} (hk : k ≤ hdrInfo.pLen) (hp : hdrInfo.pLen ≤ 8)
    (hh : hdrInfo.hdr < 2 ^ 8) :
    ofBits (hdrInfo.toBits.take k) = hdrInfo.hdr >>> (8 - k) ∧
      hdrInfo.toBits.drop k =
        (bitsOf 8 (hdrInfo.hdr <<< k % 2 ^ 8)).take (hdrInfo.pLen - k) ++ bytesBits hdrInfo.pdu := by
  have hlen : k ≤ ((bitsOf 8 hdrInfo.hdr).take hdrInfo.pLen).length := by
    rw [List.length_take, bitsOf_length]
    omega
  constructor
  · rw [toBits, List.take_append_of_le_length hlen, List.take_take, min_eq_left hk,
      ofBits_take (by omega) hh]
  · rw [toBits, List.drop_append_of_le_length hlen, bitsOf_shiftLeft_take (by omega),
      List.drop_take]

/-- The next octet of the message. -/
theorem reads_lastOctet {rLen : ℕ} (front : List Bool) (hr : 0 < rLen) (hr8 : rLen ≤ 8)
    (hpdu : hdrInfo.pdu ≠ []) :
    (hdrInfo.remPreMsg.lastOctet rLen (ofBits front <<< rLen)).val =
        ofBits (front ++ (bytesBits hdrInfo.pdu).take rLen) ∧
      (hdrInfo.remPreMsg.lastOctet rLen (ofBits front <<< rLen)).Reads
        ((bytesBits hdrInfo.pdu).drop rLen) := by
  obtain ⟨octet, pdu, hcons⟩ := List.exists_cons_of_ne_nil hpdu
  have hoct : octet.toNat < 2 ^ 8 := octet.toNat_lt
  have hbits : RlcExtHdr.toBits { hdr := octet.toNat, pLen := 8, pdu := pdu } =
      bytesBits hdrInfo.pdu := by
    rw [RlcExtHdr.toBits, List.take_of_length_le (by simp), hcons]
    rfl
  obtain ⟨h1, h2⟩ := @toBits_take { hdr := octet.toNat, pLen := 8, pdu := pdu } _ hr8 (le_refl 8)
    hoct
  rw [hbits] at h1 h2
  have hlen : ((bytesBits hdrInfo.pdu).take rLen).length = rLen := by
    rw [List.length_take, bytesBits_length, hcons, List.length_cons]
    omega
  rw [remPreMsg_eq hcons]
  refine ⟨?_, ⟨?_, Nat.mod_lt _ (by decide), h2.symm⟩⟩
  · rw [ofBits_append, hlen, h1]
    rfl
  · simp only [lastOctet, RLC_BYTE_LEN]
    omega

end RlcExtHdr

/-- A field of at most eight bits lies within an octet, a longer one ends in the octet behind the
next one at the latest. -/
def Spans (len bits : ℕ) : Prop :=
  if len ≤ 8 then bits % 8 = 0 ∨ len ≤ bits % 8 else len ≤ 16 + bits % 8 ∨ bits % 8 = 0 ∧ len ≤ 24

/-- **The extractor takes the next field**, wherever it starts in its octet. -/
theorem extractElmnt_take {hdrInfo : RlcExtHdr} {s : List Bool} {len : ℕ} (h : hdrInfo.Reads s)
    (hlen : 0 < len) (hs : len ≤ s.length) (hspan : Spans len s.length) :
    (rlcAmmExtractElmnt len hdrInfo).val = ofBits (s.take len) ∧
      (rlcAmmExtractElmnt len hdrInfo).Reads (s.drop len) := by
  have hne : s ≠ [] := List.ne_nil_of_length_pos (by omega)
  have hmod : s.length % 8 = hdrInfo.pLen := by
    have := h.length
    have := h.pLen_lt
    omega
  obtain ⟨hp0, hp8, hh, hbits⟩ := h.begun hne
  have hbegun : hdrInfo.begun.pLen = if s.length % 8 = 0 then 8 else s.length % 8 := by
    rw [hmod, RlcExtHdr.begun]
    split <;> rfl
  have hlength : s.length = hdrInfo.begun.pLen + 8 * hdrInfo.begun.pdu.length := by
    rw [← hbits, RlcExtHdr.toBits, List.length_append, List.length_take, bitsOf_length,
      bytesBits_length]
    omega
  rw [rlcAmmExtractElmnt]
  generalize hdrInfo.begun = hdr at hp0 hp8 hh hbits hbegun hlength ⊢
  rw [Spans] at hspan
  by_cases h8 : len ≤ 8
  case pos =>
    rw [if_pos h8] at hspan ⊢
    have hle : len ≤ hdr.pLen := by
      rw [hbegun]
      split <;> omega
    obtain ⟨h1, h2⟩ := RlcExtHdr.toBits_take hle hp8 hh
    rw [hbits] at h1 h2
    have hsub : (hdr.pLen + 2 ^ 8 - len) % 2 ^ 8 = hdr.pLen - len := by omega
    refine ⟨h1.symm, ⟨?_, Nat.mod_lt _ (by decide), ?_⟩⟩
    · simp only [hsub]
      omega
    · simp only [RlcExtHdr.toBits, hsub]
      exact h2.symm
  case neg =>
    rw [if_neg h8] at hspan ⊢
    obtain ⟨h1, h2⟩ := RlcExtHdr.toBits_take (le_refl hdr.pLen) hp8 hh
    have hrest : bytesBits hdr.pdu = s.drop hdr.pLen := by
      rw [← hbits, h2, Nat.sub_self, List.take_zero, List.nil_append]
    rw [hbits] at h1
    have hpdu : hdr.pdu ≠ [] := by
      rintro hnil
      rw [hnil] at hlength
      simp only [List.length_nil] at hlength
      omega
    have htake : ∀ k, s.take hdr.pLen ++ (s.drop hdr.pLen).take k = s.take (hdr.pLen + k) :=
      fun k => (List.take_add).symm
    simp only [RLC_BYTE_LEN, ← h1]
    split
    case isTrue hr =>
      obtain ⟨h3, h4⟩ := RlcExtHdr.reads_lastOctet (s.take hdr.pLen) (by omega) hr hpdu
      rw [hrest, htake, List.drop_drop, Nat.add_sub_cancel' (by omega)] at *
      exact ⟨h3, h4⟩
    case isFalse hr =>
      obtain ⟨octet, pdu, hcons⟩ := List.exists_cons_of_ne_nil hpdu
      have hnext : hdr.remPreMsg.pdu = pdu := by rw [RlcExtHdr.remPreMsg_eq hcons]
      have hoctet : hdr.remPreMsg.hdr = ofBits (byteBits octet) := by
        rw [RlcExtHdr.remPreMsg_eq hcons, byteBits, ofBits_bitsOf octet.toNat_lt]
      have hpdu2 : hdr.remPreMsg.pdu ≠ [] := by
        rw [hnext]
        rintro hnil
        rw [hcons, hnil] at hlength
        simp only [List.length_cons, List.length_nil] at hlength
        omega
      have hshift : ofBits (byteBits octet) <<< (len - hdr.pLen - 8) % 2 ^ 16 =
          ofBits (byteBits octet) <<< (len - hdr.pLen - 8) := by
        refine Nat.mod_eq_of_lt ?_
        rw [Nat.shiftLeft_eq, byteBits, ofBits_bitsOf octet.toNat_lt]
        calc octet.toNat * 2 ^ (len - hdr.pLen - 8)
            ≤ octet.toNat * 2 ^ 8 :=
              Nat.mul_le_mul_left _ (Nat.pow_le_pow_right (by decide) (by omega))
          _ < 2 ^ 16 := by
              have := octet.toNat_lt
              omega
      have hval : ofBits (s.take hdr.pLen) <<< (len - hdr.pLen) |||
            ofBits (byteBits octet) <<< (len - hdr.pLen - 8) =
          ofBits (s.take hdr.pLen ++ byteBits octet) <<< (len - hdr.pLen - 8) := by
        rw [ofBits_append, byteBits_length, Nat.shiftLeft_or_distrib, ← Nat.shiftLeft_add,
          Nat.add_sub_cancel' (by omega)]
      obtain ⟨h3, h4⟩ := RlcExtHdr.reads_lastOctet (s.take hdr.pLen ++ byteBits octet)
        (by omega) (show len - hdr.pLen - 8 ≤ 8 by omega) hpdu2
      have hs2 : s.drop hdr.pLen = byteBits octet ++ bytesBits pdu := by
        rw [← hrest, hcons, bytesBits_cons]
      have htail : bytesBits pdu = (s.drop hdr.pLen).drop 8 := by
        rw [hs2, List.drop_left' (byteBits_length octet)]
      have hfront : s.take hdr.pLen ++ byteBits octet = s.take (hdr.pLen + 8) := by
        rw [← htake, hs2, List.take_left' (byteBits_length octet)]
      rw [hnext, htail, List.drop_drop, hfront] at h3 h4
      rw [hoctet, hshift, hval, hfront]
      refine ⟨?_, ?_⟩
      · rw [h3, ← List.take_add]
        congr 2
        omega
      · rw [List.drop_drop] at h4
        convert h4 using 2
        omega

theorem extractElmnt_field {hdrInfo : RlcExtHdr} {len v : ℕ} {rest : List Bool}
    (h : hdrInfo.Reads (bitsOf len v ++ rest)) (hlen : 0 < len) (hv : v < 2 ^ len)
    (hspan : Spans len (len + rest.length)) :
    (rlcAmmExtractElmnt len hdrInfo).val = v ∧ (rlcAmmExtractElmnt len hdrInfo).Reads rest := by
  have hl : (bitsOf len v ++ rest).length = len + rest.length := by
    rw [List.length_append, bitsOf_length]
  obtain ⟨h1, h2⟩ := extractElmnt_take h hlen (by omega) (by rwa [hl])
  rw [List.take_left' (bitsOf_length len v), ofBits_bitsOf hv] at h1
  rw [List.drop_left' (bitsOf_length len v)] at h2
  exact ⟨h1, h2⟩

/-! ## A NACK and the loop -/

/-- The values of a NACK are within their fields. -/
structure RlcNackInfo.Fits (snLen : SnLen) (nack : RlcNackInfo) : Prop where
  sn : nack.sn < snLen.modulus
  soStart : nack.soStart < 2 ^ 16
  soEnd : nack.soEnd < 2 ^ 16
  nackRange : nack.nackRange < 2 ^ 8

/-- What the receiver learns of a NACK: the offsets of a segment only. -/
def RlcNackInfo.received (nack : RlcNackInfo) : RlcNackInfo :=
  { nack with
    soStart := if nack.isSegment then nack.soStart else 0
    soEnd := if nack.isSegment then nack.soEnd else 0 }

def soBits (nack : RlcNackInfo) : List Bool :=
  if nack.isSegment then bitsOf 16 nack.soStart ++ bitsOf 16 nack.soEnd else []

def rangeBits (nack : RlcNackInfo) : List Bool :=
  if nack.nackRange ≠ 0 then bitsOf 8 nack.nackRange else []

/-- A NACK in the STATUS PDU. -/
def nackBits (snLen : SnLen) (e1 : Bool) (nack : RlcNackInfo) : List Bool :=
  bitsOf snLen.bits nack.sn ++ (bitsOf 1 e1.toNat ++ (bitsOf 1 nack.isSegment.toNat ++
    (bitsOf 1 (decide (nack.nackRange ≠ 0)).toNat ++ (bitsOf snLen.resrvdBitsNackSn 0 ++
      (soBits nack ++ rangeBits nack)))))

section

variable {snLen : SnLen} {nack : RlcNackInfo} {hdrInfo : RlcExtHdr} {rest : List Bool}

theorem extractSo_spec (h : hdrInfo.Reads (soBits nack ++ rest)) (hn : nack.Fits snLen)
    (hr : rest.length % 8 = 0) :
    (extractSo nack.isSegment hdrInfo).1 = nack.received.soStart ∧
      (extractSo nack.isSegment hdrInfo).2.1 = nack.received.soEnd ∧
      (extractSo nack.isSegment hdrInfo).2.2.Reads rest := by
  rw [extractSo, RlcNackInfo.received]
  rw [soBits] at h
  split
  case isFalse hs => exact ⟨rfl, rfl, by rwa [if_neg hs] at h⟩
  case isTrue hs =>
    rw [if_pos hs, List.append_assoc] at h
    have hspan : ∀ n, n % 8 = 0 → Spans 16 (16 + n) := fun n hn => by
      rw [Spans, if_neg (by decide)]
      omega
    obtain ⟨h1, h2⟩ := extractElmnt_field h (by decide) hn.soStart
      (hspan _ (by rw [List.length_append, bitsOf_length]; omega))
    obtain ⟨h3, h4⟩ := extractElmnt_field h2 (by decide) hn.soEnd (hspan _ hr)
    exact ⟨h1, h3, h4⟩

theorem extractRange_spec (h : hdrInfo.Reads (rangeBits nack ++ rest)) (hn : nack.Fits snLen)
    (hr : rest.length % 8 = 0) :
    (extractRange (decide (nack.nackRange ≠ 0)).toNat hdrInfo).1 = nack.nackRange ∧
      (extractRange (decide (nack.nackRange ≠ 0)).toNat hdrInfo).2.Reads rest := by
  rw [rangeBits] at h
  by_cases h0 : nack.nackRange = 0
  · rw [h0] at h ⊢
    exact ⟨rfl, h⟩
  · rw [if_pos h0] at h
    have hspan : Spans 8 (8 + rest.length) := by
      rw [Spans, if_pos (le_refl 8)]
      omega
    obtain ⟨h1, h2⟩ := extractElmnt_field h (by decide) hn.nackRange hspan
    rw [extractRange, decide_eq_true h0, if_pos (by decide)]
    refine ⟨?_, h2⟩
    simp only [RLC_NACK_RANGE_LEN, h1]
    exact Nat.mod_eq_of_lt hn.nackRange

theorem bits_bool (b : Bool) : b.toNat < 2 ^ 1 := by cases b <;> decide

/-- **One NACK is read back.** -/
theorem extractNack_spec {e1 : Bool} (h : hdrInfo.Reads (nackBits snLen e1 nack ++ rest))
    (hn : nack.Fits snLen) (hr : rest.length % 8 = 0) :
    (extractNack snLen hdrInfo).1 = nack.received ∧
      (extractNack snLen hdrInfo).2.1 = e1.toNat ∧ (extractNack snLen hdrInfo).2.2.Reads rest := by
  have htail : (soBits nack ++ (rangeBits nack ++ rest)).length % 8 = 0 := by
    simp only [soBits, rangeBits, List.length_append]
    split_ifs <;> simp <;> omega
  simp only [nackBits, List.append_assoc] at h
  generalize hs : soBits nack ++ (rangeBits nack ++ rest) = s at h htail
  have hsn : nack.sn < 2 ^ snLen.bits := by
    have := hn.sn
    cases snLen <;> exact this
  obtain ⟨v1, h1⟩ := extractElmnt_field h (by cases snLen <;> decide) hsn
    (by cases snLen <;> simp [Spans, SnLen.bits, SnLen.resrvdBitsNackSn] <;> omega)
  obtain ⟨v2, h2⟩ := extractElmnt_field h1 (by decide) (bits_bool e1)
    (by cases snLen <;> simp [Spans, SnLen.resrvdBitsNackSn] <;> omega)
  obtain ⟨v3, h3⟩ := extractElmnt_field h2 (by decide) (bits_bool nack.isSegment)
    (by cases snLen <;> simp [Spans, SnLen.resrvdBitsNackSn] <;> omega)
  obtain ⟨v4, h4⟩ := extractElmnt_field h3 (by decide) (bits_bool _)
    (by cases snLen <;> simp [Spans, SnLen.resrvdBitsNackSn] <;> omega)
  obtain ⟨v5, h5⟩ := extractElmnt_field h4 (by cases snLen <;> decide)
    (by cases snLen <;> decide)
    (by cases snLen <;> simp [Spans, SnLen.resrvdBitsNackSn] <;> omega)
  rw [← hs] at h5
  have hseg : (decide (nack.isSegment.toNat ≠ 0)) = nack.isSegment := by
    cases nack.isSegment <;> rfl
  have hr' : (rangeBits nack ++ rest).length % 8 = 0 := by
    rw [rangeBits, List.length_append]
    split_ifs <;> simp <;> omega
  obtain ⟨v6, v7, h6⟩ := extractSo_spec h5 hn hr'
  obtain ⟨v8, h7⟩ := extractRange_spec h6 hn hr
  simp only [extractNack, RLC_E1_LEN, v1, v2, v3, v4, hseg, v6, v7, v8]
  exact ⟨rfl, trivial, h7⟩

/-- The NACKs with their flags: every one but the last has another one behind it. -/
def nacksBits (snLen : SnLen) : List RlcNackInfo → List Bool
  | [] => []
  | nack :: nacks => nackBits snLen (!nacks.isEmpty) nack ++ nacksBits snLen nacks

theorem nackBits_length (snLen : SnLen) (e1 : Bool) (nack : RlcNackInfo) :
    (nackBits snLen e1 nack).length % 8 = 0 := by
  simp only [nackBits, soBits, rangeBits, List.length_append]
  cases snLen <;> split_ifs <;> simp [SnLen.bits, SnLen.resrvdBitsNackSn]

theorem nacksBits_length (snLen : SnLen) (nacks : List RlcNackInfo) :
    (nacksBits snLen nacks).length % 8 = 0 := by
  induction nacks with
  | nil => rfl
  | cons nack nacks ih =>
      have := nackBits_length snLen (!nacks.isEmpty) nack
      rw [nacksBits, List.length_append]
      omega

/-- **The loop reads all NACKs back** that the array has room for. -/
theorem extractNacks_spec {nacks : List RlcNackInfo} {left : ℕ}
    (h : hdrInfo.Reads (nacksBits snLen nacks ++ rest)) (hn : ∀ nack ∈ nacks, nack.Fits snLen)
    (hl : nacks.length ≤ left) (hr : rest.length % 8 = 0) :
    extractNacks snLen left (!nacks.isEmpty).toNat hdrInfo = nacks.map RlcNackInfo.received := by
  induction nacks generalizing left hdrInfo with
  | nil => cases left <;> rfl
  | cons nack nacks ih =>
      cases left with
      | zero => exact absurd hl (by simp)
      | succ left =>
          rw [nacksBits, List.append_assoc] at h
          have hrest : (nacksBits snLen nacks ++ rest).length % 8 = 0 := by
            have := nacksBits_length snLen nacks
            rw [List.length_append]
            omega
          obtain ⟨h1, h2, h3⟩ := extractNack_spec h (hn nack (by simp)) hrest
          rw [extractNacks, if_pos (by simp)]
          simp only [h1, h2]
          rw [ih h3 (fun n hm => hn n (by simp [hm])) (by simpa using hl), List.map_cons]

end

/-! ## The whole PDU -/

/-- ACK_SN, E1 and the reserved bits behind D/C and CPT. -/
def ackBits (snLen : SnLen) (ackSn : ℕ) (e1 : Bool) : List Bool :=
  bitsOf snLen.bits ackSn ++ (bitsOf 1 e1.toNat ++ bitsOf snLen.resrvdBitsAckSn 0)

/-- D/C and CPT of a STATUS PDU are clear: the octet is a small one. -/
theorem fByte_small {f : ℕ} (h : f < 16) :
    (f &&& 0x80) >>> 7 = RLC_CNTRL_PDU ∧ f <<< 1 % 2 ^ 8 &&& 0xE0 = 0 ∧
      (f <<< 1 % 2 ^ 8) <<< RLC_CPT_LEN % 2 ^ 8 = f <<< 4 % 2 ^ 8 := by
  interval_cases f <;> decide

/-- Behind CPT the second half of the first octet is still to be read. -/
theorem reads_cpt {fByte : UInt8} (h : fByte.toNat < 16) (pdu : List UInt8) :
    (RlcExtHdr.mk 0 ((fByte.toNat <<< 1 % 2 ^ 8) <<< RLC_CPT_LEN % 2 ^ 8) 4 pdu).Reads
      (bitsOf 4 fByte.toNat ++ bytesBits pdu) := by
  obtain ⟨-, -, hhdr⟩ := fByte_small h
  refine ⟨show 4 < 8 by decide, Nat.mod_lt _ (by decide), ?_⟩
  simp only [RlcExtHdr.toBits, hhdr]
  rw [bitsOf_shiftLeft_take (by decide), bitsOf_drop (by decide),
    List.take_of_length_le (by simp)]

/-- The STATUS that is handed on, by the fields that are extracted behind CPT. -/
theorem rcvCntrlPdu_eq {snLen : SnLen} {fByte : UInt8} {pdu : List UInt8}
    (h : fByte.toNat < 16) : rcvCntrlPdu snLen (fByte :: pdu) =
      (let cpt := RlcExtHdr.mk 0 ((fByte.toNat <<< 1 % 2 ^ 8) <<< RLC_CPT_LEN % 2 ^ 8) 4 pdu
       let ackSn := rlcAmmExtractElmnt snLen.bits cpt
       let e1 := rlcAmmExtractElmnt RLC_E1_LEN ackSn
       let resrvd := rlcAmmExtractElmnt snLen.resrvdBitsAckSn e1
       let nackInfo := extractNacks snLen RLC_MAX_NACK_CNT e1.val resrvd
       some { ackSn := ackSnOf snLen ackSn.val nackInfo, nackInfo := nackInfo }) := by
  obtain ⟨hdc, hcpt, -⟩ := fByte_small h
  rw [rcvCntrlPdu, if_pos hdc, rlcAmmUlHndlStatusPdu]
  simp only [hcpt, ne_eq, not_true_eq_false, if_false]

theorem ackSnOf_eq (snLen : SnLen) (ackSn : ℕ) {nackInfo : List RlcNackInfo}
    (h : nackInfo.length < RLC_MAX_NACK_CNT) : ackSnOf snLen ackSn nackInfo = ackSn :=
  if_neg h.ne

/-- **A STATUS PDU is read back** from its bits. -/
theorem rcvCntrlPdu_spec {snLen : SnLen} {pdu : List UInt8} {ackSn : ℕ}
    {nacks : List RlcNackInfo}
    (h : bytesBits pdu = bitsOf 4 0 ++ (ackBits snLen ackSn (!nacks.isEmpty) ++
      nacksBits snLen nacks))
    (hack : ackSn < snLen.modulus) (hn : ∀ nack ∈ nacks, nack.Fits snLen)
    (hl : nacks.length < RLC_MAX_NACK_CNT) :
    rcvCntrlPdu snLen pdu = some {
      ackSn := ackSn
      nackInfo := nacks.map RlcNackInfo.received } := by
  cases pdu with
  | nil => simp [bitsOf] at h
  | cons fByte pdu =>
      have h8 : fByte.toNat < 2 ^ 8 := fByte.toNat_lt
      have hsplit : bitsOf 4 (fByte.toNat >>> 4) ++ (bitsOf 4 fByte.toNat ++ bytesBits pdu) =
          bitsOf 4 0 ++ (ackBits snLen ackSn (!nacks.isEmpty) ++ nacksBits snLen nacks) := by
        rw [← h, bytesBits_cons, byteBits, ← List.append_assoc, ← bitsOf_add]
      obtain ⟨hhigh, hlow⟩ := List.append_inj hsplit (by simp)
      have hsmall : fByte.toNat < 16 := by
        have hval := congrArg ofBits hhigh
        rw [ofBits_bitsOf_mod, ofBits_bitsOf_mod, Nat.shiftRight_eq_div_pow] at hval
        omega
      have h0 := reads_cpt hsmall pdu
      rw [hlow] at h0
      have hlen := nacksBits_length snLen nacks
      simp only [ackBits, List.append_assoc] at h0
      obtain ⟨v1, h1⟩ := extractElmnt_field h0 (by cases snLen <;> decide)
        (by cases snLen <;> exact hack)
        (by cases snLen <;> simp [Spans, SnLen.bits, SnLen.resrvdBitsAckSn] <;> omega)
      obtain ⟨v2, h2⟩ := extractElmnt_field h1 (by decide) (bits_bool _)
        (by cases snLen <;> simp [Spans, SnLen.resrvdBitsAckSn] <;> omega)
      obtain ⟨-, h3⟩ := extractElmnt_field h2 (by cases snLen <;> decide)
        (by cases snLen <;> decide)
        (by cases snLen <;> simp [Spans, SnLen.resrvdBitsAckSn] <;> omega)
      rw [← List.append_nil (nacksBits snLen nacks)] at h3
      have h4 := extractNacks_spec h3 hn hl.le rfl
      rw [rcvCntrlPdu_eq hsmall]
      simp only [RLC_E1_LEN, v2]
      rw [h4, v1, ackSnOf_eq _ _ (by simpa using hl)]

end OaiCu.OduRlc
