import OaiCu.OduRlc.Runs

/-!
# The STATUS PDU (`rlc_amm_dl.c`)

`rlcAmmCreateStatusPdu` writes as many NACKs as the grant has room for into the buffer
`cntrlPdu`, and gives the first one left out as ACK_SN. A write outside of the buffer, or a read
outside of the array, is `none`.
-/

namespace OaiCu.OduRlc

def RLC_MAX_CNTRL_FIELDS : ℕ := RLC_MAX_NACK_CNT * 8 + 3

def RLC_CNTRL_PDU_FIXED_HDRSZ : ℕ := 3

/-- `cntrlPdu`. It is not initialised; here it starts out clear. -/
abbrev CntrlPdu := Vector UInt8 RLC_MAX_CNTRL_FIELDS

/-- `cntrlPdu[i] = octet`. -/
def CntrlPdu.put (i : ℕ) (octet : UInt8) (cntrlPdu : CntrlPdu) : Option CntrlPdu :=
  if h : i < RLC_MAX_CNTRL_FIELDS then some (cntrlPdu.set i octet h) else none

/-- `cntrlPdu[i] |= octet`. -/
def CntrlPdu.putOr (i : ℕ) (octet : UInt8) (cntrlPdu : CntrlPdu) : Option CntrlPdu :=
  if h : i < RLC_MAX_CNTRL_FIELDS then some (cntrlPdu.set i (cntrlPdu[i] ||| octet) h) else none

/-- The octets of a NACK_SN. -/
def SnLen.nackSnSize : SnLen → ℕ
  | .bits12 => 2
  | .bits18 => 3

/-- The NACK_SN without its flags. -/
def putNackSn (snLen : SnLen) (encIdx sn : ℕ) (cntrlPdu : CntrlPdu) : Option CntrlPdu :=
  match snLen with
  | .bits12 => do
    let cntrlPdu ← cntrlPdu.put encIdx (.ofNat ((sn &&& 0xFF0) >>> 4))
    cntrlPdu.put (encIdx + 1) (.ofNat ((sn &&& 0xF) <<< 4))
  | .bits18 => do
    let cntrlPdu ← cntrlPdu.put encIdx (.ofNat ((sn &&& 0x3FC00) >>> 10))
    let cntrlPdu ← cntrlPdu.put (encIdx + 1) (.ofNat ((sn &&& 0x3FC) >>> 2))
    cntrlPdu.put (encIdx + 2) (.ofNat ((sn &&& 0x3) <<< 6))

/-- The flags E1, E2 and E3 in the last octet of a NACK_SN. -/
def SnLen.e1 : SnLen → UInt8
  | .bits12 => 0x8
  | .bits18 => 0x20

def SnLen.e2 : SnLen → UInt8
  | .bits12 => 0x4
  | .bits18 => 0x10

def SnLen.e3 : SnLen → UInt8
  | .bits12 => 0x2
  | .bits18 => 0x08

/-- SOstart and SOend behind the NACK_SN, if it is one of a segment. -/
def putSo (snLen : SnLen) (encIdx : ℕ) (nack : RlcNackInfo) (cntrlPdu : CntrlPdu) :
    Option CntrlPdu :=
  if nack.isSegment then do
    let cntrlPdu ← cntrlPdu.putOr (encIdx + (snLen.nackSnSize - 1)) snLen.e2
    let cntrlPdu ← cntrlPdu.put (encIdx + snLen.nackSnSize) (.ofNat (nack.soStart >>> 8))
    let cntrlPdu ← cntrlPdu.put (encIdx + snLen.nackSnSize + 1) (.ofNat nack.soStart)
    let cntrlPdu ← cntrlPdu.put (encIdx + snLen.nackSnSize + 2) (.ofNat (nack.soEnd >>> 8))
    cntrlPdu.put (encIdx + snLen.nackSnSize + 3) (.ofNat nack.soEnd)
  else some cntrlPdu

/-- The NACK range, if there is one, behind the offsets. -/
def putRange (snLen : SnLen) (encIdx : ℕ) (nack : RlcNackInfo) (cntrlPdu : CntrlPdu) :
    Option CntrlPdu :=
  if nack.nackRange ≠ 0 then do
    let cntrlPdu ← cntrlPdu.putOr (encIdx + (snLen.nackSnSize - 1)) snLen.e3
    cntrlPdu.put (encIdx + snLen.nackSnSize + if nack.isSegment then 4 else 0)
      (.ofNat nack.nackRange)
  else some cntrlPdu

/-- One NACK at `encIdx`. -/
def putNack (snLen : SnLen) (encIdx : ℕ) (nack : RlcNackInfo) (cntrlPdu : CntrlPdu) :
    Option CntrlPdu := do
  let cntrlPdu ← putNackSn snLen encIdx nack.sn cntrlPdu
  let cntrlPdu ← putSo snLen encIdx nack cntrlPdu
  putRange snLen encIdx nack cntrlPdu

/-- The octets of a NACK. -/
def nackOctets (snLen : SnLen) (nack : RlcNackInfo) : ℕ :=
  snLen.nackSnSize + (if nack.isSegment then 4 else 0) + if nack.nackRange ≠ 0 then 1 else 0

/-- The variables of the loop over the NACKs. -/
structure Encoder where
  cntrlPdu : CntrlPdu
  bytesToEncode : ℕ
  encIdx : ℕ
  prevEncIdx : ℕ
  ackSn : ℕ

/-- E1 in the NACK before, if there is one. -/
def putPrevE1 (snLen : SnLen) (prevEncIdx : ℕ) (cntrlPdu : CntrlPdu) : Option CntrlPdu :=
  if prevEncIdx ≠ 0 then cntrlPdu.putOr (prevEncIdx + (snLen.nackSnSize - 1)) snLen.e1
  else some cntrlPdu

/-- E1 in the third octet goes if not even the first NACK has room. -/
def clearE1 (snLen : SnLen) (nkCnt : ℕ) (cntrlPdu : CntrlPdu) : Option CntrlPdu :=
  if nkCnt = 0 then
    match snLen with
    | .bits12 => cntrlPdu.put 2 0
    | .bits18 => cntrlPdu[2]?.bind fun octet => cntrlPdu.put 2 (octet &&& 0xFD)
  else some cntrlPdu

/-- The loop over the NACKs; `left` of them are to come. -/
def encodeNacks (snLen : SnLen) (pStaPdu : RlcUdxDlStaPdu) (pduSz : ℤ) :
    ℕ → ℕ → Encoder → Option Encoder
  | 0, _, c => some c
  | left + 1, nkCnt, c => do
    let nack ← pStaPdu.nackInfo[nkCnt]?
    let bytesToEncode : ℕ := (c.bytesToEncode + nackOctets snLen nack) % 2 ^ 16
    if (bytesToEncode : ℤ) ≤ pduSz then
      let cntrlPdu ← putPrevE1 snLen c.prevEncIdx c.cntrlPdu
      let cntrlPdu ← putNack snLen c.encIdx nack cntrlPdu
      encodeNacks snLen pStaPdu pduSz left (nkCnt + 1) {
        cntrlPdu := cntrlPdu
        bytesToEncode := bytesToEncode
        encIdx := bytesToEncode
        prevEncIdx := c.encIdx
        ackSn := c.ackSn }
    else
      let cntrlPdu ← clearE1 snLen nkCnt c.cntrlPdu
      return { c with
        cntrlPdu := cntrlPdu
        ackSn := nack.sn }

/-- ACK_SN in the first three octets. -/
def putAckSn (snLen : SnLen) (ackSn : ℕ) (cntrlPdu : CntrlPdu) : Option CntrlPdu :=
  match snLen with
  | .bits12 => do
    let cntrlPdu ← cntrlPdu.putOr 0 (.ofNat ((ackSn &&& 0xF00) >>> 8))
    cntrlPdu.put 1 (.ofNat ackSn)
  | .bits18 => do
    let cntrlPdu ← cntrlPdu.putOr 0 (.ofNat ((ackSn &&& 0x3C000) >>> 14))
    let cntrlPdu ← cntrlPdu.put 1 (.ofNat ((ackSn &&& 0x3FC0) >>> 6))
    cntrlPdu.putOr 2 (.ofNat ((ackSn &&& 0x3F) <<< 2))

/-- E1 in the third octet, if there are NACKs. -/
def putE1 (snLen : SnLen) (nackCount : ℕ) (cntrlPdu : CntrlPdu) : Option CntrlPdu :=
  if nackCount ≠ 0 then
    match snLen with
    | .bits12 => cntrlPdu.put 2 0x80
    | .bits18 => cntrlPdu.put 2 0x2
  else some cntrlPdu

/-- The octets that are added to the message, and what is left of the grant. -/
def rlcAmmCreateStatusPdu (snLen : SnLen) (pStaPdu : RlcUdxDlStaPdu) (pduSz : ℤ) :
    Option (List UInt8 × ℤ) := do
  let cntrlPdu ← CntrlPdu.put 0 0x00 (Vector.replicate RLC_MAX_CNTRL_FIELDS 0)
  let cntrlPdu ← cntrlPdu.put 2 0x00
  let cntrlPdu ← putE1 snLen pStaPdu.nackCount cntrlPdu
  let c ← encodeNacks snLen pStaPdu pduSz pStaPdu.nackCount 0 {
    cntrlPdu := cntrlPdu
    bytesToEncode := 3
    encIdx := 3
    prevEncIdx := 0
    ackSn := pStaPdu.ackSn }
  let cntrlPdu ← putAckSn snLen c.ackSn c.cntrlPdu
  return (cntrlPdu.toList.take c.encIdx, pduSz - c.encIdx)

/-- The size of the MAC header that is expected. -/
def macHdrEstmt (cntrlBo : ℕ) : ℕ := if cntrlBo < 256 then RLC_MAC_HDR_SZ2 else RLC_MAC_HDR_SZ3

/-- The message for the STATUS, if the grant has room for its fixed part, and what is left of
the grant. -/
def rlcAmmDlAssembleCntrlInfo (snLen : SnLen) (pStaPdu : RlcUdxDlStaPdu) (cntrlBo : ℕ)
    (pduSz : ℤ) : Option (Option (List UInt8) × ℤ) :=
  if (RLC_CNTRL_PDU_FIXED_HDRSZ + macHdrEstmt cntrlBo : ℤ) ≤ pduSz then
    (rlcAmmCreateStatusPdu snLen pStaPdu (pduSz - macHdrEstmt cntrlBo)).map
      fun (mBuf, pduSz) => (some mBuf, pduSz)
  else some (none, pduSz)

/-! ## No write outside of the buffer -/

theorem isSome_bind {α β : Type*} {o : Option α} {f : α → Option β} (ho : o.isSome)
    (hf : ∀ a, (f a).isSome) : (o.bind f).isSome := by
  obtain ⟨a, rfl⟩ := Option.isSome_iff_exists.1 ho
  exact hf a

section

variable {snLen : SnLen} {i : ℕ} {cntrlPdu : CntrlPdu} {nack : RlcNackInfo}

theorem put_isSome (h : i < RLC_MAX_CNTRL_FIELDS) (octet : UInt8) :
    (cntrlPdu.put i octet).isSome := by
  rw [CntrlPdu.put, dif_pos h]
  rfl

theorem putOr_isSome (h : i < RLC_MAX_CNTRL_FIELDS) (octet : UInt8) :
    (cntrlPdu.putOr i octet).isSome := by
  rw [CntrlPdu.putOr, dif_pos h]
  rfl

theorem nackSnSize_bounds (snLen : SnLen) : 2 ≤ snLen.nackSnSize ∧ snLen.nackSnSize ≤ 3 := by
  cases snLen <;> decide

theorem putNackSn_isSome (h : i + snLen.nackSnSize ≤ RLC_MAX_CNTRL_FIELDS) (sn : ℕ) :
    (putNackSn snLen i sn cntrlPdu).isSome := by
  cases snLen <;> simp only [SnLen.nackSnSize] at h
  · exact isSome_bind (put_isSome (by omega) _) fun _ => put_isSome (by omega) _
  · exact isSome_bind (put_isSome (by omega) _) fun _ =>
      isSome_bind (put_isSome (by omega) _) fun _ => put_isSome (by omega) _

theorem putSo_isSome
    (h : i + snLen.nackSnSize + (if nack.isSegment then 4 else 0) ≤ RLC_MAX_CNTRL_FIELDS) :
    (putSo snLen i nack cntrlPdu).isSome := by
  rw [putSo]
  split
  case isFalse => rfl
  case isTrue hs =>
    rw [if_pos hs] at h
    have := nackSnSize_bounds snLen
    exact isSome_bind (putOr_isSome (by omega) _) fun _ =>
      isSome_bind (put_isSome (by omega) _) fun _ =>
        isSome_bind (put_isSome (by omega) _) fun _ =>
          isSome_bind (put_isSome (by omega) _) fun _ => put_isSome (by omega) _

/-- A NACK stays within its octets. -/
theorem putNack_isSome (h : i + nackOctets snLen nack ≤ RLC_MAX_CNTRL_FIELDS) :
    (putNack snLen i nack cntrlPdu).isSome := by
  rw [nackOctets] at h
  refine isSome_bind (putNackSn_isSome (by omega) _) fun _ =>
    isSome_bind (putSo_isSome (by omega)) fun _ => ?_
  rw [putRange]
  split
  case isFalse => rfl
  case isTrue hr =>
    rw [if_pos hr] at h
    have := nackSnSize_bounds snLen
    exact isSome_bind (putOr_isSome (by omega) _) fun _ => put_isSome (by omega) _

theorem putE1_isSome (nackCount : ℕ) : (putE1 snLen nackCount cntrlPdu).isSome := by
  cases snLen <;> rw [putE1] <;> split
  · exact put_isSome (by decide) _
  · rfl
  · exact put_isSome (by decide) _
  · rfl

theorem putPrevE1_isSome (h : i ≠ 0 → i + snLen.nackSnSize ≤ RLC_MAX_CNTRL_FIELDS) :
    (putPrevE1 snLen i cntrlPdu).isSome := by
  rw [putPrevE1]
  split
  case isTrue hi =>
    have h1 := h hi
    have h2 := nackSnSize_bounds snLen
    exact putOr_isSome (by omega) _
  case isFalse => rfl

theorem clearE1_isSome (nkCnt : ℕ) : (clearE1 snLen nkCnt cntrlPdu).isSome := by
  cases snLen <;> rw [clearE1] <;> split
  · exact put_isSome (by decide) _
  · rfl
  · rw [Vector.getElem?_eq_getElem (by decide)]
    exact put_isSome (by decide) _
  · rfl

theorem putAckSn_isSome (ackSn : ℕ) : (putAckSn snLen ackSn cntrlPdu).isSome := by
  cases snLen <;> rw [putAckSn]
  · refine isSome_bind ?_ fun _ => ?_
    · exact putOr_isSome (by decide) _
    · exact put_isSome (by decide) _
  · refine isSome_bind ?_ fun _ => isSome_bind ?_ fun _ => ?_
    · exact putOr_isSome (by decide) _
    · exact put_isSome (by decide) _
    · exact putOr_isSome (by decide) _

theorem nackOctets_bounds (snLen : SnLen) (nack : RlcNackInfo) :
    snLen.nackSnSize ≤ nackOctets snLen nack ∧ nackOctets snLen nack ≤ 8 := by
  have := nackSnSize_bounds snLen
  rw [nackOctets]
  split_ifs <;> omega

end

/-- The loop over the NACKs, with `nkCnt` of them behind it: the next one starts at `encIdx`, and
the flags of the last one are before. -/
structure Encoder.Inv (snLen : SnLen) (pduSz : ℤ) (nkCnt : ℕ) (c : Encoder) : Prop where
  bytesToEncode : c.bytesToEncode = c.encIdx
  encIdx_le : c.encIdx ≤ 3 + 8 * nkCnt
  encIdx_le_pduSz : (c.encIdx : ℤ) ≤ pduSz
  prevEncIdx : c.prevEncIdx ≠ 0 → c.prevEncIdx + snLen.nackSnSize ≤ c.encIdx

theorem encodeNacks_inv {snLen : SnLen} (pStaPdu : RlcUdxDlStaPdu) {pduSz : ℤ} {left nkCnt : ℕ}
    {c : Encoder} (hl : nkCnt + left ≤ RLC_MAX_NACK_CNT) (h : c.Inv snLen pduSz nkCnt) :
    ∃ c', encodeNacks snLen pStaPdu pduSz left nkCnt c = some c' ∧
      c'.encIdx ≤ RLC_MAX_CNTRL_FIELDS ∧ (c'.encIdx : ℤ) ≤ pduSz := by
  induction left generalizing nkCnt c with
  | zero =>
    have := h.encIdx_le
    exact ⟨c, rfl, by simp only [RLC_MAX_CNTRL_FIELDS]; omega, h.encIdx_le_pduSz⟩
  | succ left ih =>
    have hlt : nkCnt < RLC_MAX_NACK_CNT := by omega
    obtain ⟨ho1, ho2⟩ := nackOctets_bounds snLen pStaPdu.nackInfo[nkCnt]
    have hs := nackSnSize_bounds snLen
    have h1 := h.encIdx_le
    have h2 := h.bytesToEncode
    have hmod : (c.bytesToEncode + nackOctets snLen pStaPdu.nackInfo[nkCnt]) % 2 ^ 16 =
        c.encIdx + nackOctets snLen pStaPdu.nackInfo[nkCnt] := by
      rw [h2, Nat.mod_eq_of_lt]
      simp only [RLC_MAX_NACK_CNT] at hlt
      omega
    have hread : pStaPdu.nackInfo[nkCnt]? = some pStaPdu.nackInfo[nkCnt] :=
      Vector.getElem?_eq_getElem hlt
    simp only [encodeNacks, hread, Option.bind_eq_bind, Option.bind_some, hmod]
    split
    case isTrue hroom =>
      have hfit : c.encIdx + nackOctets snLen pStaPdu.nackInfo[nkCnt] ≤ RLC_MAX_CNTRL_FIELDS := by
        simp only [RLC_MAX_CNTRL_FIELDS]
        omega
      have he1 : (putPrevE1 snLen c.prevEncIdx c.cntrlPdu).isSome :=
        putPrevE1_isSome fun hp => (h.prevEncIdx hp).trans (by omega)
      obtain ⟨b1, hb1⟩ := Option.isSome_iff_exists.1 he1
      have he2 : (putNack snLen c.encIdx pStaPdu.nackInfo[nkCnt] b1).isSome := putNack_isSome hfit
      obtain ⟨b2, hb2⟩ := Option.isSome_iff_exists.1 he2
      rw [hb1, Option.bind_some, hb2, Option.bind_some]
      refine ih (by omega) ⟨rfl, ?_, hroom, fun _ => ?_⟩
      · simp only
        omega
      · simp only
        omega
    case isFalse =>
      have hclear : (clearE1 snLen nkCnt c.cntrlPdu).isSome := clearE1_isSome nkCnt
      obtain ⟨b1, hb1⟩ := Option.isSome_iff_exists.1 hclear
      rw [hb1]
      refine ⟨_, rfl, ?_, h.encIdx_le_pduSz⟩
      simp only [RLC_MAX_CNTRL_FIELDS]
      omega

/-- **The STATUS PDU stays in its buffer and in the grant**, for every structure whose count
stays in the array. -/
theorem createStatusPdu_inside {pStaPdu : RlcUdxDlStaPdu}
    (hc : pStaPdu.nackCount ≤ RLC_MAX_NACK_CNT) (snLen : SnLen) {pduSz : ℤ}
    (hp : (RLC_CNTRL_PDU_FIXED_HDRSZ : ℤ) ≤ pduSz) :
    ∃ mBuf, rlcAmmCreateStatusPdu snLen pStaPdu pduSz = some (mBuf, pduSz - mBuf.length) ∧
      (mBuf.length : ℤ) ≤ pduSz := by
  have h0 : (CntrlPdu.put 0 0x00 (Vector.replicate RLC_MAX_CNTRL_FIELDS 0)).isSome :=
    put_isSome (by decide) _
  obtain ⟨b0, h0⟩ := Option.isSome_iff_exists.1 h0
  have h1 : (b0.put 2 0x00).isSome := put_isSome (by decide) _
  obtain ⟨b1, h1⟩ := Option.isSome_iff_exists.1 h1
  have h2 : (putE1 snLen pStaPdu.nackCount b1).isSome := putE1_isSome _
  obtain ⟨b2, h2⟩ := Option.isSome_iff_exists.1 h2
  have hinv : (⟨b2, 3, 3, 0, pStaPdu.ackSn⟩ : Encoder).Inv snLen pduSz 0 :=
    ⟨rfl, by simp, hp, fun h => absurd rfl h⟩
  obtain ⟨c, hc1, hc2, hc3⟩ := encodeNacks_inv pStaPdu (show 0 + pStaPdu.nackCount ≤ _ by omega) hinv
  have h3 : (putAckSn snLen c.ackSn c.cntrlPdu).isSome := putAckSn_isSome _
  obtain ⟨b3, h3⟩ := Option.isSome_iff_exists.1 h3
  have hlen : (b3.toList.take c.encIdx).length = c.encIdx := by
    rw [List.length_take, Vector.length_toList, min_eq_left hc2]
  refine ⟨b3.toList.take c.encIdx, ?_, by rw [hlen]; exact hc3⟩
  rw [hlen]
  simp only [rlcAmmCreateStatusPdu, h0, h1, h2, hc1, h3, Option.bind_eq_bind, Option.bind_some]
  rfl

theorem dlAssembleCntrlInfo_inside {pStaPdu : RlcUdxDlStaPdu}
    (hc : pStaPdu.nackCount ≤ RLC_MAX_NACK_CNT) (snLen : SnLen) (cntrlBo : ℕ) (pduSz : ℤ) :
    ∃ mBuf left, rlcAmmDlAssembleCntrlInfo snLen pStaPdu cntrlBo pduSz = some (mBuf, left) ∧
      ∀ octets, mBuf = some octets → (octets.length : ℤ) ≤ pduSz := by
  rw [rlcAmmDlAssembleCntrlInfo]
  split
  case isFalse => exact ⟨none, pduSz, rfl, fun _ h => by cases h⟩
  case isTrue hp =>
    have hp' : (RLC_CNTRL_PDU_FIXED_HDRSZ : ℤ) ≤ pduSz - macHdrEstmt cntrlBo := by omega
    obtain ⟨mBuf, h1, h2⟩ := createStatusPdu_inside hc snLen hp'
    rw [h1]
    refine ⟨some mBuf, _, rfl, fun octets ho => ?_⟩
    rw [← Option.some.inj ho]
    omega

end OaiCu.OduRlc
