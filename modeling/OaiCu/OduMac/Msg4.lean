import OaiCu.OduMac.MuxBlock
import OaiCu.OduSch.TbSize

/-!
# The transport block of MSG4

The size of MSG4 goes from the MAC (`mac_msg_hdl.c`) to the scheduler (`sch_common.c`), which looks
up the size of a transport block for it and a FAPI header, and back to the MAC (`mac_slot_ind.c`),
which multiplexes into that block without the header.
-/

namespace OaiCu.OduMac

open OduSch

def TX_PAYLOAD_HDR_LEN : ℕ := 32
def SRB0_LCID : ℕ := 0

/-- `DlCcchIndInfo`: a message of the DL-CCCH, with a length of 16 bits. -/
structure DlCcchIndInfo where
  crnti : ℕ
  rrcSetup : Bool
  dlCcchMsg : List UInt8
  length_lt : dlCcchMsg.length < 2 ^ 16

/-- `MacRaCbInfo`, with the parts that MSG4 is made of. -/
structure MacRaCbInfo where
  crnti : ℕ
  msg3Pdu : Vector UInt8 MAX_CRI_SIZE
  msg4Pdu : Option { pdu : List UInt8 // pdu.length < 2 ^ 16 }

/-- `DlRlcBoInfo`. -/
structure DlRlcBoInfo where
  crnti : ℕ
  lcId : ℕ
  dataVolume : ℕ
deriving DecidableEq, Repr

/-- `MacProcDlCcchInd`: the MSG4 is stored, and its volume with the subheader and the CE is sent to
the scheduler. -/
def MacProcDlCcchInd (raCb : MacRaCbInfo) (dlCcchIndInfo : DlCcchIndInfo) :
    MacRaCbInfo × DlRlcBoInfo :=
  if dlCcchIndInfo.rrcSetup then
    (if raCb.crnti = dlCcchIndInfo.crnti then
        { raCb with msg4Pdu := some ⟨dlCcchIndInfo.dlCcchMsg, dlCcchIndInfo.length_lt⟩ }
      else raCb,
      { crnti := dlCcchIndInfo.crnti
        lcId := SRB0_LCID
        dataVolume := dlCcchIndInfo.dlCcchMsg.length + 3 + (MAX_CRI_SIZE + 1) })
  else (raCb, ⟨dlCcchIndInfo.crnti, 0, 0⟩)

/-- `MacSchDlRlcBoInfo` for the SRB0: the volume goes into a field of 16 bits. -/
def storeDlMsgPduLen (dlBoInfo : DlRlcBoInfo) : ℕ := dlBoInfo.dataVolume % 2 ^ 16

/-- `schDlRsrcAllocMsg4`: the size of the block, if its PRBs are allocated. -/
def schDlRsrcAllocMsg4 (allocatePrbDl : ℕ → Bool) (dlMsgPduLen : ℕ) : Option ℕ :=
  let tbSize := schCalcTbSize (dlMsgPduLen + TX_PAYLOAD_HDR_LEN)
  if allocatePrbDl tbSize then some tbSize else none

/-- `fillMsg4DlData`. -/
def fillMsg4DlData (pdu : { pdu : List UInt8 // pdu.length < 2 ^ 16 }) : MacDlInfo :=
  ⟨MAC_LCID_CCCH, pdu.val, pdu.property⟩

/-- `fillMacCe`. -/
def fillMacCe (msg3Pdu : Vector UInt8 MAX_CRI_SIZE) : MacCe := ⟨MAC_LCID_CRI, msg3Pdu⟩

/-- The size of the buffer for MSG4, a number of 16 bits. -/
def msg4TxPduLen (msg4TbSize : ℕ) : ℕ := (msg4TbSize + 2 ^ 16 - TX_PAYLOAD_HDR_LEN) % 2 ^ 16

/-- `fillMsg4Pdu`, for a MSG4 that is stored: what the multiplexer writes. -/
def fillMsg4Pdu (raCb : MacRaCbInfo) (msg4TbSize : ℕ) : Option (Option (List UInt8)) :=
  raCb.msg4Pdu.map fun pdu =>
    macMuxPdu [fillMsg4DlData pdu] [fillMacCe raCb.msg3Pdu] (msg4TxPduLen msg4TbSize)

/-- What becomes of a message: nothing is sent, or the multiplexer wrote it, without a result if it
wrote outside of its buffer. -/
inductive Msg4
  | notSent
  | muxed (txPdu : Option (List UInt8))
deriving DecidableEq, Repr

/-- A message on its way through the three tasks. -/
def procMsg4 (allocatePrbDl : ℕ → Bool) (raCb : MacRaCbInfo) (dlCcchIndInfo : DlCcchIndInfo) : Msg4 :=
  let (raCb, dlBoInfo) := MacProcDlCcchInd raCb dlCcchIndInfo
  match schDlRsrcAllocMsg4 allocatePrbDl (storeDlMsgPduLen dlBoInfo) with
  | none => .notSent
  | some tbSize =>
    match fillMsg4Pdu raCb tbSize with
    | none => .notSent
    | some txPdu => .muxed txPdu

/-- The CE and the whole message are in the block that was written, if one was. -/
def Msg4Fits (raCb : MacRaCbInfo) (dlCcchIndInfo : DlCcchIndInfo) : Msg4 → Prop
  | .notSent => True
  | .muxed txPdu => ∃ block, txPdu = some block ∧ ∃ padding, block =
      ceOctets (fillMacCe raCb.msg3Pdu) ++
        sduOctets ⟨MAC_LCID_CCCH, dlCcchIndInfo.dlCcchMsg, dlCcchIndInfo.length_lt⟩ ++ padding

/-! ## Sizes -/

theorem tbSizeTable_le : ∀ size ∈ tbSizeTable, size ≤ 3824 := by
  decide +kernel

/-- The table ends at 478 octets. -/
theorem schCalcTbSize_le (payLoadSize : ℕ) : schCalcTbSize payLoadSize ≤ 478 := by
  rw [schCalcTbSize]
  split
  · exact Nat.le_refl _
  · refine Nat.div_le_of_le_mul ?_
    cases hfind : tbSizeTable.find? (payLoadSize * 8 ≤ ·) with
    | none => exact Nat.le_refl _
    | some size => exact tbSizeTable_le size (List.mem_of_find?_eq_some hfind)

/-- Up to there a payload gets what it needs. -/
theorem le_schCalcTbSize (payLoadSize : ℕ) : min payLoadSize 478 ≤ schCalcTbSize payLoadSize := by
  rw [schCalcTbSize]
  split
  · exact Nat.min_le_right _ _
  · refine (Nat.min_le_left _ _).trans ((Nat.le_div_iff_mul_le (by decide)).mpr ?_)
    cases hfind : tbSizeTable.find? (payLoadSize * 8 ≤ ·) with
    | none =>
      rw [Option.getD_none]
      omega
    | some size =>
      have hge := List.find?_some hfind
      exact of_decide_eq_true hge

/-- The octets of the CE, and of a message with its subheader. -/
theorem msg4_length (msg3Pdu : Vector UInt8 MAX_CRI_SIZE) (info : MacDlInfo)
    (hlcId : info.lcId = MAC_LCID_CCCH) :
    (ceOctets (fillMacCe msg3Pdu) ++ sduOctets info).length =
      9 + info.dlPdu.length + (if 255 < info.dlPdu.length then 1 else 0) := by
  have hcri : (fillMacCe msg3Pdu).macCeLcid % 2 ^ 8 = MAC_LCID_CRI := rfl
  have hccch : info.lcId % 2 ^ 8 ≤ MAC_LCID_MAX := by
    rw [hlcId]
    exact Nat.zero_le _
  rw [ceOctets, if_pos hcri, sduOctets, if_pos hccch, lenOctets, List.length_append,
    List.length_cons, List.length_cons, List.length_append, Vector.length_toList, MAX_CRI_SIZE]
  split
  · rw [List.length_cons, List.length_cons, List.length_nil]
    omega
  · rw [List.length_cons, List.length_nil]
    omega

/-- The buffer is as large as the message or as the largest block. -/
theorem msg4TxPduLen_eq (payLoadSize : ℕ) :
    msg4TxPduLen (schCalcTbSize (payLoadSize + TX_PAYLOAD_HDR_LEN)) =
      schCalcTbSize (payLoadSize + TX_PAYLOAD_HDR_LEN) - 32 := by
  have hle := schCalcTbSize_le (payLoadSize + TX_PAYLOAD_HDR_LEN)
  have hge := le_schCalcTbSize (payLoadSize + TX_PAYLOAD_HDR_LEN)
  simp only [msg4TxPduLen, TX_PAYLOAD_HDR_LEN] at *
  omega

/-- A MSG4 of at most 436 octets fits into its buffer, and no other one does. -/
theorem msg4_length_le_iff {len : ℕ} (hlen : len < 2 ^ 16) :
    9 + len + (if 255 < len then 1 else 0) ≤
      msg4TxPduLen (schCalcTbSize ((len + 3 + (MAX_CRI_SIZE + 1)) % 2 ^ 16 + TX_PAYLOAD_HDR_LEN)) ↔
      len ≤ 436 := by
  have hle := schCalcTbSize_le ((len + 3 + (MAX_CRI_SIZE + 1)) % 2 ^ 16 + TX_PAYLOAD_HDR_LEN)
  have hge := le_schCalcTbSize ((len + 3 + (MAX_CRI_SIZE + 1)) % 2 ^ 16 + TX_PAYLOAD_HDR_LEN)
  rw [msg4TxPduLen_eq]
  simp only [MAX_CRI_SIZE, TX_PAYLOAD_HDR_LEN] at *
  split
  · omega
  · omega

/-! ## The way of a message -/

section

variable {raCb : MacRaCbInfo} {dlCcchIndInfo : DlCcchIndInfo} {allocatePrbDl : ℕ → Bool}
  (hcrnti : raCb.crnti = dlCcchIndInfo.crnti) (hsetup : dlCcchIndInfo.rrcSetup = true)
include hcrnti hsetup

/-- The message is not sent without PRBs, and else it is written into a buffer of its size. -/
theorem procMsg4_eq : procMsg4 allocatePrbDl raCb dlCcchIndInfo =
    let tbSize := schCalcTbSize ((dlCcchIndInfo.dlCcchMsg.length + 3 + (MAX_CRI_SIZE + 1)) % 2 ^ 16 +
      TX_PAYLOAD_HDR_LEN)
    if allocatePrbDl tbSize then
      .muxed (macMuxPdu [⟨MAC_LCID_CCCH, dlCcchIndInfo.dlCcchMsg, dlCcchIndInfo.length_lt⟩]
        [fillMacCe raCb.msg3Pdu] (msg4TxPduLen tbSize))
    else .notSent := by
  simp only [procMsg4, MacProcDlCcchInd, if_pos hsetup, if_pos hcrnti, storeDlMsgPduLen,
    schDlRsrcAllocMsg4]
  split
  · rename_i hnone
    split at hnone
    · cases hnone
    · rename_i hprb
      rw [if_neg hprb]
  · rename_i hsome
    split at hsome
    · rename_i hprb
      obtain rfl := Option.some.inj hsome
      rw [if_pos hprb]
      rfl
    · cases hsome

omit hcrnti hsetup in
/-- The octets that the multiplexer writes. -/
theorem body_length :
    ([fillMacCe raCb.msg3Pdu].flatMap ceOctets ++
      [(⟨MAC_LCID_CCCH, dlCcchIndInfo.dlCcchMsg, dlCcchIndInfo.length_lt⟩ : MacDlInfo)].flatMap
        sduOctets).length =
      9 + dlCcchIndInfo.dlCcchMsg.length +
        (if 255 < dlCcchIndInfo.dlCcchMsg.length then 1 else 0) := by
  rw [List.flatMap_singleton, List.flatMap_singleton]
  exact msg4_length raCb.msg3Pdu _ rfl

theorem Msg4Fits.length_le
    (h : Msg4Fits raCb dlCcchIndInfo (procMsg4 (fun _ => true) raCb dlCcchIndInfo)) :
    dlCcchIndInfo.dlCcchMsg.length ≤ 436 := by
  rw [procMsg4_eq hcrnti hsetup] at h
  dsimp only at h
  rw [if_pos rfl, macMuxPdu_eq] at h
  obtain ⟨block, hblock, -⟩ := h
  dsimp only at hblock
  split at hblock
  · rename_i hle
    rw [body_length] at hle
    exact (msg4_length_le_iff dlCcchIndInfo.length_lt).mp hle
  · cases hblock

/-- Whatever PRBs are free, a MSG4 fits into its block when it has at most 436 octets, and only
then. -/
theorem msg4Fits_iff :
    (∀ allocatePrbDl, Msg4Fits raCb dlCcchIndInfo (procMsg4 allocatePrbDl raCb dlCcchIndInfo)) ↔
      dlCcchIndInfo.dlCcchMsg.length ≤ 436 := by
  constructor
  · intro h
    exact (h fun _ => true).length_le hcrnti hsetup
  · intro hshort allocatePrbDl
    rw [procMsg4_eq hcrnti hsetup]
    dsimp only
    split
    · rw [macMuxPdu_eq]
      have hle := (msg4_length_le_iff dlCcchIndInfo.length_lt).mpr hshort
      have hbody : [fillMacCe raCb.msg3Pdu].flatMap ceOctets ++
          [(⟨MAC_LCID_CCCH, dlCcchIndInfo.dlCcchMsg, dlCcchIndInfo.length_lt⟩ :
            MacDlInfo)].flatMap sduOctets = ceOctets (fillMacCe raCb.msg3Pdu) ++
          sduOctets ⟨MAC_LCID_CCCH, dlCcchIndInfo.dlCcchMsg, dlCcchIndInfo.length_lt⟩ := by
        rw [List.flatMap_singleton, List.flatMap_singleton]
      exact ⟨_, if_pos (body_length.trans_le hle), _, congrArg (· ++ _) hbody⟩
    · trivial

end

/-- An RA procedure of a UE. -/
def raCb17 : MacRaCbInfo := ⟨17, #v[1, 2, 3, 4, 5, 6], none⟩

/-- A MSG4 for it. -/
def dlCcchInd17 (len : ℕ) (h : len < 2 ^ 16) : DlCcchIndInfo :=
  ⟨17, true, List.replicate len 9, (List.length_replicate).trans_lt h⟩

theorem msg4Fits_largest : Msg4Fits raCb17 (dlCcchInd17 436 (by decide))
    (procMsg4 (fun _ => true) raCb17 (dlCcchInd17 436 (by decide))) :=
  (msg4Fits_iff rfl rfl).mpr List.length_replicate.le _

/-- A message with one octet more is not rejected, and its last octet is written behind the buffer. -/
theorem msg4Fits_overrun : ¬Msg4Fits raCb17 (dlCcchInd17 437 (by decide))
    (procMsg4 (fun _ => true) raCb17 (dlCcchInd17 437 (by decide))) := by
  intro h
  have hle := h.length_le rfl rfl
  rw [dlCcchInd17, List.length_replicate] at hle
  exact absurd hle (by decide)

end OaiCu.OduMac
