import OaiCu.Lib.Memory
import OaiCu.NrMac.MacPdu

/-!
# The control elements of a downlink MAC PDU

`nr_write_ce_dlsch_pdu` writes what is scheduled, one control element behind the other, each behind its
subheader.
-/

namespace OaiCu.NrMac

open Memory

/-- The LCIDs of the DL-SCH that are no logical channels. -/
inductive DlSchLcid
  | recommendedBitrate
  | spZpCsiRsResSetAct
  | pucchSpatialRelationAct
  | spSrsActivation
  | spCsiRepPucchAct
  | tciStateIndUeSpecPdcch
  | tciStateActUeSpecPdsch
  | aperiodicCsiTriStateSubsel
  | spCsiRsCsiImResSetAct
  | duplicationAct
  | scellAct4Oct
  | scellAct1Oct
  | lDrx
  | drx
  | taCommand
  | conResId
  | padding
  deriving DecidableEq, Repr

def DlSchLcid.code : DlSchLcid → ℕ
  | recommendedBitrate => 0x2F
  | spZpCsiRsResSetAct => 0x30
  | pucchSpatialRelationAct => 0x31
  | spSrsActivation => 0x32
  | spCsiRepPucchAct => 0x33
  | tciStateIndUeSpecPdcch => 0x34
  | tciStateActUeSpecPdsch => 0x35
  | aperiodicCsiTriStateSubsel => 0x36
  | spCsiRsCsiImResSetAct => 0x37
  | duplicationAct => 0x38
  | scellAct4Oct => 0x39
  | scellAct1Oct => 0x3A
  | lDrx => 0x3B
  | drx => 0x3C
  | taCommand => 0x3D
  | conResId => 0x3E
  | padding => 0x3F

/-- An octet of bit fields, the lowest one first: their widths and what is stored in them. -/
def fieldsOctet (fields : List (ℕ × ℕ)) : UInt8 :=
  UInt8.ofNat (fields.foldr (fun field high => field.2 % 2 ^ field.1 + 2 ^ field.1 * high) 0)

/-- NR_MAC_SUBHEADER_FIXED. -/
def subheaderFixed (lcid : ℕ) : List UInt8 := [fieldsOctet [(6, lcid), (2, 0)]]

/-- NR_MAC_SUBHEADER_SHORT with F = 0. -/
def subheaderShort (lcid len : ℕ) : List UInt8 :=
  [fieldsOctet [(6, lcid), (1, 0), (1, 0)], UInt8.ofNat len]

/-- NR_MAC_SUBHEADER_LONG with F = 1. -/
def subheaderLong (lcid len : ℕ) : List UInt8 :=
  [fieldsOctet [(6, lcid), (1, 1), (1, 0)], UInt8.ofNat (len / 256), UInt8.ofNat len]

/-! ## What is scheduled -/

/-- pdcchStateInd_t. -/
structure PdcchStateInd where
  isScheduled : Bool
  servingCellId : ℕ
  coresetId : ℕ
  tciStateId : ℕ

/-- SPCSIReportingpucch_t. -/
structure SpCsiReportingPucch where
  isScheduled : Bool
  servingCellId : ℕ
  bwpId : ℕ
  s0tos3ActDeact : Fin 4 → Bool

/-- pdschTciStatesActDeact_t and aperiodicCSI_triggerStateSelection_t. -/
structure StateSelection where
  isScheduled : Bool
  servingCellId : ℕ
  bwpId : ℕ
  highest : UInt8
  selected : ℕ → Bool

/-- sp_zp_csirs_t. -/
structure SpZpCsirs where
  isScheduled : Bool
  actDeact : Bool
  servCellId : ℕ
  bwpid : ℕ
  rscId : ℕ

/-- csi_rs_im_t. -/
structure CsiRsIm where
  isScheduled : Bool
  actDeact : Bool
  servCellid : ℕ
  bwpId : ℕ
  im : Bool
  csiImRscId : ℕ
  nzpCsiRscId : ℕ
  nbTciResourceSetId : ℕ
  tciStateId : ℕ → ℕ

/-- NR_UE_mac_ce_ctrl_t. -/
structure UeMacCeCtrl where
  spZpCsiRs : SpZpCsirs
  csiIm : CsiRsIm
  pdcchStateInd : PdcchStateInd
  spCsiReportingPucch : SpCsiReportingPucch
  aperiCsiTrigger : StateSelection
  pdschTciStatesActDeact : StateSelection

/-- What is read for the control elements. The last two are what stands in the bits of the stack that are
not written: the TAG id of a timing advance if the one of the cell is 0, and R1 of a CSI report. -/
structure DlCeInput where
  tagId : ℕ
  taApply : Bool
  taUpdate : ℤ
  ctrl : UeMacCeCtrl
  drxCmd : ℕ
  ueContResId : Option (Fin 6 → UInt8)
  staleTagId : ℕ
  staleR1 : ℕ

/-- A control element that may be scheduled. -/
structure MacCe where
  isScheduled : Bool
  lcid : DlSchLcid
  subheader : List UInt8
  ce : List UInt8

/-- A control element of a fixed length. -/
def MacCe.fixed (isScheduled : Bool) (lcid : DlSchLcid) (ce : List UInt8) : MacCe :=
  { isScheduled := isScheduled
    lcid := lcid
    subheader := subheaderFixed lcid.code
    ce := ce }

namespace DlCeInput

variable (x : DlCeInput)

def drxCe : MacCe := .fixed (x.drxCmd ≠ 255) .drx []

/-- NR_MAC_CE_TA. -/
def taCe : MacCe :=
  .fixed x.taApply .taCommand
    [fieldsOctet
      [(6, (x.taUpdate % 64).toNat), (2, if x.tagId ≠ 0 then x.tagId else x.staleTagId)]]

def conResIdCe : MacCe :=
  match x.ueContResId with
  | some id => .fixed true .conResId (List.ofFn id)
  | none => .fixed false .conResId []

/-- NR_TCI_PDCCH. -/
def tciPdcchCe : MacCe :=
  .fixed x.ctrl.pdcchStateInd.isScheduled .tciStateIndUeSpecPdcch
    [fieldsOctet
      [(3, x.ctrl.pdcchStateInd.coresetId % 16 / 2), (5, x.ctrl.pdcchStateInd.servingCellId)],
     fieldsOctet [(7, x.ctrl.pdcchStateInd.tciStateId), (1, x.ctrl.pdcchStateInd.coresetId)]]

/-- NR_PUCCH_CSI_REPORTING. -/
def pucchCsiReportingCe : MacCe :=
  .fixed x.ctrl.spCsiReportingPucch.isScheduled .spCsiRepPucchAct
    [fieldsOctet
      [(2, x.ctrl.spCsiReportingPucch.bwpId), (5, x.ctrl.spCsiReportingPucch.servingCellId),
       (1, x.staleR1)],
     fieldsOctet
      [(1, (x.ctrl.spCsiReportingPucch.s0tos3ActDeact 0).toNat),
       (1, (x.ctrl.spCsiReportingPucch.s0tos3ActDeact 1).toNat),
       (1, (x.ctrl.spCsiReportingPucch.s0tos3ActDeact 2).toNat),
       (1, (x.ctrl.spCsiReportingPucch.s0tos3ActDeact 3).toNat), (4, 0)]]

/-- NR_TCI_PDSCH_APERIODIC_CSI. -/
def stateSelectionCe (lcid : DlSchLcid) (sel : StateSelection) : MacCe :=
  let numOctects := sel.highest.toNat / 8 + 1
  { isScheduled := sel.isScheduled
    lcid := lcid
    subheader := subheaderShort lcid.code (1 + numOctects)
    ce :=
      fieldsOctet [(2, sel.bwpId), (5, sel.servingCellId), (1, 0)] ::
        (List.range numOctects).map fun i =>
          fieldsOctet ((List.range 8).map fun j => (1, (sel.selected (8 * i + j)).toNat)) }

def tciPdschCe : MacCe := stateSelectionCe .tciStateActUeSpecPdsch x.ctrl.pdschTciStatesActDeact

def aperiodicCsiCe : MacCe := stateSelectionCe .aperiodicCsiTriStateSubsel x.ctrl.aperiCsiTrigger

/-- NR_MAC_CE_SP_ZP_CSI_RS_RES_SET. -/
def spZpCsiRsCe : MacCe :=
  .fixed x.ctrl.spZpCsiRs.isScheduled .spZpCsiRsResSetAct
    [fieldsOctet
      [(2, x.ctrl.spZpCsiRs.bwpid), (5, x.ctrl.spZpCsiRs.servCellId),
       (1, x.ctrl.spZpCsiRs.actDeact.toNat)],
     fieldsOctet [(4, x.ctrl.spZpCsiRs.rscId), (4, 0)]]

/-- CSI_RS_CSI_IM_ACT_DEACT_MAC_CE: the CSI-IM is there only with IM, the TCI states only with A/D. -/
def csiImCe : MacCe :=
  .fixed x.ctrl.csiIm.isScheduled .spCsiRsCsiImResSetAct
    (fieldsOctet
        [(2, x.ctrl.csiIm.bwpId), (5, x.ctrl.csiIm.servCellid % 64),
         (1, x.ctrl.csiIm.actDeact.toNat)] ::
      fieldsOctet [(6, x.ctrl.csiIm.nzpCsiRscId), (1, x.ctrl.csiIm.im.toNat), (1, 0)] ::
      ((if x.ctrl.csiIm.im then [fieldsOctet [(6, x.ctrl.csiIm.csiImRscId), (2, 0)]] else []) ++
        if x.ctrl.csiIm.actDeact then
          (List.range x.ctrl.csiIm.nbTciResourceSetId).map fun i =>
            fieldsOctet [(6, x.ctrl.csiIm.tciStateId i % 128), (2, 0)]
        else []))

/-- In the order in which they are written. -/
def macCes : List MacCe :=
  [x.drxCe, x.taCe, x.conResIdCe, x.tciPdcchCe, x.pucchCsiReportingCe, x.tciPdschCe,
   x.aperiodicCsiCe, x.spZpCsiRsCe, x.csiImCe]

/-- nr_write_ce_dlsch_pdu; the assertion is on the timing advance. -/
def nrWriteCeDlschPdu (w : Writer UInt8) : Option (Writer UInt8) :=
  if x.taApply = true ∧ 64 ≤ x.taUpdate then none
  else
    some (x.macCes.foldl
      (fun w ce => if ce.isScheduled then (w.put ce.subheader).put ce.ce else w) w)

end DlCeInput

/-! ## What is written -/

/-- The octets of a control element, if it is scheduled. -/
def MacCe.octets (ce : MacCe) : List UInt8 := if ce.isScheduled then ce.subheader ++ ce.ce else []

/-- What a control element is read as. -/
def MacCe.seen (ce : MacCe) : List (ℕ × List UInt8) :=
  if ce.isScheduled then [(ce.lcid.code, ce.ce)] else []

/-- The control elements that are written. -/
def DlCeInput.octets (x : DlCeInput) : List UInt8 := x.macCes.flatMap MacCe.octets

def DlCeInput.seen (x : DlCeInput) : List (ℕ × List UInt8) := x.macCes.flatMap MacCe.seen

theorem foldl_put (ces : List MacCe) (w : Writer UInt8) :
    ces.foldl (fun w ce => if ce.isScheduled then (w.put ce.subheader).put ce.ce else w) w =
      w.put (ces.flatMap MacCe.octets) := by
  induction ces generalizing w with
  | nil => exact w.put_nil.symm
  | cons ce ces ih =>
      rw [List.foldl_cons, ih, List.flatMap_cons, MacCe.octets]
      cases ce.isScheduled with
      | true => rw [if_pos rfl, if_pos rfl, Writer.put_put, Writer.put_put,
          List.append_assoc]
      | false => rw [if_neg Bool.false_ne_true, if_neg Bool.false_ne_true, List.nil_append]

/-- Whether there is an assertion does not depend on the memory. -/
theorem DlCeInput.nrWriteCeDlschPdu_isSome {x : DlCeInput} {w w' : Writer UInt8}
    (h : x.nrWriteCeDlschPdu w = some w') (v : Writer UInt8) :
    x.nrWriteCeDlschPdu v = some (v.put x.octets) := by
  rw [nrWriteCeDlschPdu] at h ⊢
  split at h
  · cases h
  · rw [if_neg ‹_›, foldl_put]
    rfl

/-!
## Which control elements of the downlink can be read back

The receiver knows the length of a payload by the LCID, or reads an L field. A CSI-RS and CSI-IM resource
set activation has an L field for the receiver, and none is written.
-/

/-- How nr_ue_process_mac_pdu knows the length of a payload on the DL-SCH. -/
def dlPayloadLen : ℕ → Option PayloadLen
  | 0x2F => some (.fixed 2)
  | 0x30 => some (.fixed 2)
  | 0x31 => some (.fixed 3)
  | 0x33 => some (.fixed 2)
  | 0x34 => some (.fixed 2)
  | 0x38 => some (.fixed 1)
  | 0x39 => some (.fixed 4)
  | 0x3A => some (.fixed 1)
  | 0x3B => some (.fixed 0)
  | 0x3C => some (.fixed 0)
  | 0x3D => some (.fixed 1)
  | 0x3E => some (.fixed 6)
  | 0x3F => none
  | _ => some .inLField

theorem dlPayloadLen_padding : dlPayloadLen lcidPadding = none := rfl

theorem reads_of_not_isScheduled {ce : MacCe} (h : ce.isScheduled = false) :
    Reads dlPayloadLen ce.octets ce.seen := by
  rw [MacCe.octets, MacCe.seen, h]
  exact Reads.nil

theorem reads_of_encode {ce : MacCe} {len : PayloadLen} (octet : UInt8)
    (hlcid : lcidOf octet = ce.lcid.code) (hlen : dlPayloadLen ce.lcid.code = some len)
    (hfit : SubPdu.Fits { octet := octet, payload := ce.ce } len)
    (henc : ce.subheader = SubPdu.header { octet := octet, payload := ce.ce } len) :
    Reads dlPayloadLen ce.octets ce.seen := by
  cases hs : ce.isScheduled with
  | false => exact reads_of_not_isScheduled hs
  | true =>
      have hread := reads_encode (s := { octet := octet, payload := ce.ce }) dlPayloadLen_padding
        (show dlPayloadLen (lcidOf octet) = some len by rw [hlcid, hlen]) hfit
      rw [SubPdu.encode, ← henc, SubPdu.lcid, hlcid] at hread
      rw [MacCe.octets, MacCe.seen, hs]
      exact hread

theorem reads_fixed {isScheduled : Bool} {lcid : DlSchLcid} {ce : List UInt8} {len : ℕ}
    (hlen : dlPayloadLen lcid.code = some (.fixed len)) (hce : ce.length = len) :
    Reads dlPayloadLen (MacCe.fixed isScheduled lcid ce).octets
      (MacCe.fixed isScheduled lcid ce).seen := by
  refine reads_of_encode (fieldsOctet [(6, lcid.code), (2, 0)]) ?_ hlen hce rfl
  cases lcid <;> rfl

namespace DlCeInput

variable (x : DlCeInput)

theorem reads_stateSelectionCe {lcid : DlSchLcid} (hlen : dlPayloadLen lcid.code = some .inLField)
    (sel : StateSelection) :
    Reads dlPayloadLen (stateSelectionCe lcid sel).octets (stateSelectionCe lcid sel).seen := by
  have hf : fBit (fieldsOctet [(6, lcid.code), (1, 0), (1, 0)]) = false := by cases lcid <;> rfl
  have hce : (stateSelectionCe lcid sel).ce.length = 1 + (sel.highest.toNat / 8 + 1) := by
    simp only [stateSelectionCe, List.length_cons, List.length_map, List.length_range]
    omega
  refine reads_of_encode (fieldsOctet [(6, lcid.code), (1, 0), (1, 0)]) ?_ hlen ?_ ?_
  · cases lcid <;> rfl
  · rw [SubPdu.Fits, hf, hce]
    have := sel.highest.toNat_lt
    simp only [Bool.false_eq_true, if_false]
    omega
  · simp only [SubPdu.header, SubPdu.lField, hf, hce, Bool.false_eq_true, if_false]
    rfl

/-- What is written in front of the CSI-RS and CSI-IM resource set. -/
def ces : List MacCe :=
  [x.drxCe, x.taCe, x.conResIdCe, x.tciPdcchCe, x.pucchCsiReportingCe, x.tciPdschCe,
   x.aperiodicCsiCe, x.spZpCsiRsCe]

theorem octets_eq : x.octets = x.ces.flatMap MacCe.octets ++ x.csiImCe.octets := by
  rw [octets, show x.macCes = x.ces ++ [x.csiImCe] from rfl, List.flatMap_append,
    List.flatMap_singleton]

theorem seen_eq : x.seen = x.ces.flatMap MacCe.seen ++ x.csiImCe.seen := by
  rw [seen, show x.macCes = x.ces ++ [x.csiImCe] from rfl, List.flatMap_append,
    List.flatMap_singleton]

theorem reads_conResIdCe : Reads dlPayloadLen x.conResIdCe.octets x.conResIdCe.seen := by
  rw [conResIdCe]
  cases x.ueContResId with
  | none => exact reads_of_not_isScheduled rfl
  | some id => exact reads_fixed rfl List.length_ofFn

/-- All control elements but the last one can be read. -/
theorem reads_ces :
    Reads dlPayloadLen (x.ces.flatMap MacCe.octets) (x.ces.flatMap MacCe.seen) := by
  refine Reads.flatMap ?_
  simp only [ces, List.forall_mem_cons, List.not_mem_nil, false_implies, implies_true, and_true]
  refine ⟨?_, ?_, ?_, ?_, ?_, ?_, ?_, ?_⟩
  · exact reads_fixed rfl rfl
  · exact reads_fixed rfl rfl
  · exact x.reads_conResIdCe
  · exact reads_fixed rfl rfl
  · exact reads_fixed rfl rfl
  · exact reads_stateSelectionCe rfl _
  · exact reads_stateSelectionCe rfl _
  · exact reads_fixed rfl rfl

/-- The first octet of a CSI-RS and CSI-IM resource set: A/D is its highest bit. -/
theorem actDeact_le (bwpId servCellid : ℕ) :
    128 ≤ (fieldsOctet [(2, bwpId), (5, servCellid), (1, true.toNat)]).toNat := by
  simp only [fieldsOctet, List.foldr, UInt8.toNat_ofNat', Bool.toNat_true]
  omega

/-- The highest bit of the second octet is reserved. -/
theorem nzpCsiRs_lt (nzpCsiRscId im : ℕ) :
    (fieldsOctet [(6, nzpCsiRscId), (1, im), (1, 0)]).toNat < 128 := by
  simp only [fieldsOctet, List.foldr, UInt8.toNat_ofNat']
  omega

/-- What is read of a payload with a fixed subheader where an L field is expected. -/
theorem readPdu_csiIm {c : UInt8} {l : List UInt8} {y : ℕ × List UInt8}
    {xs : List (ℕ × List UInt8)}
    (h : readPdu dlPayloadLen
      (subheaderFixed DlSchLcid.spCsiRsCsiImResSetAct.code ++ c :: l) = some (y :: xs)) :
    c.toNat ≤ l.length ∧ y.2 = l.take c.toNat := by
  have hsub : subheaderAt dlPayloadLen
      (fieldsOctet [(6, DlSchLcid.spCsiRsCsiImResSetAct.code), (2, 0)] :: c :: l) =
      some (2, c.toNat) := rfl
  obtain ⟨hle, hy⟩ := readPdu_eq_cons (by decide) hsub h
  refine ⟨?_, ?_⟩
  · simp only [List.length_cons] at hle
    omega
  · rw [hy]
    rfl

/-- Octets that are the same as themselves one octet further on, and their number is the first one. -/
theorem eq_of_shift {c c' b : UInt8} {l bs : List UInt8}
    (hle : c.toNat ≤ (c' :: (l ++ b :: bs)).length)
    (h : c :: c' :: l = (c' :: (l ++ b :: bs)).take c.toNat) :
    c = c' ∧ c.toNat = l.length + 2 ∧ c' :: l = l ++ [b] := by
  have hlen : c.toNat = l.length + 2 := by
    have := congrArg List.length h
    rw [List.length_take, Nat.min_eq_left hle] at this
    exact this.symm
  rw [hlen, List.take_succ_cons, List.cons_eq_cons] at h
  refine ⟨h.1, hlen, ?_⟩
  rw [h.2, List.take_length_add_append, List.take_succ_cons, List.take_zero]

/-- A CSI-RS and CSI-IM resource set is not read back. Its first octet is taken for the L field, so it
would have to be the length of the control element and to stand in every octet of it. With A/D it is
more than the second octet can be, and without A/D the length is 2 or 3, which is not the first octet of
a subheader that follows. -/
theorem csiImCe_not_read (hs : x.ctrl.csiIm.isScheduled = true) {b : UInt8} (hb : 4 ≤ b.toNat)
    (bs : List UInt8) (xs : List (ℕ × List UInt8)) :
    readPdu dlPayloadLen (x.csiImCe.octets ++ b :: bs) ≠ some (x.csiImCe.seen ++ xs) := by
  intro h
  have hsched : x.csiImCe.isScheduled = true := hs
  rw [MacCe.octets, MacCe.seen, if_pos hsched, if_pos hsched] at h
  simp only [csiImCe, MacCe.fixed, List.append_assoc, List.cons_append, List.nil_append] at h
  obtain ⟨hle, heq⟩ := readPdu_csiIm h
  dsimp only at heq
  obtain ⟨hc, hlen, hshift⟩ := eq_of_shift (by rwa [List.append_assoc]) (by
    rw [List.append_assoc]
    exact heq)
  cases hact : x.ctrl.csiIm.actDeact with
  | true =>
      rw [hact] at hc
      have hge := actDeact_le x.ctrl.csiIm.bwpId (x.ctrl.csiIm.servCellid % 64)
      rw [hc] at hge
      exact absurd hge (Nat.not_le.mpr (nzpCsiRs_lt _ _))
  | false =>
      simp only [hact, Bool.false_eq_true, if_false, List.append_nil] at hc hlen hshift
      cases him : x.ctrl.csiIm.im with
      | true =>
          simp only [him, if_true, List.singleton_append, List.cons_eq_cons] at hshift hlen hc
          rw [hc, hshift.1, hshift.2.1] at hlen
          rw [hlen, List.length_singleton] at hb
          exact absurd hb (by decide)
      | false =>
          simp only [him, Bool.false_eq_true, if_false, List.nil_append, List.cons_eq_cons]
            at hshift hlen hc
          rw [hc, hshift.1] at hlen
          rw [hlen, List.length_nil] at hb
          exact absurd hb (by decide)

end DlCeInput

end OaiCu.NrMac
