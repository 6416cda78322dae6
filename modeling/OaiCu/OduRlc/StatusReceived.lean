import OaiCu.OduRlc.StatusDecode
import OaiCu.OduRlc.StatusSound

/-!
# Any STATUS PDU at its receiver

What a PDU says is read off its bits here, field by field, whether the fields are all there and
however many NACKs it has. `rlcAmmUlHndlStatusPdu` does not look for the end of the message, and it
stops at the NACK for which its array has no room.
-/

namespace OaiCu.OduRlc

open BitStream

/-! ## What the PDU says -/

/-- The next `len` bits, if there are as many. -/
def nextField (len : ℕ) (s : List Bool) : Option (ℕ × List Bool) :=
  if len ≤ s.length then some (ofBits (s.take len), s.drop len) else none

/-- SOstart and SOend. -/
def receivedSo (isSegment : Bool) (s : List Bool) : Option (ℕ × ℕ × List Bool) :=
  if isSegment then do
    let (soStart, s) ← nextField RLC_SO_LEN_5GNR s
    let (soEnd, s) ← nextField RLC_SO_LEN_5GNR s
    return (soStart, soEnd, s)
  else some (0, 0, s)

/-- The NACK range. -/
def receivedRange (e3 : ℕ) (s : List Bool) : Option (ℕ × List Bool) :=
  if e3 ≠ 0 then nextField RLC_NACK_RANGE_LEN s else some (0, s)

/-- One NACK, and its E1. -/
def receivedNack (snLen : SnLen) (s : List Bool) : Option (RlcNackInfo × ℕ × List Bool) := do
  let (sn, s) ← nextField snLen.bits s
  let (e1, s) ← nextField RLC_E1_LEN s
  let (e2, s) ← nextField RLC_E1_LEN s
  let (e3, s) ← nextField RLC_E1_LEN s
  let (_, s) ← nextField snLen.resrvdBitsNackSn s
  let isSegment : Bool := e2 ≠ 0
  let (soStart, soEnd, s) ← receivedSo isSegment s
  let (nackRange, s) ← receivedRange e3 s
  return ({ nackRange, isSegment, sn, soStart, soEnd }, e1, s)

/-- The NACKs that E1 announces, `none` if they are not all there. Each one takes some bits, so
`fuel` is only used up when no bits are left. -/
def receivedNacks (snLen : SnLen) : ℕ → ℕ → List Bool → Option (List RlcNackInfo)
  | _, 0, _ => some []
  | 0, _ + 1, _ => none
  | fuel + 1, _ + 1, s => do
    let (nack, e1, s) ← receivedNack snLen s
    let nackInfo ← receivedNacks snLen fuel e1 s
    return nack :: nackInfo

/-- What a STATUS PDU holds behind D/C and CPT. -/
inductive StatusFields
  /-- It ends in front of its first E1. -/
  | short
  /-- It ends in front of a field that an E1, E2 or E3 announces. -/
  | cutOff
  | complete (ackSn : ℕ) (nackInfo : List RlcNackInfo)
deriving DecidableEq, Repr

/-- ACK_SN and the first E1. -/
def receivedAck (snLen : SnLen) (s : List Bool) : Option (ℕ × ℕ × List Bool) := do
  let (ackSn, s) ← nextField snLen.bits s
  let (e1, s) ← nextField RLC_E1_LEN s
  let (_, s) ← nextField snLen.resrvdBitsAckSn s
  return (ackSn, e1, s)

def statusFields (snLen : SnLen) (pdu : List UInt8) : StatusFields :=
  match receivedAck snLen ((bytesBits pdu).drop 4) with
  | none => .short
  | some (ackSn, e1, s) =>
    match receivedNacks snLen s.length e1 s with
    | none => .cutOff
    | some nackInfo => .complete ackSn nackInfo

/-- A NACK of the PDU is not lost for the transmitter: each of its bytes is in a NACK that is handed
on, or its SN is not acknowledged. -/
def NackKept (snLen : SnLen) (txNextAck : ℕ) (sta : RlcUdxStaPdu) (nack : RlcNackInfo) : Prop :=
  ∀ sn < snLen.modulus, ∀ b, nack.Covers snLen sn b →
    (∃ n ∈ sta.nackInfo, n.Covers snLen sn b) ∨
      modamt sta.ackSn txNextAck snLen.snModMask ≤ modamt sn txNextAck snLen.snModMask

/-- The STATUS is read as what it says, for a transmitter whose window starts at `txNextAck`. -/
def StatusRight (snLen : SnLen) (txNextAck : ℕ) (pdu : List UInt8) : Prop :=
  match statusFields snLen pdu with
  | .short => True
  | .cutOff => rcvCntrlPdu snLen pdu = none
  | .complete _ nackInfo => ∀ sta, rcvCntrlPdu snLen pdu = some sta →
      ∀ nack ∈ nackInfo, NackKept snLen txNextAck sta nack

/-- The bytes of the NACKs that the array has no room for, as far as they are in front of the SN
behind that of the last one in the array, are in those of the array. -/
def RestCovered (snLen : SnLen) (txNextAck : ℕ) (nackInfo : List RlcNackInfo) : Prop :=
  ∀ last, (nackInfo.take RLC_MAX_NACK_CNT).getLast? = some last →
    ∀ nack ∈ nackInfo.drop RLC_MAX_NACK_CNT, ∀ sn < snLen.modulus, ∀ b,
      nack.Covers snLen sn b →
      modamt sn txNextAck snLen.snModMask <
        modamt ((last.sn + 1) &&& snLen.snModMask) txNextAck snLen.snModMask →
      ∃ n ∈ nackInfo.take RLC_MAX_NACK_CNT, n.Covers snLen sn b

/-- All announced fields are there, and what does not fit in the array adds nothing in front. -/
def StatusFits (snLen : SnLen) (txNextAck : ℕ) (pdu : List UInt8) : Prop :=
  match statusFields snLen pdu with
  | .short => True
  | .cutOff => False
  | .complete _ nackInfo => RestCovered snLen txNextAck nackInfo

/-! ## The fields one by one -/

theorem nextField_some {len v : ℕ} {s s' : List Bool} (h : nextField len s = some (v, s')) :
    s.length = len + s'.length ∧ v = ofBits (s.take len) ∧ s' = s.drop len := by
  unfold nextField at h
  split at h
  · cases h
    refine ⟨?_, rfl, rfl⟩
    rw [List.length_drop]
    omega
  · cases h

/-- A field that is there is the one that is extracted. -/
theorem extractElmnt_nextField {hdrInfo : RlcExtHdr} {s s' : List Bool} {len v : ℕ}
    (h : hdrInfo.Reads s) (hf : nextField len s = some (v, s')) (hlen : 0 < len)
    (hspan : Spans len (len + s'.length)) :
    (rlcAmmExtractElmnt len hdrInfo).val = v ∧ (rlcAmmExtractElmnt len hdrInfo).Reads s' := by
  obtain ⟨hl, rfl, rfl⟩ := nextField_some hf
  rw [← hl] at hspan
  exact extractElmnt_take h hlen (by omega) hspan

section

variable {snLen : SnLen} {hdrInfo : RlcExtHdr} {s s' : List Bool}

theorem extractSo_received {isSegment : Bool} {soStart soEnd : ℕ} (h : hdrInfo.Reads s)
    (hs : s.length % 8 = 0) (hf : receivedSo isSegment s = some (soStart, soEnd, s')) :
    (extractSo isSegment hdrInfo).1 = soStart ∧ (extractSo isSegment hdrInfo).2.1 = soEnd ∧
      (extractSo isSegment hdrInfo).2.2.Reads s' ∧ s'.length % 8 = 0 := by
  unfold receivedSo RLC_SO_LEN_5GNR at hf
  unfold extractSo RLC_SO_LEN_5GNR
  split at hf
  case isFalse hseg =>
    cases hf
    rw [if_neg hseg]
    exact ⟨rfl, rfl, h, hs⟩
  case isTrue hseg =>
    rw [if_pos hseg]
    obtain ⟨⟨v1, s1⟩, hf1, hf⟩ := Option.bind_eq_some_iff.mp hf
    obtain ⟨⟨v2, s2⟩, hf2, hf⟩ := Option.bind_eq_some_iff.mp hf
    cases hf
    have hl1 := (nextField_some hf1).1
    have hl2 := (nextField_some hf2).1
    have hspan (n : ℕ) (hn : n % 8 = 0) : Spans 16 (16 + n) := by
      rw [Spans, if_neg (by decide)]
      omega
    obtain ⟨h1, hr1⟩ := extractElmnt_nextField h hf1 (by decide) (hspan _ (by omega))
    obtain ⟨h2, hr2⟩ := extractElmnt_nextField hr1 hf2 (by decide) (hspan _ (by omega))
    exact ⟨h1, h2, hr2, by omega⟩

theorem extractRange_received {e3 nackRange : ℕ} (h : hdrInfo.Reads s) (hs : s.length % 8 = 0)
    (hf : receivedRange e3 s = some (nackRange, s')) :
    (extractRange e3 hdrInfo).1 = nackRange ∧ (extractRange e3 hdrInfo).2.Reads s' ∧
      s'.length % 8 = 0 := by
  unfold receivedRange RLC_NACK_RANGE_LEN at hf
  unfold extractRange RLC_NACK_RANGE_LEN
  split at hf
  case isFalse he3 =>
    cases hf
    rw [if_neg he3]
    exact ⟨rfl, h, hs⟩
  case isTrue he3 =>
    rw [if_pos he3]
    obtain ⟨hl, hv, -⟩ := nextField_some hf
    have hspan : Spans 8 (8 + s'.length) := by
      rw [Spans, if_pos le_rfl]
      omega
    obtain ⟨h1, hr1⟩ := extractElmnt_nextField h hf (by decide) hspan
    refine ⟨?_, hr1, by omega⟩
    have hlt := ofBits_lt (s.take 8)
    rw [← hv, List.length_take, min_eq_left (by omega)] at hlt
    dsimp only
    rw [h1, Nat.mod_eq_of_lt hlt]

/-- A NACK that is there is the one that is extracted. -/
theorem extractNack_received {nack : RlcNackInfo} {e1 : ℕ} (h : hdrInfo.Reads s)
    (hs : s.length % 8 = 0) (hf : receivedNack snLen s = some (nack, e1, s')) :
    (extractNack snLen hdrInfo).1 = nack ∧ (extractNack snLen hdrInfo).2.1 = e1 ∧
      (extractNack snLen hdrInfo).2.2.Reads s' ∧ s'.length % 8 = 0 := by
  obtain ⟨⟨v1, s1⟩, hf1, hf⟩ := Option.bind_eq_some_iff.mp hf
  obtain ⟨⟨v2, s2⟩, hf2, hf⟩ := Option.bind_eq_some_iff.mp hf
  obtain ⟨⟨v3, s3⟩, hf3, hf⟩ := Option.bind_eq_some_iff.mp hf
  obtain ⟨⟨v4, s4⟩, hf4, hf⟩ := Option.bind_eq_some_iff.mp hf
  obtain ⟨⟨v5, s5⟩, hf5, hf⟩ := Option.bind_eq_some_iff.mp hf
  obtain ⟨⟨v6, v7, s6⟩, hf6, hf⟩ := Option.bind_eq_some_iff.mp hf
  obtain ⟨⟨v8, s7⟩, hf7, hf⟩ := Option.bind_eq_some_iff.mp hf
  cases hf
  have hl1 := (nextField_some hf1).1
  have hl2 := (nextField_some hf2).1
  have hl3 := (nextField_some hf3).1
  have hl4 := (nextField_some hf4).1
  have hl5 := (nextField_some hf5).1
  have hbit (n : ℕ) : Spans RLC_E1_LEN (RLC_E1_LEN + n) := by
    rw [Spans, RLC_E1_LEN, if_pos (by decide)]
    omega
  have hspan1 : Spans snLen.bits (snLen.bits + s1.length) := by
    rw [← hl1]
    cases snLen <;> simp [Spans, SnLen.bits, hs]
  have hspan5 : Spans snLen.resrvdBitsNackSn (snLen.resrvdBitsNackSn + s5.length) := by
    unfold RLC_E1_LEN at hl2 hl3 hl4
    rw [← hl5]
    cases snLen <;> simp [Spans, SnLen.bits, SnLen.resrvdBitsNackSn] at hl1 hl5 ⊢ <;> omega
  have hmod : s5.length % 8 = 0 := by
    unfold RLC_E1_LEN at hl2 hl3 hl4
    cases snLen <;> simp [SnLen.bits, SnLen.resrvdBitsNackSn] at hl1 hl5 <;> omega
  obtain ⟨h1, hr1⟩ := extractElmnt_nextField h hf1 (by cases snLen <;> decide) hspan1
  obtain ⟨h2, hr2⟩ := extractElmnt_nextField hr1 hf2 (by decide) (hbit _)
  obtain ⟨h3, hr3⟩ := extractElmnt_nextField hr2 hf3 (by decide) (hbit _)
  obtain ⟨h4, hr4⟩ := extractElmnt_nextField hr3 hf4 (by decide) (hbit _)
  obtain ⟨-, hr5⟩ := extractElmnt_nextField hr4 hf5 (by cases snLen <;> decide) hspan5
  rw [← h3] at hf6
  rw [← h4] at hf7
  obtain ⟨h6, h7, hr6, hmod6⟩ := extractSo_received hr5 hmod hf6
  obtain ⟨h8, hr7, hmod7⟩ := extractRange_received hr6 hmod6 hf7
  unfold extractNack
  dsimp only
  rw [h1, h2, h6, h7, h8]
  refine ⟨?_, rfl, hr7, hmod7⟩
  rw [h3]

/-- The loop extracts the NACKs that the array has room for. -/
theorem extractNacks_received {left fuel e1 : ℕ} {nackInfo : List RlcNackInfo}
    (h : hdrInfo.Reads s) (hs : s.length % 8 = 0)
    (hf : receivedNacks snLen fuel e1 s = some nackInfo) :
    extractNacks snLen left e1 hdrInfo = nackInfo.take left := by
  induction fuel generalizing left e1 hdrInfo s nackInfo with
  | zero =>
      cases e1 with
      | zero =>
          cases hf
          cases left <;> rfl
      | succ e1 => cases hf
  | succ fuel ih =>
      cases e1 with
      | zero =>
          cases hf
          cases left <;> rfl
      | succ e1 =>
          obtain ⟨⟨nack, e1', s'⟩, hnack, hf⟩ := Option.bind_eq_some_iff.mp hf
          obtain ⟨nackInfo', hrest, hf⟩ := Option.bind_eq_some_iff.mp hf
          cases hf
          obtain ⟨h1, h2, hr, hmod⟩ := extractNack_received h hs hnack
          cases left with
          | zero => rfl
          | succ left =>
              rw [extractNacks, if_pos (Nat.succ_ne_zero e1)]
              dsimp only
              rw [h1, h2, ih hr hmod hrest, List.take_succ_cons]

end

/-! ## The whole PDU -/

section

variable {snLen : SnLen} {fByte : UInt8} {pdu : List UInt8}

theorem bytesBits_cpt (fByte : UInt8) (pdu : List UInt8) :
    (bytesBits (fByte :: pdu)).drop 4 = bitsOf 4 fByte.toNat ++ bytesBits pdu := by
  rw [bytesBits_cons, byteBits, show (8 : ℕ) = 4 + 4 from rfl, bitsOf_add, List.append_assoc,
    List.drop_left' (bitsOf_length 4 _)]

/-- A STATUS PDU is handed on whatever comes behind its CPT. -/
theorem rcvCntrlPdu_ne_none (h : fByte.toNat < 16) : rcvCntrlPdu snLen (fByte :: pdu) ≠ none := by
  rw [rcvCntrlPdu_eq h]
  exact nofun

/-- If all fields are there, the NACKs that fit in the array are handed on. -/
theorem rcvCntrlPdu_complete (h : fByte.toNat < 16) {ackSn : ℕ} {nackInfo : List RlcNackInfo}
    (hf : statusFields snLen (fByte :: pdu) = .complete ackSn nackInfo) :
    rcvCntrlPdu snLen (fByte :: pdu) = some {
      ackSn := ackSnOf snLen ackSn (nackInfo.take RLC_MAX_NACK_CNT)
      nackInfo := nackInfo.take RLC_MAX_NACK_CNT } := by
  have h0 := reads_cpt h pdu
  unfold statusFields at hf
  rw [bytesBits_cpt] at hf
  have hmod : (bitsOf 4 fByte.toNat ++ bytesBits pdu).length % 8 = 4 := by
    rw [List.length_append, bitsOf_length, bytesBits_length]
    omega
  generalize bitsOf 4 fByte.toNat ++ bytesBits pdu = s at h0 hf hmod
  split at hf
  · cases hf
  · rename_i ack e1 s' hack
    split at hf
    · cases hf
    · rename_i nacks hnacks
      cases hf
      obtain ⟨⟨v1, s1⟩, hf1, hack⟩ := Option.bind_eq_some_iff.mp hack
      obtain ⟨⟨v2, s2⟩, hf2, hack⟩ := Option.bind_eq_some_iff.mp hack
      obtain ⟨⟨v3, s3⟩, hf3, hack⟩ := Option.bind_eq_some_iff.mp hack
      cases hack
      have hl1 := (nextField_some hf1).1
      have hl2 := (nextField_some hf2).1
      have hl3 := (nextField_some hf3).1
      unfold RLC_E1_LEN at hl2
      have hspan1 : Spans snLen.bits (snLen.bits + s1.length) := by
        rw [← hl1]
        cases snLen <;> simp [Spans, SnLen.bits, hmod]
      have hspan2 : Spans RLC_E1_LEN (RLC_E1_LEN + s2.length) := by
        rw [Spans, RLC_E1_LEN, if_pos (by decide)]
        omega
      have hspan3 : Spans snLen.resrvdBitsAckSn (snLen.resrvdBitsAckSn + s'.length) := by
        rw [← hl3]
        cases snLen <;> simp [Spans, SnLen.bits, SnLen.resrvdBitsAckSn] at hl1 hl3 ⊢ <;> omega
      have hmod3 : s'.length % 8 = 0 := by
        cases snLen <;> simp [SnLen.bits, SnLen.resrvdBitsAckSn] at hl1 hl3 <;> omega
      obtain ⟨h1, hr1⟩ := extractElmnt_nextField h0 hf1 (by cases snLen <;> decide) hspan1
      obtain ⟨h2, hr2⟩ := extractElmnt_nextField hr1 hf2 (by decide) hspan2
      obtain ⟨-, hr3⟩ := extractElmnt_nextField hr2 hf3 (by cases snLen <;> decide) hspan3
      rw [rcvCntrlPdu_eq h]
      dsimp only
      rw [h1, h2, extractNacks_received hr3 hmod3 hnacks]

/-- With a full array ACK_SN is the SN behind that of the last NACK in it. -/
theorem ackSnOf_take {ackSn : ℕ} {nackInfo : List RlcNackInfo} {last : RlcNackInfo}
    (hlast : (nackInfo.take RLC_MAX_NACK_CNT).getLast? = some last)
    (hlen : RLC_MAX_NACK_CNT ≤ nackInfo.length) :
    ackSnOf snLen ackSn (nackInfo.take RLC_MAX_NACK_CNT) = (last.sn + 1) &&& snLen.snModMask := by
  unfold ackSnOf
  rw [if_pos (by rw [List.length_take, min_eq_left hlen]), hlast]
  rfl

/-- A STATUS PDU is read as what it says exactly if all announced fields are there and the NACKs
that do not fit in the array add nothing in front of ACK_SN. -/
theorem statusRight_iff (snLen : SnLen) (txNextAck : ℕ) (fByte : UInt8) (pdu : List UInt8)
    (h : fByte.toNat < 16) :
    StatusRight snLen txNextAck (fByte :: pdu) ↔ StatusFits snLen txNextAck (fByte :: pdu) := by
  unfold StatusRight StatusFits
  cases hf : statusFields snLen (fByte :: pdu) with
  | short => exact Iff.rfl
  | cutOff => exact iff_of_false (rcvCntrlPdu_ne_none h) id
  | complete ackSn nackInfo =>
      dsimp only
      rw [rcvCntrlPdu_complete h hf]
      constructor
      · intro hright last hlast nack hnack sn hsn b hb hlt
        have hlen : RLC_MAX_NACK_CNT ≤ nackInfo.length := by
          by_contra hlt'
          rw [List.drop_of_length_le (by omega)] at hnack
          exact absurd hnack List.not_mem_nil
        have hkept := hright _ rfl nack (List.mem_of_mem_drop hnack) sn hsn b hb
        rw [ackSnOf_take hlast hlen] at hkept
        exact hkept.resolve_right (not_le.mpr hlt)
      · rintro hfits sta hsta nack hnack sn hsn b hb
        cases hsta
        rw [← List.take_append_drop RLC_MAX_NACK_CNT nackInfo, List.mem_append] at hnack
        rcases hnack with hnack | hnack
        · exact .inl ⟨nack, hnack, hb⟩
        · have hlen : RLC_MAX_NACK_CNT < nackInfo.length := by
            by_contra hle
            rw [List.drop_of_length_le (by omega)] at hnack
            exact absurd hnack List.not_mem_nil
          have hne : nackInfo.take RLC_MAX_NACK_CNT ≠ [] := by
            apply List.ne_nil_of_length_pos
            rw [List.length_take, min_eq_left hlen.le]
            decide
          have hlast := List.getLast?_eq_some_getLast hne
          dsimp only
          rw [ackSnOf_take hlast hlen.le, or_iff_not_imp_right, not_le]
          exact hfits _ hlast nack hnack sn hsn b hb

end

/-- A NACK of SN 3, and one of the bytes from 10 to 19 of SN 5. -/
theorem statusRight_two : StatusRight .bits12 0 [0, 9, 0x80, 0, 0x38, 0, 0x54, 0, 10, 0, 19] := by
  refine (statusRight_iff .bits12 0 0 [9, 0x80, 0, 0x38, 0, 0x54, 0, 10, 0, 19] (by decide)).mpr ?_
  have hfields : statusFields .bits12 [0, 9, 0x80, 0, 0x38, 0, 0x54, 0, 10, 0, 19] =
      .complete 9 [{ sn := 3 }, { isSegment := true, sn := 5, soStart := 10, soEnd := 19 }] := by
    decide +kernel
  rw [StatusFits, hfields]
  -- the array has room for both
  exact fun _ _ nack hnack => absurd hnack List.not_mem_nil

/-- The PDU ends where E1 has announced a NACK. It is read as one of SN 0. -/
theorem statusRight_cutOff : ¬ StatusRight .bits12 0 [0, 5, 0x80] := by
  have hcut : statusFields .bits12 [0, 5, 0x80] = .cutOff := by decide +kernel
  have hsta : rcvCntrlPdu .bits12 [0, 5, 0x80] = some { ackSn := 5, nackInfo := [{}] } := by
    decide +kernel
  unfold StatusRight
  rw [hcut, hsta]
  exact nofun

end OaiCu.OduRlc
