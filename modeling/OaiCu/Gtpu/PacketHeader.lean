import OaiCu.Gtpu.PacketBounds

/-!
# The header of a packet that is sent

The receiver takes no notice of the length field and of the N-PDU number, so it reads every packet
that is sent as it was meant. The two fields are wrong as soon as there are optional ones.
-/

namespace OaiCu.Gtpu

open Octets

/-- The number in `w` octets of a packet, as it is transmitted. -/
def field (data : List UInt8) (offset w : ℕ) : ℕ := ofBig ((data.drop offset).take w)

/-- The packet lies at the start of the buffer. -/
def StartsWith (msgBuf : ℕ → UInt8) (data : List UInt8) : Prop :=
  ∀ i < data.length, msgBuf i = data.getD i 0

/-- The bytes of the buffer that the callback gets. -/
def Sdu.bytes (sdu : Sdu) (msgBuf : ℕ → UInt8) : List UInt8 :=
  (List.range sdu.size.toNat).map fun i => msgBuf (sdu.offset + i)

/-- `Gtpv1uHandleGpdu` takes the TEID and the payload out of the packet. -/
def ReadBack (teid : UInt32) (msg data : List UInt8) : Prop :=
  ∀ msgBuf, StartsWith msgBuf data → gpduTeid msgBuf = teid ∧
    ∀ isGnb inst tunnel, inst.te2ueMapping.lookup teid = some tunnel →
      ∃ sdu, (gtpv1uHandleGpdu isGnb inst msgBuf data.length []).1 = .callBack sdu ∧
        sdu.tunnel = tunnel ∧ sdu.bytes msgBuf = msg

/-- The fields of the packet are what the receiver of a third party takes them for. -/
structure EncodedRight (teid : UInt32) (msg : List UInt8) (seqNumFlag npduNumFlag : Bool)
    (seqNum npduNum : ℤ) (data : List UInt8) : Prop where
  length : field data 2 2 = data.length - GTPV1U_HEADER_SIZE
  seqNum : seqNumFlag = true → (field data 8 2 : ℤ) = seqNum % 2 ^ 16
  npduNum : npduNumFlag = true → (field data 10 1 : ℤ) = npduNum % 2 ^ 8
  readBack : ReadBack teid msg data

/-! ## The packet -/

/-- 4 that is added to the octets in the other order is never 4 that is added. -/
theorem swap_add_four_ne {n : ℕ} (hn : n < 65536) : swap 2 ((swap 2 n + 4) % 2 ^ 16) ≠ n + 4 := by
  obtain ⟨l, h, hl, hh, rfl⟩ : ∃ l h, l < 256 ∧ h < 256 ∧ n = h * 256 + l :=
    ⟨n % 256, n / 256, by omega, by omega, by omega⟩
  have hswap : swap 2 (h * 256 + l) = l * 256 + h := by
    rw [swap_two]
    omega
  rw [hswap, swap_two]
  intro heq
  -- the lower octets differ, since a carry adds at most 1
  have hlow : (l * 256 + h + 4) % 2 ^ 16 / 256 % 256 = (l + 4) % 256 := by
    rw [show (l + 4) % 256 = (h * 256 + l + 4) % 256 by omega, ← heq, Nat.mul_add_mod_self_right,
      Nat.mod_mod]
  have hcarry : (l * 256 + h + 4) % 2 ^ 16 / 256 % 256 = (l + (h + 4) / 256) % 256 := by
    omega
  have hle : (h + 4) / 256 ≤ 1 := by omega
  rw [hcarry] at hlow
  generalize (h + 4) / 256 = c at hlow hle
  clear heq hcarry hswap
  omega

section

variable (msgType : ℤ) (teid : UInt32) (msg : List UInt8) (seqNumFlag npduNumFlag : Bool)
  (seqNum npduNum : ℤ)

/-- The first byte of the header. -/
def sentFlags : MsgFlags where
  pn := npduNumFlag
  s := seqNumFlag
  e := false
  spare := false
  pt := true
  version := 1

/-- The length field before it is stored. -/
def sentLength : ℕ :=
  if seqNumFlag || npduNumFlag then (htons msg.length + 4) % 2 ^ 16 else htons msg.length

/-- The optional fields. -/
def sentOpt : List UInt8 :=
  if seqNumFlag || npduNumFlag then
    little 2 (if seqNumFlag then htons seqNum else 0) ++
      little 1 (if npduNumFlag then htons npduNum else 0) ++ little 1 0
  else []

/-- The packet. -/
def sentData : List UInt8 :=
  [(sentFlags seqNumFlag npduNumFlag).toByte, UInt8.ofInt msgType] ++
    little 2 (sentLength msg seqNumFlag npduNumFlag) ++ little 4 (swap 4 teid.toNat) ++
    sentOpt seqNumFlag npduNumFlag seqNum npduNum ++ msg

theorem gtpv1uCreateMsg_eq :
    gtpv1uCreateMsg msgType teid msg seqNumFlag npduNumFlag false seqNum npduNum =
      .ok (sentData msgType teid msg seqNumFlag npduNumFlag seqNum npduNum) := by
  unfold gtpv1uCreateMsg sentData sentLength sentOpt
  rw [if_neg Bool.false_ne_true, Bool.or_false]
  rfl

theorem ofByte_sentFlags :
    MsgFlags.ofByte (sentFlags seqNumFlag npduNumFlag).toByte =
      sentFlags seqNumFlag npduNumFlag := by
  cases seqNumFlag <;> cases npduNumFlag <;> rfl

theorem length_sentOpt : (sentOpt seqNumFlag npduNumFlag seqNum npduNum).length =
    if seqNumFlag || npduNumFlag then 4 else 0 := by
  unfold sentOpt
  split
  · simp only [List.length_append, length_little]
  · rfl

theorem length_pre :
    ([(sentFlags seqNumFlag npduNumFlag).toByte, UInt8.ofInt msgType] ++
        little 2 (sentLength msg seqNumFlag npduNumFlag) ++ little 4 (swap 4 teid.toNat) ++
        sentOpt seqNumFlag npduNumFlag seqNum npduNum).length =
      GTPV1U_HEADER_SIZE + if seqNumFlag || npduNumFlag then 4 else 0 := by
  simp only [List.length_append, length_little, length_sentOpt]
  rfl

theorem length_sentData :
    (sentData msgType teid msg seqNumFlag npduNumFlag seqNum npduNum).length =
      GTPV1U_HEADER_SIZE + (if seqNumFlag || npduNumFlag then 4 else 0) + msg.length := by
  unfold sentData
  rw [List.length_append, length_pre]

/-- The sequence number is transmitted as it is given. -/
theorem field_seqNum (h : seqNumFlag = true) :
    (field (sentData msgType teid msg seqNumFlag npduNumFlag seqNum npduNum) 8 2 : ℤ) =
      seqNum % 2 ^ 16 := by
  subst h
  have hfield : field (sentData msgType teid msg true npduNumFlag seqNum npduNum) 8 2 =
      ofBig (little 2 (swap 2 (seqNum % 2 ^ 16).toNat)) := by
    cases npduNumFlag <;> rfl
  rw [hfield, ofBig_little_swap]
  omega

/-- With the optional fields the length is never what follows the header. -/
theorem length_right_iff (hlen : msg.length ≤ 65531) :
    swap 2 (sentLength msg seqNumFlag npduNumFlag) =
        (sentData msgType teid msg seqNumFlag npduNumFlag seqNum npduNum).length -
          GTPV1U_HEADER_SIZE ↔
      (seqNumFlag || npduNumFlag) = false := by
  have hint : ((msg.length : ℤ) % 2 ^ 16).toNat = msg.length := by omega
  rw [length_sentData, sentLength, htons, hint]
  cases seqNumFlag || npduNumFlag with
  | true =>
      rw [if_pos rfl, if_pos rfl]
      refine iff_of_false (fun heq => ?_) nofun
      rw [Nat.add_assoc, Nat.add_sub_cancel_left, Nat.add_comm 4] at heq
      exact swap_add_four_ne (by omega) heq
  | false =>
      rw [if_neg Bool.false_ne_true, if_neg Bool.false_ne_true, swap_swap]
      simp only [iff_true]
      omega

variable {msgType teid msg seqNumFlag npduNumFlag seqNum npduNum} {msgBuf : ℕ → UInt8}

/-- The buffer with the packet has the payload behind the headers. -/
theorem startsWith_msg (h : StartsWith msgBuf
      (sentData msgType teid msg seqNumFlag npduNumFlag seqNum npduNum)) :
    (List.range msg.length).map (fun i => msgBuf
      (GTPV1U_HEADER_SIZE + (if seqNumFlag || npduNumFlag then 4 else 0) + i)) = msg := by
  apply List.ext_getElem
  · rw [List.length_map, List.length_range]
  · intro i hi hi'
    have hlt : GTPV1U_HEADER_SIZE + (if seqNumFlag || npduNumFlag then 4 else 0) + i <
        (sentData msgType teid msg seqNumFlag npduNumFlag seqNum npduNum).length := by
      rw [length_sentData]
      exact Nat.add_lt_add_left hi' _
    rw [List.getElem_map, List.getElem_range, h _ hlt]
    unfold sentData
    have hpre := length_pre msgType teid msg seqNumFlag npduNumFlag seqNum npduNum
    rw [List.getD_eq_getElem?_getD, List.getElem?_append_right (hpre ▸ Nat.le_add_right _ _), hpre,
      Nat.add_sub_cancel_left, List.getElem?_eq_getElem hi']
    rfl

/-- Every packet that is sent is read back. -/
theorem readBack_sentData (hmsg : msg.length ≤ 65531) :
    ReadBack teid msg (sentData msgType teid msg seqNumFlag npduNumFlag seqNum npduNum) := by
  intro msgBuf h
  have hlen : GTPV1U_HEADER_SIZE ≤
      (sentData msgType teid msg seqNumFlag npduNumFlag seqNum npduNum).length := by
    rw [length_sentData]
    omega
  have hget (i : ℕ) (hi : i < GTPV1U_HEADER_SIZE) := h i (hi.trans_le hlen)
  have hteid : gpduTeid msgBuf = teid := by
    unfold gpduTeid
    rw [hget 4 (by decide), hget 5 (by decide), hget 6 (by decide), hget 7 (by decide)]
    change UInt32.ofNat (swap 4 (ofLittle (little 4 (swap 4 teid.toNat)))) = teid
    rw [ofLittle_little, Nat.mod_eq_of_lt (swap_lt 4 _), swap_swap,
      Nat.mod_eq_of_lt (show teid.toNat < 256 ^ 4 from teid.toNat_lt), UInt32.ofNat_toNat]
  have hflags : MsgFlags.ofByte (msgBuf 0) = sentFlags seqNumFlag npduNumFlag := by
    rw [hget 0 (by decide)]
    exact ofByte_sentFlags seqNumFlag npduNumFlag
  have hoffset : sduOffset msgBuf (sentFlags seqNumFlag npduNumFlag) =
      GTPV1U_HEADER_SIZE + if seqNumFlag || npduNumFlag then 4 else 0 := by
    cases seqNumFlag <;> cases npduNumFlag <;> rfl
  refine ⟨hteid, fun isGnb inst tunnel htunnel => ?_⟩
  have hgtp : (MsgFlags.ofByte (msgBuf 0)).IsGtpU := by
    rw [hflags]
    exact ⟨rfl, rfl⟩
  rw [← hteid] at htunnel
  obtain ⟨sdu, happly, htun, hoff, hsize⟩ := gtpv1uHandleGpdu_of_known isGnb
    (sentData msgType teid msg seqNumFlag npduNumFlag seqNum npduNum).length [] hgtp htunnel
  rw [hflags, hoffset] at hoff hsize
  have hsize' : sdu.size = msg.length := by
    rw [hsize, length_sentData]
    push_cast
    rw [add_sub_cancel_left]
    apply Int.bmod_eq_of_le
    · omega
    · omega
  refine ⟨sdu, by rw [happly], htun, ?_⟩
  unfold Sdu.bytes
  rw [hsize', hoff, Int.toNat_natCast]
  exact startsWith_msg h

/-- A packet is encoded right exactly if it has no optional fields. -/
theorem encoded_right_iff (msgType : ℤ) (teid : UInt32) (msg : List UInt8)
    (seqNumFlag npduNumFlag : Bool) (seqNum npduNum : ℤ) (hlen : msg.length ≤ 65531) :
    (∃ data, gtpv1uCreateMsg msgType teid msg seqNumFlag npduNumFlag false seqNum npduNum =
        .ok data ∧ EncodedRight teid msg seqNumFlag npduNumFlag seqNum npduNum data) ↔
      seqNumFlag = false ∧ npduNumFlag = false := by
  rw [gtpv1uCreateMsg_eq, ← Bool.or_eq_false_iff,
    ← length_right_iff msgType teid msg seqNumFlag npduNumFlag seqNum npduNum hlen]
  constructor
  · rintro ⟨data, hdata, hright⟩
    cases hdata
    exact hright.length
  · intro hright
    refine ⟨_, rfl, hright, fun h => field_seqNum _ _ _ _ _ _ _ h, fun h => ?_,
      readBack_sentData hlen⟩
    have hflags :=
      (length_right_iff msgType teid msg seqNumFlag npduNumFlag seqNum npduNum hlen).mp hright
    exact absurd (h.symm.trans (Bool.or_eq_false_iff.mp hflags).2) nofun

end

/-- A G-PDU with 300 bytes, so that the length has two octets, for a TEID of four. -/
theorem encoded_right_gpdu :
    ∃ data, gtpv1uCreateMsg 255 0x12345678 ((List.range 300).map UInt8.ofNat) false false false 0 0 =
        .ok data ∧
      EncodedRight 0x12345678 ((List.range 300).map UInt8.ofNat) false false 0 0 data :=
  (encoded_right_iff 255 0x12345678 _ false false 0 0 (by simp)).mpr ⟨rfl, rfl⟩

/-- The response to an echo request: its length is 1026 and not 6. -/
theorem encoded_wrong : ¬ ∃ data, gtpv1uCreateMsg 2 0 [14, 0] true false false 5 0 = .ok data ∧
    EncodedRight 0 [14, 0] true false 5 0 data := by
  rintro ⟨data, hdata, hright⟩
  cases hdata
  exact absurd hright.length (by decide)

end OaiCu.Gtpu
