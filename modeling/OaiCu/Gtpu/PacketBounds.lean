import OaiCu.Gtpu.Tunnels
import OaiCu.Lib.Octets

/-!
# GTP-U packets (`gtp_itf.cpp`)

A packet is built in `gtpv1uCreateAndSendMsg` and taken apart in `Gtpv1uHandleGpdu`, on a
little-endian host. A packet that was received lies at the start of a buffer that is larger, so
bytes behind its end can be read too: the offsets that are read are kept.
-/

namespace OaiCu.Gtpu

open Octets

def GTPV1U_HEADER_SIZE : ℕ := 8
def GTP_GPDU : UInt8 := 255
def PDU_SESSION_CONTAINER : UInt8 := 0x85
def EXT_HDR_LNTH_OCTET_UNITS : ℕ := 4
def NO_MORE_EXT_HDRS : UInt8 := 0

/-! ## The header -/

/-- The bit-fields of `Gtpv1uMsgHeader`. -/
structure MsgFlags where
  pn : Bool
  s : Bool
  e : Bool
  spare : Bool
  pt : Bool
  version : ℕ
deriving DecidableEq, Repr

namespace MsgFlags

/-- The fields are allocated from the lowest bit on. -/
def toByte (f : MsgFlags) : UInt8 :=
  UInt8.ofNat (f.pn.toNat + 2 * f.s.toNat + 4 * f.e.toNat + 8 * f.spare.toNat + 16 * f.pt.toNat +
    32 * f.version)

def ofByte (b : UInt8) : MsgFlags where
  pn := b.toNat.testBit 0
  s := b.toNat.testBit 1
  e := b.toNat.testBit 2
  spare := b.toNat.testBit 3
  pt := b.toNat.testBit 4
  version := b.toNat / 32

/-- The packet is one of GTP-U. -/
def IsGtpU (f : MsgFlags) : Prop := f.version = 1 ∧ f.pt = true

instance (f : MsgFlags) : Decidable f.IsGtpU := inferInstanceAs (Decidable (_ ∧ _))

/-- The optional fields are there. -/
def hasOpt (f : MsgFlags) : Bool := f.e || f.s || f.pn

end MsgFlags

/-! ## Sending -/

/-- `htons` of an `int`. -/
def htons (x : ℤ) : ℕ := swap 2 (x % 2 ^ 16).toNat

/-- The buffer that `gtpv1uCreateAndSendMsg` sends. -/
def gtpv1uCreateMsg (msgType : ℤ) (teid : UInt32) (msg : List UInt8)
    (seqNumFlag npduNumFlag extHdrFlag : Bool) (seqNum npduNum : ℤ) :
    Except Fault (List UInt8) :=
  if extHdrFlag then .error .assertFatal
  else
    let msgHdr : MsgFlags :=
      { pn := npduNumFlag, s := seqNumFlag, e := extHdrFlag, spare := false, pt := true, version := 1 }
    let msgLength := htons msg.length
    let msgLength :=
      if seqNumFlag || extHdrFlag || npduNumFlag then (msgLength + 4) % 2 ^ 16 else msgLength
    let opt :=
      if seqNumFlag || extHdrFlag || npduNumFlag then
        little 2 (if seqNumFlag then htons seqNum else 0) ++
          little 1 (if npduNumFlag then htons npduNum else 0) ++ little 1 0
      else []
    .ok ([msgHdr.toByte, UInt8.ofInt msgType] ++ little 2 msgLength ++
      little 4 (swap 4 teid.toNat) ++ opt ++ msg)

/-! ## Receiving -/

/-- A computation, with the offsets of the bytes it has read so far. -/
abbrev Reading (α : Type) := StateM (List ℕ) α

/-- The byte of a buffer at an offset. -/
def load (msgBuf : ℕ → UInt8) (offset : ℕ) : Reading UInt8 :=
  fun reads => (msgBuf offset, reads ++ [offset])

/-- `ntohl(msgHdr->teid)`. -/
def loadTeid (msgBuf : ℕ → UInt8) : Reading UInt32 := do
  let b₀ ← load msgBuf 4
  let b₁ ← load msgBuf 5
  let b₂ ← load msgBuf 6
  let b₃ ← load msgBuf 7
  return UInt32.ofNat (swap 4 (ofLittle [b₀, b₁, b₂, b₃]))

/-- Where the SDU starts, and what the PDU session container says. -/
structure SduStart where
  offset : ℕ
  qfi : UInt8 := 0
  rqi : Bool := false
  moreExtHdrs : Bool := false
deriving DecidableEq, Repr

/-- The headers behind the first one. -/
def loadSduStart (msgHdr : MsgFlags) (msgBuf : ℕ → UInt8) : Reading SduStart :=
  if msgHdr.hasOpt then
    if msgHdr.e then do
      let nextExtHeaderType ← load msgBuf 11
      if nextExtHeaderType = PDU_SESSION_CONTAINER then do
        let extHeaderLen ← load msgBuf 12
        let offset := 12 + extHeaderLen.toNat * EXT_HDR_LNTH_OCTET_UNITS
        let octet ← load msgBuf 14
        let last ← load msgBuf (offset - 1)
        return { offset, qfi := octet &&& 0x3f, rqi := octet.toNat.testBit 6,
                 moreExtHdrs := last != NO_MORE_EXT_HDRS }
      else return { offset := 12 }
    else return { offset := 12 }
  else return { offset := GTPV1U_HEADER_SIZE }

/-- What the callback of a tunnel gets. The size is an `int32_t`, from a difference of 32 bits. -/
structure Sdu where
  tunnel : RntiData
  offset : ℕ
  size : ℤ
  /-- A warning is logged. -/
  moreExtHdrs : Bool
  /-- With the QFI and the RQI, by `callBackSDAP`. -/
  sdap : Option (UInt8 × Bool)
deriving DecidableEq, Repr

/-- What becomes of a G-PDU. -/
inductive GpduResult
  | notGtpHeader
  | unknownTeid
  | callBack (sdu : Sdu)
deriving DecidableEq, Repr

/-- `Gtpv1uHandleGpdu`. -/
def gtpv1uHandleGpdu (isGnb : Bool) (inst : EndPoint) (msgBuf : ℕ → UInt8) (msgBufLen : ℕ) :
    Reading GpduResult := do
  let msgHdr := MsgFlags.ofByte (← load msgBuf 0)
  if msgHdr.IsGtpU then do
    let teid ← loadTeid msgBuf
    match inst.te2ueMapping.lookup teid with
    | none => return .unknownTeid
    | some tunnel => do
        let start ← loadSduStart msgHdr msgBuf
        return .callBack
          { tunnel
            offset := start.offset
            size := Int.bmod (msgBufLen - start.offset) (2 ^ 32)
            moreExtHdrs := start.moreExtHdrs
            sdap := if isGnb ∧ start.qfi ≠ 0 then some (start.qfi, start.rqi) else none }
  else return .notGtpHeader

/-- What becomes of a packet. Those of the other types are left out. -/
inductive Received
  | nothing
  | gpdu (result : GpduResult)
  | other (msgType : UInt8)
deriving DecidableEq, Repr

/-- `gtpv1uReceiver`, for the buffer that `recvfrom` has filled up to `udpDataLen`. -/
def gtpv1uReceiver (isGnb : Bool) (inst : EndPoint) (udpData : ℕ → UInt8) (udpDataLen : ℕ) :
    Reading Received := do
  if udpDataLen = 0 then return .nothing
  else
    let msgType ← load udpData 1
    if msgType = GTP_GPDU then
      let result ← gtpv1uHandleGpdu isGnb inst udpData udpDataLen
      return .gpdu result
    else return .other msgType

/-!
## The bounds of a received packet

Nothing compares the offsets in a G-PDU with its length. They stay inside exactly if the packet is
as long as its own headers say.
-/

/-! ## What is read -/

section

variable {α β : Type} (msgBuf : ℕ → UInt8) (reads : List ℕ)

theorem reading_bind (x : Reading α) (f : α → Reading β) :
    (x >>= f) reads = f (x reads).1 (x reads).2 :=
  rfl

theorem reading_pure (a : α) : (pure a : Reading α) reads = (a, reads) :=
  rfl

theorem reading_map (x : Reading α) (f : α → β) :
    (f <$> x) reads = (f (x reads).1, (x reads).2) :=
  rfl

theorem load_apply (offset : ℕ) : load msgBuf offset reads = (msgBuf offset, reads ++ [offset]) :=
  rfl

/-- The TEID of a packet. -/
def gpduTeid : UInt32 :=
  UInt32.ofNat (swap 4 (ofLittle [msgBuf 4, msgBuf 5, msgBuf 6, msgBuf 7]))

theorem loadTeid_apply : loadTeid msgBuf reads = (gpduTeid msgBuf, reads ++ [4, 5, 6, 7]) := by
  unfold loadTeid gpduTeid
  simp only [reading_bind, reading_pure, load_apply, List.append_assoc]
  rfl

/-- The packet has a PDU session container. -/
def HasContainer (f : MsgFlags) : Prop := f.e = true ∧ msgBuf 11 = PDU_SESSION_CONTAINER

instance (f : MsgFlags) : Decidable (HasContainer msgBuf f) := inferInstanceAs (Decidable (_ ∧ _))

/-- Where the SDU starts. -/
def sduOffset (f : MsgFlags) : ℕ :=
  if f.hasOpt then
    if HasContainer msgBuf f then 12 + (msgBuf 12).toNat * EXT_HDR_LNTH_OCTET_UNITS else 12
  else GTPV1U_HEADER_SIZE

/-- The bytes that are read of the headers behind the first one. -/
def optReads (f : MsgFlags) : List ℕ :=
  if f.e then 11 :: if HasContainer msgBuf f then [12, 14, sduOffset msgBuf f - 1] else [] else []

theorem loadSduStart_apply (f : MsgFlags) :
    (loadSduStart f msgBuf reads).1.offset = sduOffset msgBuf f ∧
      (loadSduStart f msgBuf reads).2 = reads ++ optReads msgBuf f := by
  unfold loadSduStart optReads sduOffset HasContainer
  by_cases he : f.e = true
  · have hopt : f.hasOpt = true := by
      unfold MsgFlags.hasOpt
      rw [he]
      rfl
    by_cases hnext : msgBuf 11 = PDU_SESSION_CONTAINER
    · simp [reading_bind, reading_map, load_apply, hopt, he, hnext]
    · simp [reading_bind, reading_pure, load_apply, hopt, he, hnext]
  · by_cases hopt : f.hasOpt = true
    · simp [reading_pure, hopt, he]
    · simp [reading_pure, hopt, he]

/-! ## G-PDUs -/

variable {msgBuf reads} {isGnb : Bool} {inst : EndPoint} {msgBufLen : ℕ}

theorem gtpv1uHandleGpdu_of_not (h : ¬ (MsgFlags.ofByte (msgBuf 0)).IsGtpU) :
    gtpv1uHandleGpdu isGnb inst msgBuf msgBufLen reads = (.notGtpHeader, reads ++ [0]) := by
  unfold gtpv1uHandleGpdu
  rw [reading_bind, load_apply, if_neg h]
  rfl

theorem gtpv1uHandleGpdu_of_unknown (h : (MsgFlags.ofByte (msgBuf 0)).IsGtpU)
    (hteid : inst.te2ueMapping.lookup (gpduTeid msgBuf) = none) :
    gtpv1uHandleGpdu isGnb inst msgBuf msgBufLen reads =
      (.unknownTeid, reads ++ [0, 4, 5, 6, 7]) := by
  unfold gtpv1uHandleGpdu
  rw [reading_bind, load_apply, if_pos h, reading_bind, loadTeid_apply, hteid, List.append_assoc]
  rfl

theorem gtpv1uHandleGpdu_of_known (isGnb : Bool) (msgBufLen : ℕ) (reads : List ℕ)
    (h : (MsgFlags.ofByte (msgBuf 0)).IsGtpU) {tunnel : RntiData}
    (hteid : inst.te2ueMapping.lookup (gpduTeid msgBuf) = some tunnel) :
    ∃ sdu : Sdu, gtpv1uHandleGpdu isGnb inst msgBuf msgBufLen reads =
        (.callBack sdu, reads ++ 0 :: 4 :: 5 :: 6 :: 7 ::
          optReads msgBuf (MsgFlags.ofByte (msgBuf 0))) ∧
      sdu.tunnel = tunnel ∧ sdu.offset = sduOffset msgBuf (MsgFlags.ofByte (msgBuf 0)) ∧
      sdu.size =
        Int.bmod (msgBufLen - sduOffset msgBuf (MsgFlags.ofByte (msgBuf 0))) (2 ^ 32) := by
  obtain ⟨hoffset, hreads⟩ := loadSduStart_apply msgBuf (reads ++ [0] ++ [4, 5, 6, 7])
    (MsgFlags.ofByte (msgBuf 0))
  unfold gtpv1uHandleGpdu
  rw [reading_bind, load_apply, if_pos h, reading_bind, loadTeid_apply, hteid]
  dsimp only
  rw [reading_bind]
  generalize loadSduStart (MsgFlags.ofByte (msgBuf 0)) msgBuf _ = st at hoffset hreads
  obtain ⟨start, reads'⟩ := st
  dsimp only at hoffset hreads
  rw [List.append_assoc, List.append_assoc] at hreads
  subst hreads
  exact ⟨_, rfl, rfl, hoffset, by rw [hoffset]⟩

end

/-! ## The bounds -/

/-- All bytes that are read are in the packet, and what the callback gets ends where the packet
ends. -/
structure BoundsKept (udpDataLen : ℕ) (r : Received × List ℕ) : Prop where
  reads : ∀ offset ∈ r.2, offset < udpDataLen
  sdu : ∀ sdu, r.1 = .gpdu (.callBack sdu) →
    sdu.offset ≤ udpDataLen ∧ sdu.size = udpDataLen - sdu.offset

/-- The packet has the headers that it says it has, up to those that are looked at. -/
def LongEnough (inst : EndPoint) (udpData : ℕ → UInt8) (udpDataLen : ℕ) : Prop :=
  let msgHdr := MsgFlags.ofByte (udpData 0)
  2 ≤ udpDataLen ∧ (msgHdr.IsGtpU → GTPV1U_HEADER_SIZE ≤ udpDataLen ∧
    ((inst.te2ueMapping.lookup (gpduTeid udpData)).isSome →
      (msgHdr.hasOpt → 12 ≤ udpDataLen) ∧
        (HasContainer udpData msgHdr →
          15 ≤ udpDataLen ∧ 12 + (udpData 12).toNat * EXT_HDR_LNTH_OCTET_UNITS ≤ udpDataLen)))

section

variable {isGnb : Bool} {inst : EndPoint} {udpData : ℕ → UInt8} {udpDataLen : ℕ}

/-- A G-PDU goes to its handler when its type was read. -/
theorem gtpv1uReceiver_gpdu (hpos : 1 ≤ udpDataLen) (hgpdu : udpData 1 = GTP_GPDU) :
    gtpv1uReceiver isGnb inst udpData udpDataLen [] =
      (.gpdu (gtpv1uHandleGpdu isGnb inst udpData udpDataLen [1]).1,
        (gtpv1uHandleGpdu isGnb inst udpData udpDataLen [1]).2) := by
  unfold gtpv1uReceiver
  rw [if_neg (Nat.one_le_iff_ne_zero.mp hpos), reading_bind, load_apply, if_pos hgpdu]
  rfl

/-- The size is not cut, since both numbers are small. -/
theorem bmod_size (hle : udpDataLen ≤ 65536) (f : MsgFlags) :
    Int.bmod (udpDataLen - sduOffset udpData f) (2 ^ 32) = udpDataLen - sduOffset udpData f := by
  have hlen := (udpData 12).toNat_lt
  have hoffset : sduOffset udpData f ≤ 1032 := by
    unfold sduOffset EXT_HDR_LNTH_OCTET_UNITS GTPV1U_HEADER_SIZE
    split_ifs <;> omega
  apply Int.bmod_eq_of_le
  · omega
  · omega

/-- The headers behind the first one are read, and left out of the SDU, inside of the packet
exactly if they are in it. -/
theorem opt_inside (hlong : GTPV1U_HEADER_SIZE ≤ udpDataLen) (f : MsgFlags) :
    (∀ offset ∈ optReads udpData f, offset < udpDataLen) ∧ sduOffset udpData f ≤ udpDataLen ↔
      (f.hasOpt → 12 ≤ udpDataLen) ∧
        (HasContainer udpData f →
          15 ≤ udpDataLen ∧ 12 + (udpData 12).toNat * EXT_HDR_LNTH_OCTET_UNITS ≤ udpDataLen) := by
  unfold optReads sduOffset
  by_cases hopt : f.hasOpt = true
  · by_cases hcont : HasContainer udpData f
    · simp only [hopt, hcont, hcont.1, if_true, List.forall_mem_cons]
      simp only [List.not_mem_nil, false_imp_iff, implies_true, true_imp_iff, and_true]
      omega
    · by_cases he : f.e = true
      · simp only [hopt, hcont, he, if_true, if_false, List.forall_mem_cons]
        simp only [List.not_mem_nil, false_imp_iff, implies_true, true_imp_iff, and_true]
        omega
      · simp [hopt, hcont, he]
  · have he : f.e = false := by
      unfold MsgFlags.hasOpt at hopt
      cases he : f.e with
      | false => rfl
      | true => exact absurd (by rw [he]; rfl) hopt
    have hcont : ¬ HasContainer udpData f := by
      rintro ⟨he', -⟩
      exact absurd (he.symm.trans he') nofun
    simp [hopt, hcont, he, hlong]

/-- The bounds of a G-PDU are kept exactly if it has the headers that it says it has. -/
theorem bounds_kept_iff (hpos : 1 ≤ udpDataLen) (hle : udpDataLen ≤ 65536)
    (hgpdu : udpData 1 = GTP_GPDU) :
    BoundsKept udpDataLen (gtpv1uReceiver isGnb inst udpData udpDataLen []) ↔
      LongEnough inst udpData udpDataLen := by
  rw [gtpv1uReceiver_gpdu hpos hgpdu]
  unfold LongEnough
  by_cases hgtp : (MsgFlags.ofByte (udpData 0)).IsGtpU
  · cases hteid : inst.te2ueMapping.lookup (gpduTeid udpData) with
    | none =>
        rw [gtpv1uHandleGpdu_of_unknown hgtp hteid]
        constructor
        · rintro ⟨hreads, -⟩
          exact ⟨hreads 1 (by simp), fun _ => ⟨hreads 7 (by simp), nofun⟩⟩
        · rintro ⟨-, h⟩
          refine ⟨fun offset hoffset => ?_, nofun⟩
          have hlong : 8 ≤ udpDataLen := (h hgtp).1
          have hle : offset ≤ 7 := by
            simp at hoffset
            omega
          omega
    | some tunnel =>
        obtain ⟨sdu, happly, -, hoffset, hsize⟩ :=
          gtpv1uHandleGpdu_of_known isGnb udpDataLen [1] hgtp hteid
        rw [happly]
        rw [bmod_size hle, ← hoffset] at hsize
        constructor
        · rintro ⟨hreads, hsdu⟩
          have hlong : GTPV1U_HEADER_SIZE ≤ udpDataLen := hreads 7 (by simp)
          refine ⟨hreads 1 (by simp), fun _ => ⟨hlong, fun _ => (opt_inside hlong _).mp ⟨?_, ?_⟩⟩⟩
          · exact fun offset hmem => hreads offset (by simp [hmem])
          · exact hoffset ▸ (hsdu sdu rfl).1
        · rintro ⟨-, h⟩
          obtain ⟨hlong, hopt⟩ := h hgtp
          obtain ⟨hreads, hle'⟩ := (opt_inside hlong _).mpr (hopt rfl)
          constructor
          · intro offset hmem
            rcases List.mem_append.mp (show offset ∈ [1, 0, 4, 5, 6, 7] ++ _ from hmem)
              with hmem | hmem
            · have hle : offset ≤ 7 := by
                simp at hmem
                omega
              exact hle.trans_lt hlong
            · exact hreads offset hmem
          · rintro sdu' heq
            cases heq
            exact ⟨hoffset ▸ hle', hsize⟩
  · rw [gtpv1uHandleGpdu_of_not hgtp]
    constructor
    · rintro ⟨hreads, -⟩
      exact ⟨hreads 1 (by simp), fun h => absurd h hgtp⟩
    · rintro ⟨hlong, -⟩
      refine ⟨fun offset hoffset => ?_, nofun⟩
      have hle : offset ≤ 1 := by
        simp at hoffset
        omega
      omega

end

/-- An instance with one tunnel, of TEID 1. -/
def exampleEndPoint : EndPoint where
  te2ueMapping := AList.singleton 1 { rnti := 7, incomingRbId := 1, callBack := 1, pdusessionId := 1 }

/-- A G-PDU of TEID 1 with a PDU session container and one byte. -/
theorem bounds_kept_container : BoundsKept 17 (gtpv1uReceiver true exampleEndPoint
    (fun i => [0x34, 255, 0, 9, 0, 0, 0, 1, 0, 0, 0, 0x85, 1, 0, 9, 0, 42].getD i 0) 17 []) := by
  refine (bounds_kept_iff (by decide) (by decide) rfl).mpr
    ⟨by decide, fun _ => ⟨by decide, fun _ => ?_⟩⟩
  exact ⟨fun _ => by decide, fun _ => by decide⟩

/-- A G-PDU of TEID 1 that ends in front of its sequence number. The callback gets -4 bytes. -/
theorem bounds_left : ¬ BoundsKept 8 (gtpv1uReceiver true exampleEndPoint
    (fun i => [0x32, 255, 0, 0, 0, 0, 0, 1].getD i 0) 8 []) := by
  intro h
  have hsdu := h.sdu { tunnel := _, offset := 12, size := -4, moreExtHdrs := false, sdap := none } rfl
  exact absurd hsdu.1 (by decide)

end OaiCu.Gtpu
