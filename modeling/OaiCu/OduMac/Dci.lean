import OaiCu.OduMac.DciPayload
import Mathlib.Data.List.Induction
import Mathlib.Data.Nat.Log

/-!
# The fields of a DCI in its bits

Fields that are packed one behind the other are read from the bits as they were exactly when each
field that begins inside of an octet and ends in it is 0.
-/

namespace OaiCu.OduMac

/-! ## Fields one behind the other -/

/-- The bits of fields. -/
def sizeSum (fields : List (ℕ × ℕ)) : ℕ := (fields.map (·.2)).sum

/-- The stream that the code makes of values and their sizes. -/
def packedStream : ℕ → ℕ → List (ℕ × ℕ) → ℕ
  | stream, _, [] => stream
  | stream, pos, f :: fields =>
    packedStream (stream ||| f.1 <<< place pos f.2) (pos + f.2) fields

/-- The fields are packed one behind the other. -/
def fillFields (c : DciCursor) (fields : List (ℕ × ℕ)) : Option DciCursor :=
  fields.foldlM (fun c f => fillDlDciPayload c f.1 f.2) c

theorem DciCursor.At.fillFields {rest : List UInt8} {n : ℕ} (hn : n ≤ 2 ^ 8) :
    ∀ {fields : List (ℕ × ℕ)} {c : DciCursor} {stream pos : ℕ}, c.At rest n stream pos →
    (∀ f ∈ fields, f.1 < 2 ^ f.2) → pos + sizeSum fields ≤ 8 * n →
    ∃ c', fillFields c fields = some c' ∧
      c'.At rest n (packedStream stream pos fields) (pos + sizeSum fields)
  | [], c, stream, pos, h, _, _ => ⟨c, rfl, h⟩
  | f :: fields, c, stream, pos, h, hfields, hroom => by
      rw [sizeSum, List.map_cons, List.sum_cons, ← Nat.add_assoc] at hroom ⊢
      obtain ⟨c', hfill, hat⟩ := h.fill hn (hfields f List.mem_cons_self)
        ((Nat.le_add_right _ _).trans hroom)
      obtain ⟨c'', hrest, hat'⟩ := DciCursor.At.fillFields hn hat
        (fun g hg => hfields g (List.mem_cons_of_mem _ hg)) hroom
      refine ⟨c'', ?_, hat'⟩
      rw [OduMac.fillFields, List.foldlM_cons, hfill]
      exact hrest

/-- The fields are read from the stream, each with its bits in their order again. -/
def ReadsAs (stream : ℕ) : ℕ → List (ℕ × ℕ) → Prop
  | _, [] => True
  | pos, f :: fields => reverseBits ((stream >>> pos) % 2 ^ f.2) f.2 = f.1 ∧
      ReadsAs stream (pos + f.2) fields

/-- A field that begins inside of an octet and ends in it is 0. -/
def ZeroInside : ℕ → List (ℕ × ℕ) → Prop
  | _, [] => True
  | pos, f :: fields => (0 < pos % 8 → pos % 8 + f.2 ≤ 8 → f.1 = 0) ∧
      ZeroInside (pos + f.2) fields

/-- The fields with their bits reversed. -/
def reversed (fields : List (ℕ × ℕ)) : List (ℕ × ℕ) :=
  fields.map fun f => (reverseBits f.1 f.2, f.2)

theorem sizeSum_reversed (fields : List (ℕ × ℕ)) : sizeSum (reversed fields) = sizeSum fields := by
  rw [sizeSum, reversed, List.map_map]
  rfl

theorem reversed_lt (fields : List (ℕ × ℕ)) : ∀ f ∈ reversed fields, f.1 < 2 ^ f.2 := by
  intro f hf
  obtain ⟨g, -, rfl⟩ := List.mem_map.mp hf
  exact reverseBits_lt g.1 g.2

/-! ## A last field -/

theorem packedStream_append (f : ℕ × ℕ) : ∀ (fields : List (ℕ × ℕ)) (stream pos : ℕ),
    packedStream stream pos (fields ++ [f]) =
      packedStream stream pos fields ||| f.1 <<< place (pos + sizeSum fields) f.2
  | [], _, _ => rfl
  | g :: fields, stream, pos => by
      rw [List.cons_append, packedStream, packedStream, packedStream_append, sizeSum, sizeSum,
        List.map_cons, List.sum_cons, Nat.add_assoc]

theorem readsAs_append (stream : ℕ) (f : ℕ × ℕ) : ∀ (fields : List (ℕ × ℕ)) (pos : ℕ),
    ReadsAs stream pos (fields ++ [f]) ↔ ReadsAs stream pos fields ∧
      reverseBits ((stream >>> (pos + sizeSum fields)) % 2 ^ f.2) f.2 = f.1
  | [], _ => and_comm
  | g :: fields, pos => by
      rw [List.cons_append, ReadsAs, ReadsAs, readsAs_append stream f fields, sizeSum, sizeSum,
        List.map_cons, List.sum_cons, Nat.add_assoc, and_assoc]

theorem zeroInside_append (f : ℕ × ℕ) : ∀ (fields : List (ℕ × ℕ)) (pos : ℕ),
    ZeroInside pos (fields ++ [f]) ↔ ZeroInside pos fields ∧
      (0 < (pos + sizeSum fields) % 8 → (pos + sizeSum fields) % 8 + f.2 ≤ 8 → f.1 = 0)
  | [], _ => and_comm
  | g :: fields, pos => by
      rw [List.cons_append, ZeroInside, ZeroInside, zeroInside_append f fields, sizeSum, sizeSum,
        List.map_cons, List.sum_cons, Nat.add_assoc, and_assoc]

/-- Fields are read from the bits in front of their end. -/
theorem readsAs_congr {stream stream' : ℕ} : ∀ {fields : List (ℕ × ℕ)} {pos : ℕ},
    stream % 2 ^ (pos + sizeSum fields) = stream' % 2 ^ (pos + sizeSum fields) →
    (ReadsAs stream pos fields ↔ ReadsAs stream' pos fields)
  | [], _, _ => Iff.rfl
  | f :: fields, pos, h => by
      rw [sizeSum, List.map_cons, List.sum_cons, ← Nat.add_assoc] at h
      have hfield : (stream >>> pos) % 2 ^ f.2 = (stream' >>> pos) % 2 ^ f.2 := by
        refine Nat.eq_of_testBit_eq fun i => ?_
        have hbit := congrArg (Nat.testBit · (pos + i)) h
        rw [Nat.testBit_mod_two_pow, Nat.testBit_mod_two_pow, Nat.testBit_shiftRight,
          Nat.testBit_shiftRight]
        by_cases hi : i < f.2
        · have hin : pos + i < pos + f.2 + (fields.map (·.2)).sum := by omega
          rw [Nat.testBit_mod_two_pow, Nat.testBit_mod_two_pow, decide_eq_true hin, Bool.true_and,
            Bool.true_and] at hbit
          rw [hbit]
        · rw [decide_eq_false hi, Bool.false_and, Bool.false_and]
      rw [ReadsAs, ReadsAs, hfield, readsAs_congr h]

theorem place_le (pos valSize : ℕ) : place pos valSize ≤ pos := by
  rw [place]
  split
  · exact Nat.mul_div_le pos 8
  · exact Nat.le_refl _

theorem packedStream_lt : ∀ {fields : List (ℕ × ℕ)} {stream pos : ℕ}, stream < 2 ^ pos →
    (∀ f ∈ fields, f.1 < 2 ^ f.2) →
    packedStream stream pos fields < 2 ^ (pos + sizeSum fields)
  | [], _, _, h, _ => h
  | f :: fields, stream, pos, h, hfields => by
      have hstream : stream ||| f.1 <<< place pos f.2 < 2 ^ (pos + f.2) := by
        refine Nat.or_lt_two_pow (h.trans_le (Nat.pow_le_pow_right (by decide)
          (Nat.le_add_right _ _))) ?_
        have hf := hfields f List.mem_cons_self
        rw [Nat.shiftLeft_eq]
        calc f.1 * 2 ^ place pos f.2 < 2 ^ f.2 * 2 ^ place pos f.2 :=
              Nat.mul_lt_mul_of_pos_right hf (Nat.two_pow_pos _)
          _ ≤ 2 ^ f.2 * 2 ^ pos :=
              Nat.mul_le_mul_left _ (Nat.pow_le_pow_right (by decide) (place_le pos f.2))
          _ = 2 ^ (pos + f.2) := by rw [← Nat.pow_add, Nat.add_comm]
      have hrest := packedStream_lt hstream fun g hg => hfields g (List.mem_cons_of_mem _ hg)
      rw [sizeSum, List.map_cons, List.sum_cons, ← Nat.add_assoc]
      exact hrest

/-- A last field in the order of the bits is read, and it leaves the ones in front of it. -/
theorem readsAs_last {stream : ℕ} {fields : List (ℕ × ℕ)} {f : ℕ × ℕ}
    (hstream : stream < 2 ^ sizeSum fields) (hf : f.1 < 2 ^ f.2) :
    ReadsAs (stream ||| reverseBits f.1 f.2 <<< sizeSum fields) 0 (fields ++ [f]) ↔
      ReadsAs stream 0 fields := by
  have hlow : (stream ||| reverseBits f.1 f.2 <<< sizeSum fields) % 2 ^ (0 + sizeSum fields) =
      stream % 2 ^ (0 + sizeSum fields) := by
    rw [Nat.zero_add, Nat.or_mod_two_pow, Nat.shiftLeft_eq, Nat.mul_mod_left, Nat.or_zero]
  have hread : ((stream ||| reverseBits f.1 f.2 <<< sizeSum fields) >>> (0 + sizeSum fields)) %
      2 ^ f.2 = reverseBits f.1 f.2 := by
    rw [Nat.zero_add, Nat.shiftRight_or_distrib, Nat.shiftRight_eq_zero _ _ hstream, Nat.zero_or,
      Nat.shiftLeft_shiftRight, Nat.mod_eq_of_lt (reverseBits_lt _ _)]
  rw [readsAs_append, readsAs_congr hlow, hread, reverseBits_reverseBits hf]
  exact and_iff_left rfl

/-- One that is written to the low bits of an octet is read only if it is 0. -/
theorem readsAs_inside {stream start : ℕ} {fields : List (ℕ × ℕ)} {f : ℕ × ℕ}
    (hstream : stream < 2 ^ sizeSum fields) (hf : f.1 < 2 ^ f.2) (hstart : start < sizeSum fields) :
    ReadsAs (stream ||| reverseBits f.1 f.2 <<< start) 0 (fields ++ [f]) ↔
      ReadsAs stream 0 fields ∧ f.1 = 0 := by
  obtain ⟨d, hd⟩ := Nat.exists_eq_add_of_lt hstart
  have hread : (stream ||| reverseBits f.1 f.2 <<< start) >>> (0 + sizeSum fields) =
      reverseBits f.1 f.2 >>> (d + 1) := by
    rw [Nat.zero_add, Nat.shiftRight_or_distrib, Nat.shiftRight_eq_zero _ _ hstream, Nat.zero_or,
      hd, Nat.add_assoc, Nat.shiftRight_add, Nat.shiftLeft_shiftRight]
  rw [readsAs_append, hread]
  constructor
  · rintro ⟨hreads, hlast⟩
    have hless : reverseBits f.1 f.2 >>> (d + 1) < 2 ^ f.2 :=
      (Nat.shiftRight_le _ _).trans_lt (reverseBits_lt f.1 f.2)
    rw [Nat.mod_eq_of_lt hless] at hlast
    have hsame : reverseBits f.1 f.2 >>> (d + 1) = reverseBits f.1 f.2 :=
      calc reverseBits f.1 f.2 >>> (d + 1)
          = reverseBits (reverseBits (reverseBits f.1 f.2 >>> (d + 1)) f.2) f.2 :=
            (reverseBits_reverseBits hless).symm
        _ = reverseBits f.1 f.2 := by rw [hlast]
    -- a number that is shifted to itself is 0
    have hzero : reverseBits f.1 f.2 = 0 := by
      by_contra hne
      rw [Nat.shiftRight_eq_div_pow] at hsame
      exact absurd hsame (Nat.div_lt_self (Nat.pos_of_ne_zero hne)
        (Nat.one_lt_two_pow (Nat.succ_ne_zero d))).ne
    have hvalue : f.1 = 0 := by
      rw [← reverseBits_reverseBits hf, hzero, reverseBits_zero]
    rw [hzero, Nat.zero_shiftLeft, Nat.or_zero] at hreads
    exact ⟨hreads, hvalue⟩
  · rintro ⟨hreads, hvalue⟩
    rw [hvalue, reverseBits_zero, Nat.zero_shiftLeft, Nat.or_zero, Nat.zero_shiftRight,
      Nat.zero_mod, reverseBits_zero]
    exact ⟨hreads, rfl⟩

/-- The fields are read as they were exactly when those inside of an octet are 0. -/
theorem readsAs_packedStream_iff {fields : List (ℕ × ℕ)} (hfields : ∀ f ∈ fields, f.1 < 2 ^ f.2) :
    ReadsAs (packedStream 0 0 (reversed fields)) 0 fields ↔ ZeroInside 0 fields := by
  induction fields using List.reverseRecOn with
  | nil => exact Iff.rfl
  | append_singleton fields f ih =>
    have hf := hfields f (List.mem_append_right _ List.mem_cons_self)
    have hrest := ih fun g hg => hfields g (List.mem_append_left _ hg)
    have hstream : packedStream 0 0 (reversed fields) < 2 ^ sizeSum fields := by
      have hlt := packedStream_lt (Nat.two_pow_pos 0) (reversed_lt fields)
      rwa [sizeSum_reversed, Nat.zero_add] at hlt
    have hreversed : reversed (fields ++ [f]) = reversed fields ++ [(reverseBits f.1 f.2, f.2)] :=
      List.map_append
    rw [hreversed, packedStream_append, sizeSum_reversed, zeroInside_append, Nat.zero_add,
      ← hrest]
    by_cases hinside : 0 < sizeSum fields % 8 ∧ sizeSum fields % 8 + f.2 ≤ 8
    · have hplace : place (sizeSum fields) f.2 < sizeSum fields := by
        rw [place, if_pos hinside.2]
        omega
      rw [readsAs_inside hstream hf hplace]
      refine and_congr_right fun _ => ⟨fun hzero _ _ => hzero, fun h => h hinside.1 hinside.2⟩
    · have hplace : place (sizeSum fields) f.2 = sizeSum fields := by
        rw [place]
        split
        · omega
        · rfl
      dsimp only
      rw [hplace, readsAs_last hstream hf]
      exact (and_iff_left fun hpos hle => absurd ⟨hpos, hle⟩ hinside).symm

/-!
## O-DU MAC: the builders of DCIs (`lwr_mac_fsm.c`)

Five functions fill the payload of a DCI: `fillSib1DlDciPdu`, `fillPageDlDciPdu`, `fillRarDlDciPdu`,
`fillDlMsgDlDciPdu` and `fillUlDciPdu`. Each has a list of fields to pack and a sum of sizes.
-/

def FAPI_DCI_PAYLOAD_BYTE_LEN : ℕ := 32

structure FreqAlloc where
  startPrb : ℕ
  numPrb : ℕ
deriving DecidableEq, Repr

/-- `PdschCfg`. -/
structure PdschCfg where
  freqAlloc : FreqAlloc
  vrbPrbMapping : ℕ
  rowIndex : ℕ
  mcsIndex : ℕ
  rvIndex : ℕ
deriving DecidableEq, Repr

/-- `PdcchCfg`, with the PDSCH of its DCI. The size of the CORESET is stored in 8 bits. -/
structure PdcchCfg where
  coreSetSize : ℕ
  pdschCfg : PdschCfg
deriving DecidableEq, Repr

/-- `DlPageAlloc`. -/
structure DlPageAlloc where
  pagePdcchCfg : PdcchCfg
  shortMsgInd : Bool
  shortMsg : ℕ
  dlPagePdu : Option (List UInt8)
deriving DecidableEq, Repr

/-- `DlMsgInfo`. -/
structure DlMsgInfo where
  dciFormatId : ℕ
  ndi : ℕ
  harqProcNum : ℕ
  dlAssignIdx : ℕ
  pucchTpc : ℕ
  pucchResInd : ℕ
  harqFeedbackInd : ℕ
deriving DecidableEq, Repr

/-- `FormatType`. -/
inductive FormatType
  | FORMAT0_0
  | other (formatType : ℕ)
deriving DecidableEq, Repr

/-- `Format0_0`. -/
structure Format0_0 where
  freqAlloc : FreqAlloc
  rowIndex : ℕ
  freqHopFlag : ℕ
  mcs : ℕ
  ndi : ℕ
  rv : ℕ
  harqProcId : ℕ
  tpcCmd : ℕ
  sUlCfgd : ℕ
deriving DecidableEq, Repr

/-- `DciInfo`, with the size of the CORESET in 8 bits. -/
structure DciInfo where
  coreSetSize : ℕ
  formatType : FormatType
  format0_0 : Format0_0
deriving DecidableEq, Repr

/-- `fapi_dl_dci_t`. -/
structure FapiDlDci where
  payloadSizeBits : ℕ
  payload : List UInt8
deriving DecidableEq, Repr

/-- The width of the field for the frequency domain. -/
def freqDomResAssignSize (coresetSize : ℕ) : ℕ := Nat.clog 2 (coresetSize * (coresetSize + 1) / 2)

/-- The resource indication value. -/
def freqDomResAssign (coresetSize rbStart rbLen : ℕ) : ℕ :=
  if rbLen - 1 ≤ coresetSize / 2 then coresetSize * (rbLen - 1) + rbStart
  else coresetSize * (coresetSize - rbLen + 1) + (coresetSize - 1 - rbStart)

/-- The field for the frequency domain and its size, which are 0 for RBs outside of the CORESET. -/
def freqDomRes (coreSetSize : ℕ) (freqAlloc : FreqAlloc) : ℕ × ℕ :=
  let coresetSize := coreSetSize % 2 ^ 8
  if 1 ≤ freqAlloc.numPrb ∧ freqAlloc.numPrb + freqAlloc.startPrb ≤ coresetSize then
    (freqDomResAssign coresetSize freqAlloc.startPrb freqAlloc.numPrb,
      freqDomResAssignSize coresetSize)
  else (0, 0)

/-- A field with its bits reversed. -/
def rev (value size : ℕ) : ℕ × ℕ := (reverseBits value size, size)

/-- The end of each builder: the octets for the sum of sizes are cleared and the fields packed. -/
def packDci (payload : List UInt8) (payloadSizeBits : ℕ) (fields : List (ℕ × ℕ)) :
    Option FapiDlDci :=
  let numBytes := if payloadSizeBits % 8 = 0 then payloadSizeBits / 8 else payloadSizeBits / 8 + 1
  if FAPI_DCI_PAYLOAD_BYTE_LEN < numBytes then some ⟨payloadSizeBits, payload⟩
  else do
    let c ← fillFields ⟨List.replicate numBytes 0 ++ payload.drop numBytes,
      (numBytes + 2 ^ 8 - 1) % 2 ^ 8, 0⟩ fields
    return ⟨payloadSizeBits, c.payload⟩

/-- `fillSib1DlDciPdu`. -/
def fillSib1DlDciPdu (payload : List UInt8) (sib1PdcchInfo : PdcchCfg) : Option FapiDlDci :=
  let pdsch := sib1PdcchInfo.pdschCfg
  let freqDom := freqDomRes sib1PdcchInfo.coreSetSize pdsch.freqAlloc
  packDci payload (freqDom.2 + 4 + 1 + 5 + 2 + 1 + 15)
    [rev freqDom.1 freqDom.2, rev ((pdsch.rowIndex + 2 ^ 32 - 1) % 2 ^ 32) 4,
      rev pdsch.vrbPrbMapping 1, rev pdsch.mcsIndex 5, rev pdsch.rvIndex 2, rev 0 1, (0, 15)]

/-- The short message indicator and the short message. -/
def pageShortMsg (dlPageAlloc : DlPageAlloc) : ℕ × ℕ :=
  if dlPageAlloc.shortMsgInd then
    if (dlPageAlloc.dlPagePdu.getD []).length = 0 then (2, dlPageAlloc.shortMsg)
    else (3, dlPageAlloc.shortMsg)
  else (1, 0)

/-- `fillPageDlDciPdu`. The sum of sizes has the value of the TB scaling in place of its size, and the
time domain is reversed twice. -/
def fillPageDlDciPdu (payload : List UInt8) (dlPageAlloc : DlPageAlloc) : Option FapiDlDci :=
  let pdsch := dlPageAlloc.pagePdcchCfg.pdschCfg
  let freqDom := freqDomRes dlPageAlloc.pagePdcchCfg.coreSetSize pdsch.freqAlloc
  let tbScaling := reverseBits 0 2
  packDci payload (2 + 8 + freqDom.2 + 4 + 1 + 5 + tbScaling + 6)
    [rev (pageShortMsg dlPageAlloc).1 2, rev (pageShortMsg dlPageAlloc).2 8,
      rev freqDom.1 freqDom.2,
      rev (reverseBits ((pdsch.rowIndex + 2 ^ 32 - 1) % 2 ^ 32) 4) 4, rev pdsch.vrbPrbMapping 1,
      rev pdsch.mcsIndex 5, (tbScaling, 2), (0, 6)]

/-- `fillRarDlDciPdu`. -/
def fillRarDlDciPdu (payload : List UInt8) (rarPdcchInfo : PdcchCfg) : Option FapiDlDci :=
  let pdsch := rarPdcchInfo.pdschCfg
  let freqDom := freqDomRes rarPdcchInfo.coreSetSize pdsch.freqAlloc
  packDci payload (freqDom.2 + 4 + 1 + 5 + 2 + 16)
    [rev freqDom.1 freqDom.2, rev pdsch.rowIndex 4, rev pdsch.vrbPrbMapping 1,
      rev pdsch.mcsIndex 5, rev 0 2, (0, 16)]

/-- `fillDlMsgDlDciPdu`. The redundancy version is packed twice. -/
def fillDlMsgDlDciPdu (payload : List UInt8) (pdcchInfo : PdcchCfg) (dlMsgInfo : DlMsgInfo) :
    Option FapiDlDci :=
  let pdsch := pdcchInfo.pdschCfg
  let freqDom := freqDomRes pdcchInfo.coreSetSize pdsch.freqAlloc
  packDci payload (1 + freqDom.2 + 4 + 1 + 5 + 1 + 2 + 4 + 2 + 2 + 3 + 3)
    [rev dlMsgInfo.dciFormatId 1, rev freqDom.1 freqDom.2,
      rev ((pdsch.rowIndex + 2 ^ 8 - 1) % 2 ^ 8) 4, rev pdsch.vrbPrbMapping 1,
      rev pdsch.mcsIndex 5, rev dlMsgInfo.ndi 1, rev pdsch.rvIndex 2, rev pdsch.rvIndex 2,
      rev dlMsgInfo.harqProcNum 4, rev dlMsgInfo.dlAssignIdx 2, rev dlMsgInfo.pucchTpc 2,
      rev dlMsgInfo.pucchResInd 3, rev dlMsgInfo.harqFeedbackInd 3]

/-- `fillUlDciPdu`. The sum of sizes has the value of the NDI in place of its size. The fields of other
formats are 0. -/
def fillUlDciPdu (payload : List UInt8) (schDciInfo : DciInfo) : Option FapiDlDci :=
  if schDciInfo.formatType = .FORMAT0_0 then
    let format := schDciInfo.format0_0
    let freqDom := freqDomRes schDciInfo.coreSetSize format.freqAlloc
    packDci payload (1 + freqDom.2 + 4 + 1 + 5 + format.ndi + 2 + 4 + 2 + 1)
      [rev 0 1, rev freqDom.1 freqDom.2, rev format.rowIndex 4, (format.freqHopFlag, 1),
        rev format.mcs 5, (format.ndi, 1), rev format.rv 2, rev format.harqProcId 4,
        rev format.tpcCmd 2, rev format.sUlCfgd 1]
  else
    packDci payload (1 + 0 + 4 + 1 + 5 + 0 + 2 + 4 + 2 + 1)
      [(0, 1), (0, 0), (0, 4), (0, 1), (0, 5), (0, 1), (0, 2), (0, 4), (0, 2), (0, 1)]

end OaiCu.OduMac
