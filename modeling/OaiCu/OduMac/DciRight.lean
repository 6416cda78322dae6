import Mathlib.Tactic.Linarith
import OaiCu.OduMac.Dci

/-!
# When the UE decodes the DCI that was meant

A DCI is right when its size is the sum of its fields, nothing is written outside of its octets, and
each field is read from its bits as it was, with the frequency domain decoded to the RBs.
-/

namespace OaiCu.OduMac

/-- The RBs that a resource indication value stands for. -/
def rivDecode (coresetSize riv : ℕ) : ℕ × ℕ :=
  if riv / coresetSize + riv % coresetSize < coresetSize then
    (riv % coresetSize, riv / coresetSize + 1)
  else (coresetSize - 1 - riv % coresetSize, coresetSize - riv / coresetSize + 1)

/-- RBs inside of a CORESET of up to 275 RBs. -/
structure FreqAlloc.Inside (f : FreqAlloc) (coresetSize : ℕ) : Prop where
  size_le : coresetSize ≤ 275
  numPrb_pos : 1 ≤ f.numPrb
  ends : f.startPrb + f.numPrb ≤ coresetSize

/-- A number with two digits to the base `N` that is below the number of ranges of RBs. -/
theorem two_digits_lt {N a b : ℕ} (hb : b < N) (h : 2 * a + 1 ≤ N ∨ 2 * a = N ∧ 2 * b < N) :
    N * a + b < N * (N + 1) / 2 := by
  have hdouble : 2 * (N * a + b) + 2 ≤ N * (N + 1) := by
    obtain hless | ⟨rfl, hhalf⟩ := h
    · obtain ⟨d, rfl⟩ := Nat.exists_eq_add_of_le hless
      nlinarith
    · have hless : b + 1 ≤ a := by omega
      nlinarith
  generalize N * (N + 1) = total at hdouble ⊢
  generalize N * a + b = value at hdouble ⊢
  omega

section

variable {f : FreqAlloc} {coresetSize : ℕ} (h : f.Inside coresetSize)
include h

/-- The value and its parts. -/
theorem FreqAlloc.Inside.riv_cases :
    ∃ a b, freqDomResAssign coresetSize f.startPrb f.numPrb = coresetSize * a + b ∧ b < coresetSize ∧
      (a + b < coresetSize ∧ 2 * a ≤ coresetSize ∧ f.startPrb = b ∧ f.numPrb = a + 1 ∨
        coresetSize ≤ a + b ∧ 2 * a + 1 ≤ coresetSize ∧ f.startPrb = coresetSize - 1 - b ∧
          f.numPrb = coresetSize - a + 1) := by
  have hpos := h.numPrb_pos
  have hends := h.ends
  rw [freqDomResAssign]
  split
  · exact ⟨f.numPrb - 1, f.startPrb, rfl, by omega, .inl (by omega)⟩
  · exact ⟨coresetSize - f.numPrb + 1, coresetSize - 1 - f.startPrb, rfl, by omega,
      .inr (by omega)⟩

theorem FreqAlloc.Inside.rivDecode :
    rivDecode coresetSize (freqDomResAssign coresetSize f.startPrb f.numPrb) =
      (f.startPrb, f.numPrb) := by
  obtain ⟨a, b, hriv, hb, hcases⟩ := h.riv_cases
  have hdiv : (coresetSize * a + b) / coresetSize = a := by
    rw [Nat.mul_add_div (Nat.zero_lt_of_lt hb), Nat.div_eq_of_lt hb, Nat.add_zero]
  have hmod : (coresetSize * a + b) % coresetSize = b := by
    rw [Nat.mul_add_mod, Nat.mod_eq_of_lt hb]
  rw [OduMac.rivDecode, hriv, hdiv, hmod]
  obtain ⟨hlt, -, hstart, hnum⟩ | ⟨hle, -, hstart, hnum⟩ := hcases
  · rw [if_pos hlt, hstart, hnum]
  · rw [if_neg (Nat.not_lt.mpr hle), hstart, hnum]

/-- The value fits into its field. -/
theorem FreqAlloc.Inside.riv_lt :
    freqDomResAssign coresetSize f.startPrb f.numPrb < 2 ^ freqDomResAssignSize coresetSize := by
  obtain ⟨a, b, hriv, hb, hcases⟩ := h.riv_cases
  rw [hriv]
  refine (two_digits_lt hb ?_).trans_le (Nat.le_pow_clog (by decide) _)
  obtain ⟨hlt, hhalf, -⟩ | ⟨-, hless, -⟩ := hcases
  · omega
  · exact .inl hless

/-- A CORESET whose size fits into 8 bits has its own value and width. -/
theorem FreqAlloc.Inside.freqDomRes (hsize : coresetSize < 2 ^ 8) :
    freqDomRes coresetSize f =
      (freqDomResAssign coresetSize f.startPrb f.numPrb, freqDomResAssignSize coresetSize) := by
  rw [OduMac.freqDomRes, Nat.mod_eq_of_lt hsize]
  exact if_pos ⟨h.numPrb_pos, (Nat.add_comm _ _).trans_le h.ends⟩

/-- A larger one gets a width that is too small. -/
theorem FreqAlloc.Inside.freqDomRes_size_lt (hsize : 2 ^ 8 ≤ coresetSize) :
    (OduMac.freqDomRes coresetSize f).2 < freqDomResAssignSize coresetSize := by
  have hle := h.size_le
  have hwide : 8 < freqDomResAssignSize coresetSize := by
    have hmul : 2 ^ 8 * (2 ^ 8 + 1) / 2 ≤ coresetSize * (coresetSize + 1) / 2 :=
      Nat.div_le_div_right (Nat.mul_le_mul hsize (Nat.succ_le_succ hsize))
    exact (Nat.lt_clog_iff_pow_lt (by decide)).mpr (lt_of_lt_of_le (by decide) hmul)
  refine lt_of_le_of_lt ?_ hwide
  simp only [OduMac.freqDomRes]
  split
  · have hsmall : coresetSize % 2 ^ 8 ≤ 19 := by omega
    have hmul : coresetSize % 2 ^ 8 * (coresetSize % 2 ^ 8 + 1) / 2 ≤ 19 * (19 + 1) / 2 :=
      Nat.div_le_div_right (Nat.mul_le_mul hsmall (Nat.succ_le_succ hsmall))
    exact Nat.clog_le_of_le_pow (hmul.trans (by decide))
  · exact Nat.zero_le 8

end

/-! ## The DCIs -/

/-- A DCI to build. -/
inductive Dci
  | sib1 (sib1PdcchInfo : PdcchCfg)
  | page (dlPageAlloc : DlPageAlloc)
  | rar (rarPdcchInfo : PdcchCfg)
  | dlMsg (pdcchInfo : PdcchCfg) (dlMsgInfo : DlMsgInfo)
  | ul (schDciInfo : DciInfo)

namespace Dci

def build (payload : List UInt8) : Dci → Option FapiDlDci
  | sib1 info => fillSib1DlDciPdu payload info
  | page alloc => fillPageDlDciPdu payload alloc
  | rar info => fillRarDlDciPdu payload info
  | dlMsg info msg => fillDlMsgDlDciPdu payload info msg
  | ul info => fillUlDciPdu payload info

def coresetSize : Dci → ℕ
  | sib1 info => info.coreSetSize
  | page alloc => alloc.pagePdcchCfg.coreSetSize
  | rar info => info.coreSetSize
  | dlMsg info _ => info.coreSetSize
  | ul info => info.coreSetSize

def freqAlloc : Dci → FreqAlloc
  | sib1 info => info.pdschCfg.freqAlloc
  | page alloc => alloc.pagePdcchCfg.pdschCfg.freqAlloc
  | rar info => info.pdschCfg.freqAlloc
  | dlMsg info _ => info.pdschCfg.freqAlloc
  | ul info => info.format0_0.freqAlloc

/-- The field for the frequency domain. -/
def freqDom (d : Dci) : ℕ × ℕ :=
  (freqDomResAssign d.coresetSize d.freqAlloc.startPrb d.freqAlloc.numPrb,
    freqDomResAssignSize d.coresetSize)

/-- The fields in the order of their packing, with their values and widths. -/
def fields (d : Dci) : List (ℕ × ℕ) :=
  match d with
  | sib1 info => [d.freqDom, (info.pdschCfg.rowIndex - 1, 4), (info.pdschCfg.vrbPrbMapping, 1),
      (info.pdschCfg.mcsIndex, 5), (info.pdschCfg.rvIndex, 2), (0, 1), (0, 15)]
  | page alloc => [((pageShortMsg alloc).1, 2), ((pageShortMsg alloc).2, 8), d.freqDom,
      (alloc.pagePdcchCfg.pdschCfg.rowIndex - 1, 4),
      (alloc.pagePdcchCfg.pdschCfg.vrbPrbMapping, 1), (alloc.pagePdcchCfg.pdschCfg.mcsIndex, 5),
      (0, 2), (0, 6)]
  | rar info => [d.freqDom, (info.pdschCfg.rowIndex, 4), (info.pdschCfg.vrbPrbMapping, 1),
      (info.pdschCfg.mcsIndex, 5), (0, 2), (0, 16)]
  | dlMsg info msg => [(msg.dciFormatId, 1), d.freqDom, (info.pdschCfg.rowIndex - 1, 4),
      (info.pdschCfg.vrbPrbMapping, 1), (info.pdschCfg.mcsIndex, 5), (msg.ndi, 1),
      (info.pdschCfg.rvIndex, 2), (info.pdschCfg.rvIndex, 2), (msg.harqProcNum, 4),
      (msg.dlAssignIdx, 2), (msg.pucchTpc, 2), (msg.pucchResInd, 3), (msg.harqFeedbackInd, 3)]
  | ul info => [(0, 1), d.freqDom, (info.format0_0.rowIndex, 4), (info.format0_0.freqHopFlag, 1),
      (info.format0_0.mcs, 5), (info.format0_0.ndi, 1), (info.format0_0.rv, 2),
      (info.format0_0.harqProcId, 4), (info.format0_0.tpcCmd, 2), (info.format0_0.sUlCfgd, 1)]

/-- The row of the time domain is stored from 1 on where 1 is taken off it, and a grant has format
0_0. -/
def Kind : Dci → Prop
  | sib1 info => 1 ≤ info.pdschCfg.rowIndex
  | page alloc => 1 ≤ alloc.pagePdcchCfg.pdschCfg.rowIndex
  | rar _ => True
  | dlMsg info _ => 1 ≤ info.pdschCfg.rowIndex
  | ul info => info.formatType = .FORMAT0_0

/-- The values of the fields are in their ranges. -/
structure InRange (d : Dci) : Prop where
  inside : d.freqAlloc.Inside d.coresetSize
  values : ∀ f ∈ d.fields, f ≠ d.freqDom → f.1 < 2 ^ f.2
  kind : d.Kind

/-- The octets of a payload of this size. -/
def numBytes (payloadSizeBits : ℕ) : ℕ := (payloadSizeBits + 7) / 8

/-- What was built is right. -/
structure Right (d : Dci) (payload : List UInt8) (dci : FapiDlDci) : Prop where
  payloadSizeBits : dci.payloadSizeBits = sizeSum d.fields
  outside : dci.payload.drop (numBytes dci.payloadSizeBits) =
    payload.drop (numBytes dci.payloadSizeBits)
  fields : ReadsAs (streamOf (dci.payload.take (numBytes dci.payloadSizeBits))) 0 d.fields
  freqDom : rivDecode d.coresetSize d.freqDom.1 = (d.freqAlloc.startPrb, d.freqAlloc.numPrb)

/-- The DCIs whose fields are packed where they are read, and whose size is the right sum. -/
def Readable (d : Dci) : Prop :=
  match d with
  | sib1 _ | rar _ => d.coresetSize < 2 ^ 8 ∧ ZeroInside 0 d.fields
  | page _ | dlMsg _ _ => False
  | ul info => d.coresetSize < 2 ^ 8 ∧ info.format0_0.ndi = 1 ∧ ZeroInside 0 d.fields

variable {d : Dci} {payload : List UInt8}

theorem InRange.fields_lt (h : d.InRange) : ∀ f ∈ d.fields, f.1 < 2 ^ f.2 := by
  intro f hf
  by_cases hfreq : f = d.freqDom
  · rw [hfreq]
    exact h.inside.riv_lt
  · exact h.values f hf hfreq

end Dci

theorem packDci_size {payload : List UInt8} {payloadSizeBits : ℕ} {fields : List (ℕ × ℕ)}
    {dci : FapiDlDci} (h : packDci payload payloadSizeBits fields = some dci) :
    dci.payloadSizeBits = payloadSizeBits := by
  rw [packDci] at h
  generalize (if payloadSizeBits % 8 = 0 then payloadSizeBits / 8 else payloadSizeBits / 8 + 1) =
    numBytes at h
  split at h
  · obtain rfl := Option.some.inj h
    rfl
  · obtain ⟨c, -, h⟩ := Option.bind_eq_some_iff.mp h
    obtain rfl := Option.some.inj h
    rfl

/-- Fields that are packed with their sum of sizes are read as they were when those inside of an octet
are 0. -/
theorem packDci_reversed {payload : List UInt8} {fields : List (ℕ × ℕ)}
    (hfields : ∀ f ∈ fields, f.1 < 2 ^ f.2) (hpos : 0 < sizeSum fields)
    (hle : sizeSum fields ≤ 64) :
    ∃ dci, packDci payload (sizeSum fields) (reversed fields) = some dci ∧
      dci.payload.drop (Dci.numBytes (sizeSum fields)) =
        payload.drop (Dci.numBytes (sizeSum fields)) ∧
      (ReadsAs (streamOf (dci.payload.take (Dci.numBytes (sizeSum fields)))) 0 fields ↔
        ZeroInside 0 fields) := by
  obtain ⟨n, hn⟩ : ∃ n, n = Dci.numBytes (sizeSum fields) := ⟨_, rfl⟩
  rw [← hn]
  rw [Dci.numBytes] at hn
  have hbytes : (if sizeSum fields % 8 = 0 then sizeSum fields / 8 else sizeSum fields / 8 + 1) =
      n := by
    split
    · omega
    · omega
  have hstart : (⟨List.replicate n 0 ++ payload.drop n, (n + 2 ^ 8 - 1) % 2 ^ 8, 0⟩ :
      DciCursor).At (payload.drop n) n 0 0 := by
    refine ⟨⟨_, List.length_replicate, rfl, streamOf_replicate n⟩, ?_, Nat.zero_le 8, ?_⟩
    · dsimp only
      omega
    · dsimp only
      omega
  have hroom : 0 + sizeSum (reversed fields) ≤ 8 * n := by
    rw [sizeSum_reversed]
    omega
  obtain ⟨c, hfill, hat⟩ := hstart.fillFields (by omega) (reversed_lt fields) hroom
  obtain ⟨region, hlength, hregion, hstream⟩ := hat.region
  have hshort : ¬FAPI_DCI_PAYLOAD_BYTE_LEN < n := by
    rw [FAPI_DCI_PAYLOAD_BYTE_LEN]
    omega
  refine ⟨⟨sizeSum fields, c.payload⟩, ?_, ?_, ?_⟩
  · simp only [packDci, hbytes, if_neg hshort, hfill]
    rfl
  · rw [hregion, ← hlength, List.drop_left]
  · rw [hregion, ← hlength, List.take_left, hstream]
    exact readsAs_packedStream_iff hfields

namespace Dci

variable {d : Dci} {payload : List UInt8}

/-- A builder is right when its sum of sizes is the one of the fields, which are then packed as they
are, and those inside of an octet are 0. -/
theorem right_iff_of_build {payloadSizeBits : ℕ} {packed : List (ℕ × ℕ)} (h : d.InRange)
    (hbuild : d.build payload = packDci payload payloadSizeBits packed)
    (hpacked : payloadSizeBits = sizeSum d.fields → packed = reversed d.fields)
    (hpos : 0 < sizeSum d.fields) (hle : sizeSum d.fields ≤ 64) :
    (∃ dci, d.build payload = some dci ∧ d.Right payload dci) ↔
      payloadSizeBits = sizeSum d.fields ∧ ZeroInside 0 d.fields := by
  rw [hbuild]
  by_cases hsize : payloadSizeBits = sizeSum d.fields
  swap
  · -- the size is the first thing that is wrong
    refine ⟨?_, fun hright => absurd hright.1 hsize⟩
    rintro ⟨dci, hdci, hright⟩
    exact absurd ((packDci_size hdci).symm.trans hright.payloadSizeBits) hsize
  rw [hpacked hsize, hsize, and_iff_right rfl]
  obtain ⟨dci, hdci, hdrop, hreads⟩ := @packDci_reversed payload _ h.fields_lt hpos hle
  have hbits := packDci_size hdci
  constructor
  · rintro ⟨dci', hdci', hright⟩
    obtain rfl := Option.some.inj (hdci.symm.trans hdci')
    have hfields := hright.fields
    rw [hbits] at hfields
    exact hreads.mp hfields
  · intro hzero
    refine ⟨dci, hdci, hbits, ?_, ?_, h.inside.rivDecode⟩
    · rw [hbits]
      exact hdrop
    · rw [hbits]
      exact hreads.mpr hzero

/-- The field of the frequency domain that is packed, when its size is the one of the format. -/
theorem freqDomRes_eq (h : d.InRange) (hsize : d.coresetSize < 2 ^ 8) :
    freqDomRes d.coresetSize d.freqAlloc = d.freqDom :=
  h.inside.freqDomRes hsize

theorem freqDomRes_lt (h : d.InRange) (hsize : ¬d.coresetSize < 2 ^ 8) :
    (freqDomRes d.coresetSize d.freqAlloc).2 < d.freqDom.2 :=
  h.inside.freqDomRes_size_lt (Nat.le_of_not_lt hsize)

theorem freqDomRes_size_iff (h : d.InRange) :
    (freqDomRes d.coresetSize d.freqAlloc).2 = d.freqDom.2 ↔ d.coresetSize < 2 ^ 8 := by
  constructor
  · intro heq
    by_contra hsize
    exact absurd heq (freqDomRes_lt h hsize).ne
  · intro hsize
    rw [freqDomRes_eq h hsize]

theorem freqDomRes_le (h : d.InRange) :
    (freqDomRes d.coresetSize d.freqAlloc).2 ≤ d.freqDom.2 := by
  by_cases hsize : d.coresetSize < 2 ^ 8
  · rw [freqDomRes_eq h hsize]
  · exact (freqDomRes_lt h hsize).le

/-- The width of the frequency domain. -/
theorem freqDom_size_le (h : d.InRange) : d.freqDom.2 ≤ 16 := by
  have hle := h.inside.size_le
  have hmul : d.coresetSize * (d.coresetSize + 1) / 2 ≤ 275 * (275 + 1) / 2 :=
    Nat.div_le_div_right (Nat.mul_le_mul hle (Nat.succ_le_succ hle))
  exact Nat.clog_le_of_le_pow (hmul.trans (by decide))

/-- A row of the time domain, counted from 0. -/
theorem row_eq {rowIndex : ℕ} (hpos : 1 ≤ rowIndex) (hlt : rowIndex - 1 < 2 ^ 4) :
    (rowIndex + 2 ^ 32 - 1) % 2 ^ 32 = rowIndex - 1 := by
  omega

theorem rev_zero (size : ℕ) : rev 0 size = (0, size) := by
  rw [rev, reverseBits_zero]

/-- One bit is its own reverse. -/
theorem rev_one {value : ℕ} (h : value < 2 ^ 1) : rev value 1 = (value, 1) := by
  obtain rfl | rfl : value = 0 ∨ value = 1 := by omega
  · rfl
  · rfl

theorem right_iff_sib1 {info : PdcchCfg} (h : (sib1 info).InRange) :
    (∃ dci, (sib1 info).build payload = some dci ∧ (sib1 info).Right payload dci) ↔
      (sib1 info).Readable := by
  have hsum : sizeSum (sib1 info).fields = (sib1 info).freqDom.2 + 28 := rfl
  have hfreq : (freqDomRes info.coreSetSize info.pdschCfg.freqAlloc).2 = (sib1 info).freqDom.2 ↔
      (sib1 info).coresetSize < 2 ^ 8 := freqDomRes_size_iff h
  have hwidth := freqDom_size_le h
  rw [right_iff_of_build h rfl ?_ (by omega) (by omega)]
  · refine and_congr ?_ Iff.rfl
    rw [← hfreq]
    omega
  · intro hsize
    have heq : freqDomRes info.coreSetSize info.pdschCfg.freqAlloc = (sib1 info).freqDom :=
      freqDomRes_eq h (hfreq.mp (by omega))
    have hrow := row_eq h.kind (h.fields_lt (info.pdschCfg.rowIndex - 1, 4)
      (List.mem_cons_of_mem _ List.mem_cons_self))
    rw [heq, hrow, ← rev_zero 15]
    rfl

theorem right_iff_rar {info : PdcchCfg} (h : (rar info).InRange) :
    (∃ dci, (rar info).build payload = some dci ∧ (rar info).Right payload dci) ↔
      (rar info).Readable := by
  have hsum : sizeSum (rar info).fields = (rar info).freqDom.2 + 28 := rfl
  have hfreq : (freqDomRes info.coreSetSize info.pdschCfg.freqAlloc).2 = (rar info).freqDom.2 ↔
      (rar info).coresetSize < 2 ^ 8 := freqDomRes_size_iff h
  have hwidth := freqDom_size_le h
  rw [right_iff_of_build h rfl ?_ (by omega) (by omega)]
  · refine and_congr ?_ Iff.rfl
    rw [← hfreq]
    omega
  · intro hsize
    have heq : freqDomRes info.coreSetSize info.pdschCfg.freqAlloc = (rar info).freqDom :=
      freqDomRes_eq h (hfreq.mp (by omega))
    rw [heq, ← rev_zero 16]
    rfl

/-- The sum of sizes of a paging DCI misses the TB scaling. -/
theorem right_iff_page {alloc : DlPageAlloc} (h : (page alloc).InRange) :
    (∃ dci, (page alloc).build payload = some dci ∧ (page alloc).Right payload dci) ↔
      (page alloc).Readable := by
  have hsum : sizeSum (page alloc).fields = (page alloc).freqDom.2 + 28 := by
    simp only [sizeSum, fields, List.map_cons, List.map_nil, List.sum_cons, List.sum_nil]
    omega
  have hle : (freqDomRes alloc.pagePdcchCfg.coreSetSize
      alloc.pagePdcchCfg.pdschCfg.freqAlloc).2 ≤ (page alloc).freqDom.2 := freqDomRes_le h
  have hwidth := freqDom_size_le h
  have hscaling : reverseBits 0 2 = 0 := rfl
  rw [right_iff_of_build h rfl ?_ (by omega) (by omega)]
  · refine ⟨fun hright => ?_, False.elim⟩
    have hsize := hright.1
    omega
  · intro hsize
    omega

/-- The redundancy version of a DCI for a message is packed twice. -/
theorem right_iff_dlMsg {info : PdcchCfg} {msg : DlMsgInfo} (h : (dlMsg info msg).InRange) :
    (∃ dci, (dlMsg info msg).build payload = some dci ∧ (dlMsg info msg).Right payload dci) ↔
      (dlMsg info msg).Readable := by
  have hsum : sizeSum (dlMsg info msg).fields = (dlMsg info msg).freqDom.2 + 30 := by
    simp only [sizeSum, fields, List.map_cons, List.map_nil, List.sum_cons, List.sum_nil]
    omega
  have hle : (freqDomRes info.coreSetSize info.pdschCfg.freqAlloc).2 ≤
      (dlMsg info msg).freqDom.2 := freqDomRes_le h
  have hwidth := freqDom_size_le h
  rw [right_iff_of_build h rfl ?_ (by omega) (by omega)]
  · refine ⟨fun hright => ?_, False.elim⟩
    have hsize := hright.1
    omega
  · intro hsize
    omega

theorem right_iff_ul {info : DciInfo} (h : (ul info).InRange) :
    (∃ dci, (ul info).build payload = some dci ∧ (ul info).Right payload dci) ↔
      (ul info).Readable := by
  have hsum : sizeSum (ul info).fields = (ul info).freqDom.2 + 21 := by
    simp only [sizeSum, fields, List.map_cons, List.map_nil, List.sum_cons, List.sum_nil]
    omega
  have hfreq : (freqDomRes info.coreSetSize info.format0_0.freqAlloc).2 = (ul info).freqDom.2 ↔
      (ul info).coresetSize < 2 ^ 8 := freqDomRes_size_iff h
  have hle : (freqDomRes info.coreSetSize info.format0_0.freqAlloc).2 ≤ (ul info).freqDom.2 :=
    freqDomRes_le h
  have hwidth := freqDom_size_le h
  have hvalues := h.fields_lt
  simp only [fields, List.forall_mem_cons] at hvalues
  obtain ⟨-, -, -, hflag, -, hndi, -⟩ := hvalues
  have hbuild : (ul info).build payload = packDci payload _ _ := if_pos h.kind
  rw [right_iff_of_build h hbuild ?_ (by omega) (by omega)]
  · have hiff : 1 + (freqDomRes info.coreSetSize info.format0_0.freqAlloc).2 + 4 + 1 + 5 +
        info.format0_0.ndi + 2 + 4 + 2 + 1 = sizeSum (ul info).fields ↔
        (ul info).coresetSize < 2 ^ 8 ∧ info.format0_0.ndi = 1 := by
      rw [← hfreq]
      constructor
      · intro hsize
        omega
      · rintro ⟨hwide, hone⟩
        omega
    rw [Readable, hiff, and_assoc]
  · intro hsize
    have heq : freqDomRes info.coreSetSize info.format0_0.freqAlloc = (ul info).freqDom :=
      freqDomRes_eq h (hfreq.mp (by omega))
    rw [heq, ← rev_one hflag, ← rev_one hndi]
    rfl

/-- What is built for a DCI in its ranges is right exactly when it is readable. -/
theorem right_iff_readable (h : d.InRange) :
    (∃ dci, d.build payload = some dci ∧ d.Right payload dci) ↔ d.Readable := by
  cases d with
  | sib1 info => exact right_iff_sib1 h
  | page alloc => exact right_iff_page h
  | rar info => exact right_iff_rar h
  | dlMsg info msg => exact right_iff_dlMsg h
  | ul info => exact right_iff_ul h

/-- Ten RBs of a CORESET of 48 RBs, in a row of the time domain. -/
def tenRbs (rowIndex : ℕ) : PdcchCfg := ⟨48, ⟨⟨0, 10⟩, 0, rowIndex, 5, 0⟩⟩

/-- With the first row, the fields that begin inside of an octet and end in it are 0. -/
theorem sib1_right : ∃ dci, (sib1 (tenRbs 1)).build (List.replicate 32 255) = some dci ∧
    (sib1 (tenRbs 1)).Right (List.replicate 32 255) dci := by
  have hrange : (sib1 (tenRbs 1)).InRange :=
    ⟨⟨by decide, by decide, by decide⟩, by decide +kernel, Nat.le_refl 1⟩
  have hzero : ZeroInside 0 (sib1 (tenRbs 1)).fields := by
    simp only [fields, ZeroInside]
    decide +kernel
  exact (right_iff_readable hrange).mpr ⟨by decide, hzero⟩

/-- The bits of the second row are written over bits of the frequency domain. -/
theorem sib1_not_right : (sib1 (tenRbs 2)).InRange ∧
    ¬∃ dci, (sib1 (tenRbs 2)).build (List.replicate 32 255) = some dci ∧
      (sib1 (tenRbs 2)).Right (List.replicate 32 255) dci := by
  have hrange : (sib1 (tenRbs 2)).InRange :=
    ⟨⟨by decide, by decide, by decide⟩, by decide +kernel, Nat.le_succ 1⟩
  refine ⟨hrange, fun hright => ?_⟩
  have hzero := ((right_iff_sib1 hrange).mp hright).2.2.1
  exact absurd (hzero (by decide +kernel) (by decide +kernel)) (by decide)

end Dci

end OaiCu.OduMac
