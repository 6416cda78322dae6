import OaiCu.OduMac.Mux
import OaiCu.Lib.BitStream
import OaiCu.OduMac.DciRight

/-!
# O-DU MAC: the random access response (`mac_mux.c`)

`fillRarPdu` packs the response and its grant for MSG3 bit by bit into a buffer of
`RAR_PAYLOAD_SIZE` octets.
-/

namespace OaiCu.OduMac

def E_BIT_SIZE : ℕ := 1
def T_BIT_SIZE : ℕ := 1
def R_BIT_SIZE : ℕ := 1
def RAPID_SIZE : ℕ := 6
def LC_ID_SIZE : ℕ := 6
def TIMING_ADVANCE_SIZE : ℕ := 12
def T_CRNTI_SIZE : ℕ := 16
def FREQ_HOP_FLAG_SIZE : ℕ := 1
def FREQ_RSRC_ALLOC_SIZE : ℕ := 14
def TIME_RSRC_ALLOC_SIZE : ℕ := 4
def MCS_SIZE : ℕ := 4
def TPC_COMMAND_SIZE : ℕ := 3
def CSI_REQUEST_SIZE : ℕ := 1
def RAR_PAYLOAD_SIZE : ℕ := 10

/-- `Msg3UlGrant`. -/
structure Msg3UlGrant where
  freqHopFlag : ℕ
  bwpSize : ℕ
  msg3FreqAlloc : FreqAlloc
  k2Index : ℕ
  mcs : ℕ
  tpc : ℕ
  csiReq : ℕ

/-- `RarInfo`, without the buffer. -/
structure RarInfo where
  RAPID : ℕ
  ta : ℕ
  ulGrant : Msg3UlGrant
  tcrnti : ℕ

/-- The value of the frequency allocation, of 16 bits. It is 0 for RBs that are not in the BWP. -/
def Msg3UlGrant.msg3FreqResource (ulGrant : Msg3UlGrant) : ℕ :=
  let bwpSize := ulGrant.bwpSize
  let rbStart := ulGrant.msg3FreqAlloc.startPrb
  let rbLen := ulGrant.msg3FreqAlloc.numPrb
  if 1 ≤ rbLen ∧ rbLen ≤ bwpSize - rbStart then freqDomResAssign bwpSize rbStart rbLen % 2 ^ 16
  else 0

/-- The field for the frequency allocation. A logarithm is rounded up for a small BWP and down for a
large one, and the size that is negative then is one of 8 bits. -/
def packFreqRsrcAlloc (ulGrant : Msg3UlGrant) (c : TxCursor) : Option TxCursor :=
  let bwpSize := ulGrant.bwpSize
  if bwpSize < 180 then do
    let actualFreqRsrcAllocSize := freqDomResAssignSize bwpSize
    let c ← packBytes c 0 (FREQ_RSRC_ALLOC_SIZE - actualFreqRsrcAllocSize)
    packBytes c ulGrant.msg3FreqResource actualFreqRsrcAllocSize
  else if ulGrant.freqHopFlag = 0 then do
    let numHopInfoBitsInFreqAlloc := 1
    let c ← packBytes c 0 numHopInfoBitsInFreqAlloc
    let actualFreqRsrcAllocSize := Nat.log 2 (bwpSize * (bwpSize + 1) / 2)
    let c ← packBytes c 0 ((actualFreqRsrcAllocSize + 2 ^ 8 - FREQ_RSRC_ALLOC_SIZE) % 2 ^ 8)
    packBytes c ulGrant.msg3FreqResource (actualFreqRsrcAllocSize - numHopInfoBitsInFreqAlloc)
  else some c

/-- `fillRarPdu`: the buffer, if nothing is written outside of it. -/
def fillRarPdu (rarInfo : RarInfo) : Option (List UInt8) := do
  let EBit := 0
  let TBit := 1
  let RBit := 0
  let paddingLcid := 63
  let paddingSize := 8
  let c : TxCursor := ⟨List.replicate RAR_PAYLOAD_SIZE 0, 0, 7⟩
  let c ← packBytes c EBit E_BIT_SIZE
  let c ← packBytes c TBit T_BIT_SIZE
  let c ← packBytes c rarInfo.RAPID RAPID_SIZE
  let c ← packBytes c RBit R_BIT_SIZE
  let c ← packBytes c rarInfo.ta TIMING_ADVANCE_SIZE
  let c ← packBytes c rarInfo.ulGrant.freqHopFlag FREQ_HOP_FLAG_SIZE
  let c ← packFreqRsrcAlloc rarInfo.ulGrant c
  let c ← packBytes c rarInfo.ulGrant.k2Index TIME_RSRC_ALLOC_SIZE
  let c ← packBytes c rarInfo.ulGrant.mcs MCS_SIZE
  let c ← packBytes c rarInfo.ulGrant.tpc TPC_COMMAND_SIZE
  let c ← packBytes c rarInfo.ulGrant.csiReq CSI_REQUEST_SIZE
  let c ← packBytes c rarInfo.tcrnti T_CRNTI_SIZE
  let c ← packBytes c RBit (R_BIT_SIZE * 2)
  let c ← packBytes c paddingLcid LC_ID_SIZE
  let c ← packBytes c 0 paddingSize
  return c.macPdu

/-!
## When the UE reads the response that was meant

The octets of a response are the number that its fields spell. A value that is too large for its
field runs over the bits in front of it in the same octet, and a field of a wrong size moves those
behind it.
-/

open BitStream BitWriter

/-! ## `packBytes` on bits -/

/-- A buffer of `len` octets that begins with these bits, with the cursors behind them. -/
def atBits (len : ℕ) (bs : List Bool) : TxCursor :=
  ⟨octets len (ofBits bs <<< (8 * len - bs.length)), bs.length / 8, 7 - bs.length % 8⟩

/-- The same for the number that the bits spell. -/
def atNumber (len n v : ℕ) : TxCursor := ⟨octets len (v <<< (8 * len - n)), n / 8, 7 - n % 8⟩

section

variable {len n v val valSize : ℕ}

theorem setBits_atNumber {b : ℕ} (hopen : n < 8 * len) (hb : b < 2 ^ 8) :
    (atNumber len n v).setBits (.ofNat b) =
      some ⟨octets len (v <<< (8 * len - n) ||| b <<< (8 * (len - 1 - n / 8))), n / 8,
        7 - n % 8⟩ := by
  have hlt : n / 8 < len := by omega
  simp only [TxCursor.setBits, atNumber, octets_length, hlt, if_true, octets_modify hlt hb]

/-- A value may be as large as its field and the bits in front of it in the octet allow. -/
theorem packBytes_atNumber (hval : val < 2 ^ (valSize + n % 8)) (hopen : n < 8 * len)
    (hfit : n + valSize ≤ 8 * len) :
    packBytes (atNumber len n v) val valSize =
      some (atNumber len (n + valSize) (v <<< valSize ||| val)) := by
  induction valSize using Nat.strong_induction_on generalizing n v val with
  | _ valSize ih =>
      rw [packBytes]
      have hbit : (atNumber len n v).bitPos = 7 - n % 8 := rfl
      simp only [hbit]
      by_cases hsize : valSize ≤ 7 - n % 8 + 1
      · have hb : val <<< (7 - n % 8 + 1 - valSize) < 2 ^ 8 := by
          rw [Nat.shiftLeft_eq]
          calc val * 2 ^ (7 - n % 8 + 1 - valSize)
              < 2 ^ (valSize + n % 8) * 2 ^ (7 - n % 8 + 1 - valSize) :=
                Nat.mul_lt_mul_of_pos_right hval (by positivity)
            _ = 2 ^ (valSize + n % 8 + (7 - n % 8 + 1 - valSize)) := (Nat.pow_add ..).symm
            _ = 2 ^ 8 := congrArg (2 ^ ·) (by omega)
        have hnumber : v <<< (8 * len - n) |||
            val <<< (7 - n % 8 + 1 - valSize) <<< (8 * (len - 1 - n / 8)) =
              (v <<< valSize ||| val) <<< (8 * len - (n + valSize)) := by
          rw [Nat.shiftLeft_or_distrib, ← Nat.shiftLeft_add, ← Nat.shiftLeft_add,
            show valSize + (8 * len - (n + valSize)) = 8 * len - n by omega,
            show 7 - n % 8 + 1 - valSize + 8 * (len - 1 - n / 8) = 8 * len - (n + valSize) by omega]
        rw [if_pos hsize, setBits_atNumber hopen hb, hnumber, Option.bind_eq_bind, Option.bind_some]
        by_cases hlast : 7 - n % 8 < valSize
        · rw [if_pos hlast, atNumber, atNumber, show (n + valSize) / 8 = n / 8 + 1 by omega,
            show (n + valSize) % 8 = 0 by omega]
          rfl
        · rw [if_neg hlast, atNumber, show (n + valSize) / 8 = n / 8 by omega,
            show 7 - (n + valSize) % 8 = 7 - n % 8 - valSize by omega]
          rfl
      · obtain ⟨rest, hrest⟩ : ∃ rest, valSize = 7 - n % 8 + 1 + rest :=
          Nat.exists_eq_add_of_le (by omega)
        have hb : val >>> rest < 2 ^ 8 := by
          rw [Nat.shiftRight_eq_div_pow]
          refine Nat.div_lt_of_lt_mul (hval.trans_eq ?_)
          rw [← Nat.pow_add]
          exact congrArg (2 ^ ·) (by omega)
        have hnext : (⟨octets len (v <<< (8 * len - n) |||
            (val >>> rest) <<< (8 * (len - 1 - n / 8))), n / 8 + 1, 7⟩ : TxCursor) =
              atNumber len (n + (7 - n % 8 + 1)) (v <<< (7 - n % 8 + 1) ||| val >>> rest) := by
          rw [atNumber, Nat.shiftLeft_or_distrib, ← Nat.shiftLeft_add,
            show 7 - n % 8 + 1 + (8 * len - (n + (7 - n % 8 + 1))) = 8 * len - n by omega,
            show 8 * (len - 1 - n / 8) = 8 * len - (n + (7 - n % 8 + 1)) by omega,
            show (n + (7 - n % 8 + 1)) / 8 = n / 8 + 1 by omega,
            show (n + (7 - n % 8 + 1)) % 8 = 0 by omega]
        have hrec := @ih rest (by omega) (n + (7 - n % 8 + 1))
          (v <<< (7 - n % 8 + 1) ||| val >>> rest) (val % 2 ^ rest)
          ((Nat.mod_lt _ (by positivity)).trans_le (Nat.pow_le_pow_right (by decide) (by omega)))
          (by omega) (by omega)
        have hvalue : (val >>> rest) <<< rest ||| val % 2 ^ rest = val := by
          rw [← Nat.shiftLeft_add_eq_or_of_lt (Nat.mod_lt _ (by positivity)), Nat.shiftLeft_eq,
            Nat.shiftRight_eq_div_pow, Nat.mul_comm]
          exact Nat.div_add_mod val _
        rw [if_neg hsize, show valSize - (7 - n % 8 + 1) = rest by omega, Nat.sub_self,
          Nat.shiftLeft_zero, setBits_atNumber hopen hb, Option.bind_eq_bind, Option.bind_some]
        refine (congrArg (packBytes · (val % 2 ^ rest) rest) hnext).trans ?_
        rw [hrec, Nat.shiftLeft_or_distrib, ← Nat.shiftLeft_add, Nat.or_assoc, hvalue,
          ← hrest, Nat.add_assoc, ← hrest]

end

/-! ## The size -/

/-- The bits in front of the cursors. -/
def TxCursor.pos (c : TxCursor) : ℕ := 8 * c.bytePos + (7 - c.bitPos)

/-- Each field moves the cursors by its size, and stays in the buffer. -/
theorem packBytes_pos {c c' : TxCursor} {val valSize : ℕ} (hc : c.bitPos ≤ 7)
    (h : packBytes c val valSize = some c') :
    c'.pos = c.pos + valSize ∧ c'.pos ≤ 8 * c.macPdu.length ∧ c'.bitPos ≤ 7 ∧
      c'.macPdu.length = c.macPdu.length := by
  induction valSize using Nat.strong_induction_on generalizing c val with
  | _ valSize ih =>
      rw [packBytes] at h
      simp only [TxCursor.setBits] at h
      by_cases hlt : c.bytePos < c.macPdu.length
      · simp only [hlt, if_true, Option.bind_eq_bind, Option.bind_some] at h
        by_cases hsize : valSize ≤ c.bitPos + 1
        · rw [if_pos hsize] at h
          clear ih
          by_cases hlast : c.bitPos < valSize
          · rw [if_pos hlast] at h
            cases h
            simp only [TxCursor.pos, List.length_modify]
            exact ⟨by omega, by omega, by omega, trivial⟩
          · rw [if_neg hlast] at h
            cases h
            simp only [TxCursor.pos, List.length_modify]
            exact ⟨by omega, by omega, by omega, trivial⟩
        · rw [if_neg hsize] at h
          obtain ⟨h1, h2, h3, h4⟩ := ih _ (by omega) (c := _) (by simp) h
          simp only [TxCursor.pos, List.length_modify] at h1 h2 h4 ⊢
          omega
      · simp [hlt] at h

/-! ## The fields of a response -/

section

variable {len : ℕ} {bs : List Bool}

/-- A value that runs over `k` bits in front of its field, which are zeros. -/
theorem packBytes_over {k val valSize : ℕ} (hval : val < 2 ^ (k + valSize))
    (hk : bs.length % 8 + k < 8) (hopen : bs.length + k < 8 * len)
    (hfit : bs.length + k + valSize ≤ 8 * len) :
    packBytes (atBits len (bs ++ bitsOf k 0)) val valSize =
      some (atBits len (bs ++ bitsOf (k + valSize) val)) := by
  have hzero : ofBits (bs ++ bitsOf k 0) = ofBits bs <<< k := by
    rw [ofBits_append, bitsOf_length, ofBits_bitsOf (by positivity), Nat.or_zero]
  have hlength : (bs ++ bitsOf k 0).length = bs.length + k := by
    rw [List.length_append, bitsOf_length]
  have hat : atBits len (bs ++ bitsOf k 0) = atNumber len (bs.length + k) (ofBits bs <<< k) := by
    rw [atBits, atNumber, hzero, hlength]
  rw [hat, packBytes_atNumber (hval.trans_le (Nat.pow_le_pow_right (by decide) (by omega))) hopen
    hfit, atBits, atNumber, ofBits_append, bitsOf_length, ofBits_bitsOf hval, List.length_append,
    bitsOf_length, Nat.add_assoc, ← Nat.shiftLeft_add]

theorem packBytes_atBits {val valSize : ℕ} (hval : val < 2 ^ valSize) (hopen : bs.length < 8 * len)
    (hfit : bs.length + valSize ≤ 8 * len) :
    packBytes (atBits len bs) val valSize = some (atBits len (bs ++ bitsOf valSize val)) := by
  have h := @packBytes_over len bs 0 val valSize (by rwa [Nat.zero_add])
    (by omega) hopen hfit
  rwa [Nat.zero_add, bitsOf, List.append_nil] at h

end

/-- Fields with their sizes, one behind the other. -/
def packFields (fields : List (ℕ × ℕ)) (c : TxCursor) : Option TxCursor :=
  fields.foldlM (fun c f => packBytes c f.2 f.1) c

theorem packFields_cons (f : ℕ × ℕ) (fields : List (ℕ × ℕ)) (c : TxCursor) :
    packFields (f :: fields) c = (packBytes c f.2 f.1).bind (packFields fields) := rfl

theorem packFields_append (fst snd : List (ℕ × ℕ)) (c : TxCursor) :
    packFields (fst ++ snd) c = (packFields fst c).bind (packFields snd) := List.foldlM_append

/-- The bits of fields. -/
def fieldBits (fields : List (ℕ × ℕ)) : List Bool := fields.flatMap fun f => bitsOf f.1 f.2

def fieldsSize (fields : List (ℕ × ℕ)) : ℕ := (fields.map Prod.fst).sum

/-- The value is in the range of its field. -/
def FieldFits (f : ℕ × ℕ) : Prop := 0 < f.1 ∧ f.2 < 2 ^ f.1

@[simp] theorem fieldBits_length (fields : List (ℕ × ℕ)) :
    (fieldBits fields).length = fieldsSize fields := by
  rw [fieldBits, List.length_flatMap, fieldsSize]
  simp only [bitsOf_length]

theorem packFields_atBits {len : ℕ} {bs : List Bool} {fields : List (ℕ × ℕ)}
    (h : ∀ f ∈ fields, FieldFits f) (hfit : bs.length + fieldsSize fields ≤ 8 * len) :
    packFields fields (atBits len bs) = some (atBits len (bs ++ fieldBits fields)) := by
  induction fields generalizing bs with
  | nil => rw [fieldBits, List.flatMap_nil, List.append_nil]; rfl
  | cons f fields ih =>
      obtain ⟨hpos, hval⟩ := h f List.mem_cons_self
      rw [fieldsSize, List.map_cons, List.sum_cons] at hfit
      rw [packFields_cons, packBytes_atBits hval (by omega) (by omega), Option.bind_some,
        ih (fun g hg => h g (List.mem_cons_of_mem f hg))
          (by rw [List.length_append, bitsOf_length, fieldsSize]; omega), List.append_assoc]
      rfl

theorem packFields_pos {c c' : TxCursor} {fields : List (ℕ × ℕ)} (hc : c.bitPos ≤ 7)
    (hstart : c.pos ≤ 8 * c.macPdu.length) (h : packFields fields c = some c') :
    c'.pos = c.pos + fieldsSize fields ∧ c'.pos ≤ 8 * c.macPdu.length := by
  induction fields generalizing c with
  | nil =>
      cases h
      exact ⟨rfl, hstart⟩
  | cons f fields ih =>
      rw [packFields_cons, Option.bind_eq_some_iff] at h
      obtain ⟨c₁, h₁, h⟩ := h
      obtain ⟨hpos, hle, hbit, hlength⟩ := packBytes_pos hc h₁
      obtain ⟨hpos', hle'⟩ := ih hbit (hlength ▸ hle) h
      rw [fieldsSize, List.map_cons, List.sum_cons]
      rw [fieldsSize] at hpos'
      exact ⟨by omega, hlength ▸ hle'⟩

/-! ## The response -/

/-- The number of ranges of RBs grows with the size of the BWP. -/
theorem ranges_le {size size' : ℕ} (h : size ≤ size') :
    size * (size + 1) / 2 ≤ size' * (size' + 1) / 2 :=
  Nat.div_le_div_right (Nat.mul_le_mul h (Nat.succ_le_succ h))

namespace RarInfo

/-- The fields in front of the hopping flag. -/
def headFields (rar : RarInfo) : List (ℕ × ℕ) :=
  [(E_BIT_SIZE, 0), (T_BIT_SIZE, 1), (RAPID_SIZE, rar.RAPID), (R_BIT_SIZE, 0),
    (TIMING_ADVANCE_SIZE, rar.ta)]

/-- The fields behind the frequency allocation. -/
def tailFields (rar : RarInfo) : List (ℕ × ℕ) :=
  [(TIME_RSRC_ALLOC_SIZE, rar.ulGrant.k2Index), (MCS_SIZE, rar.ulGrant.mcs),
    (TPC_COMMAND_SIZE, rar.ulGrant.tpc), (CSI_REQUEST_SIZE, rar.ulGrant.csiReq),
    (T_CRNTI_SIZE, rar.tcrnti), (R_BIT_SIZE * 2, 0), (LC_ID_SIZE, 63), (8, 0)]

/-- The field for the frequency allocation, with what is packed in front of it. -/
def freqFields (rar : RarInfo) : List (ℕ × ℕ) :=
  let size := Nat.log 2 (rar.ulGrant.bwpSize * (rar.ulGrant.bwpSize + 1) / 2)
  if rar.ulGrant.bwpSize < 180 then
    [(FREQ_RSRC_ALLOC_SIZE - freqDomResAssignSize rar.ulGrant.bwpSize, 0),
      (freqDomResAssignSize rar.ulGrant.bwpSize, rar.ulGrant.msg3FreqResource)]
  else [(1, 0), ((size + 2 ^ 8 - FREQ_RSRC_ALLOC_SIZE) % 2 ^ 8, 0),
    (size - 1, rar.ulGrant.msg3FreqResource)]

/-- A grant without hopping, in a BWP of up to 275 RBs, and values that their fields can have. -/
structure Valid (rar : RarInfo) : Prop where
  freqHopFlag : rar.ulGrant.freqHopFlag = 0
  inside : rar.ulGrant.msg3FreqAlloc.Inside rar.ulGrant.bwpSize
  RAPID : rar.RAPID < 64
  ta : rar.ta < 4096
  k2Index : rar.ulGrant.k2Index < 16
  mcs : rar.ulGrant.mcs < 16
  tpc : rar.ulGrant.tpc < 8
  csiReq : rar.ulGrant.csiReq < 2
  tcrnti : rar.tcrnti < 65536

end RarInfo

section

variable {rar : RarInfo} (h : rar.Valid)
include h

theorem fillRarPdu_eq : fillRarPdu rar =
    (packFields (rar.headFields ++ (FREQ_HOP_FLAG_SIZE, 0) :: (rar.freqFields ++ rar.tailFields))
      (atBits RAR_PAYLOAD_SIZE [])).map TxCursor.macPdu := by
  have hfreq : ∀ c, packFreqRsrcAlloc rar.ulGrant c = packFields rar.freqFields c := by
    intro c
    rw [packFreqRsrcAlloc, RarInfo.freqFields]
    split
    · simp [packFields]
    · rw [if_pos h.freqHopFlag]
      simp [packFields]
  have hstart : atBits RAR_PAYLOAD_SIZE [] = ⟨List.replicate RAR_PAYLOAD_SIZE 0, 0, 7⟩ := by
    rw [atBits, ← octets_zero]
    rfl
  rw [fillRarPdu, hstart, Option.map_eq_bind]
  simp only [hfreq, h.freqHopFlag, packFields, RarInfo.headFields, RarInfo.tailFields,
    List.foldlM_append, List.foldlM_cons, List.foldlM_nil, Option.bind_eq_bind, Option.bind_assoc,
    Option.pure_def, Option.bind_some, Function.comp_def]

/-- What a frequency allocation of any kind leads to. -/
theorem fillRarPdu_of_freq {bs : List Bool} (hlength : bs.length = 36)
    (hfreq : packFields rar.freqFields (atBits RAR_PAYLOAD_SIZE (fieldBits rar.headFields ++
      bitsOf FREQ_HOP_FLAG_SIZE 0)) = some (atBits RAR_PAYLOAD_SIZE bs)) :
    ∃ pdu, fillRarPdu rar = some pdu ∧ pdu.length = RAR_PAYLOAD_SIZE ∧
      bytesBits pdu = bs ++ fieldBits rar.tailFields := by
  have hhead : packFields rar.headFields (atBits RAR_PAYLOAD_SIZE []) =
      some (atBits RAR_PAYLOAD_SIZE (fieldBits rar.headFields)) := by
    refine @packFields_atBits _ [] _ ?_ (Nat.le_of_ble_eq_true rfl)
    simp only [RarInfo.headFields, List.forall_mem_cons, FieldFits]
    exact ⟨by decide, by decide, ⟨by decide, h.RAPID⟩, by decide, ⟨by decide, h.ta⟩, by simp⟩
  have hhop : packBytes (atBits RAR_PAYLOAD_SIZE (fieldBits rar.headFields)) 0 FREQ_HOP_FLAG_SIZE =
      some (atBits RAR_PAYLOAD_SIZE (fieldBits rar.headFields ++ bitsOf FREQ_HOP_FLAG_SIZE 0)) := by
    have hsize : (fieldBits rar.headFields).length = 21 := fieldBits_length _
    refine packBytes_atBits (by decide) ?_ ?_
    · rw [hsize]
      decide
    · rw [hsize]
      decide
  have htail : packFields rar.tailFields (atBits RAR_PAYLOAD_SIZE bs) =
      some (atBits RAR_PAYLOAD_SIZE (bs ++ fieldBits rar.tailFields)) := by
    refine packFields_atBits ?_ ?_
    · simp only [RarInfo.tailFields, List.forall_mem_cons, FieldFits]
      exact ⟨⟨by decide, h.k2Index⟩, ⟨by decide, h.mcs⟩, ⟨by decide, h.tpc⟩,
        ⟨by decide, h.csiReq⟩, ⟨by decide, h.tcrnti⟩, by decide, by decide, by decide, by simp⟩
    · rw [hlength]
      exact Nat.le_of_ble_eq_true rfl
  have hfull : (bs ++ fieldBits rar.tailFields).length = 8 * RAR_PAYLOAD_SIZE := by
    rw [List.length_append, fieldBits_length, hlength]
    rfl
  refine ⟨octets RAR_PAYLOAD_SIZE (ofBits (bs ++ fieldBits rar.tailFields)), ?_,
    octets_length _ _, bytesBits_octets_ofBits hfull⟩
  rw [fillRarPdu_eq h, packFields_append, hhead, Option.bind_some, packFields_cons, hhop,
    Option.bind_some, packFields_append, hfreq, Option.bind_some, htail, Option.map_some, atBits,
    hfull, Nat.sub_self, Nat.shiftLeft_zero]

/-- The resource indication value. -/
theorem msg3FreqResource_eq : rar.ulGrant.msg3FreqResource = freqDomResAssign rar.ulGrant.bwpSize
    rar.ulGrant.msg3FreqAlloc.startPrb rar.ulGrant.msg3FreqAlloc.numPrb := by
  have hpos := h.inside.numPrb_pos
  have hends := h.inside.ends
  have hsize : freqDomResAssignSize rar.ulGrant.bwpSize ≤ 16 :=
    Nat.clog_le_of_le_pow ((ranges_le h.inside.size_le).trans (by decide))
  rw [Msg3UlGrant.msg3FreqResource, if_pos ⟨hpos, by omega⟩]
  exact Nat.mod_eq_of_lt (h.inside.riv_lt.trans_le (Nat.pow_le_pow_right (by decide) hsize))

/-- A small BWP has its value in the field. -/
theorem packFreq_small (hsmall : rar.ulGrant.bwpSize < 180) :
    freqDomResAssignSize rar.ulGrant.bwpSize ≤ FREQ_RSRC_ALLOC_SIZE ∧
    packFields rar.freqFields (atBits RAR_PAYLOAD_SIZE (fieldBits rar.headFields ++
        bitsOf FREQ_HOP_FLAG_SIZE 0)) =
      some (atBits RAR_PAYLOAD_SIZE (fieldBits rar.headFields ++ bitsOf FREQ_HOP_FLAG_SIZE 0 ++
        bitsOf FREQ_RSRC_ALLOC_SIZE rar.ulGrant.msg3FreqResource)) := by
  have hsize : freqDomResAssignSize rar.ulGrant.bwpSize ≤ FREQ_RSRC_ALLOC_SIZE :=
    Nat.clog_le_of_le_pow ((ranges_le (Nat.le_of_lt_succ hsmall)).trans (by decide))
  have hriv : rar.ulGrant.msg3FreqResource < 2 ^ freqDomResAssignSize rar.ulGrant.bwpSize := by
    rw [msg3FreqResource_eq h]
    exact h.inside.riv_lt
  have hlength : (fieldBits rar.headFields ++ bitsOf FREQ_HOP_FLAG_SIZE 0).length = 22 := by
    rw [List.length_append, fieldBits_length, bitsOf_length]
    rfl
  have hbits : bitsOf FREQ_RSRC_ALLOC_SIZE rar.ulGrant.msg3FreqResource =
      bitsOf (FREQ_RSRC_ALLOC_SIZE - freqDomResAssignSize rar.ulGrant.bwpSize) 0 ++
        bitsOf (freqDomResAssignSize rar.ulGrant.bwpSize) rar.ulGrant.msg3FreqResource := by
    have hadd := bitsOf_add (FREQ_RSRC_ALLOC_SIZE - freqDomResAssignSize rar.ulGrant.bwpSize)
      (freqDomResAssignSize rar.ulGrant.bwpSize) rar.ulGrant.msg3FreqResource
    rwa [Nat.sub_add_cancel hsize, Nat.shiftRight_eq_zero _ _ hriv] at hadd
  refine ⟨hsize, ?_⟩
  rw [FREQ_RSRC_ALLOC_SIZE] at hsize
  simp only [RarInfo.freqFields, if_pos hsmall]
  have hpay : 8 * RAR_PAYLOAD_SIZE = 80 := rfl
  rw [packFields_cons, packBytes_atBits (by positivity) (by rw [hlength, hpay]; decide)
      (by rw [hlength, hpay, FREQ_RSRC_ALLOC_SIZE]; omega), Option.bind_some, packFields_cons,
    packBytes_atBits hriv
      (by rw [List.length_append, bitsOf_length, hlength, hpay, FREQ_RSRC_ALLOC_SIZE]; omega)
      (by rw [List.length_append, bitsOf_length, hlength, hpay, FREQ_RSRC_ALLOC_SIZE]; omega),
    hbits, List.append_assoc _ (bitsOf _ 0)]
  rfl

/-- A large one has a bit less for it, and the value runs over the bit for the hopping and the
hopping flag. -/
theorem packFreq_large (hlarge : 180 < rar.ulGrant.bwpSize) (hless : rar.ulGrant.bwpSize < 256) :
    rar.ulGrant.msg3FreqResource < 2 ^ 15 ∧
    packFields rar.freqFields (atBits RAR_PAYLOAD_SIZE (fieldBits rar.headFields ++
        bitsOf FREQ_HOP_FLAG_SIZE 0)) =
      some (atBits RAR_PAYLOAD_SIZE (fieldBits rar.headFields ++
        bitsOf 15 rar.ulGrant.msg3FreqResource)) := by
  have hlow : 2 ^ 14 ≤ rar.ulGrant.bwpSize * (rar.ulGrant.bwpSize + 1) / 2 :=
    le_trans (by decide) (ranges_le hlarge)
  have hhigh : rar.ulGrant.bwpSize * (rar.ulGrant.bwpSize + 1) / 2 < 2 ^ 15 :=
    (ranges_le (Nat.le_of_lt_succ hless)).trans_lt (by decide)
  have hlog : Nat.log 2 (rar.ulGrant.bwpSize * (rar.ulGrant.bwpSize + 1) / 2) = 14 :=
    Nat.log_eq_of_pow_le_of_lt_pow hlow hhigh
  have hriv : rar.ulGrant.msg3FreqResource < 2 ^ 15 := by
    rw [msg3FreqResource_eq h]
    exact h.inside.riv_lt.trans_le
      (Nat.pow_le_pow_right (by decide) (Nat.clog_le_of_le_pow hhigh.le))
  refine ⟨hriv, ?_⟩
  have hlength : (fieldBits rar.headFields).length = 21 := fieldBits_length _
  have hpay : 8 * RAR_PAYLOAD_SIZE = 80 := rfl
  have hone : packBytes (atBits RAR_PAYLOAD_SIZE (fieldBits rar.headFields ++
      bitsOf FREQ_HOP_FLAG_SIZE 0)) 0 1 =
        some (atBits RAR_PAYLOAD_SIZE (fieldBits rar.headFields ++ bitsOf 2 0)) := by
    rw [packBytes_atBits (by decide)
      (by rw [List.length_append, hlength, bitsOf_length, hpay]; decide)
      (by rw [List.length_append, hlength, bitsOf_length, hpay]; decide), List.append_assoc]
    rfl
  have hnone : packBytes (atBits RAR_PAYLOAD_SIZE (fieldBits rar.headFields ++ bitsOf 2 0)) 0 0 =
      some (atBits RAR_PAYLOAD_SIZE (fieldBits rar.headFields ++ bitsOf 2 0)) := by
    rw [packBytes_atBits (by decide)
      (by rw [List.length_append, hlength, bitsOf_length, hpay]; decide)
      (by rw [List.length_append, hlength, bitsOf_length, hpay]; decide), bitsOf, List.append_nil]
  have hover : packBytes (atBits RAR_PAYLOAD_SIZE (fieldBits rar.headFields ++ bitsOf 2 0))
      rar.ulGrant.msg3FreqResource 13 = some (atBits RAR_PAYLOAD_SIZE
        (fieldBits rar.headFields ++ bitsOf 15 rar.ulGrant.msg3FreqResource)) :=
    packBytes_over hriv (by rw [hlength]; decide) (by rw [hlength, hpay]; decide)
      (by rw [hlength, hpay]; decide)
  simp only [RarInfo.freqFields, if_neg (Nat.not_lt.2 (show 180 ≤ rar.ulGrant.bwpSize by omega)),
    hlog]
  rw [packFields_cons, hone, Option.bind_some, packFields_cons]
  refine (congrArg (fun c => Option.bind c _) hnone).trans ?_
  rw [Option.bind_some, packFields_cons]
  refine (congrArg (fun c => Option.bind c _) hover).trans ?_
  rfl

/-- Other BWPs have fields of too many bits in all. -/
theorem fillRarPdu_eq_none (hlarge : rar.ulGrant.bwpSize = 180 ∨ 256 ≤ rar.ulGrant.bwpSize) :
    fillRarPdu rar = none := by
  have hsizes : 80 < fieldsSize (rar.headFields ++ (FREQ_HOP_FLAG_SIZE, 0) ::
      (rar.freqFields ++ rar.tailFields)) := by
    have hnot : ¬ rar.ulGrant.bwpSize < 180 := by omega
    have hhead : fieldsSize rar.headFields = 21 := rfl
    have htail : fieldsSize rar.tailFields = 44 := rfl
    have hsum : fieldsSize (rar.headFields ++ (FREQ_HOP_FLAG_SIZE, 0) ::
        (rar.freqFields ++ rar.tailFields)) = 66 + fieldsSize rar.freqFields := by
      simp only [fieldsSize] at hhead htail ⊢
      simp only [List.map_append, List.map_cons, List.sum_append, List.sum_cons, hhead, htail,
        FREQ_HOP_FLAG_SIZE]
      omega
    have hfreq : 14 < fieldsSize rar.freqFields := by
      simp only [fieldsSize, RarInfo.freqFields, if_neg hnot, List.map_cons, List.map_nil,
        List.sum_cons, List.sum_nil, FREQ_RSRC_ALLOC_SIZE]
      obtain heq | hge := hlarge
      · have hlog : Nat.log 2 (180 * (180 + 1) / 2) = 13 :=
          Nat.log_eq_of_pow_le_of_lt_pow (by decide) (by decide)
        rw [heq, hlog]
        decide
      · have hlog : Nat.log 2 (rar.ulGrant.bwpSize * (rar.ulGrant.bwpSize + 1) / 2) = 15 :=
          Nat.log_eq_of_pow_le_of_lt_pow (le_trans (by decide) (ranges_le hge))
            ((ranges_le h.inside.size_le).trans_lt (by decide))
        rw [hlog]
        decide
    omega
  rw [fillRarPdu_eq h, Option.map_eq_none_iff]
  by_contra hsome
  obtain ⟨c, hc⟩ := Option.ne_none_iff_exists'.1 hsome
  have hend := packFields_pos (c := atBits RAR_PAYLOAD_SIZE []) (Nat.le_refl 7) (Nat.zero_le _) hc
  rw [atBits, octets_length] at hend
  have hzero : TxCursor.pos ⟨octets RAR_PAYLOAD_SIZE (ofBits [] <<< (8 * RAR_PAYLOAD_SIZE -
      ([] : List Bool).length)), ([] : List Bool).length / 8, 7 - ([] : List Bool).length % 8⟩ = 0 :=
    rfl
  rw [hzero] at hend
  have hpay : 8 * RAR_PAYLOAD_SIZE = 80 := rfl
  omega

end

/-! ## What is right -/

/-- The fields of a response: the subheader, the timing advance, the grant, the TC-RNTI, and the
padding with its subheader. -/
def RarInfo.layout (rar : RarInfo) (freq : ℕ) : List (ℕ × ℕ) :=
  [(1, 0), (1, 1), (6, rar.RAPID), (1, 0), (12, rar.ta), (1, rar.ulGrant.freqHopFlag), (14, freq),
    (4, rar.ulGrant.k2Index), (4, rar.ulGrant.mcs), (3, rar.ulGrant.tpc), (1, rar.ulGrant.csiReq),
    (16, rar.tcrnti), (2, 0), (6, 63), (8, 0)]

/-- The octets have the fields, and for a small BWP the RBs are decoded from the low bits of the
frequency allocation. -/
def RarRight (rar : RarInfo) : Prop :=
  ∃ pdu freq, fillRarPdu rar = some pdu ∧ pdu.length = RAR_PAYLOAD_SIZE ∧
    freq < 2 ^ FREQ_RSRC_ALLOC_SIZE ∧ bytesBits pdu = fieldBits (rar.layout freq) ∧
    (rar.ulGrant.bwpSize < 180 →
      rivDecode rar.ulGrant.bwpSize (freq % 2 ^ freqDomResAssignSize rar.ulGrant.bwpSize) =
        (rar.ulGrant.msg3FreqAlloc.startPrb, rar.ulGrant.msg3FreqAlloc.numPrb))

/-- The BWP is small, or it has up to 255 RBs and the RBs are indicated, from the one end or from the
other, by less than 2^14. -/
def RarHolds (rar : RarInfo) : Prop :=
  let bwpSize := rar.ulGrant.bwpSize
  let rbStart := rar.ulGrant.msg3FreqAlloc.startPrb
  let rbLen := rar.ulGrant.msg3FreqAlloc.numPrb
  bwpSize < 180 ∨ (180 < bwpSize ∧ bwpSize < 256 ∧
    (bwpSize * (rbLen - 1) + rbStart < 2 ^ 14 ∨
      bwpSize * (bwpSize - rbLen + 1) + (bwpSize - 1 - rbStart) < 2 ^ 14))

/-- The resource indication value is the smaller one. -/
theorem FreqAlloc.Inside.freqDomResAssign_lt_iff {f : FreqAlloc} {size : ℕ} (h : f.Inside size)
    (bound : ℕ) : freqDomResAssign size f.startPrb f.numPrb < bound ↔
      size * (f.numPrb - 1) + f.startPrb < bound ∨
        size * (size - f.numPrb + 1) + (size - 1 - f.startPrb) < bound := by
  have hpos := h.numPrb_pos
  have hends := h.ends
  obtain ⟨m, hm⟩ : ∃ m, f.numPrb = m + 1 := ⟨f.numPrb - 1, by omega⟩
  obtain ⟨k, hk⟩ : ∃ k, size = m + 1 + k := Nat.exists_eq_add_of_le (by omega)
  rw [freqDomResAssign]
  split
  · rename_i hle
    have hsmaller : size * (f.numPrb - 1) + f.startPrb ≤
        size * (size - f.numPrb + 1) + (size - 1 - f.startPrb) := by
      rw [show size - f.numPrb + 1 = k + 1 by omega, show f.numPrb - 1 = m by omega]
      rcases Nat.lt_or_ge m (k + 1) with hlt | hge
      · have hmul : size * (m + 1) ≤ size * (k + 1) := Nat.mul_le_mul_left size (by omega)
        rw [Nat.mul_succ] at hmul
        omega
      · have heq : m = k + 1 := by omega
        rw [heq]
        omega
    exact ⟨.inl, fun h => h.elim id hsmaller.trans_lt⟩
  · rename_i hgt
    have hsmaller : size * (size - f.numPrb + 1) + (size - 1 - f.startPrb) ≤
        size * (f.numPrb - 1) + f.startPrb := by
      rw [show size - f.numPrb + 1 = k + 1 by omega, show f.numPrb - 1 = m by omega]
      have hmul : size * (k + 2) ≤ size * m := Nat.mul_le_mul_left size (by omega)
      rw [show size * (k + 2) = size * (k + 1) + size from Nat.mul_succ size (k + 1)] at hmul
      omega
    exact ⟨.inr, fun h => h.elim hsmaller.trans_lt id⟩

/-- A value of 14 bits behind a hopping flag that is clear. -/
theorem hop_bits {freq : ℕ} (hfreq : freq < 2 ^ FREQ_RSRC_ALLOC_SIZE) :
    bitsOf FREQ_HOP_FLAG_SIZE 0 ++ bitsOf FREQ_RSRC_ALLOC_SIZE freq = bitsOf 15 freq := by
  have hadd := bitsOf_add FREQ_HOP_FLAG_SIZE FREQ_RSRC_ALLOC_SIZE freq
  rw [Nat.shiftRight_eq_zero _ _ hfreq] at hadd
  exact hadd.symm

theorem RarInfo.Valid.layout_bits {rar : RarInfo} (h : rar.Valid) {freq : ℕ}
    (hfreq : freq < 2 ^ FREQ_RSRC_ALLOC_SIZE) : fieldBits (rar.layout freq) =
      fieldBits rar.headFields ++ bitsOf 15 freq ++ fieldBits rar.tailFields := by
  have hsplit : rar.layout freq = rar.headFields ++ [(FREQ_HOP_FLAG_SIZE, 0),
      (FREQ_RSRC_ALLOC_SIZE, freq)] ++ rar.tailFields := by
    rw [RarInfo.layout, h.freqHopFlag]
    rfl
  rw [hsplit, fieldBits, List.flatMap_append, List.flatMap_append, ← hop_bits hfreq]
  rfl

/-- What is written for a BWP of up to 255 RBs. -/
theorem RarInfo.Valid.pdu_bits {rar : RarInfo} (h : rar.Valid)
    (hsize : rar.ulGrant.bwpSize < 180 ∨ 180 < rar.ulGrant.bwpSize ∧ rar.ulGrant.bwpSize < 256) :
    ∃ pdu, fillRarPdu rar = some pdu ∧ pdu.length = RAR_PAYLOAD_SIZE ∧
      rar.ulGrant.msg3FreqResource < 2 ^ 15 ∧ bytesBits pdu = fieldBits rar.headFields ++
        bitsOf 15 rar.ulGrant.msg3FreqResource ++ fieldBits rar.tailFields := by
  have hlength : (fieldBits rar.headFields ++ bitsOf 15 rar.ulGrant.msg3FreqResource).length =
      36 := by
    rw [List.length_append, fieldBits_length, bitsOf_length]
    rfl
  obtain hsmall | ⟨hlarge, hless⟩ := hsize
  · obtain ⟨hfield, hpack⟩ := packFreq_small h hsmall
    have hriv : rar.ulGrant.msg3FreqResource < 2 ^ FREQ_RSRC_ALLOC_SIZE := by
      rw [msg3FreqResource_eq h]
      exact h.inside.riv_lt.trans_le (Nat.pow_le_pow_right (by decide) hfield)
    rw [List.append_assoc, hop_bits hriv] at hpack
    obtain ⟨pdu, he, hpdu, hbits⟩ := fillRarPdu_of_freq h hlength hpack
    exact ⟨pdu, he, hpdu, hriv.trans (by decide), hbits⟩
  · obtain ⟨hriv, hpack⟩ := packFreq_large h hlarge hless
    obtain ⟨pdu, he, hpdu, hbits⟩ := fillRarPdu_of_freq h hlength hpack
    exact ⟨pdu, he, hpdu, hriv, hbits⟩

/-- **The response is right exactly in these cases.** -/
theorem rar_right_iff {rar : RarInfo} (h : rar.Valid) : RarRight rar ↔ RarHolds rar := by
  by_cases hsize : rar.ulGrant.bwpSize < 180 ∨
      180 < rar.ulGrant.bwpSize ∧ rar.ulGrant.bwpSize < 256
  · obtain ⟨pdu, he, hpdu, hriv, hbits⟩ := h.pdu_bits hsize
    have hholds : RarHolds rar ↔
        rar.ulGrant.msg3FreqResource < 2 ^ FREQ_RSRC_ALLOC_SIZE := by
      rw [msg3FreqResource_eq h]
      obtain hsmall | hlarge := hsize
      · have hfit := h.inside.riv_lt.trans_le
          (Nat.pow_le_pow_right (Nat.zero_lt_two) (packFreq_small h hsmall).1)
        exact ⟨fun _ => hfit, fun _ => .inl hsmall⟩
      · rw [h.inside.freqDomResAssign_lt_iff, RarHolds, or_iff_right (by omega),
          ← and_assoc, and_iff_right hlarge]
        rfl
    rw [hholds]
    constructor
    · rintro ⟨pdu', freq, he', -, hfreq, hbits', -⟩
      cases he.symm.trans he'
      rw [hbits, h.layout_bits hfreq] at hbits'
      have hmid := List.append_inj_right (List.append_inj_left' hbits' rfl) rfl
      have hvalue := congrArg ofBits hmid
      rw [ofBits_bitsOf hriv, ofBits_bitsOf (hfreq.trans (by decide))] at hvalue
      rwa [hvalue]
    · intro hfreq
      refine ⟨pdu, rar.ulGrant.msg3FreqResource, he, hpdu, hfreq,
        hbits.trans (h.layout_bits hfreq).symm, fun _ => ?_⟩
      rw [msg3FreqResource_eq h, Nat.mod_eq_of_lt h.inside.riv_lt, h.inside.rivDecode]
  · have hnone := fillRarPdu_eq_none h (by omega)
    refine iff_of_false ?_ ?_
    · rintro ⟨pdu, freq, he, -⟩
      cases hnone.symm.trans he
    · rintro (hsmall | ⟨hlarge, hless, -⟩)
      · exact hsize (.inl hsmall)
      · exact hsize (.inr ⟨hlarge, hless⟩)

/-- A grant of eight RBs from 20 on. -/
def exampleRar (bwpSize : ℕ) : RarInfo where
  RAPID := 5
  ta := 100
  ulGrant := ⟨0, bwpSize, ⟨20, 8⟩, 3, 4, 3, 0⟩
  tcrnti := 100

theorem exampleRar_valid {bwpSize : ℕ} (hge : 28 ≤ bwpSize) (hle : bwpSize ≤ 275) :
    (exampleRar bwpSize).Valid where
  freqHopFlag := rfl
  inside := ⟨hle, Nat.le_of_ble_eq_true rfl, hge⟩
  RAPID := Nat.le_of_ble_eq_true rfl
  ta := Nat.le_of_ble_eq_true rfl
  k2Index := Nat.le_of_ble_eq_true rfl
  mcs := Nat.le_of_ble_eq_true rfl
  tpc := Nat.le_of_ble_eq_true rfl
  csiReq := Nat.le_of_ble_eq_true rfl
  tcrnti := Nat.le_of_ble_eq_true rfl

theorem rar_right_both : RarRight (exampleRar 106) ∧ RarRight (exampleRar 200) :=
  ⟨(rar_right_iff (exampleRar_valid (by decide) (by decide))).2 (.inl (by decide)),
    (rar_right_iff (exampleRar_valid (by decide) (by decide))).2 (.inr (by decide))⟩

/-- **In a BWP of 273 RBs the fields behind the frequency allocation are two bits too far, and the
last of them is not in the buffer.** -/
theorem rar_wrong : (exampleRar 273).Valid ∧ ¬ RarRight (exampleRar 273) := by
  have hvalid : (exampleRar 273).Valid := exampleRar_valid (by decide) (by decide)
  refine ⟨hvalid, ?_⟩
  rintro ⟨pdu, freq, he, -⟩
  cases (fillRarPdu_eq_none hvalid (.inr (by decide))).symm.trans he

end OaiCu.OduMac
