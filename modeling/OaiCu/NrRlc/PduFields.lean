import OaiCu.NrRlc.AmTx
import OaiCu.NrRlc.AmRx
import OaiCu.NrRlc.UmEntity

/-!
# RLC: the headers of data PDUs

The header layout is written down three times: as a size by `compute_pdu_header_size`, as a
sequence of `put_bits` by `serialize_sdu` and as a sequence of `get_bits` by `recv_pdu`. A header
is a list of fields here, each a value and a number of bits, and the three agree on it.
-/

namespace OaiCu.NrRlc

open BitStream

/-! ## Fields -/

/-- The bits of some fields. -/
def fieldBits : List (ℕ × ℕ) → List Bool
  | [] => []
  | (value, count) :: fields => bitsOf count value ++ fieldBits fields

/-- The number of bits of some fields. -/
def fieldsWidth : List (ℕ × ℕ) → ℕ
  | [] => 0
  | (_, count) :: fields => count + fieldsWidth fields

/-- One `put_bits` for each field. -/
def Encoder.putFields (e : Encoder) : List (ℕ × ℕ) → Except Fault Encoder
  | [] => .ok e
  | (value, count) :: fields => do
      let e ← e.putBits value count
      e.putFields fields

theorem fieldBits_length (fields : List (ℕ × ℕ)) :
    (fieldBits fields).length = fieldsWidth fields := by
  induction fields with
  | nil => rfl
  | cons f fields ih => rw [fieldBits, fieldsWidth, List.length_append, bitsOf_length, ih]

theorem fieldBits_append (f g : List (ℕ × ℕ)) : fieldBits (f ++ g) = fieldBits f ++ fieldBits g := by
  induction f with
  | nil => rfl
  | cons f fs ih => simp only [List.cons_append, fieldBits, ih, List.append_assoc]

theorem Encoder.putFields_room {e : Encoder} (fields : List (ℕ × ℕ)) (hw : e.WF)
    (hroom : 8 * e.byte + e.bit + fieldsWidth fields ≤ 8 * e.buffer.length) :
    ∃ e', e.putFields fields = .ok e' ∧ e'.out = e.out ++ fieldBits fields ∧ e'.WF ∧
      e'.buffer.length = e.buffer.length ∧
      8 * e'.byte + e'.bit = 8 * e.byte + e.bit + fieldsWidth fields := by
  induction fields generalizing e with
  | nil => exact ⟨e, rfl, by simp [fieldBits], hw, rfl, rfl⟩
  | cons f fields ih =>
      obtain ⟨value, count⟩ := f
      simp only [fieldsWidth] at hroom ⊢
      obtain ⟨e₁, h₁, ho₁, hw₁, hl₁, hp₁⟩ := @Encoder.putBits_room e value count hw (by omega)
      obtain ⟨e₂, h₂, ho₂, hw₂, hl₂, hp₂⟩ := ih hw₁ (by omega)
      refine ⟨e₂, ?_, ?_, hw₂, hl₂.trans hl₁, by omega⟩
      · rw [Encoder.putFields, h₁]
        exact h₂
      · rw [ho₂, ho₁, fieldBits, List.append_assoc]

/-- Fields that fill `n` bytes are put if there is room for these, whatever the buffer held. -/
theorem putFields_bytes {fields : List (ℕ × ℕ)} {n : ℕ} {buffer : List UInt8}
    (hn : fieldsWidth fields = 8 * n) (hroom : n ≤ buffer.length) :
    ∃ e, (encoderInit buffer).putFields fields = .ok e ∧
      (e.buffer.take e.byte).length = n ∧ bytesBits (e.buffer.take e.byte) = fieldBits fields := by
  obtain ⟨e, he, ho, hw, hl, hp⟩ := Encoder.putFields_room fields (encoderInit_wf buffer)
    (by simp only [encoderInit]; omega)
  rw [encoderInit_out, List.nil_append] at ho
  simp only [encoderInit] at hl hp
  have hbit : e.bit = 0 := by
    have := hw.1
    omega
  refine ⟨e, he, ?_, ?_⟩
  · rw [List.length_take]
    omega
  · rw [← Encoder.out_aligned hbit, ho]

/-- A field is read back. -/
theorem Decoder.getBits_field {d : Decoder} {count value : ℕ} {tl : List Bool} (hw : d.WF)
    (h : d.rest = bitsOf count value ++ tl) (hv : value < 2 ^ count) :
    ∃ d', d.getBits count = some (value, d') ∧ d'.rest = tl ∧ d'.WF ∧ d'.buffer = d.buffer ∧
      8 * d'.byte + d'.bit = 8 * d.byte + d.bit + count := by
  obtain ⟨d', h', hr, hw', hb, hp⟩ := Decoder.getBits_append hw h (bitsOf_length count value)
  rw [ofBits_bitsOf hv] at h'
  exact ⟨d', h', hr, hw', hb, hp⟩

theorem Decoder.getBits_zero (d : Decoder) : d.getBits 0 = some (0, d) := rfl

theorem decoderInit_rest (buffer : List UInt8) : (decoderInit buffer).rest = bytesBits buffer := rfl

theorem decoderInit_wf (buffer : List UInt8) : (decoderInit buffer).WF := by
  simp [decoderInit, Decoder.WF]

/-- The bit of a flag that says the opposite. -/
def clearBit (b : Bool) : ℕ := if b then 0 else 1

/-- The two bits of the segmentation info, as they are read. -/
def siField (isFirst isLast : Bool) : ℕ := 2 * clearBit isFirst + clearBit isLast

theorem si_bits (isFirst isLast : Bool) :
    bitsOf 1 (clearBit isFirst) ++ bitsOf 1 (clearBit isLast) =
      bitsOf 2 (siField isFirst isLast) := by
  cases isFirst <;> cases isLast <;> decide

theorem siField_lt (isFirst isLast : Bool) : siField isFirst isLast < 2 ^ 2 := by
  cases isFirst <;> cases isLast <;> decide

theorem siField_first (isFirst isLast : Bool) :
    (!(siField isFirst isLast).testBit 1) = isFirst := by
  cases isFirst <;> cases isLast <;> decide

theorem siField_last (isFirst isLast : Bool) :
    (!(siField isFirst isLast).testBit 0) = isLast := by
  cases isFirst <;> cases isLast <;> decide

/-! ## AM -/

/-- The fields of `serialize_sdu`. -/
def amFields (cfg : AmConfig) (p : Bool) (sn so : ℕ) (isFirst isLast : Bool) : List (ℕ × ℕ) :=
  [(1, 1), (p.toNat, 1), (clearBit isFirst, 1), (clearBit isLast, 1)] ++
    (if cfg.snFieldLength = 18 then [(0, 2)] else []) ++ [(sn, cfg.snFieldLength)] ++
    (if isFirst then [] else [(so, 16)])

/-- The field reads of `recv_pdu` after the P bit; the rest is the data. -/
def readDataFields (cfg : AmConfig) (decoder : Decoder) : Option DataPdu := do
  let (si, decoder) ← decoder.getBits 2
  let isFirst := !si.testBit 1
  let isLast := !si.testBit 0
  let (_, decoder) ← (if cfg.snFieldLength = 18 then decoder.getBits 2 else some (0, decoder))
  let (sn, decoder) ← decoder.getBits cfg.snFieldLength
  let (so, decoder) ← (if isFirst then some (0, decoder) else decoder.getBits 16)
  return { sn, so, isFirst, isLast, data := decoder.buffer.drop decoder.byte }

/-- The field reads of `recv_pdu`: D/C, P and what follows. -/
def readDataPdu (cfg : AmConfig) (buffer : List UInt8) : Option (ℕ × ℕ × DataPdu) := do
  let (dc, decoder) ← (decoderInit buffer).getBits 1
  let (p, decoder) ← decoder.getBits 1
  let fields ← readDataFields cfg decoder
  return (dc, p, fields)

section Am

variable {cfg : AmConfig} {sn so : ℕ} {isFirst isLast : Bool} {buffer : List UInt8}

theorem dataHeader_eq : dataHeader cfg sn so isFirst isLast buffer =
    ((encoderInit buffer).putFields (amFields cfg false sn so isFirst isLast) >>= fun e =>
      pure (e.buffer.take e.byte)) := by
  have hok : ∀ e : Encoder, (Except.ok e : Except Fault Encoder) = pure e := fun _ => rfl
  unfold dataHeader amFields clearBit
  cases isFirst
  all_goals
    by_cases h : cfg.snFieldLength = 18
    all_goals
      simp [h, Encoder.putFields, hok]

theorem amFields_width (cfg : AmConfig) (p : Bool) (sn so : ℕ) (isFirst isLast : Bool) :
    fieldsWidth (amFields cfg p sn so isFirst isLast) =
      4 + (if cfg.snFieldLength = 18 then 2 else 0) + cfg.snFieldLength +
        (if isFirst = true then 0 else 16) := by
  unfold amFields
  rcases cfg.snFieldLength_valid with h | h
  all_goals
    cases isFirst
    all_goals
      simp [fieldsWidth, h]

/-- `compute_pdu_header_size` is the size of the fields. -/
theorem amFields_size (cfg : AmConfig) (p : Bool) (sn so : ℕ) (s : Segment) :
    fieldsWidth (amFields cfg p sn so s.isFirst s.isLast) = 8 * computePduHeaderSize cfg s := by
  rw [amFields_width]
  unfold computePduHeaderSize
  rcases cfg.snFieldLength_valid with h | h
  all_goals
    rw [h]
    cases s.isFirst <;> rfl

/-- The fields are read as they were put. -/
theorem readDataPdu_fields {header : List UInt8} {p : Bool} (payload : List UInt8)
    (h : bytesBits header = fieldBits (amFields cfg p sn so isFirst isLast))
    (hsn : sn < 2 ^ cfg.snFieldLength) (hso : so < 2 ^ 16) (hfirst : isFirst = true → so = 0) :
    readDataPdu cfg (header ++ payload) =
      some (1, p.toNat, { sn, so, isFirst, isLast, data := payload }) := by
  have hrest : (decoderInit (header ++ payload)).rest =
      bitsOf 1 1 ++ (bitsOf 1 p.toNat ++ (bitsOf 2 (siField isFirst isLast) ++
        (bitsOf (if cfg.snFieldLength = 18 then 2 else 0) 0 ++ (bitsOf cfg.snFieldLength sn ++
          (bitsOf (if isFirst then 0 else 16) so ++ bytesBits payload))))) := by
    rw [decoderInit_rest, bytesBits_append, h, ← si_bits]
    unfold amFields
    simp only [fieldBits_append]
    cases isFirst
    all_goals
      by_cases h18 : cfg.snFieldLength = 18
      all_goals
        simp [h18, fieldBits, bitsOf]
  obtain ⟨d₁, h₁, hr₁, hw₁, hb₁, hp₁⟩ :=
    Decoder.getBits_field (decoderInit_wf _) hrest (by decide)
  obtain ⟨d₂, h₂, hr₂, hw₂, hb₂, hp₂⟩ := Decoder.getBits_field hw₁ hr₁ (by cases p <;> decide)
  obtain ⟨d₃, h₃, hr₃, hw₃, hb₃, hp₃⟩ := Decoder.getBits_field hw₂ hr₂ (siField_lt _ _)
  obtain ⟨d₄, h₄, hr₄, hw₄, hb₄, hp₄⟩ := Decoder.getBits_field hw₃ hr₃ (Nat.two_pow_pos _)
  obtain ⟨d₅, h₅, hr₅, hw₅, hb₅, hp₅⟩ := Decoder.getBits_field hw₄ hr₄ hsn
  obtain ⟨d₆, h₆, hr₆, hw₆, hb₆, hp₆⟩ := Decoder.getBits_field hw₅ hr₅ (by
    cases isFirst
    · exact hso
    · rw [hfirst rfl]
      exact Nat.two_pow_pos _)
  have hbuf : d₆.buffer = header ++ payload := by
    rw [hb₆, hb₅, hb₄, hb₃, hb₂, hb₁]
    rfl
  have hlen : 8 * header.length = 4 + (if cfg.snFieldLength = 18 then 2 else 0) +
      cfg.snFieldLength + (if isFirst = true then 0 else 16) := by
    rw [← bytesBits_length, h, fieldBits_length, amFields_width]
  have hbyte : d₆.byte = header.length := by
    have := hw₆
    unfold Decoder.WF at this
    simp only [decoderInit] at hp₁
    omega
  have hdata : d₆.buffer.drop d₆.byte = payload := by
    rw [hbuf, hbyte, List.drop_left]
  rw [apply_ite d₃.getBits, Decoder.getBits_zero] at h₄
  rw [apply_ite d₅.getBits, Decoder.getBits_zero] at h₆
  unfold readDataPdu readDataFields
  simp only [h₁, h₂, h₃, h₄, h₅, h₆, hdata, siField_first, siField_last, Option.bind_eq_bind,
    Option.bind_some, Option.pure_def]

/-- Setting the P bit of a PDU. -/
theorem setPoll_fields {header : List UInt8}
    (h : bytesBits header = fieldBits (amFields cfg false sn so isFirst isLast)) :
    bytesBits (header.modify 0 (· ||| 0x40)) =
      fieldBits (amFields cfg true sn so isFirst isLast) := by
  have hfields : ∀ p : Bool, fieldBits (amFields cfg p sn so isFirst isLast) =
      true :: p :: fieldBits ([(clearBit isFirst, 1), (clearBit isLast, 1)] ++
        (if cfg.snFieldLength = 18 then [(0, 2)] else []) ++ [(sn, cfg.snFieldLength)] ++
        (if isFirst then [] else [(so, 16)])) := fun p => by
    cases p <;> rfl
  rw [hfields] at h ⊢
  cases header with
  | nil => cases h
  | cons b bytes =>
      have hset : byteBits (b ||| 0x40) = (byteBits b).set 1 true := byteBits_setBit b 6 (by decide)
      rw [List.modify_zero_cons, bytesBits_cons, hset, ← List.set_append_left, ← bytesBits_cons, h]
      · rfl
      · rw [byteBits_length]
        decide

/-- The bytes of the SDU that a segment stands for. -/
def payload (data : List UInt8) (s : Segment) : List UInt8 := (data.drop s.so).take s.size

/-- `serialize_sdu` needs room for the header, and writes what `recv_pdu` reads. -/
theorem serializeSdu_spec {tCurrent : ℕ} {tx : AmTx} {s : Segment} {p : Bool}
    (hroom : computePduHeaderSize cfg s ≤ buffer.length) :
    ∃ tx' pdu, serializeSdu cfg tCurrent tx s buffer p = .ok (tx', pdu) ∧
      pdu.length = computePduHeaderSize cfg s + (payload (tx.heap s.sdu).data s).length ∧
      ((tx.sn s).toNat < 2 ^ cfg.snFieldLength → s.so < 2 ^ 16 → (s.isFirst = true → s.so = 0) →
        readDataPdu cfg pdu = some (1, p.toNat,
          { sn := (tx.sn s).toNat
            so := s.so
            isFirst := s.isFirst
            isLast := s.isLast
            data := payload (tx.heap s.sdu).data s })) := by
  obtain ⟨e, he, hlen, hbits⟩ :=
    putFields_bytes (amFields_size cfg false (tx.sn s).toNat s.so s) hroom
  have hheader : dataHeader cfg (tx.sn s).toNat s.so s.isFirst s.isLast buffer =
      .ok (e.buffer.take e.byte) := by
    rw [dataHeader_eq, he]
    rfl
  generalize e.buffer.take e.byte = header at hlen hbits hheader
  unfold serializeSdu
  rw [hheader]
  cases p with
  | false =>
      refine ⟨_, _, rfl, ?_, ?_⟩
      · rw [List.length_append, hlen]
        rfl
      · intro hsn hso hfirst
        exact readDataPdu_fields _ hbits hsn hso hfirst
  | true =>
      have hpos : header ≠ [] := by
        rintro rfl
        rw [List.length_nil, computePduHeaderSize] at hlen
        omega
      refine ⟨_, _, rfl, ?_, ?_⟩
      · rw [List.length_modify, List.length_append, hlen]
        rfl
      · intro hsn hso hfirst
        have hread := readDataPdu_fields (payload (tx.heap s.sdu).data s) (setPoll_fields hbits)
          hsn hso hfirst
        cases header with
        | nil => exact absurd rfl hpos
        | cons b bytes => exact hread

end Am

/-! ## UM -/

namespace Um

/-- The fields of `serialize_sdu`. -/
def umFields (cfg : UmConfig) (sn so : ℕ) (isFirst isLast : Bool) : List (ℕ × ℕ) :=
  [(clearBit isFirst, 1), (clearBit isLast, 1)] ++
    (if isFirst && isLast then [(0, 6)]
    else (if cfg.snFieldLength = 12 then [(0, 2)] else []) ++ [(sn, cfg.snFieldLength)]) ++
    (if isFirst then [] else [(so, 16)])

/-- The field reads of `recv_pdu`; the rest is the data. -/
def readPdu (cfg : UmConfig) (buffer : List UInt8) : Option UmPdu := do
  let (si, decoder) ← (decoderInit buffer).getBits 2
  let isFirst := !si.testBit 1
  let isLast := !si.testBit 0
  if isFirst && isLast then some (.sdu (buffer.drop 1))
  else
    let (_, decoder) ← (if cfg.snFieldLength = 12 then decoder.getBits 2 else some (0, decoder))
    let (sn, decoder) ← decoder.getBits cfg.snFieldLength
    let (so, decoder) ← (if isFirst then some (0, decoder) else decoder.getBits 16)
    return .segment sn so isFirst isLast (decoder.buffer.drop decoder.byte)

section Um

variable {cfg : UmConfig} {sn so : ℕ} {isFirst isLast : Bool} {buffer : List UInt8}

theorem serializeSdu_eq (s : Segment) (sdu : Sdu) : serializeSdu cfg s sdu buffer =
    ((encoderInit buffer).putFields (umFields cfg sdu.sn.toNat s.so s.isFirst s.isLast) >>=
      fun e => pure (e.buffer.take e.byte ++ payload sdu.data s)) := by
  have hok : ∀ e : Encoder, (Except.ok e : Except Fault Encoder) = pure e := fun _ => rfl
  unfold serializeSdu umFields clearBit payload
  cases s.isFirst
  all_goals
    cases s.isLast
    all_goals
      by_cases h : cfg.snFieldLength = 12
      all_goals
        simp [h, Encoder.putFields, hok]

/-- `compute_pdu_header_size` is the size of the fields. -/
theorem umFields_size (cfg : UmConfig) (sn so : ℕ) (isFirst isLast : Bool) :
    fieldsWidth (umFields cfg sn so isFirst isLast) =
      8 * computePduHeaderSize cfg isFirst isLast := by
  unfold umFields computePduHeaderSize
  rcases cfg.snFieldLength_valid with h | h
  all_goals
    rw [h]
    cases isFirst <;> cases isLast <;> rfl

/-- The PDU of a segment, or of a whole SDU. -/
def umPdu (sn : ℤ) (so : ℕ) (isFirst isLast : Bool) (data : List UInt8) : UmPdu :=
  if isFirst && isLast then .sdu data else .segment sn so isFirst isLast data

/-- The fields are read as they were put. -/
theorem readPdu_fields {header : List UInt8} (payload : List UInt8)
    (h : bytesBits header = fieldBits (umFields cfg sn so isFirst isLast))
    (hsn : sn < 2 ^ cfg.snFieldLength) (hso : so < 2 ^ 16) (hfirst : isFirst = true → so = 0) :
    readPdu cfg (header ++ payload) = some (umPdu sn so isFirst isLast payload) := by
  have hlen : 8 * header.length = 8 * computePduHeaderSize cfg isFirst isLast := by
    rw [← bytesBits_length, h, fieldBits_length, umFields_size]
  by_cases hfull : (isFirst && isLast) = true
  · obtain ⟨rfl, rfl⟩ := Bool.and_eq_true_iff.mp hfull
    have hrest : (decoderInit (header ++ payload)).rest =
        bitsOf 2 (siField true true) ++ (bitsOf 6 0 ++ bytesBits payload) := by
      rw [decoderInit_rest, bytesBits_append, h]
      rfl
    obtain ⟨d₁, h₁, -⟩ := Decoder.getBits_field (decoderInit_wf _) hrest (siField_lt _ _)
    have hone : header.length = 1 := by
      rw [show computePduHeaderSize cfg true true = 1 from rfl] at hlen
      omega
    have hdata : (header ++ payload).drop 1 = payload := by
      rw [← hone, List.drop_left]
    unfold readPdu umPdu
    simp only [h₁, hdata, siField_first, siField_last, Bool.and_self, if_true, Option.bind_eq_bind,
      Option.bind_some]
  · have hrest : (decoderInit (header ++ payload)).rest =
        bitsOf 2 (siField isFirst isLast) ++
          (bitsOf (if cfg.snFieldLength = 12 then 2 else 0) 0 ++ (bitsOf cfg.snFieldLength sn ++
            (bitsOf (if isFirst then 0 else 16) so ++ bytesBits payload))) := by
      rw [decoderInit_rest, bytesBits_append, h, ← si_bits]
      unfold umFields
      rw [if_neg hfull]
      simp only [fieldBits_append]
      cases isFirst
      all_goals
        by_cases h12 : cfg.snFieldLength = 12
        all_goals
          simp [h12, fieldBits, bitsOf]
    obtain ⟨d₁, h₁, hr₁, hw₁, hb₁, hp₁⟩ :=
      Decoder.getBits_field (decoderInit_wf _) hrest (siField_lt _ _)
    obtain ⟨d₂, h₂, hr₂, hw₂, hb₂, hp₂⟩ := Decoder.getBits_field hw₁ hr₁ (Nat.two_pow_pos _)
    obtain ⟨d₃, h₃, hr₃, hw₃, hb₃, hp₃⟩ := Decoder.getBits_field hw₂ hr₂ hsn
    obtain ⟨d₄, h₄, -, hw₄, hb₄, hp₄⟩ := Decoder.getBits_field hw₃ hr₃ (by
      cases isFirst
      · exact hso
      · rw [hfirst rfl]
        exact Nat.two_pow_pos _)
    have hbuf : d₄.buffer = header ++ payload := by
      rw [hb₄, hb₃, hb₂, hb₁]
      rfl
    have hbyte : d₄.byte = header.length := by
      have := hw₄
      unfold Decoder.WF at this
      have hwidth : 8 * computePduHeaderSize cfg isFirst isLast =
          2 + (if cfg.snFieldLength = 12 then 2 else 0) + cfg.snFieldLength +
            (if isFirst = true then 0 else 16) := by
        unfold computePduHeaderSize
        rw [Bool.eq_false_of_not_eq_true hfull]
        rcases cfg.snFieldLength_valid with h | h
        all_goals
          rw [h]
          cases isFirst <;> rfl
      simp only [decoderInit] at hp₁
      omega
    have hdata : d₄.buffer.drop d₄.byte = payload := by
      rw [hbuf, hbyte, List.drop_left]
    rw [apply_ite d₁.getBits, Decoder.getBits_zero] at h₂
    rw [apply_ite d₃.getBits, Decoder.getBits_zero] at h₄
    unfold readPdu umPdu
    simp only [h₁, h₂, h₃, h₄, hdata, siField_first, siField_last, hfull, Option.bind_eq_bind,
      Option.bind_some, Option.pure_def, if_false, Bool.false_eq_true]

/-- `serialize_sdu` needs room for the header, and writes what `recv_pdu` reads. -/
theorem serializeSdu_spec {s : Segment} {sdu : Sdu}
    (hroom : computePduHeaderSize cfg s.isFirst s.isLast ≤ buffer.length) :
    ∃ pdu, serializeSdu cfg s sdu buffer = .ok pdu ∧
      pdu.length = computePduHeaderSize cfg s.isFirst s.isLast + (payload sdu.data s).length ∧
      (sdu.sn.toNat < 2 ^ cfg.snFieldLength → s.so < 2 ^ 16 → (s.isFirst = true → s.so = 0) →
        readPdu cfg pdu =
          some (umPdu sdu.sn.toNat s.so s.isFirst s.isLast (payload sdu.data s))) := by
  obtain ⟨e, he, hlen, hbits⟩ :=
    putFields_bytes (umFields_size cfg sdu.sn.toNat s.so s.isFirst s.isLast) hroom
  refine ⟨e.buffer.take e.byte ++ payload sdu.data s, ?_, ?_, ?_⟩
  · rw [serializeSdu_eq, he]
    rfl
  · rw [List.length_append, hlen]
  · intro hsn hso hfirst
    exact readPdu_fields _ hbits hsn hso hfirst

end Um

end Um

end OaiCu.NrRlc
