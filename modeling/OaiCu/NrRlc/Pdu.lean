import OaiCu.Lib.BitStream
import OaiCu.NrRlc.Entity

/-!
# Received PDUs, the PDU decoder and the PDU encoder (`nr_rlc_pdu.c`)
-/

namespace OaiCu.NrRlc

open BitStream

/-! ## RX PDU management -/

/-- `nr_rlc_pdu_t`. `data` is `none` once it was freed after reassembly. -/
structure Pdu where
  sn : ℤ
  data : Option (List UInt8)
  size : ℕ
  so : ℕ
  isFirst : Bool
  isLast : Bool
deriving DecidableEq, Repr

/-- `nr_rlc_new_pdu`: the size is the one of the data. -/
def newPdu (sn : ℤ) (so : ℕ) (isFirst isLast : Bool) (data : List UInt8) : Pdu :=
  { sn, data := some data, size := data.length, so, isFirst, isLast }

/-- The data is freed after reassembly, the PDU stays in the list. -/
def Pdu.freeData (p : Pdu) : Pdu := { p with data := none }

/-- `nr_rlc_pdu_list_add`: `pdu` goes before the first element that is after it,
by SN and for one SN by SO. -/
def pduListAdd (snCompare : ℤ → ℤ → ℤ) (list : List Pdu) (pdu : Pdu) : List Pdu :=
  list.orderedInsert
    (fun pdu cur => snCompare cur.sn pdu.sn > 0 ∨ (cur.sn = pdu.sn ∧ cur.so > pdu.so)) pdu

/-! ## PDU decoder -/

/-- `nr_rlc_pdu_decoder_t`; the error flag is the `none` of `getBits`. -/
structure Decoder where
  byte : ℕ
  bit : ℕ
  buffer : List UInt8

/-- `nr_rlc_pdu_decoder_init`. -/
def decoderInit (buffer : List UInt8) : Decoder := { byte := 0, bit := 0, buffer }

def Decoder.getBit (d : Decoder) : Option (Bool × Decoder) :=
  match d.buffer[d.byte]? with
  | none => none
  | some b =>
      some (b.toNat.testBit (7 - d.bit),
        if d.bit + 1 = 8 then { d with byte := d.byte + 1, bit := 0 }
        else { d with bit := d.bit + 1 })

/-- The loop of `nr_rlc_pdu_decoder_get_bits`, from the bits `ret` read so far. -/
def Decoder.getBitsFrom (d : Decoder) (ret : ℕ) : ℕ → Option (ℕ × Decoder)
  | 0 => some (ret, d)
  | count + 1 =>
      match d.getBit with
      | none => none
      | some (b, d') => d'.getBitsFrom (2 * ret + b.toNat) count

/-- `nr_rlc_pdu_decoder_get_bits`. -/
def Decoder.getBits (d : Decoder) (count : ℕ) : Option (ℕ × Decoder) :=
  d.getBitsFrom 0 count

/-- The bits the decoder has not read yet. -/
def Decoder.rest (d : Decoder) : List Bool := (bytesBits d.buffer).drop (8 * d.byte + d.bit)

/-- The bit position never leaves the byte. -/
def Decoder.WF (d : Decoder) : Prop := d.bit < 8

theorem Decoder.getBit_cons {d : Decoder} {b : Bool} {bs : List Bool} (hw : d.WF)
    (h : d.rest = b :: bs) :
    ∃ d', d.getBit = some (b, d') ∧ d'.rest = bs ∧ d'.WF ∧ d'.buffer = d.buffer ∧
      8 * d'.byte + d'.bit = 8 * d.byte + d.bit + 1 := by
  unfold Decoder.rest at h
  unfold Decoder.WF at hw
  have hlt : 8 * d.byte + d.bit < 8 * d.buffer.length := by
    by_contra hge
    rw [List.drop_eq_nil_of_le (by rw [bytesBits_length]; omega)] at h
    cases h
  have hroom : d.byte < d.buffer.length := by omega
  have hb : d.buffer[d.byte]? = some d.buffer[d.byte] := List.getElem?_eq_getElem hroom
  rw [bytesBits_drop_cons hb hw] at h
  injection h with h1 h2
  unfold Decoder.getBit
  rw [hb]
  simp only [h1]
  by_cases h8 : d.bit + 1 = 8
  · refine ⟨{ d with byte := d.byte + 1, bit := 0 }, by rw [if_pos h8], ?_,
      by simp [Decoder.WF], rfl, by simp only; omega⟩
    rw [← h2, show 8 * d.byte + d.bit + 1 = 8 * (d.byte + 1) + 0 by omega]
    rfl
  · refine ⟨{ d with bit := d.bit + 1 }, by rw [if_neg h8], ?_,
      by simp only [Decoder.WF]; omega, rfl, by simp only; omega⟩
    rw [← h2]
    rfl

theorem Decoder.getBitsFrom_append {bs tl : List Bool} : ∀ {d : Decoder} {ret : ℕ}, d.WF →
    d.rest = bs ++ tl →
    ∃ d', d.getBitsFrom ret bs.length =
        some (bs.foldl (fun acc b => 2 * acc + b.toNat) ret, d') ∧
      d'.rest = tl ∧ d'.WF ∧ d'.buffer = d.buffer ∧
      8 * d'.byte + d'.bit = 8 * d.byte + d.bit + bs.length := by
  induction bs with
  | nil => exact fun {d _} hw h => ⟨d, rfl, h, hw, rfl, rfl⟩
  | cons b bs ih =>
      intro d ret hw h
      obtain ⟨d₁, hg, hr, hw₁, hbuf, hpos⟩ := Decoder.getBit_cons hw h
      obtain ⟨d₂, hg₂, hr₂, hw₂, hbuf₂, hpos₂⟩ := @ih d₁ (2 * ret + b.toNat) hw₁ hr
      refine ⟨d₂, ?_, hr₂, hw₂, hbuf₂.trans hbuf, ?_⟩
      · rw [List.length_cons, Decoder.getBitsFrom, hg]
        exact hg₂
      · rw [List.length_cons]; omega

/-- Reading a field of the right width off the front of the remaining bits. -/
theorem Decoder.getBits_append {d : Decoder} {bs tl : List Bool} {n : ℕ} (hw : d.WF)
    (h : d.rest = bs ++ tl) (hn : bs.length = n) :
    ∃ d', d.getBits n = some (ofBits bs, d') ∧ d'.rest = tl ∧ d'.WF ∧
      d'.buffer = d.buffer ∧ 8 * d'.byte + d'.bit = 8 * d.byte + d.bit + n := by
  subst hn
  exact Decoder.getBitsFrom_append hw h

theorem Decoder.getBitsFrom_lt : ∀ {n : ℕ} {d d' : Decoder} {ret v : ℕ},
    d.getBitsFrom ret n = some (v, d') → v < (ret + 1) * 2 ^ n := by
  intro n
  induction n with
  | zero =>
      intro d d' ret v h
      simp only [Decoder.getBitsFrom, Option.some.injEq, Prod.mk.injEq] at h
      simp [← h.1]
  | succ n ih =>
      intro d d' ret v h
      rw [Decoder.getBitsFrom] at h
      split at h
      · cases h
      · rename_i b d₁ _
        have hv := ih h
        have hb : 2 * ret + b.toNat + 1 ≤ 2 * (ret + 1) := by
          have := Bool.toNat_lt b
          omega
        calc v < (2 * ret + b.toNat + 1) * 2 ^ n := hv
          _ ≤ 2 * (ret + 1) * 2 ^ n := Nat.mul_le_mul_right _ hb
          _ = (ret + 1) * 2 ^ (n + 1) := by rw [pow_succ]; ring

/-- A field of `n` bits is less than `2 ^ n`. -/
theorem Decoder.getBits_lt {d d' : Decoder} {n v : ℕ} (h : d.getBits n = some (v, d')) :
    v < 2 ^ n := by
  simpa using Decoder.getBitsFrom_lt h

/-! ## PDU encoder -/

/-- `nr_rlc_pdu_encoder_t`; the size is the length of the buffer. -/
structure Encoder where
  byte : ℕ
  bit : ℕ
  buffer : List UInt8

/-- `nr_rlc_pdu_encoder_init`. -/
def encoderInit (buffer : List UInt8) : Encoder := { byte := 0, bit := 0, buffer }

def Encoder.putBit (e : Encoder) (bit : Bool) : Except Fault Encoder :=
  match e.buffer[e.byte]? with
  | none => .error .exit
  | some b =>
      let buffer := e.buffer.set e.byte (b <<< 1 ||| if bit then 1 else 0)
      .ok (if e.bit + 1 = 8 then { byte := e.byte + 1, bit := 0, buffer }
        else { e with bit := e.bit + 1, buffer })

/-- `nr_rlc_pdu_encoder_put_bits`. -/
def Encoder.putBits (e : Encoder) (value : ℕ) : ℕ → Except Fault Encoder
  | 0 => .ok e
  | count + 1 => do
      let e' ← e.putBit (value.testBit count)
      e'.putBits value count

/-- The bits put so far: the complete bytes and the low bits of the current one. -/
def Encoder.out (e : Encoder) : List Bool :=
  bytesBits (e.buffer.take e.byte) ++
    ((e.buffer[e.byte]?.map byteBits).getD []).drop (8 - e.bit)

/-- The bit position stays in the byte and the byte position in the buffer. -/
def Encoder.WF (e : Encoder) : Prop := e.bit < 8 ∧ 8 * e.byte + e.bit ≤ 8 * e.buffer.length

theorem currentBits_length_le (l : List UInt8) (i : ℕ) :
    ((l[i]?.map byteBits).getD []).length ≤ 8 := by
  cases l[i]? <;> simp

theorem Encoder.putBit_room {e : Encoder} (hw : e.WF) (b : Bool)
    (hroom : e.byte < e.buffer.length) :
    ∃ e', e.putBit b = .ok e' ∧ e'.out = e.out ++ [b] ∧ e'.WF ∧
      e'.buffer.length = e.buffer.length ∧
      8 * e'.byte + e'.bit = 8 * e.byte + e.bit + 1 := by
  obtain ⟨hbit, hpos⟩ := hw
  have hb : e.buffer[e.byte]? = some e.buffer[e.byte] := List.getElem?_eq_getElem hroom
  set x := e.buffer[e.byte] with hx
  set y := x <<< 1 ||| (if b then 1 else 0) with hy
  have hybits : byteBits y = (byteBits x).drop 1 ++ [b] := byteBits_shiftIn x b
  unfold Encoder.putBit
  rw [hb]
  simp only [← hy]
  have htake : (e.buffer.set e.byte y).take e.byte = e.buffer.take e.byte := by
    rw [List.take_set_of_le (le_refl _)]
  have hget : (e.buffer.set e.byte y)[e.byte]? = some y := by
    rw [List.getElem?_set_self hroom]
  by_cases h8 : e.bit + 1 = 8
  · refine ⟨_, by rw [if_pos h8], ?_, ?_, by simp, by simp only; omega⟩
    · simp only [Encoder.out, hb, Option.map_some, Option.getD_some]
      rw [List.take_add_one, htake, hget]
      simp only [hybits, show 8 - e.bit = 1 by omega, Nat.sub_zero, bytesBits_append,
        Option.toList_some, bytesBits_cons, bytesBits_nil, List.append_nil, List.append_assoc]
      rw [List.drop_eq_nil_of_le (currentBits_length_le _ _), List.append_nil]
    · refine ⟨by simp, ?_⟩
      simp only [List.length_set]
      omega
  · refine ⟨_, by rw [if_neg h8], ?_, ?_, by simp, by simp only; omega⟩
    · simp only [Encoder.out, hb, htake, hget, Option.map_some, Option.getD_some, hybits]
      rw [List.drop_append_of_le_length (by simp), List.drop_drop, List.append_assoc]
      congr 3
      omega
    · refine ⟨by simp only; omega, ?_⟩
      simp only [List.length_set]
      omega

/-- A field that fits is appended to the bits put so far. -/
theorem Encoder.putBits_room {e : Encoder} (v : ℕ) : ∀ {n : ℕ}, e.WF →
    8 * e.byte + e.bit + n ≤ 8 * e.buffer.length →
    ∃ e', e.putBits v n = .ok e' ∧ e'.out = e.out ++ bitsOf n v ∧ e'.WF ∧
      e'.buffer.length = e.buffer.length ∧
      8 * e'.byte + e'.bit = 8 * e.byte + e.bit + n := by
  intro n
  induction n generalizing e with
  | zero => exact fun hw _ => ⟨e, rfl, by simp [bitsOf], hw, rfl, rfl⟩
  | succ n ih =>
      intro hw hroom
      have hbit := hw.1
      obtain ⟨e₁, hp, ho, hw₁, hl, hpos⟩ :=
        Encoder.putBit_room hw (v.testBit n) (by omega)
      obtain ⟨e₂, hp₂, ho₂, hw₂, hl₂, hpos₂⟩ := ih (e := e₁) hw₁ (by omega)
      refine ⟨e₂, ?_, ?_, hw₂, hl₂.trans hl, by omega⟩
      · rw [Encoder.putBits, hp]
        exact hp₂
      · rw [ho₂, ho, bitsOf, List.append_assoc, List.singleton_append]

/-- On a byte boundary the bits put are those of the bytes written. -/
theorem Encoder.out_aligned {e : Encoder} (h : e.bit = 0) :
    e.out = bytesBits (e.buffer.take e.byte) := by
  unfold Encoder.out
  rw [h, List.drop_eq_nil_of_le (currentBits_length_le _ _), List.append_nil]

theorem encoderInit_wf (buffer : List UInt8) : (encoderInit buffer).WF := by
  simp [encoderInit, Encoder.WF]

theorem encoderInit_out (buffer : List UInt8) : (encoderInit buffer).out = [] := by
  rw [Encoder.out_aligned rfl]
  simp [encoderInit]

end OaiCu.NrRlc
