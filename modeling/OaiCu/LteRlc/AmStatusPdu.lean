import OaiCu.Lib.BitPatch
import OaiCu.LteRlc.AmStatus
import Mathlib.Algebra.BigOperators.Group.List.Basic

/-!
# LTE RLC AM: the bits of a STATUS PDU

What `generate_status` writes, with the E1 that it goes back to, is a stream of fields; the control
branch of the receiver reads these fields.
-/

namespace OaiCu.LteRlc

open BitStream
open NrRlc (Decoder decoderInit)

/-! ## Fields -/

/-- The `count` low bits of an `int`, most significant first. -/
def fieldBits : ℕ → ℤ → List Bool
  | 0, _ => []
  | n + 1, value => decide (value / 2 ^ n % 2 = 1) :: fieldBits n value

@[simp] theorem length_fieldBits (n : ℕ) (value : ℤ) : (fieldBits n value).length = n := by
  induction n with
  | zero => rfl
  | succ n ih => rw [fieldBits, List.length_cons, ih]

/-- A negative number is read as its two's complement. -/
theorem ofBits_fieldBits (n : ℕ) (value : ℤ) : (ofBits (fieldBits n value) : ℤ) = value % 2 ^ n := by
  induction n with
  | zero => simp [fieldBits, ofBits]
  | succ n ih =>
      have hpos : (0 : ℤ) < 2 ^ n := Int.pow_pos (by decide)
      have hmod : value % 2 ^ (n + 1) = 2 ^ n * (value / 2 ^ n % 2) + value % 2 ^ n := by
        have hdigit := Int.emod_two_eq_zero_or_one (value / 2 ^ n)
        have hlow := Int.emod_nonneg value hpos.ne'
        have hlt := Int.emod_lt_of_pos value hpos
        have hsplit : value = 2 ^ n * (value / 2 ^ n % 2) + value % 2 ^ n +
            2 ^ (n + 1) * (value / 2 ^ n / 2) := by
          have hquot := Int.mul_ediv_add_emod value (2 ^ n)
          have hhalf := Int.mul_ediv_add_emod (value / 2 ^ n) 2
          calc value = 2 ^ n * (value / 2 ^ n) + value % 2 ^ n := hquot.symm
            _ = 2 ^ n * (2 * (value / 2 ^ n / 2) + value / 2 ^ n % 2) + value % 2 ^ n := by
                rw [hhalf]
            _ = _ := by ring
        conv_lhs => rw [hsplit]
        rw [Int.add_mul_emod_self_left, Int.emod_eq_of_lt]
        · rcases hdigit with h | h <;> rw [h] <;> omega
        · rw [pow_succ]
          rcases hdigit with h | h <;> rw [h] <;> omega
      have hbit : ((decide (value / 2 ^ n % 2 = 1)).toNat : ℤ) = value / 2 ^ n % 2 := by
        rcases Int.emod_two_eq_zero_or_one (value / 2 ^ n) with h | h
        · rw [h]
          rfl
        · rw [h]
          rfl
      rw [fieldBits, ofBits_cons, length_fieldBits, hmod, ← ih]
      push_cast
      rw [hbit, Int.mul_comm]

/-! ## The encoder -/

/-- The position in bits. -/
def Encoder.pos (e : Encoder) : ℕ := 8 * e.byte + e.bit

/-- The bit position stays in the byte. -/
def Encoder.WF (e : Encoder) : Prop := e.bit < 8

theorem putBit_eq {buffer : List UInt8} {e : Encoder} (hw : e.WF) (b : Bool)
    (hroom : e.pos < 8 * buffer.length) :
    ∃ r, putBit buffer e b = some r ∧ r.2.WF ∧ r.2.pos = e.pos + 1 ∧
      r.1.length = buffer.length ∧ bytesBits r.1 = (bytesBits buffer).set e.pos b := by
  unfold Encoder.WF at hw
  unfold Encoder.pos at hroom ⊢
  have hlt : e.byte < buffer.length := by omega
  have hget : buffer[e.byte]? = some buffer[e.byte] := List.getElem?_eq_getElem hlt
  have hcursor : ∀ r : Encoder,
      r = (if e.bit + 1 = 8 then { byte := e.byte + 1, bit := 0 } else { e with bit := e.bit + 1 }) →
        r.WF ∧ r.pos = 8 * e.byte + e.bit + 1 := by
    rintro _ rfl
    unfold Encoder.WF Encoder.pos
    split
    · exact ⟨by simp only; omega, by simp only; omega⟩
    · exact ⟨by simp only; omega, by simp only; omega⟩
  rw [putBit, hget]
  refine ⟨_, rfl, (hcursor _ rfl).1, (hcursor _ rfl).2, List.length_set, ?_⟩
  refine bytesBits_set hget hw ?_
  cases b with
  | true => rw [if_pos rfl, byteBits_setBit _ _ (by omega), show 7 - (7 - e.bit) = e.bit by omega]
  | false =>
      rw [if_neg (by decide), byteBits_clearBit _ (by omega), show 7 - (7 - e.bit) = e.bit by omega]

/-- **A field replaces the bits that are in its place.** -/
theorem putBits_eq {n : ℕ} {value : ℤ} : ∀ {buffer : List UInt8} {e : Encoder}, e.WF →
    e.pos + n ≤ 8 * buffer.length →
    ∃ r, putBits buffer e value n = some r ∧ r.2.WF ∧ r.2.pos = e.pos + n ∧
      r.1.length = buffer.length ∧
      bytesBits r.1 = overwrite (bytesBits buffer) e.pos (fieldBits n value) := by
  induction n with
  | zero =>
      intro buffer e hw _
      exact ⟨(buffer, e), rfl, hw, rfl, rfl, (overwrite_nil _ _).symm⟩
  | succ n ih =>
      intro buffer e hw hroom
      have hbyte : e.pos < 8 * buffer.length := by omega
      obtain ⟨⟨buffer', e'⟩, hput, hw', hpos, hlen, hbits⟩ :=
        putBit_eq hw (decide (value / 2 ^ n % 2 = 1)) hbyte
      dsimp only at hw' hpos hlen hbits
      obtain ⟨r, hr, hwr, hposr, hlenr, hbitsr⟩ := ih hw' (by rw [hpos, hlen]; omega)
      refine ⟨r, ?_, hwr, by omega, hlenr.trans hlen, ?_⟩
      · rw [putBits, hput]
        exact hr
      · rw [hbitsr, hbits, hpos, overwrite_cons (by rw [bytesBits_length]; omega)]
        rfl

/-- The bits up to a position. -/
structure Holds (buffer : List UInt8) (e : Encoder) (size : ℕ) (out : List Bool) : Prop where
  wf : e.WF
  length : buffer.length = size
  pos : e.pos = out.length
  take : (bytesBits buffer).take out.length = out

section

variable {buffer : List UInt8} {e e' : Encoder} {size n : ℕ} {out : List Bool}

/-- A field at the end. -/
theorem Holds.putBits (h : Holds buffer e size out) (value : ℤ)
    (hroom : out.length + n ≤ 8 * size) :
    ∃ buffer' e', putBits buffer e value n = some (buffer', e') ∧
      Holds buffer' e' size (out ++ fieldBits n value) := by
  obtain ⟨⟨buffer', e'⟩, hput, hw, hpos, hlen, hbits⟩ :=
    putBits_eq h.wf (by rw [h.pos, h.length]; exact hroom)
  dsimp only at hw hpos hlen hbits
  refine ⟨buffer', e', hput, hw, hlen.trans h.length, ?_, ?_⟩
  · rw [hpos, h.pos, List.length_append, length_fieldBits]
  · have hle : out.length ≤ (bytesBits buffer).length := by
      rw [bytesBits_length, h.length]
      omega
    rw [hbits, h.pos, List.length_append, take_overwrite hle, h.take]

/-- A field further in front. -/
theorem Holds.patch (h : Holds buffer e size out) (hw : e'.WF) (value : ℤ)
    (hfront : e'.pos + n ≤ out.length) (hroom : out.length ≤ 8 * size) :
    ∃ buffer' e'', LteRlc.putBits buffer e' value n = some (buffer', e'') ∧
      Holds buffer' e size (overwrite out e'.pos (fieldBits n value)) := by
  have hroom' : e'.pos + n ≤ 8 * size := hfront.trans hroom
  obtain ⟨⟨buffer', e''⟩, hput, -, -, hlen, hbits⟩ :=
    putBits_eq hw (hroom'.trans_eq (by rw [h.length]))
  dsimp only at hlen hbits
  have hout : (overwrite out e'.pos (fieldBits n value)).length = out.length :=
    length_overwrite (by rwa [length_fieldBits])
  refine ⟨buffer', e'', hput, h.wf, hlen.trans h.length, h.pos.trans hout.symm, ?_⟩
  rw [hout, hbits, take_overwrite_of_le (by rwa [length_fieldBits])
    (by rw [bytesBits_length, h.length]; exact hroom), h.take]

/-! ## The stream -/

/-- A NACK in the PDU: NACK_SN, and SOstart and SOend. -/
structure NackField where
  sn : ℤ
  sos : Option (ℤ × ℤ)
deriving DecidableEq, Repr

/-- E2 and the SOs. -/
def NackField.soBits (f : NackField) : List Bool :=
  match f.sos with
  | none => [false]
  | some (soStart, soEnd) => true :: (fieldBits 15 soStart ++ fieldBits 15 soEnd)

def NackField.bits (e1 : Bool) (f : NackField) : List Bool :=
  fieldBits 10 f.sn ++ e1 :: f.soBits

/-- The NACKs, the last one with E1 as given. -/
def chain (e1 : Bool) : List NackField → List Bool
  | [] => []
  | f :: fs => f.bits (if fs = [] then e1 else true) ++ chain e1 fs

/-- D/C, CPT and ACK_SN. -/
def headerBits (ack : ℤ) : List Bool := fieldBits 1 0 ++ fieldBits 3 0 ++ fieldBits 10 ack

/-- The PDU, with the last E1 as given. -/
def stream (ack : ℤ) (e1 : Bool) (fs : List NackField) : List Bool :=
  headerBits ack ++ (if fs = [] then e1 else true) :: chain e1 fs

theorem length_headerBits (ack : ℤ) : (headerBits ack).length = 14 := by
  simp [headerBits]

theorem NackField.length_bits (e1 : Bool) (f : NackField) :
    (f.bits e1).length = 11 + f.soBits.length := by
  rw [NackField.bits, List.length_append, length_fieldBits, List.length_cons]
  omega

/-- The E1s do not count for the length. -/
theorem length_chain (e1 : Bool) (fs : List NackField) :
    (chain e1 fs).length = (fs.map fun f => 11 + f.soBits.length).sum := by
  induction fs with
  | nil => rfl
  | cons f fs ih => rw [chain, List.length_append, ih, f.length_bits, List.map_cons, List.sum_cons]

theorem length_stream (ack : ℤ) (e1 : Bool) (fs : List NackField) :
    (stream ack e1 fs).length = 15 + (fs.map fun f => 11 + f.soBits.length).sum := by
  rw [stream, List.length_append, length_headerBits, List.length_cons, length_chain]
  omega

theorem chain_append (e1 : Bool) (fs : List NackField) {gs : List NackField} (h : gs ≠ []) :
    chain e1 (fs ++ gs) = chain true fs ++ chain e1 gs := by
  induction fs with
  | nil => rfl
  | cons f fs ih =>
      rw [List.cons_append, chain, chain, ih, ite_self, List.append_assoc,
        if_neg (List.append_ne_nil_of_right_ne_nil fs h)]

theorem stream_append (ack : ℤ) (e1 : Bool) (fs : List NackField) {gs : List NackField}
    (h : gs ≠ []) : stream ack e1 (fs ++ gs) = stream ack true fs ++ chain e1 gs := by
  rw [stream, stream, chain_append e1 fs h, ite_self, List.append_assoc,
    if_neg (List.append_ne_nil_of_right_ne_nil fs h), List.cons_append]

/-- Where the last E1 is. -/
def e1Pos (fs : List NackField) : ℕ :=
  match fs.getLast? with
  | none => 14
  | some f => (stream 0 false fs).length - (1 + f.soBits.length)

/-- The last E1 in the stream. -/
theorem stream_split (ack : ℤ) (fs : List NackField) :
    ∃ as bs, (∀ e1, stream ack e1 fs = as ++ e1 :: bs) ∧ as.length = e1Pos fs := by
  rcases List.eq_nil_or_concat' fs with rfl | ⟨fs, f, rfl⟩
  · exact ⟨headerBits ack, [], fun e1 => rfl, length_headerBits ack⟩
  · refine ⟨stream ack true fs ++ fieldBits 10 f.sn, f.soBits, fun e1 => ?_, ?_⟩
    · rw [stream_append ack e1 fs (List.cons_ne_nil f []), chain, if_pos rfl, chain, List.append_nil,
        NackField.bits, List.append_assoc]
    · rw [e1Pos, List.getLast?_concat, List.length_append, length_fieldBits, length_stream,
        length_stream, List.map_append, List.sum_append, List.map_singleton, List.sum_singleton]
      simp only
      omega

/-- Setting the last E1. -/
theorem overwrite_e1 (ack : ℤ) (fs : List NackField) :
    overwrite (stream ack false fs) (e1Pos fs) (fieldBits 1 1) = stream ack true fs := by
  obtain ⟨as, bs, hsplit, hlen⟩ := stream_split ack fs
  rw [hsplit, hsplit, ← hlen]
  have hlen : [false].length = [true].length := rfl
  exact overwrite_append hlen

theorem e1Pos_lt (fs : List NackField) : e1Pos fs < (stream 0 false fs).length := by
  obtain ⟨as, bs, hsplit, hlen⟩ := stream_split 0 fs
  rw [hsplit, ← hlen, List.length_append, List.length_cons]
  omega

/-- Setting ACK_SN. -/
theorem overwrite_ack (ack : ℤ) (fs : List NackField) (pad : List Bool) :
    overwrite (stream 0 false fs ++ pad) 4 (fieldBits 10 ack) = stream ack false fs ++ pad := by
  unfold stream headerBits
  rw [List.append_assoc, List.append_assoc (fieldBits 1 0 ++ fieldBits 3 0),
    List.append_assoc, List.append_assoc (fieldBits 1 0 ++ fieldBits 3 0)]
  have hlen : (fieldBits 10 0).length = (fieldBits 10 ack).length := by simp
  exact @overwrite_append _ _ (fieldBits 1 0 ++ fieldBits 3 0) _ _ hlen

end

/-!
## LTE RLC AM: the STATUS PDU is written and read

The loop of `generate_status` leaves a stream behind; its fields are those of a function without a
buffer. The control branch of the receiver reads them back.
-/

open Serial

/-! ## The NACKs of one SN -/

/-- The NACKs of an SN that is not full. -/
def nackFields (list : List RxSegment) (sn : ℤ) : List NackField :=
  if countNackMissingParts list sn = 0 then [{ sn, sos := none }]
  else
    (missingParts sn (countNackMissingParts list sn) (-1) (fromSn sn list)).map fun part =>
      { sn, sos := some part }

variable {rx : AmRx} {s : StatusLoop} {sn : ℤ} {size n : ℕ} {fs : List NackField} {out : List Bool}

theorem length_missingParts (sn : ℤ) : ∀ (count : ℕ) (lastByte : ℤ) (l : List RxSegment),
    (missingParts sn count lastByte l).length = count := by
  intro count
  induction count with
  | zero => exact fun _ _ => rfl
  | succ count ih =>
      intro lastByte l
      rw [missingParts]
      split
      · rw [List.length_cons, ih]
      · rw [List.length_cons, ih]

theorem nackFields_ne_nil (list : List RxSegment) (sn : ℤ) : nackFields list sn ≠ [] := by
  unfold nackFields
  split
  · exact List.cons_ne_nil _ _
  · rename_i h
    rw [Ne, List.map_eq_nil_iff, ← List.length_eq_zero_iff, length_missingParts]
    exact h

/-- The bits that `generate_status` counts. -/
theorem sum_nackFields (list : List RxSegment) (sn : ℤ) :
    ((nackFields list sn).map fun f => 11 + f.soBits.length).sum = nackBits list sn := by
  unfold nackFields nackBits
  split
  · rfl
  · have hlen : (fun part : ℤ × ℤ =>
        11 + ({ sn, sos := some part } : NackField).soBits.length) = fun _ => 42 := by
      funext part
      simp [NackField.soBits]
    rw [List.map_map]
    change ((missingParts sn _ (-1) (fromSn sn list)).map fun part =>
      11 + ({ sn, sos := some part } : NackField).soBits.length).sum = _
    rw [hlen, List.map_const', List.sum_replicate, length_missingParts]
    rfl

theorem length_stream_append (fs : List NackField) (list : List RxSegment) (sn : ℤ) :
    (stream 0 false (fs ++ nackFields list sn)).length =
      (stream 0 false fs).length + nackBits list sn := by
  rw [length_stream, length_stream, List.map_append, List.sum_append, sum_nackFields]
  omega

/-- The loop over the parts. -/
theorem putParts_eq : ∀ {parts : List (ℤ × ℤ)} {s : StatusLoop} {out : List Bool}, parts ≠ [] →
    Holds s.buffer s.encoder size out → out.length + parts.length * 42 ≤ 8 * size →
    ∃ s', putParts sn s parts = some s' ∧
      Holds s'.buffer s'.encoder size
        (out ++ chain false (parts.map fun part => { sn, sos := some part })) ∧
      s'.previousE1.WF ∧ s'.previousE1.pos + 32 = s'.encoder.pos ∧ s'.ack = s.ack := by
  intro parts
  induction parts with
  | nil => exact fun h => absurd rfl h
  | cons part parts ih =>
      obtain ⟨soStart, soEnd⟩ := part
      intro s out _ h hroom
      rw [List.length_cons] at hroom
      obtain ⟨buffer₁, e₁, hput₁, h₁⟩ := h.putBits (n := 10) sn (by omega)
      have hlen₁ : (out ++ fieldBits 10 sn).length = out.length + 10 := by simp
      obtain ⟨buffer₂, e₂, hput₂, h₂⟩ :=
        h₁.putBits (n := 1) (if parts = [] then 0 else 1) (by omega)
      have hlen₂ : (out ++ fieldBits 10 sn ++ fieldBits 1 (if parts = [] then 0 else 1)).length =
          out.length + 11 := by simp
      obtain ⟨buffer₃, e₃, hput₃, h₃⟩ := h₂.putBits (n := 1) 1 (by omega)
      have hlen₃ : (out ++ fieldBits 10 sn ++ fieldBits 1 (if parts = [] then 0 else 1) ++
          fieldBits 1 1).length = out.length + 12 := by simp
      obtain ⟨buffer₄, e₄, hput₄, h₄⟩ := h₃.putBits (n := 15) soStart (by omega)
      have hlen₄ : (out ++ fieldBits 10 sn ++ fieldBits 1 (if parts = [] then 0 else 1) ++
          fieldBits 1 1 ++ fieldBits 15 soStart).length = out.length + 27 := by simp
      obtain ⟨buffer₅, e₅, hput₅, h₅⟩ := h₄.putBits (n := 15) soEnd (by omega)
      have hlen₅ : (out ++ fieldBits 10 sn ++ fieldBits 1 (if parts = [] then 0 else 1) ++
          fieldBits 1 1 ++ fieldBits 15 soStart ++ fieldBits 15 soEnd).length =
            out.length + 42 := by simp
      have hstep : putParts sn s ((soStart, soEnd) :: parts) = putParts sn
          { s with buffer := buffer₅, encoder := e₅, previousE1 := e₁ } parts := by
        simp only [putParts, hput₁, hput₂, hput₃, hput₄, hput₅, Option.bind_eq_bind,
          Option.bind_some]
      rw [hstep]
      have hpart : out ++ fieldBits 10 sn ++ fieldBits 1 (if parts = [] then 0 else 1) ++
          fieldBits 1 1 ++ fieldBits 15 soStart ++ fieldBits 15 soEnd =
            out ++ NackField.bits (if parts = [] then false else true)
              { sn, sos := some (soStart, soEnd) } := by
        simp only [NackField.bits, NackField.soBits, List.append_assoc]
        split <;> rfl
      by_cases hnil : parts = []
      · subst hnil
        refine ⟨_, rfl, ?_, h₁.wf, ?_, rfl⟩
        · rw [List.map_singleton, chain, chain, List.append_nil, if_pos rfl]
          rw [if_pos (c := ([] : List (ℤ × ℤ)) = []) rfl] at hpart
          exact hpart ▸ h₅
        · rw [h₁.pos, h₅.pos, hlen₁, hlen₅]
      · obtain ⟨s', hs', hholds, hw, hpos, hack⟩ := ih
          (s := { s with buffer := buffer₅, encoder := e₅, previousE1 := e₁ }) hnil h₅ (by omega)
        refine ⟨s', hs', ?_, hw, hpos, hack⟩
        rw [hpart, if_neg hnil, List.append_assoc] at hholds
        rw [List.map_cons, chain, if_neg (by rwa [List.map_eq_nil_iff])]
        exact hholds

/-! ## The loop -/

/-- The state of the loop: the stream of the NACKs so far. -/
structure At (s : StatusLoop) (size : ℕ) (fs : List NackField) : Prop where
  holds : Holds s.buffer s.encoder size (stream 0 false fs)
  wf : s.previousE1.WF
  pos : s.previousE1.pos = e1Pos fs
  bits : s.bits = (stream 0 false fs).length
  room : s.bits ≤ 8 * size

theorem putNacks_eq (h : At s size fs) (hroom : s.bits + nackBits rx.rxList sn ≤ 8 * size) :
    ∃ s', putNacks rx sn s = some s' ∧ s'.ack = s.ack ∧
      At { s' with bits := s.bits + nackBits rx.rxList sn } size
        (fs ++ nackFields rx.rxList sn) := by
  have hlt := e1Pos_lt fs
  have hbits := h.bits
  obtain ⟨buffer, e, hpatch, hpatched⟩ := h.holds.patch (n := 1) h.wf 1
    (by rw [h.pos]; exact hlt) (h.bits ▸ h.room)
  rw [h.pos, overwrite_e1] at hpatched
  have hlen : (stream 0 true fs).length = s.bits := by rw [h.bits, length_stream, length_stream]
  have hstream := stream_append 0 false fs (nackFields_ne_nil rx.rxList sn)
  have hlength := length_stream_append fs rx.rxList sn
  have hpos : ∀ e1 : Encoder, ∀ f,
      (fs ++ nackFields rx.rxList sn).getLast? = some f →
      e1.pos + (1 + f.soBits.length) = s.bits + nackBits rx.rxList sn →
      e1.pos = e1Pos (fs ++ nackFields rx.rxList sn) := by
    intro e1 f hlast he1
    rw [e1Pos, hlast, hlength, ← h.bits]
    simp only
    omega
  by_cases hcount : countNackMissingParts rx.rxList sn = 0
  · have hfields : nackFields rx.rxList sn = [{ sn, sos := none }] := if_pos hcount
    have hnack : nackBits rx.rxList sn = 12 := if_pos hcount
    obtain ⟨buffer₁, e₁, hput₁, h₁⟩ := hpatched.putBits (n := 10) sn (by omega)
    have hlen₁ : (stream 0 true fs ++ fieldBits 10 sn).length = s.bits + 10 := by simp [hlen]
    obtain ⟨buffer₂, e₂, hput₂, h₂⟩ := h₁.putBits (n := 2) 0 (by omega)
    have hput : putNacks rx sn s =
        some { s with buffer := buffer₂, encoder := e₂, previousE1 := e₁ } := by
      simp only [putNacks, hpatch, hcount, hput₁, hput₂, Option.bind_eq_bind, Option.bind_some,
        if_true]
    refine ⟨_, hput, rfl, ?_⟩
    have hbits₂ : stream 0 true fs ++ fieldBits 10 sn ++ fieldBits 2 0 =
        stream 0 false (fs ++ nackFields rx.rxList sn) := by
      rw [hstream, hfields, List.append_assoc]
      rfl
    constructor
    case holds => exact hbits₂ ▸ h₂
    case wf => exact h₁.wf
    case pos =>
      refine hpos e₁ { sn, sos := none } (by rw [hfields, List.getLast?_concat]) ?_
      rw [h₁.pos, hlen₁, hnack]
      rfl
    case bits => rw [hlength, ← h.bits]
    case room => exact hroom
  · have hfields : nackFields rx.rxList sn =
        (missingParts sn (countNackMissingParts rx.rxList sn) (-1) (fromSn sn rx.rxList)).map
          fun part => { sn, sos := some part } := if_neg hcount
    have hnack : nackBits rx.rxList sn = countNackMissingParts rx.rxList sn * 42 := if_neg hcount
    have hparts : missingParts sn (countNackMissingParts rx.rxList sn) (-1)
        (fromSn sn rx.rxList) ≠ [] := by
      rw [Ne, ← List.length_eq_zero_iff, length_missingParts]
      exact hcount
    obtain ⟨s', hs', hholds, hw, hlast, hack⟩ := putParts_eq (s := { s with buffer })
      hparts hpatched (by rw [length_missingParts]; omega)
    have hput : putNacks rx sn s = some s' := by
      simp only [putNacks, hpatch, hcount, Option.bind_eq_bind, Option.bind_some, if_false]
      exact hs'
    rw [← hfields, ← hstream] at hholds
    refine ⟨s', hput, hack, ?_⟩
    constructor
    case holds => exact hholds
    case wf => exact hw
    case pos =>
      obtain ⟨part, hpart⟩ : ∃ part, (missingParts sn (countNackMissingParts rx.rxList sn) (-1)
          (fromSn sn rx.rxList)).getLast? = some part :=
        Option.ne_none_iff_exists'.mp fun hnone => hparts (List.getLast?_eq_none_iff.mp hnone)
      refine hpos s'.previousE1 { sn, sos := some part } ?_ ?_
      · rw [List.getLast?_append_of_ne_nil _ (nackFields_ne_nil _ _), hfields, List.getLast?_map,
          hpart]
        rfl
      · have hsos : ({ sn, sos := some part } : NackField).soBits.length = 31 := by
          simp [NackField.soBits]
        rw [hsos, hlast, hholds.pos, hlength, ← h.bits]
    case bits => rw [hlength, ← h.bits]
    case room => exact hroom

/-- The NACKs and ACK_SN, without a buffer: `n` SNs from `sn` on. -/
def statusFields (list : List RxSegment) (size : ℕ) : ℕ → ℤ → ℕ → ℤ → List NackField × ℤ
  | 0, _, _, ack => ([], ack)
  | n + 1, sn, bits, ack =>
      if segmentFull list sn then
        statusFields list size n ((sn + 1) % 1024) bits ((sn + 1) % 1024)
      else if bits + nackBits list sn > size then ([], ack)
      else
        let rest := statusFields list size n ((sn + 1) % 1024) (bits + nackBits list sn) ack
        (nackFields list sn ++ rest.1, rest.2)

/-- The state variables are SNs. -/
structure AmRx.IsSn (rx : AmRx) : Prop where
  vrR_nonneg : 0 ≤ rx.vrR
  vrR_lt : rx.vrR < 1024
  vrMs_nonneg : 0 ≤ rx.vrMs
  vrMs_lt : rx.vrMs < 1024

theorem modulusRx_eq (h : rx.IsSn) (h0 : 0 ≤ sn) (hlt : sn < 1024) :
    modulusRx rx sn = rel 1024 rx.vrR sn :=
  sub_wrap_eq_rel h.vrR_nonneg h.vrR_lt h0 hlt

/-- **The loop over the SNs** comes to its end and leaves the stream of the fields. -/
theorem statusLoop_eq (h : rx.IsSn) : ∀ {fuel : ℕ} {sn : ℤ} {s : StatusLoop} {fs : List NackField},
    At s size fs → 0 ≤ sn → sn < 1024 → n ≤ fuel →
    rel 1024 rx.vrR sn + n = rel 1024 rx.vrR rx.vrMs →
    ∃ s', statusLoop rx (8 * size) fuel sn s = some s' ∧
      At s' size (fs ++ (statusFields rx.rxList (8 * size) n sn s.bits s.ack).1) ∧
      s'.ack = (statusFields rx.rxList (8 * size) n sn s.bits s.ack).2 := by
  have hms := modulusRx_eq h h.vrMs_nonneg h.vrMs_lt
  have hlt := rel_lt (by decide : (0 : ℤ) < 1024) rx.vrR rx.vrMs
  induction n with
  | zero =>
      intro fuel sn s fs hat h0 h1 _ hrel
      have hsn := modulusRx_eq h h0 h1
      refine ⟨s, ?_, by rwa [statusFields, List.append_nil], rfl⟩
      cases fuel with
      | zero => rfl
      | succ fuel =>
          rw [statusLoop, snCompareRx, hsn, hms, if_neg (by omega)]
  | succ n ih =>
      intro fuel sn s fs hat h0 h1 hfuel hrel
      obtain ⟨fuel, rfl⟩ := Nat.exists_eq_add_of_lt (Nat.zero_lt_of_lt hfuel)
      rw [Nat.zero_add] at hfuel ⊢
      have hsn := modulusRx_eq h h0 h1
      have hnext : rel 1024 rx.vrR ((sn + 1) % 1024) = rel 1024 rx.vrR sn + 1 :=
        rel_succ (by decide) (by omega)
      have hn0 : 0 ≤ (sn + 1) % 1024 := Int.emod_nonneg _ (by decide)
      have hn1 : (sn + 1) % 1024 < 1024 := Int.emod_lt_of_pos _ (by decide)
      rw [statusLoop, snCompareRx, hsn, hms, if_pos (by omega), statusFields]
      by_cases hfull : segmentFull rx.rxList sn = true
      · rw [if_pos hfull, if_pos hfull]
        exact ih (s := { s with ack := (sn + 1) % 1024 })
          ⟨hat.holds, hat.wf, hat.pos, hat.bits, hat.room⟩ hn0 hn1 (by omega) (by omega)
      · rw [if_neg hfull, if_neg hfull]
        by_cases hroom : s.bits + nackBits rx.rxList sn > 8 * size
        · rw [if_pos hroom, if_pos hroom]
          exact ⟨s, rfl, by rwa [List.append_nil], rfl⟩
        · rw [if_neg hroom, if_neg hroom]
          obtain ⟨s₁, hs₁, hack₁, hat₁⟩ := putNacks_eq hat (not_lt.mp hroom)
          obtain ⟨s', hs', hat', hack'⟩ := ih hat₁ hn0 hn1 (Nat.lt_succ_iff.mp hfuel) (by omega)
          refine ⟨s', ?_, ?_, ?_⟩
          · rw [hs₁]
            exact hs'
          · rw [List.append_assoc] at hat'
            simpa only [hack₁] using hat'
          · simpa only [hack₁] using hack'

/-! ## The PDU -/

/-- What `generate_status` puts in the PDU for a grant of `size` bytes. -/
def sentFields (rx : AmRx) (size : ℕ) : List NackField × ℤ :=
  statusFields rx.rxList (8 * size) (rel 1024 rx.vrR rx.vrMs).toNat rx.vrR 15 rx.vrR

/-- The header, before the loop. -/
theorem putHeader_eq (buffer : List UInt8) (h2 : 2 ≤ buffer.length) :
    ∃ b₁ e₁ b₂ e₂ b₃ e₃ b₄ e₄, putBits buffer {} 0 1 = some (b₁, e₁) ∧
      putBits b₁ e₁ 0 3 = some (b₂, e₂) ∧ putBits b₂ e₂ 0 10 = some (b₃, e₃) ∧
      putBits b₃ e₃ 0 1 = some (b₄, e₄) ∧ Holds b₄ e₄ buffer.length (stream 0 false []) ∧
      e₂.WF ∧ e₂.pos = 4 ∧ e₃.WF ∧ e₃.pos = 14 := by
  have h₀ : Holds buffer {} buffer.length [] := ⟨Nat.zero_lt_succ 7, rfl, rfl, rfl⟩
  obtain ⟨b₁, e₁, hput₁, h₁⟩ := h₀.putBits (n := 1) 0 (by simp; omega)
  obtain ⟨b₂, e₂, hput₂, h₂⟩ := h₁.putBits (n := 3) 0 (by simp; omega)
  obtain ⟨b₃, e₃, hput₃, h₃⟩ := h₂.putBits (n := 10) 0 (by simp; omega)
  obtain ⟨b₄, e₄, hput₄, h₄⟩ := h₃.putBits (n := 1) 0 (by simp; omega)
  refine ⟨b₁, e₁, b₂, e₂, b₃, e₃, b₄, e₄, hput₁, hput₂, hput₃, hput₄, h₄, h₂.wf, ?_, h₃.wf, ?_⟩
  · rw [h₂.pos]
    simp
  · rw [h₃.pos]
    simp

/-- The padding at the end. -/
theorem align_eq {buffer : List UInt8} {e : Encoder} (h : Holds buffer e size out)
    (hroom : out.length ≤ 8 * size) :
    ∃ buffer' e' pad, align buffer e = some (buffer', e') ∧ Holds buffer' e' size (out ++ pad) ∧
      8 * e'.byte = (out ++ pad).length := by
  have hw : e.bit < 8 := h.wf
  have hpos : 8 * e.byte + e.bit = out.length := h.pos
  unfold align
  by_cases hbit : e.bit = 0
  · exact ⟨buffer, e, [], if_pos hbit, by rwa [List.append_nil], by rw [List.append_nil]; omega⟩
  · obtain ⟨buffer', e', hput, hholds⟩ := h.putBits (n := 8 - e.bit) 0 (by omega)
    refine ⟨buffer', e', _, by rw [if_neg hbit, hput], hholds, ?_⟩
    have hw' : e'.bit < 8 := hholds.wf
    have hpos' : 8 * e'.byte + e'.bit = _ := hholds.pos
    rw [List.length_append, length_fieldBits] at hpos' ⊢
    omega

/-- **The PDU fits in the grant**, and its bits are those of the fields. -/
theorem generateStatus_eq (h : rx.IsSn) {buffer : List UInt8} (h2 : 2 ≤ buffer.length) :
    ∃ buffer' n pad, generateStatus rx buffer = some (buffer', n) ∧ n ≤ buffer.length ∧
      buffer'.length = buffer.length ∧
      bytesBits (buffer'.take n) =
        stream (sentFields rx buffer.length).2 false (sentFields rx buffer.length).1 ++ pad := by
  obtain ⟨b₁, e₁, b₂, encoderAck, b₃, previousE1, b₄, e₄, hput₁, hput₂, hput₃, hput₄, hholds,
    hackWf, hackPos, he1Wf, he1Pos⟩ := putHeader_eq buffer h2
  have hat : At { buffer := b₄, encoder := e₄, previousE1, bits := 15, ack := rx.vrR }
      buffer.length [] := ⟨hholds, he1Wf, he1Pos, rfl, by simp only; omega⟩
  have hnonneg := rel_nonneg (by decide : (0 : ℤ) < 1024) rx.vrR rx.vrMs
  have hlt := rel_lt (by decide : (0 : ℤ) < 1024) rx.vrR rx.vrMs
  have hfuel : (rel 1024 rx.vrR rx.vrMs).toNat ≤ 1024 := by omega
  obtain ⟨s', hloop, hat', hack⟩ := statusLoop_eq (n := (rel 1024 rx.vrR rx.vrMs).toNat) h
    hat h.vrR_nonneg h.vrR_lt hfuel (by rw [rel_self]; omega)
  have hat' : At s' buffer.length (sentFields rx buffer.length).1 := hat'
  have hack : s'.ack = (sentFields rx buffer.length).2 := hack
  obtain ⟨b₅, e₅, pad, halign, haligned, hbyte⟩ := align_eq hat'.holds (hat'.bits ▸ hat'.room)
  have hfits : (stream 0 false (sentFields rx buffer.length).1 ++ pad).length ≤
      8 * buffer.length := by
    have hlen := congrArg List.length haligned.take
    rw [List.length_take, bytesBits_length, haligned.length] at hlen
    exact hlen ▸ Nat.min_le_right _ _
  have hfront : 14 ≤ (stream 0 false (sentFields rx buffer.length).1 ++ pad).length := by
    rw [List.length_append, length_stream]
    omega
  obtain ⟨b₆, e₆, hput₆, hpatched⟩ := haligned.patch (n := 10) hackWf s'.ack
    (by rw [hackPos]; exact hfront) hfits
  refine ⟨b₆, e₅.byte, pad, ?_, by omega, hpatched.length, ?_⟩
  · unfold generateStatus
    rw [if_neg (by omega)]
    simp only [hput₁, hput₂, hput₃, hput₄, hloop, halign, hput₆, Option.bind_eq_bind,
      Option.bind_some]
  · rw [hackPos, overwrite_ack, hack] at hpatched
    have hlen : (stream (sentFields rx buffer.length).2 false (sentFields rx buffer.length).1 ++
        pad).length = 8 * e₅.byte := by
      rw [hbyte, List.length_append, List.length_append, length_stream, length_stream]
    rw [bytesBits_take, ← hlen]
    exact hpatched.take

/-! ## The PDU is read -/

/-- The NACK as the receiver of the PDU processes it. -/
def NackField.toNack (f : NackField) : Nack :=
  match f.sos with
  | none => { sn := (f.sn % 2 ^ 10).toNat, soStart := 0, soEnd := -1 }
  | some (soStart, soEnd) =>
      let sos := correctedSos (soStart % 2 ^ 15).toNat (soEnd % 2 ^ 15).toNat
      { sn := (f.sn % 2 ^ 10).toNat, soStart := sos.1, soEnd := sos.2 }

theorem ofBits_field (n : ℕ) (value : ℤ) : ofBits (fieldBits n value) = (value % 2 ^ n).toNat := by
  rw [← ofBits_fieldBits, Int.toNat_natCast]

/-- A field is read. -/
theorem getBits_field {d : Decoder} {value : ℤ} {tl : List Bool} (hw : d.WF)
    (h : d.rest = fieldBits n value ++ tl) :
    ∃ d', d.getBits n = some ((value % 2 ^ n).toNat, d') ∧ d'.rest = tl ∧ d'.WF := by
  obtain ⟨d', hget, hrest, hw', -, -⟩ := d.getBits_append hw h (length_fieldBits n value)
  exact ⟨d', by rw [hget, ofBits_field], hrest, hw'⟩

/-- A bit is read. -/
theorem getBits_bit {d : Decoder} {b : Bool} {tl : List Bool} (hw : d.WF) (h : d.rest = b :: tl) :
    ∃ d', d.getBits 1 = some (b.toNat, d') ∧ d'.rest = tl ∧ d'.WF := by
  obtain ⟨d', hget, hrest, hw', -, -⟩ := d.getBits_append hw (List.singleton_append ▸ h) rfl
  refine ⟨d', hget.trans ?_, hrest, hw'⟩
  cases b <;> rfl

theorem readNack_eq {d : Decoder} {e1 : Bool} {f : NackField} {tl : List Bool} (hw : d.WF)
    (h : d.rest = f.bits e1 ++ tl) :
    ∃ d', readNack d = some (f.toNack, e1, d') ∧ d'.rest = tl ∧ d'.WF := by
  obtain ⟨sn, sos⟩ := f
  rw [NackField.bits, List.append_assoc, List.cons_append] at h
  obtain ⟨d₁, hget₁, hrest₁, hw₁⟩ := getBits_field hw h
  obtain ⟨d₂, hget₂, hrest₂, hw₂⟩ := getBits_bit hw₁ hrest₁
  have he1 : (e1.toNat == 1) = e1 := by cases e1 <;> rfl
  unfold readNack NackField.toNack
  cases sos with
  | none =>
      obtain ⟨d₃, hget₃, hrest₃, hw₃⟩ := getBits_bit hw₂ hrest₂
      refine ⟨d₃, ?_, hrest₃, hw₃⟩
      simp [hget₁, hget₂, hget₃, he1]
  | some sos =>
      obtain ⟨soStart, soEnd⟩ := sos
      rw [NackField.soBits, List.cons_append, List.append_assoc] at hrest₂
      obtain ⟨d₃, hget₃, hrest₃, hw₃⟩ := getBits_bit hw₂ hrest₂
      obtain ⟨d₄, hget₄, hrest₄, hw₄⟩ := getBits_field hw₃ hrest₃
      obtain ⟨d₅, hget₅, hrest₅, hw₅⟩ := getBits_field hw₄ hrest₄
      refine ⟨d₅, ?_, hrest₅, hw₅⟩
      simp [hget₁, hget₂, hget₃, hget₄, hget₅, he1]

theorem readNacks_eq {pad : List Bool} : ∀ {fs : List NackField} {fuel : ℕ} {d : Decoder}, d.WF →
    d.rest = chain false fs ++ pad → fs.length ≤ fuel →
    readNacks fuel (decide (fs ≠ [])) d = some (fs.map NackField.toNack) := by
  intro fs
  induction fs with
  | nil =>
      intro fuel d _ _ _
      cases fuel <;> rfl
  | cons f fs ih =>
      intro fuel d hw h hfuel
      obtain ⟨fuel, rfl⟩ := Nat.exists_eq_add_of_lt (Nat.zero_lt_of_lt hfuel)
      rw [Nat.zero_add, List.length_cons] at hfuel
      rw [chain, List.append_assoc] at h
      obtain ⟨d', hread, hrest, hw'⟩ := readNack_eq hw h
      have he1 : (if fs = [] then false else true) = decide (fs ≠ []) := by
        by_cases hnil : fs = [] <;> simp [hnil]
      rw [he1] at hread
      have hnacks := ih hw' hrest (Nat.le_of_succ_le_succ hfuel)
      rw [Nat.zero_add, decide_eq_true (List.cons_ne_nil f fs), readNacks, hread]
      simp only [Option.bind_eq_bind, Option.bind_some, hnacks]
      rfl

/-- **The control branch reads the fields back.** -/
theorem readControl_eq {buffer : List UInt8} {ack : ℤ} {pad : List Bool}
    (h : bytesBits buffer = stream ack false fs ++ pad) :
    readControl buffer = some ((ack % 2 ^ 10).toNat, fs.map NackField.toNack) := by
  have hw : (decoderInit buffer).WF := by
    unfold decoderInit Decoder.WF
    simp
  have hrest : (decoderInit buffer).rest = bytesBits buffer := rfl
  rw [h, stream, headerBits, List.append_assoc, List.append_assoc, List.append_assoc] at hrest
  obtain ⟨d₁, hget₁, hrest₁, hw₁⟩ := getBits_field hw hrest
  obtain ⟨d₂, hget₂, hrest₂, hw₂⟩ := getBits_field hw₁ hrest₁
  obtain ⟨d₃, hget₃, hrest₃, hw₃⟩ := getBits_field hw₂ hrest₂
  obtain ⟨d₄, hget₄, hrest₄, hw₄⟩ := getBits_bit hw₃ hrest₃
  have hfuel : fs.length ≤ buffer.length := by
    have hlen := congrArg List.length h
    rw [bytesBits_length, List.length_append, length_stream] at hlen
    have hsum : ∀ fs : List NackField,
        8 * fs.length ≤ (fs.map fun f => 11 + f.soBits.length).sum := by
      intro fs
      induction fs with
      | nil => exact le_rfl
      | cons f fs ih =>
          rw [List.map_cons, List.sum_cons, List.length_cons]
          omega
    have := hsum fs
    omega
  have hnacks := readNacks_eq hw₄ hrest₄ hfuel
  have he1 : ((if fs = [] then false else true).toNat == 1) = decide (fs ≠ []) := by
    by_cases hnil : fs = [] <;> simp [hnil]
  unfold readControl
  simp only [hget₁, hget₂, hget₃, hget₄, Option.bind_eq_bind, Option.bind_some, he1, hnacks]
  rfl

end OaiCu.LteRlc
