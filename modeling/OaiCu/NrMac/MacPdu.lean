import Mathlib.Data.List.Basic
import Mathlib.Algebra.Ring.Int.Defs
import Mathlib.Algebra.Ring.Nat

/-!
# MAC PDUs

A MAC PDU is a row of subPDUs and padding. The LCID of a subheader tells how long the payload is, or
that there is an L field.
-/

namespace OaiCu.NrMac

/-- The LCID of a subheader. -/
def lcidOf (octet : UInt8) : ℕ := octet.toNat % 64

/-- The F bit of a subheader. -/
def fBit (octet : UInt8) : Bool := octet.toNat.testBit 6

/-- get_mac_len: the length of the payload and of the subheader, if the subheader is complete. -/
def getMacLen : List UInt8 → Option (ℕ × ℕ)
  | s :: l :: rest =>
      if fBit s then
        match rest with
        | l' :: _ => some (256 * l.toNat + l'.toNat, 3)
        | [] => none
      else some (l.toNat, 2)
  | _ => none

/-- UL_SCH_LCID_PADDING and DL_SCH_LCID_PADDING. -/
def lcidPadding : ℕ := 0x3F

/-- How the length of a payload is known. -/
inductive PayloadLen
  | fixed (len : ℕ)
  | inLField
  deriving DecidableEq, Repr

/-- The first octet of a subheader and the payload. -/
structure SubPdu where
  octet : UInt8
  payload : List UInt8
  deriving DecidableEq, Repr

namespace SubPdu

def lcid (s : SubPdu) : ℕ := lcidOf s.octet

def lField (s : SubPdu) : List UInt8 :=
  if fBit s.octet then
    [UInt8.ofNat (s.payload.length / 256), UInt8.ofNat (s.payload.length % 256)]
  else [UInt8.ofNat s.payload.length]

def header (s : SubPdu) : PayloadLen → List UInt8
  | .fixed _ => [s.octet]
  | .inLField => s.octet :: s.lField

def encode (s : SubPdu) (len : PayloadLen) : List UInt8 := s.header len ++ s.payload

/-- The length of the payload can be told. -/
def Fits (s : SubPdu) : PayloadLen → Prop
  | .fixed len => s.payload.length = len
  | .inLField => s.payload.length < if fBit s.octet then 65536 else 256

end SubPdu

variable {lens : ℕ → Option PayloadLen} {pdu rest : List UInt8} {s : SubPdu} {subs : List SubPdu}
  {len : PayloadLen}

/-- A row of subPDUs, and padding. -/
inductive WellFormed (lens : ℕ → Option PayloadLen) : List UInt8 → List SubPdu → Prop
  | empty : WellFormed lens [] []
  | padding {b : UInt8} {bs : List UInt8} (hb : lcidOf b = lcidPadding) : WellFormed lens (b :: bs) []
  | subPdu {s : SubPdu} {len : PayloadLen} {rest : List UInt8} {subs : List SubPdu}
      (hlen : lens s.lcid = some len) (hfit : s.Fits len) (hrest : WellFormed lens rest subs) :
      WellFormed lens (s.encode len ++ rest) (s :: subs)

/-- The lengths of the subheader and of the payload at the front of a PDU. -/
def subheaderAt (lens : ℕ → Option PayloadLen) : List UInt8 → Option (ℕ × ℕ)
  | [] => none
  | b :: bs =>
      match lens (lcidOf b) with
      | none => none
      | some (.fixed len) => some (1, len)
      | some .inLField => (getMacLen (b :: bs)).map Prod.swap

/-- The LCIDs and the payloads of a PDU, if every subPDU is wholly in it. -/
def readPdu (lens : ℕ → Option PayloadLen) : List UInt8 → Option (List (ℕ × List UInt8))
  | [] => some []
  | b :: bs =>
      if lcidOf b = lcidPadding then some []
      else
        match subheaderAt lens (b :: bs) with
        | none => none
        | some (hdr, macLen) =>
            if hdr + macLen ≤ (b :: bs).length then
              (readPdu lens (bs.drop (hdr + macLen - 1))).map
                ((lcidOf b, ((b :: bs).drop hdr).take macLen) :: ·)
            else none
termination_by pdu => pdu.length
decreasing_by
  simp only [List.length_drop, List.length_cons]
  omega

theorem getMacLen_pos {l : ℕ × ℕ} (h : getMacLen pdu = some l) : 2 ≤ l.2 := by
  revert h
  fun_cases getMacLen pdu <;> intro h <;> cases h
  · exact Nat.le_succ 2
  · exact Nat.le_refl 2

theorem subheaderAt_pos {hdr macLen : ℕ} (h : subheaderAt lens pdu = some (hdr, macLen)) :
    1 ≤ hdr := by
  cases pdu with
  | nil => cases h
  | cons b bs =>
      rw [subheaderAt] at h
      cases hlen : lens (lcidOf b) with
      | none => rw [hlen] at h; cases h
      | some len =>
          rw [hlen] at h
          cases len with
          | fixed len => cases h; exact Nat.le_refl 1
          | inLField =>
              obtain ⟨l, hl, hswap⟩ := Option.map_eq_some_iff.mp h
              cases hswap
              exact Nat.le_of_succ_le (getMacLen_pos hl)

theorem getMacLen_encode (hfit : s.Fits .inLField) (rest : List UInt8) :
    getMacLen (s.encode .inLField ++ rest) =
      some (s.payload.length, (s.header .inLField).length) := by
  rw [SubPdu.Fits] at hfit
  simp only [SubPdu.encode, SubPdu.header, SubPdu.lField]
  cases hf : fBit s.octet with
  | true =>
      rw [hf, if_pos rfl] at hfit
      simp only [if_true, List.cons_append, List.nil_append, getMacLen, hf, UInt8.toNat_ofNat',
        List.length_cons, List.length_nil]
      rw [Nat.mod_eq_of_lt (show s.payload.length / 256 < 2 ^ 8 by omega),
        Nat.mod_eq_of_lt (show s.payload.length % 256 < 2 ^ 8 by omega), Nat.div_add_mod]
  | false =>
      rw [hf, if_neg Bool.false_ne_true] at hfit
      simp only [Bool.false_eq_true, if_false, List.cons_append, List.nil_append, getMacLen, hf,
        UInt8.toNat_ofNat', List.length_cons, List.length_nil]
      rw [Nat.mod_eq_of_lt (show s.payload.length < 2 ^ 8 from hfit)]

theorem SubPdu.header_eq_cons (s : SubPdu) (len : PayloadLen) :
    ∃ l, s.header len = s.octet :: l := by
  cases len with
  | fixed len => exact ⟨[], rfl⟩
  | inLField => exact ⟨s.lField, rfl⟩

theorem subheaderAt_encode (hlen : lens s.lcid = some len) (hfit : s.Fits len)
    (rest : List UInt8) :
    subheaderAt lens (s.encode len ++ rest) = some ((s.header len).length, s.payload.length) := by
  cases len with
  | fixed len =>
      have hcons : s.encode (.fixed len) ++ rest = s.octet :: (s.payload ++ rest) := rfl
      rw [hcons, subheaderAt, show lens (lcidOf s.octet) = some (.fixed len) from hlen]
      rw [SubPdu.Fits] at hfit
      simp only [SubPdu.header, List.length_singleton, hfit]
  | inLField =>
      have hmac := getMacLen_encode hfit rest
      have hcons : s.encode .inLField ++ rest =
          s.octet :: (s.lField ++ s.payload ++ rest) := rfl
      rw [hcons] at hmac ⊢
      rw [subheaderAt, show lens (lcidOf s.octet) = some .inLField from hlen]
      simp only [hmac, Option.map_some, Prod.swap_prod_mk]

theorem drop_cons_of_pos {α : Type*} {n : ℕ} (h : 1 ≤ n) (b : α) (bs : List α) :
    (b :: bs).drop n = bs.drop (n - 1) := by
  conv_lhs => rw [← Nat.sub_add_cancel h, List.drop_succ_cons]

theorem readPdu_of_subheaderAt {b : UInt8} {bs : List UInt8} {hdr macLen : ℕ}
    (hb : lcidOf b ≠ lcidPadding) (h : subheaderAt lens (b :: bs) = some (hdr, macLen)) :
    readPdu lens (b :: bs) =
      if hdr + macLen ≤ (b :: bs).length then
        (readPdu lens ((b :: bs).drop (hdr + macLen))).map
          ((lcidOf b, ((b :: bs).drop hdr).take macLen) :: ·)
      else none := by
  have hpos := subheaderAt_pos h
  rw [readPdu, if_neg hb, h, drop_cons_of_pos (Nat.le_add_right_of_le hpos)]

theorem SubPdu.two_le_header_length (s : SubPdu) : 2 ≤ (s.header .inLField).length := by
  rw [header, lField]
  split
  · exact Nat.le_succ 2
  · exact Nat.le_refl 2

theorem SubPdu.encode_length (s : SubPdu) (len : PayloadLen) :
    (s.encode len).length = (s.header len).length + s.payload.length := by
  rw [encode, List.length_append]

theorem SubPdu.drop_encode (s : SubPdu) (len : PayloadLen) (rest : List UInt8) :
    (s.encode len ++ rest).drop ((s.header len).length + s.payload.length) = rest := by
  rw [← s.encode_length len, List.drop_left]

theorem SubPdu.payload_encode (s : SubPdu) (len : PayloadLen) (rest : List UInt8) :
    ((s.encode len ++ rest).drop (s.header len).length).take s.payload.length = s.payload := by
  rw [encode, List.append_assoc, List.drop_left, List.take_left]

/-- What is at the front of a PDU is read first. -/
theorem readPdu_encode (hpad : lens lcidPadding = none) (hlen : lens s.lcid = some len)
    (hfit : s.Fits len) (rest : List UInt8) :
    readPdu lens (s.encode len ++ rest) =
      (readPdu lens rest).map ((s.lcid, s.payload) :: ·) := by
  have hne : lcidOf s.octet ≠ lcidPadding := by
    intro he
    have : lens (lcidOf s.octet) = some len := hlen
    rw [he, hpad] at this
    cases this
  have hsub := subheaderAt_encode hlen hfit rest
  have hpay := s.payload_encode len rest
  have hrest := s.drop_encode len rest
  have hle : (s.header len).length + s.payload.length ≤ (s.encode len ++ rest).length := by
    rw [List.length_append, s.encode_length len]
    exact Nat.le_add_right _ _
  obtain ⟨l, hl⟩ := s.header_eq_cons len
  have hcons : s.encode len ++ rest = s.octet :: (l ++ s.payload ++ rest) := by
    rw [SubPdu.encode, hl, List.cons_append, List.cons_append]
  rw [hcons] at hsub hpay hrest hle ⊢
  rw [readPdu_of_subheaderAt hne hsub, if_pos hle, hpay, hrest]
  rfl

/-- What is read first. -/
theorem readPdu_eq_cons {b : UInt8} {bs : List UInt8} {hdr macLen : ℕ} {x : ℕ × List UInt8}
    {xs : List (ℕ × List UInt8)} (hb : lcidOf b ≠ lcidPadding)
    (h : subheaderAt lens (b :: bs) = some (hdr, macLen))
    (hr : readPdu lens (b :: bs) = some (x :: xs)) :
    hdr + macLen ≤ (b :: bs).length ∧ x = (lcidOf b, ((b :: bs).drop hdr).take macLen) := by
  rw [readPdu_of_subheaderAt hb h] at hr
  by_cases hle : hdr + macLen ≤ (b :: bs).length
  · rw [if_pos hle] at hr
    obtain ⟨ys, -, hys⟩ := Option.map_eq_some_iff.mp hr
    exact ⟨hle, (List.cons_eq_cons.mp hys).1.symm⟩
  · rw [if_neg hle] at hr
    cases hr

/-- Some octets are read as some subPDUs, whatever is behind them. -/
def Reads (lens : ℕ → Option PayloadLen) (l : List UInt8) (xs : List (ℕ × List UInt8)) : Prop :=
  ∀ rest, readPdu lens (l ++ rest) = (readPdu lens rest).map (xs ++ ·)

theorem Reads.nil : Reads lens [] [] := by
  intro rest
  simp only [List.nil_append, Option.map_id']

theorem Reads.append {l l' : List UInt8} {xs xs' : List (ℕ × List UInt8)} (h : Reads lens l xs)
    (h' : Reads lens l' xs') : Reads lens (l ++ l') (xs ++ xs') := by
  intro rest
  rw [List.append_assoc, h, h', Option.map_map]
  exact congrArg (Option.map · (readPdu lens rest)) (funext fun ys => (List.append_assoc ..).symm)

theorem Reads.flatMap {α : Type*} {f : α → List UInt8} {g : α → List (ℕ × List UInt8)}
    {as : List α} (h : ∀ a ∈ as, Reads lens (f a) (g a)) :
    Reads lens (as.flatMap f) (as.flatMap g) := by
  induction as with
  | nil => exact Reads.nil
  | cons a as ih =>
      rw [List.flatMap_cons, List.flatMap_cons]
      exact (h a List.mem_cons_self).append (ih fun a' ha => h a' (List.mem_cons_of_mem a ha))

/-- What is behind them decides whether the PDU is read as these subPDUs and some others. -/
theorem Reads.iff {l : List UInt8} {xs : List (ℕ × List UInt8)} (h : Reads lens l xs)
    (rest : List UInt8) (ys : List (ℕ × List UInt8)) :
    readPdu lens (l ++ rest) = some (xs ++ ys) ↔ readPdu lens rest = some ys := by
  rw [h, Option.map_eq_some_iff]
  constructor
  · rintro ⟨zs, hzs, heq⟩
    rw [hzs, List.append_cancel_left heq]
  · exact fun hys => ⟨ys, hys, rfl⟩

theorem reads_encode (hpad : lens lcidPadding = none) (hlen : lens s.lcid = some len)
    (hfit : s.Fits len) : Reads lens (s.encode len) [(s.lcid, s.payload)] :=
  readPdu_encode hpad hlen hfit

/-- A well-formed PDU is read as the subPDUs it was put together from. -/
theorem readPdu_of_wellFormed (hpad : lens lcidPadding = none) (h : WellFormed lens pdu subs) :
    readPdu lens pdu = some (subs.map fun s => (s.lcid, s.payload)) := by
  induction h with
  | empty => rw [readPdu, List.map_nil]
  | padding hb => rw [readPdu, if_pos hb, List.map_nil]
  | subPdu hlen hfit _ ih => rw [readPdu_encode hpad hlen hfit, ih, Option.map_some, List.map_cons]

end OaiCu.NrMac
