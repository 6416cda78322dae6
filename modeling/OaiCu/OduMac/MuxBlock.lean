import OaiCu.OduMac.Mux

/-!
# The block that the multiplexer writes

Each operation of the multiplexer appends octets to those that were written, if they fit into the
buffer, and has no result else.
-/

namespace OaiCu.OduMac

/-- The buffer behind which octets were written, with zeros left. -/
def written (out : List UInt8) (left : ℕ) : TxCursor :=
  ⟨out ++ List.replicate left 0, out.length, 7⟩

/-- An operation that writes these octets at an octet's border, when they fit. -/
def Appends (f : TxCursor → Option TxCursor) (octets : List UInt8) : Prop :=
  ∀ out left, f (written out left) =
    if octets.length ≤ left then some (written (out ++ octets) (left - octets.length)) else none

theorem Appends.nil : Appends some [] := by
  intro out left
  rw [List.append_nil]
  rfl

theorem Appends.bind {f g : TxCursor → Option TxCursor} {fst snd : List UInt8}
    (hf : Appends f fst) (hg : Appends g snd) :
    Appends (fun c => (f c).bind g) (fst ++ snd) := by
  intro out left
  dsimp only
  rw [hf, List.length_append]
  by_cases hfst : fst.length ≤ left
  · rw [if_pos hfst, Option.bind_some, hg, List.append_assoc, Nat.sub_sub]
    by_cases hsnd : snd.length ≤ left - fst.length
    · rw [if_pos hsnd, if_pos (by omega)]
    · rw [if_neg hsnd, if_neg (by omega)]
  · rw [if_neg hfst, if_neg (by omega), Option.bind_none]

theorem Appends.foldlM {α : Type} {f : TxCursor → α → Option TxCursor} {octets : α → List UInt8}
    (hf : ∀ a, Appends (f · a) (octets a)) (as : List α) :
    Appends (as.foldlM f) (as.flatMap octets) := by
  induction as with
  | nil => exact .nil
  | cons a as ih =>
    have hstep := (hf a).bind ih
    rw [← List.flatMap_cons] at hstep
    exact hstep

theorem copyIn_appends (octets : List UInt8) : Appends (·.copyIn octets) octets := by
  intro out left
  have hlen : (written out left).macPdu.length = out.length + left := by
    rw [written, List.length_append, List.length_replicate]
  have hbytePos : (written out left).bytePos = out.length := rfl
  simp only [TxCursor.copyIn, hlen, hbytePos, Nat.add_le_add_iff_left]
  split
  · have htake : (out ++ List.replicate left (0 : UInt8)).take out.length = out :=
      List.take_left
    have hdrop : (out ++ List.replicate left (0 : UInt8)).drop (out.length + octets.length) =
        List.replicate (left - octets.length) 0 := by
      rw [List.drop_append, Nat.add_sub_cancel_left, List.drop_eq_nil_of_le (Nat.le_add_right _ _),
        List.nil_append, List.drop_replicate]
    rw [written, htake, hdrop, written, List.length_append]
  · rfl

/-! ## Fields -/

/-- The buffer with an octet that is not finished. -/
def begun (out : List UInt8) (octet : UInt8) (left bitPos : ℕ) : TxCursor :=
  ⟨out ++ octet :: List.replicate left 0, out.length, bitPos⟩

theorem written_succ (out : List UInt8) (left : ℕ) : written out (left + 1) = begun out 0 left 7 :=
  rfl

theorem modify_length_append (f : UInt8 → UInt8) (out rest : List UInt8) (octet : UInt8) :
    (out ++ octet :: rest).modify out.length f = out ++ f octet :: rest := by
  induction out with
  | nil => rfl
  | cons b out ih =>
    rw [List.cons_append, List.length_cons, List.modify_succ_cons, ih, List.cons_append]

theorem setBits_begun (out : List UInt8) (octet bits : UInt8) (left bitPos : ℕ) :
    (begun out octet left bitPos).setBits bits = some (begun out (octet ||| bits) left bitPos) := by
  have hlt : out.length < (out ++ octet :: List.replicate left 0).length := by
    rw [List.length_append, List.length_cons]
    omega
  simp only [TxCursor.setBits, begun, modify_length_append]
  exact if_pos hlt

/-- A field that leaves bits of the octet. -/
theorem packBytes_begun {out : List UInt8} {octet : UInt8} {left bitPos val valSize : ℕ}
    (h : valSize ≤ bitPos) : packBytes (begun out octet left bitPos) val valSize =
      some (begun out (octet ||| .ofNat (val <<< (bitPos + 1 - valSize))) left
        (bitPos - valSize)) := by
  have hfits : valSize ≤ (begun out octet left bitPos).bitPos + 1 := h.trans (Nat.le_succ _)
  have hmore : ¬(begun out octet left bitPos).bitPos < valSize := Nat.not_lt.mpr h
  rw [packBytes, if_pos hfits]
  dsimp only
  rw [setBits_begun, Option.bind_eq_bind, Option.bind_some, if_neg hmore]
  rfl

/-- A field that finishes the octet. -/
theorem packBytes_last {out : List UInt8} {octet : UInt8} {left bitPos val : ℕ} :
    packBytes (begun out octet left bitPos) val (bitPos + 1) =
      some (written (out ++ [octet ||| .ofNat val]) left) := by
  have hfits : bitPos + 1 ≤ (begun out octet left bitPos).bitPos + 1 := Nat.le_refl _
  have hlast : (begun out octet left bitPos).bitPos < bitPos + 1 := Nat.lt_succ_self _
  rw [packBytes, if_pos hfits]
  dsimp only
  rw [setBits_begun, Option.bind_eq_bind, Option.bind_some, if_pos hlast, written,
    List.append_assoc, List.length_append]
  simp only [begun, Nat.sub_self, Nat.shiftLeft_zero]
  rfl

/-- A field of two octets begins with its high octet. -/
theorem packBytes_high {out : List UInt8} {left val : ℕ} :
    packBytes (written out (left + 1)) val 16 =
      packBytes (written (out ++ [.ofNat (val >>> 8)]) left) (val % 2 ^ 8) 8 := by
  have hfits : ¬16 ≤ (written out (left + 1)).bitPos + 1 :=
    Nat.not_le.mpr (Nat.le_of_ble_eq_true rfl : 8 < 16)
  have hnext : (⟨out ++ (0 ||| .ofNat (val >>> 8)) :: List.replicate left 0, out.length + 1, 7⟩ :
      TxCursor) = written (out ++ [.ofNat (val >>> 8)]) left := by
    rw [UInt8.zero_or, written, List.append_assoc, List.length_append]
    rfl
  rw [packBytes, if_neg hfits]
  dsimp only
  rw [written_succ, setBits_begun, Option.bind_eq_bind, Option.bind_some]
  exact congrArg (packBytes · (val % 2 ^ 8) 8) hnext

/-- No field is written behind the end of the buffer. -/
theorem packBytes_full (out : List UInt8) (val valSize : ℕ) :
    packBytes (written out 0) val valSize = none := by
  have hfull : ∀ bits, (written out 0).setBits bits = none := by
    intro bits
    refine if_neg ?_
    rw [written, List.length_append, List.length_replicate]
    exact Nat.lt_irrefl _
  rw [packBytes]
  dsimp only
  split
  · rw [hfull]
    rfl
  · rw [hfull]
    rfl

theorem full_eq {out : List UInt8} {octets : List UInt8} (h : octets ≠ []) :
    (if octets.length ≤ 0 then some (written (out ++ octets) (0 - octets.length)) else none) =
      none :=
  if_neg fun hle => h (List.length_eq_zero_iff.mp (Nat.le_zero.mp hle))

/-- The fields R/R/LCID. -/
theorem lcid_appends (lcid : ℕ) :
    Appends (fun c => (packBytes c 0 2).bind (packBytes · lcid 6)) [.ofNat lcid] := by
  intro out left
  cases left with
  | zero =>
    dsimp only
    rw [packBytes_full, full_eq (List.cons_ne_nil _ _), Option.bind_none]
  | succ left =>
    have hfirst : packBytes (begun out 0 left 7) 0 2 = some (begun out 0 left 5) :=
      packBytes_begun (by decide)
    have hlast := @packBytes_last out 0 left 5 lcid
    rw [UInt8.zero_or] at hlast
    dsimp only
    rw [written_succ, hfirst, Option.bind_some, hlast]
    rfl

/-- The fields R/F/LCID. -/
theorem format_appends (FBit lcid : ℕ) :
    Appends (fun c => (packBytes c 0 1).bind fun c => (packBytes c FBit 1).bind (packBytes · lcid 6))
      [.ofNat (FBit <<< 6) ||| .ofNat lcid] := by
  intro out left
  cases left with
  | zero =>
    dsimp only
    rw [packBytes_full, full_eq (List.cons_ne_nil _ _), Option.bind_none]
  | succ left =>
    have hfirst : packBytes (begun out 0 left 7) 0 1 = some (begun out 0 left 6) :=
      packBytes_begun (by decide)
    have hflag : packBytes (begun out 0 left 6) FBit 1 =
        some (begun out (0 ||| .ofNat (FBit <<< 6)) left 5) :=
      packBytes_begun (by decide)
    have hlast := @packBytes_last out (.ofNat (FBit <<< 6)) left 5 lcid
    rw [UInt8.zero_or] at hflag
    dsimp only
    rw [written_succ, hfirst, Option.bind_some, hflag, Option.bind_some, hlast]
    rfl

theorem octet_appends (val : ℕ) : Appends (packBytes · val 8) [.ofNat val] := by
  intro out left
  cases left with
  | zero =>
    dsimp only
    rw [packBytes_full, full_eq (List.cons_ne_nil _ _)]
  | succ left =>
    have hlast := @packBytes_last out 0 left 7 val
    rw [UInt8.zero_or] at hlast
    exact hlast

/-- The octets of a length. -/
def lenOctets (lenField : ℕ) : List UInt8 :=
  if 255 < lenField then [.ofNat (lenField >>> 8), .ofNat (lenField % 2 ^ 8)] else [.ofNat lenField]

theorem len_appends (lenField : ℕ) :
    Appends (packBytes · lenField (if 255 < lenField then 16 else 8)) (lenOctets lenField) := by
  rw [lenOctets]
  by_cases hlong : 255 < lenField
  · rw [if_pos hlong, if_pos hlong]
    intro out left
    cases left with
    | zero =>
      dsimp only
      rw [packBytes_full, full_eq (List.cons_ne_nil _ _)]
    | succ left =>
      have hlow := octet_appends (lenField % 2 ^ 8) (out ++ [.ofNat (lenField >>> 8)]) left
      dsimp only at hlow ⊢
      rw [packBytes_high, hlow, List.append_assoc]
      simp only [List.length_cons, List.length_nil, Nat.add_le_add_iff_right,
        Nat.add_sub_add_right, List.cons_append, List.nil_append, Nat.zero_add]
  · rw [if_neg hlong, if_neg hlong]
    exact octet_appends lenField

/-! ## The block -/

/-- The octets of a CE that is packed. -/
def ceOctets (ce : MacCe) : List UInt8 :=
  if ce.macCeLcid % 2 ^ 8 = MAC_LCID_CRI then .ofNat (ce.macCeLcid % 2 ^ 8) :: ce.macCeValue.toList
  else []

/-- The octets of an SDU that is packed. -/
def sduOctets (info : MacDlInfo) : List UInt8 :=
  if info.lcId % 2 ^ 8 ≤ MAC_LCID_MAX then
    (.ofNat ((if 255 < info.dlPdu.length then 1 else 0) <<< 6) ||| .ofNat (info.lcId % 2 ^ 8)) ::
      (lenOctets info.dlPdu.length ++ info.dlPdu)
  else []

/-- The octets of padding. -/
def paddingOctets : ℕ → List UInt8
  | 0 => []
  | left + 1 => .ofNat MAC_LCID_PADDING :: List.replicate left 0

theorem packMacCe_appends (ce : MacCe) : Appends (packMacCe · ce) (ceOctets ce) := by
  simp only [packMacCe, ceOctets]
  split
  · have h := (lcid_appends (ce.macCeLcid % 2 ^ 8)).bind (copyIn_appends ce.macCeValue.toList)
    simp only [Option.bind_assoc] at h
    exact h
  · exact .nil

theorem packMacSdu_appends (info : MacDlInfo) : Appends (packMacSdu · info) (sduOctets info) := by
  simp only [packMacSdu, sduOctets]
  split
  · have h := (format_appends (if 255 < info.dlPdu.length then 1 else 0) (info.lcId % 2 ^ 8)).bind
      ((len_appends info.dlPdu.length).bind (copyIn_appends info.dlPdu))
    simp only [Option.bind_assoc] at h
    exact h
  · exact .nil

theorem packPadding_written (out : List UInt8) (left : ℕ) :
    (packPadding (written out left) (out.length + left)).map (·.macPdu) =
      some (out ++ paddingOctets left) := by
  rw [packPadding]
  cases left with
  | zero =>
    have hge : ¬(written out 0).bytePos < out.length + 0 := Nat.lt_irrefl _
    rw [if_neg hge, Option.map_some]
    rfl
  | succ left =>
    have hone : [UInt8.ofNat MAC_LCID_PADDING].length ≤ left + 1 :=
      Nat.succ_le_succ (Nat.zero_le _)
    have hlt : (written out (left + 1)).bytePos < out.length + (left + 1) :=
      Nat.lt_add_of_pos_right (Nat.succ_pos left)
    have hpadding := lcid_appends MAC_LCID_PADDING out (left + 1)
    rw [if_pos hone] at hpadding
    rw [if_pos hlt]
    refine (congrArg (Option.map (·.macPdu)) hpadding).trans ?_
    rw [Option.map_some, written, List.append_assoc]
    rfl

/-- The multiplexer writes the octets of the CEs and of the SDUs and padding, or they do not fit. -/
theorem macMuxPdu_eq (dlData : List MacDlInfo) (macCeData : List MacCe) (tbSize : ℕ) :
    macMuxPdu dlData macCeData tbSize =
      let body := macCeData.flatMap ceOctets ++ dlData.flatMap sduOctets
      if body.length ≤ tbSize then some (body ++ paddingOctets (tbSize - body.length)) else none := by
  have hbody := (Appends.foldlM packMacCe_appends macCeData).bind
    (Appends.foldlM packMacSdu_appends dlData) [] tbSize
  have hstart : (⟨List.replicate tbSize 0, 0, 7⟩ : TxCursor) = written [] tbSize := rfl
  dsimp only at hbody ⊢
  rw [macMuxPdu, hstart]
  simp only [Option.bind_eq_bind, Option.pure_def, ← Option.bind_assoc]
  rw [hbody, List.nil_append]
  split
  · rename_i hfits
    have hpadding := packPadding_written
      (macCeData.flatMap ceOctets ++ dlData.flatMap sduOctets)
      (tbSize - (macCeData.flatMap ceOctets ++ dlData.flatMap sduOctets).length)
    rw [Nat.add_sub_cancel' hfits] at hpadding
    rw [Option.bind_some, ← hpadding, Option.map_eq_bind]
    rfl
  · rfl

end OaiCu.OduMac
