import OaiCu.OduRlc.UmTransfer

/-!
# Buffer occupancy and transparency of UM

The buffer occupancy counts every queued SDU with the size of a header. An SDU that is sent takes
both off again, one that is dropped does not. What arrives is what was queued, except for what
was dropped.
-/

namespace OaiCu.OduRlc

/-! ## What the receiver makes of the PDUs -/

/-- The PDU is parsed and processed. What left the queue is noted in its order, with whether it
arrived. -/
def receive {snLen : UmSnLen} (umUl : RlcUmUl snLen Octets) :
    UmDlOut → Except Unit (RlcUmUl snLen Octets × List (Bool × Octets))
  | .discarded sdu => .ok (umUl, [(false, sdu)])
  | .pdu pdu =>
    match rlcUmmExtractHdr snLen pdu with
    | none => .ok (umUl, [])
    | some pdu =>
      match UmUlOp.step umUl (.pdu pdu) with
      | none => .error ()
      | some (umUl, sdus) => .ok (umUl, sdus.map fun sdu => (true, sdu.flatten))

/-- The SDUs that the calls queued. -/
def queued (ops : List UmDlOp) : List Octets :=
  ops.filterMap fun
    | .qSdu _ _ mBuf _ => some mBuf
    | _ => none

/-- What `bo` is to be. -/
def queueBo (sduQ : List RlcUmSdu) : ℤ := (sduQ.map fun sdu => (sdu.sduSz + RLC_MAX_HDRSZ : ℤ)).sum

/-- The buffer occupancy is that of the queue, and it is 0 exactly if the queue is empty; and what
left the queue, received or dropped, is what was queued before the rest. -/
def UmRight (rbCb : RlcDlRbCb) (ops : List UmDlOp) : Prop :=
  ∃ umDl outs, ∃ (umUl : RlcUmUl rbCb.snLen Octets) (left : List (Bool × Octets)),
    Machine.run (UmDlOp.step rbCb) {} ops = .ok (umDl, outs) ∧
      Machine.run receive {} outs = .ok (umUl, left) ∧
      umDl.bo = queueBo umDl.sduQ ∧ (umDl.bo = 0 ↔ umDl.sduQ = []) ∧
      left.map Prod.snd = (queued ops).take ((queued ops).length - umDl.sduQ.length)

namespace RlcDlRbCb

/-- The grant comes to an SDU that has waited too long: those before it fit into the grant. -/
def ReachesExpired (rbCb : RlcDlRbCb) (curTime : ℕ) : List RlcUmSdu → ℕ → ℕ → Prop
  | [], _, _ => False
  | sdu :: sduQ, pduSz, numPdu =>
    pduSz ≠ 0 ∧ numPdu < RLC_MAX_PDU ∧
      (rbCb.discards curTime sdu = true ∨
        (rbCb.hdrEstmt sdu pduSz < pduSz ∧ sdu.sduSz ≤ pduSz - rbCb.hdrEstmt sdu pduSz ∧
          rbCb.ReachesExpired curTime sduQ (pduSz - rbCb.hdrEstmt sdu pduSz - sdu.sduSz)
            (numPdu + 1)))

end RlcDlRbCb

/-- The call drops an SDU. -/
def UmDlOp.Drops (rbCb : RlcDlRbCb) (umDl : RlcUmDl) : UmDlOp → Prop
  | .qSdu _ _ _ _ => False
  | .processSdus curTime pduSz => rbCb.ReachesExpired curTime umDl.sduQ pduSz 0
  | .discSdu sduId => ∃ sdu, umDl.sduQ.head? = some sdu ∧ sdu.sduId = sduId ∧
      sdu.isSegmented = false

/-! ## The buffer occupancy -/

theorem queueBo_nil : queueBo [] = 0 := rfl

theorem queueBo_cons (sdu : RlcUmSdu) (sduQ : List RlcUmSdu) :
    queueBo (sdu :: sduQ) = sdu.sduSz + RLC_MAX_HDRSZ + queueBo sduQ := by
  rw [queueBo, queueBo, List.map_cons, List.sum_cons]

theorem queueBo_append (sduQ sduQ' : List RlcUmSdu) :
    queueBo (sduQ ++ sduQ') = queueBo sduQ + queueBo sduQ' := by
  rw [queueBo, queueBo, queueBo, List.map_append, List.sum_append]

theorem queueBo_nonneg (sduQ : List RlcUmSdu) : 0 ≤ queueBo sduQ := by
  induction sduQ with
  | nil => exact Int.le_refl 0
  | cons sdu sduQ ih =>
      rw [queueBo_cons]
      omega

theorem queueBo_eq_zero {sduQ : List RlcUmSdu} : queueBo sduQ = 0 ↔ sduQ = [] := by
  cases sduQ with
  | nil => exact iff_of_true rfl rfl
  | cons sdu sduQ =>
      have := queueBo_nonneg sduQ
      rw [queueBo_cons, RLC_MAX_HDRSZ]
      exact iff_of_false (by omega) (by simp)

/-- What `bo` counts too much. -/
def leak (umDl : RlcUmDl) : ℤ := umDl.bo - queueBo umDl.sduQ

section

variable {rbCb : RlcDlRbCb} {curTime : ℕ}

/-- A grant leaks the header of every SDU that it drops. -/
theorem fillGrant_leak (sduQ : List RlcUmSdu) (pduSz numPdu : ℕ) (umDl : RlcUmDl) :
    umDl.bo - queueBo sduQ ≤ leak (rbCb.fillGrant curTime sduQ pduSz numPdu umDl).1 ∧
      (umDl.bo - queueBo sduQ < leak (rbCb.fillGrant curTime sduQ pduSz numPdu umDl).1 ↔
        rbCb.ReachesExpired curTime sduQ pduSz numPdu) := by
  induction sduQ generalizing pduSz numPdu umDl with
  | nil => simp [RlcDlRbCb.ReachesExpired, RlcDlRbCb.fillGrant, leak]
  | cons sdu sduQ ih =>
      have hbo := queueBo_cons sdu sduQ
      rw [RLC_MAX_HDRSZ] at hbo
      rw [RlcDlRbCb.fillGrant, RlcDlRbCb.ReachesExpired]
      simp only
      split_ifs with h1 h2 h3 h4
      · refine ⟨Int.le_refl _, iff_of_false (Int.lt_irrefl _) fun h => ?_⟩
        have := h.1
        have := h.2.1
        omega
      · obtain ⟨hle, -⟩ := ih pduSz numPdu { umDl with bo := umDl.bo - sdu.sduSz }
        simp only at hle ⊢
        exact ⟨by omega, iff_of_true (by omega) ⟨by omega, by omega, .inl h2⟩⟩
      · refine ⟨Int.le_refl _, iff_of_false (Int.lt_irrefl _) fun h => ?_⟩
        have := h.2.2.resolve_left h2
        omega
      · -- the SDU is sent to its end
        obtain ⟨hle, hiff⟩ := ih (pduSz - rbCb.hdrEstmt sdu pduSz - sdu.sduSz) (numPdu + 1)
          (rbCb.sendLast sdu umDl).1
        have hsum : (rbCb.sendLast sdu umDl).1.bo - queueBo sduQ =
            umDl.bo - queueBo (sdu :: sduQ) := by
          simp only [RlcDlRbCb.sendLast, RlcDlRbCb.rlcUmmCreatePdu, RLC_MAX_HDRSZ]
          omega
        rw [hsum] at hle hiff
        refine ⟨hle, hiff.trans ⟨fun h => ⟨by omega, by omega, .inr ⟨by omega, h4, h⟩⟩, fun h => ?_⟩⟩
        exact (h.2.2.resolve_left h2).2.2
      · -- a part of the SDU is sent
        have hrest := queueBo_cons (RlcDlRbCb.remSdu sdu (pduSz - rbCb.hdrEstmt sdu pduSz)) sduQ
        have hsum : leak ({ (rbCb.sendPart sdu (pduSz - rbCb.hdrEstmt sdu pduSz) umDl).1 with
            sduQ := RlcDlRbCb.remSdu sdu (pduSz - rbCb.hdrEstmt sdu pduSz) :: sduQ } : RlcUmDl) =
            umDl.bo - queueBo (sdu :: sduQ) := by
          simp only [leak]
          rw [hrest, hbo]
          simp only [RlcDlRbCb.remSdu, RlcDlRbCb.sendPart, RlcDlRbCb.rlcUmmCreatePdu,
            RLC_MAX_HDRSZ]
          omega
        rw [show leak _ = _ from hsum]
        refine ⟨Int.le_refl _, iff_of_false (Int.lt_irrefl _) fun h => ?_⟩
        have := h.2.2.resolve_left h2
        omega

/-- What a call leaks. -/
theorem step_leak (op : UmDlOp) {umDl umDl' : RlcUmDl} {outs : List UmDlOut}
    (h : op.step rbCb umDl = .ok (umDl', outs)) :
    leak umDl ≤ leak umDl' ∧ (leak umDl < leak umDl' ↔ op.Drops rbCb umDl) := by
  cases op with
  | qSdu sduId arrTime mBuf hlen =>
      obtain ⟨rfl, -⟩ := Prod.mk.inj (Except.ok.inj h)
      have hsum : leak (rlcUmmQSdu sduId arrTime mBuf umDl) = leak umDl := by
        simp only [leak, rlcUmmQSdu, queueBo_append, queueBo_cons, queueBo_nil]
        omega
      exact ⟨by omega, iff_of_false (by omega) id⟩
  | processSdus curTime pduSz =>
      obtain ⟨rfl, -⟩ := Prod.mk.inj (Except.ok.inj h)
      exact fillGrant_leak umDl.sduQ pduSz 0 umDl
  | discSdu sduId =>
      obtain ⟨he, -⟩ := Prod.ext_iff.1 (Except.ok.inj h)
      rw [UmDlOp.Drops]
      rw [rlcUmmDiscSdu] at he
      cases hq : umDl.sduQ with
      | nil =>
          rw [hq] at he
          subst he
          exact ⟨Int.le_refl _, iff_of_false (Int.lt_irrefl _) (by simp)⟩
      | cons sdu sduQ =>
          rw [hq] at he
          simp only at he
          split_ifs at he with hd
          · subst he
            have hbo := queueBo_cons sdu sduQ
            simp only [leak, hq, RLC_MAX_HDRSZ] at hbo ⊢
            exact ⟨by omega, iff_of_true (by omega) ⟨sdu, rfl, hd⟩⟩
          · subst he
            refine ⟨Int.le_refl _, iff_of_false (Int.lt_irrefl _) ?_⟩
            rintro ⟨sdu', hs, hd'⟩
            obtain rfl := Option.some.inj hs
            exact hd hd'

end

/-! ## The queue and the receiver -/

/-- An SDU of which nothing was sent. -/
structure Unsent (sdu : RlcUmSdu) : Prop where
  length : sdu.mBuf.length = sdu.sduSz
  isSegmented : sdu.isSegmented = false
  actSz : sdu.actSz = sdu.sduSz
  actSz_lt : sdu.actSz < 2 ^ 15

/-- The head of the queue, of which `sent` was sent. -/
structure Begun (sdu : RlcUmSdu) (sent : Octets) : Prop where
  length : sdu.mBuf.length = sdu.sduSz
  isSegmented : sdu.isSegmented = true
  pos : 0 < sdu.sduSz
  actSz : sent.length + sdu.sduSz = sdu.actSz
  actSz_lt : sdu.actSz < 2 ^ 15

/-- The queue, `txNext` and the receiver, with what was sent of the head of the queue. -/
inductive Link {snLen : UmSnLen} :
    List RlcUmSdu → ℕ → RlcUmUl snLen Octets → Octets → Prop
  | idle {sduQ : List RlcUmSdu} {txNext : ℕ} {umUl : RlcUmUl snLen Octets}
      (hq : ∀ sdu ∈ sduQ, Unsent sdu) (h : Idle umUl txNext) : Link sduQ txNext umUl []
  | partly {sdu : RlcUmSdu} {sduQ : List RlcUmSdu} {txNext : ℕ} {umUl : RlcUmUl snLen Octets}
      {sent : Octets} (hsdu : Begun sdu sent) (hq : ∀ sdu ∈ sduQ, Unsent sdu)
      (h : Partly umUl txNext sent) : Link (sdu :: sduQ) txNext umUl sent

/-- The SDUs in the queue, as they were queued. -/
def contents (sent : Octets) : List RlcUmSdu → List Octets
  | [] => []
  | sdu :: sduQ => (sent ++ sdu.mBuf) :: sduQ.map (·.mBuf)

theorem contents_nil (sduQ : List RlcUmSdu) : contents [] sduQ = sduQ.map (·.mBuf) := by
  cases sduQ <;> rfl

theorem length_contents (sent : Octets) (sduQ : List RlcUmSdu) :
    (contents sent sduQ).length = sduQ.length := by
  cases sduQ with
  | nil => rfl
  | cons sdu sduQ => rw [contents, List.length_cons, List.length_map, List.length_cons]

section

variable {rbCb : RlcDlRbCb} {curTime : ℕ} {umUl : RlcUmUl rbCb.snLen Octets}

/-- From a state of the queue and the receiver to another one, with what left the queue. -/
def Moves (rbCb : RlcDlRbCb) (sduQ : List RlcUmSdu) (umUl : RlcUmUl rbCb.snLen Octets)
    (sent : Octets) (umDl' : RlcUmDl) (outs : List UmDlOut) : Prop :=
  ∃ umUl' left sent', Machine.run receive umUl outs = .ok (umUl', left) ∧
    Link umDl'.sduQ umDl'.txNext umUl' sent' ∧
    contents sent sduQ = left.map Prod.snd ++ contents sent' umDl'.sduQ

theorem moves_nothing {sduQ : List RlcUmSdu} {umDl' : RlcUmDl} {sent : Octets}
    (h : Link umDl'.sduQ umDl'.txNext umUl sent) (hq : umDl'.sduQ = sduQ) :
    Moves rbCb sduQ umUl sent umDl' [] :=
  ⟨umUl, [], sent, rfl, h, by rw [hq]; rfl⟩

/-- The head of the queue leaves it, and the rest follows. -/
theorem moves_cons {sdu : RlcUmSdu} {sduQ : List RlcUmSdu} {sent : Octets}
    {umUl' : RlcUmUl rbCb.snLen Octets} {umDl' : RlcUmDl} {out : UmDlOut} {outs : List UmDlOut}
    {b : Bool} (hout : receive umUl out = .ok (umUl', [(b, sent ++ sdu.mBuf)]))
    (hrest : Moves rbCb sduQ umUl' [] umDl' outs) :
    Moves rbCb (sdu :: sduQ) umUl sent umDl' (out :: outs) := by
  obtain ⟨umUl'', left, sent', hrun, hlink, hcont⟩ := hrest
  refine ⟨umUl'', (b, sent ++ sdu.mBuf) :: left, sent', ?_, hlink, ?_⟩
  · rw [Machine.run, hout]
    simp only [hrun]
    rfl
  · rw [contents_nil] at hcont
    rw [contents, hcont]
    rfl

theorem receive_pdu {pdu : Octets} {umPdu : UmPdu rbCb.snLen Octets}
    (hhdr : rlcUmmExtractHdr rbCb.snLen pdu = some umPdu) {umUl' : RlcUmUl rbCb.snLen Octets}
    {sdus : List (List Octets)} (hstep : UmUlOp.step umUl (.pdu umPdu) = some (umUl', sdus)) :
    receive umUl (.pdu pdu) = .ok (umUl', sdus.map fun sdu => (true, sdu.flatten)) := by
  rw [receive, hhdr]
  simp only [hstep]

theorem sendLast_pdu (rbCb : RlcDlRbCb) (sdu : RlcUmSdu) (umDl : RlcUmDl) :
    (rbCb.sendLast sdu umDl).2 = .pdu (umHdrOctets rbCb.snLen umDl.txNext (RlcDlRbCb.lastSi sdu)
      (RlcDlRbCb.hdrSo sdu) ++ sdu.mBuf) := rfl

theorem sendLast_txNext (rbCb : RlcDlRbCb) (sdu : RlcUmSdu) (umDl : RlcUmDl) :
    (rbCb.sendLast sdu umDl).1.txNext = if RlcDlRbCb.lastSi sdu = some .last then
      (umDl.txNext + 1) &&& rbCb.snLen.modBitMask else umDl.txNext := rfl

theorem sendPart_pdu (rbCb : RlcDlRbCb) (sdu : RlcUmSdu) (pduSz : ℕ) (umDl : RlcUmDl) :
    (rbCb.sendPart sdu pduSz umDl).2 = .pdu (umHdrOctets rbCb.snLen umDl.txNext
      (RlcDlRbCb.partSi sdu) (RlcDlRbCb.hdrSo sdu) ++ sdu.mBuf.take pduSz) := rfl

theorem sendPart_txNext (rbCb : RlcDlRbCb) (sdu : RlcUmSdu) (pduSz : ℕ) (umDl : RlcUmDl) :
    (rbCb.sendPart sdu pduSz umDl).1.txNext = umDl.txNext := by
  rw [RlcDlRbCb.sendPart, RlcDlRbCb.rlcUmmCreatePdu, RlcDlRbCb.partSi]
  exact if_neg (by split_ifs <;> rintro ⟨⟩)

/-- An SDU that is sent whole. -/
theorem receive_whole {sdu : RlcUmSdu} (hsdu : Unsent sdu) (umDl : RlcUmDl) :
    receive umUl (rbCb.sendLast sdu umDl).2 = .ok (umUl, [(true, sdu.mBuf)]) ∧
      (rbCb.sendLast sdu umDl).1.txNext = umDl.txNext := by
  have hsi : RlcDlRbCb.lastSi sdu = none := by
    rw [RlcDlRbCb.lastSi, hsdu.isSegmented, if_neg Bool.false_ne_true]
  have hflat : [sdu.mBuf].flatten = sdu.mBuf := by simp
  rw [sendLast_pdu, sendLast_txNext, hsi]
  refine ⟨?_, if_neg (by rintro ⟨⟩)⟩
  rw [receive_pdu (extractHdr_complete _ _ _ _) (step_complete umUl sdu.mBuf), List.map_singleton,
    hflat]

/-- The last segment of an SDU. -/
theorem receive_last {sdu : RlcUmSdu} {sent : Octets} (hsdu : Begun sdu sent) {umDl : RlcUmDl}
    (h : Partly umUl umDl.txNext sent) :
    ∃ umUl', receive umUl (rbCb.sendLast sdu umDl).2 = .ok (umUl', [(true, sent ++ sdu.mBuf)]) ∧
      Idle umUl' (rbCb.sendLast sdu umDl).1.txNext := by
  have hlen := hsdu.length
  have hpos := hsdu.pos
  have hact := hsdu.actSz
  have hlt := hsdu.actSz_lt
  have hsn := RlcUmUl.le_modBitMask_iff.2 h.sn_lt
  have hsi : RlcDlRbCb.lastSi sdu = some .last := by
    rw [RlcDlRbCb.lastSi, hsdu.isSegmented, if_pos rfl]
  have hso : RlcDlRbCb.hdrSo sdu = sent.length := by
    rw [RlcDlRbCb.hdrSo, hsdu.isSegmented, if_pos rfl]
    omega
  obtain ⟨umUl', sdu', hstep, hflat, hidle⟩ := @Partly.last _ _ _ sdu.mBuf sent h (by omega)
    (by omega) hsn
  rw [sendLast_pdu, sendLast_txNext, hsi, hso]
  refine ⟨umUl', ?_, by rw [if_pos rfl]; exact hidle⟩
  rw [receive_pdu (extractHdr_segment .last hsn (by omega) sdu.mBuf) hstep, List.map_singleton,
    hflat]

/-- A segment that does not end the SDU. -/
theorem receive_first {sdu : RlcUmSdu} (hsdu : Unsent sdu) {umDl : RlcUmDl}
    (h : Idle umUl umDl.txNext) {pduSz : ℕ} (hpos : 0 < pduSz) (hlt : pduSz < sdu.sduSz) :
    ∃ umUl', receive umUl (rbCb.sendPart sdu pduSz umDl).2 = .ok (umUl', []) ∧
      Partly umUl' (rbCb.sendPart sdu pduSz umDl).1.txNext (sdu.mBuf.take pduSz) := by
  have hlen : (sdu.mBuf.take pduSz).length = pduSz := by
    rw [List.length_take, hsdu.length]
    omega
  have hact := hsdu.actSz
  have hact' := hsdu.actSz_lt
  have hsn := RlcUmUl.le_modBitMask_iff.2 h.sn_lt
  have hsi : RlcDlRbCb.partSi sdu = some .first := by
    rw [RlcDlRbCb.partSi, hsdu.isSegmented, if_neg Bool.false_ne_true]
  have hso : RlcDlRbCb.hdrSo sdu = 0 := by
    rw [RlcDlRbCb.hdrSo, hsdu.isSegmented, if_neg Bool.false_ne_true]
  obtain ⟨umUl', hstep, hpartly⟩ := @Idle.first _ _ _ (sdu.mBuf.take pduSz) h (by omega)
    (by omega) hsn 0
  rw [sendPart_pdu, sendPart_txNext, hsi, hso]
  refine ⟨umUl', ?_, hpartly⟩
  rw [receive_pdu (extractHdr_segment .first hsn (by omega) _) hstep, List.map_nil]

theorem receive_mid {sdu : RlcUmSdu} {sent : Octets} (hsdu : Begun sdu sent) {umDl : RlcUmDl}
    (h : Partly umUl umDl.txNext sent) {pduSz : ℕ} (hpos : 0 < pduSz) (hlt : pduSz < sdu.sduSz) :
    ∃ umUl', receive umUl (rbCb.sendPart sdu pduSz umDl).2 = .ok (umUl', []) ∧
      Partly umUl' (rbCb.sendPart sdu pduSz umDl).1.txNext (sent ++ sdu.mBuf.take pduSz) := by
  have hlen : (sdu.mBuf.take pduSz).length = pduSz := by
    rw [List.length_take, hsdu.length]
    omega
  have hact := hsdu.actSz
  have hact' := hsdu.actSz_lt
  have hsn := RlcUmUl.le_modBitMask_iff.2 h.sn_lt
  have hsi : RlcDlRbCb.partSi sdu = some .mid := by
    rw [RlcDlRbCb.partSi, hsdu.isSegmented, if_pos rfl]
  have hso : RlcDlRbCb.hdrSo sdu = sent.length := by
    rw [RlcDlRbCb.hdrSo, hsdu.isSegmented, if_pos rfl]
    omega
  obtain ⟨umUl', hstep, hpartly⟩ := @Partly.mid _ _ _ (sdu.mBuf.take pduSz) _ h (by omega)
    (by omega) hsn
  rw [sendPart_pdu, sendPart_txNext, hsi, hso]
  refine ⟨umUl', ?_, hpartly⟩
  rw [receive_pdu (extractHdr_segment .mid hsn (by omega) _) hstep, List.map_nil]

/-- A part of the head of the queue is sent. -/
theorem moves_part {sdu : RlcUmSdu} {sduQ : List RlcUmSdu} {sent : Octets} {umDl : RlcUmDl}
    (h : Link (sdu :: sduQ) umDl.txNext umUl sent) {pduSz : ℕ} (hpos : 0 < pduSz)
    (hlt : pduSz < sdu.sduSz) :
    Moves rbCb (sdu :: sduQ) umUl sent { (rbCb.sendPart sdu pduSz umDl).1 with
      sduQ := RlcDlRbCb.remSdu sdu pduSz :: sduQ } [(rbCb.sendPart sdu pduSz umDl).2] := by
  have hdrop : (sdu.mBuf.drop pduSz).length = sdu.mBuf.length - pduSz := List.length_drop
  have htake : (sdu.mBuf.take pduSz).length = min pduSz sdu.mBuf.length := List.length_take
  have hrun : ∀ {umUl' : RlcUmUl rbCb.snLen Octets},
      receive umUl (rbCb.sendPart sdu pduSz umDl).2 = .ok (umUl', []) →
      Machine.run receive umUl [(rbCb.sendPart sdu pduSz umDl).2] = .ok (umUl', []) :=
    Machine.run_single.2
  cases h with
  | idle hq h =>
      have hsdu := hq sdu List.mem_cons_self
      obtain ⟨umUl', hrec, hpartly⟩ := @receive_first rbCb umUl sdu hsdu umDl h pduSz hpos hlt
      refine ⟨umUl', [], sdu.mBuf.take pduSz, hrun hrec, .partly ⟨?_, rfl, ?_, ?_, hsdu.actSz_lt⟩
        (fun s hm => hq s (List.mem_cons_of_mem _ hm)) hpartly, ?_⟩
      · rw [RlcDlRbCb.remSdu, hdrop, hsdu.length]
      · exact Nat.sub_pos_of_lt hlt
      · simp only [RlcDlRbCb.remSdu, htake, hsdu.length, hsdu.actSz]
        omega
      · simp only [contents, RlcDlRbCb.remSdu, List.take_append_drop, List.map_nil, List.nil_append]
  | partly hsdu hq h =>
      obtain ⟨umUl', hrec, hpartly⟩ := @receive_mid rbCb umUl sdu sent hsdu umDl h pduSz hpos hlt
      refine ⟨umUl', [], sent ++ sdu.mBuf.take pduSz, hrun hrec,
        .partly ⟨?_, rfl, ?_, ?_, hsdu.actSz_lt⟩ hq hpartly, ?_⟩
      · rw [RlcDlRbCb.remSdu, hdrop, hsdu.length]
      · exact Nat.sub_pos_of_lt hlt
      · have := hsdu.actSz
        simp only [RlcDlRbCb.remSdu, List.length_append, htake, hsdu.length]
        omega
      · simp only [contents, RlcDlRbCb.remSdu, List.append_assoc, List.take_append_drop,
          List.map_nil, List.nil_append]

/-- **A grant moves SDUs from the queue to the receiver**, or drops them. -/
theorem fillGrant_moves {sduQ : List RlcUmSdu} {umDl : RlcUmDl} {sent : Octets}
    (h : Link sduQ umDl.txNext umUl sent) (pduSz numPdu : ℕ) :
    Moves rbCb sduQ umUl sent (rbCb.fillGrant curTime sduQ pduSz numPdu umDl).1
      (rbCb.fillGrant curTime sduQ pduSz numPdu umDl).2 := by
  induction sduQ generalizing pduSz numPdu umDl umUl sent with
  | nil =>
      rw [RlcDlRbCb.fillGrant]
      exact moves_nothing h rfl
  | cons sdu sduQ ih =>
      rw [RlcDlRbCb.fillGrant]
      simp only
      split_ifs with h1 h2 h3 h4
      · exact moves_nothing h rfl
      · -- the SDU is dropped
        have hseg : sdu.isSegmented = false := by
          rw [RlcDlRbCb.discards] at h2
          simp only [Bool.and_eq_true, Bool.not_eq_true'] at h2
          exact h2.1.1.1
        cases h with
        | idle hq h =>
            refine moves_cons (b := false) (by rfl) (ih ?_ _ _)
            exact .idle (fun s hm => hq s (List.mem_cons_of_mem _ hm)) h
        | partly hsdu => exact absurd hsdu.isSegmented (by rw [hseg]; exact Bool.false_ne_true)
      · exact moves_nothing h rfl
      · -- the SDU is sent to its end
        cases h with
        | idle hq h =>
            obtain ⟨hrec, hnext⟩ := @receive_whole rbCb umUl sdu (hq sdu List.mem_cons_self) umDl
            refine moves_cons hrec (ih ?_ _ _)
            exact .idle (fun s hm => hq s (List.mem_cons_of_mem _ hm)) (hnext ▸ h)
        | partly hsdu hq h =>
            obtain ⟨umUl', hrec, hidle⟩ := @receive_last rbCb umUl sdu sent hsdu umDl h
            exact moves_cons hrec (ih (.idle hq hidle) _ _)
      · exact moves_part h (by omega) (by omega)

/-- What a call moves, and what it queues. -/
theorem step_moves (op : UmDlOp) {umDl umDl' : RlcUmDl} {outs : List UmDlOut} {sent : Octets}
    (h : Link umDl.sduQ umDl.txNext umUl sent) (hstep : op.step rbCb umDl = .ok (umDl', outs)) :
    ∃ umUl' left sent', Machine.run receive umUl outs = .ok (umUl', left) ∧
      Link umDl'.sduQ umDl'.txNext umUl' sent' ∧
      contents sent umDl.sduQ ++ queued [op] =
        left.map Prod.snd ++ contents sent' umDl'.sduQ := by
  cases op with
  | qSdu sduId arrTime mBuf hlen =>
      obtain ⟨rfl, rfl⟩ := Prod.mk.inj (Except.ok.inj hstep)
      have hnew : Unsent { mBuf, sduSz := mBuf.length, actSz := mBuf.length, sduId, arrTime } :=
        ⟨rfl, rfl, rfl, hlen⟩
      refine ⟨umUl, [], sent, rfl, ?_, ?_⟩
      · rw [rlcUmmQSdu]
        cases hq : umDl.sduQ with
        | nil =>
            rw [hq] at h
            cases h with
            | idle _ h => exact .idle (by simpa using hnew) h
        | cons sdu sduQ =>
            rw [hq] at h
            cases h with
            | idle hq h =>
                refine .idle (fun s hm => ?_) h
                rcases List.mem_append.1 hm with hm | hm
                · exact hq s hm
                · exact List.mem_singleton.1 hm ▸ hnew
            | partly hsdu hq h =>
                refine .partly hsdu (fun s hm => ?_) h
                rcases List.mem_append.1 hm with hm | hm
                · exact hq s hm
                · exact List.mem_singleton.1 hm ▸ hnew
      · rw [rlcUmmQSdu]
        cases hq : umDl.sduQ with
        | nil =>
            rw [hq] at h
            cases h
            rfl
        | cons sdu sduQ => simp [contents, queued]
  | processSdus curTime pduSz =>
      obtain ⟨umUl', left, sent', h1, h2, h3⟩ :=
        @fillGrant_moves rbCb curTime umUl umDl.sduQ umDl sent h pduSz 0
      obtain ⟨rfl, rfl⟩ := Prod.ext_iff.1 (Except.ok.inj hstep)
      exact ⟨umUl', left, sent', h1, h2, (List.append_nil _).trans h3⟩
  | discSdu sduId =>
      have hmoves : Moves rbCb umDl.sduQ umUl sent umDl' outs := by
        obtain ⟨he, he'⟩ := Prod.ext_iff.1 (Except.ok.inj hstep)
        rw [rlcUmmDiscSdu] at he he'
        cases hq : umDl.sduQ with
        | nil =>
            rw [hq] at he he'
            subst he he'
            exact moves_nothing h hq
        | cons sdu sduQ =>
            rw [hq] at he he' h
            simp only at he he'
            split_ifs at he he' with hd
            · subst he he'
              cases h with
              | idle hall h =>
                  refine moves_cons (b := false) (by rfl) (moves_nothing ?_ rfl)
                  exact .idle (fun s hm => hall s (List.mem_cons_of_mem _ hm)) h
              | partly hsdu => exact absurd hsdu.isSegmented (by rw [hd.2]; exact Bool.false_ne_true)
            · subst he he'
              exact moves_nothing (hq ▸ h) hq
      obtain ⟨umUl', left, sent', h1, h2, h3⟩ := hmoves
      exact ⟨umUl', left, sent', h1, h2, by simpa [queued] using h3⟩

end

/-! ## Runs -/

variable {rbCb : RlcDlRbCb}

theorem queued_snoc (ops : List UmDlOp) (op : UmDlOp) :
    queued (ops ++ [op]) = queued ops ++ queued [op] := List.filterMap_append

/-- **UM is transparent**: in every run what left the queue, received or dropped, is what was
queued before the rest. -/
theorem run_transparent {ops : List UmDlOp} {umDl : RlcUmDl} {outs : List UmDlOut}
    (h : Machine.run (UmDlOp.step rbCb) {} ops = .ok (umDl, outs)) :
    ∃ (umUl : RlcUmUl rbCb.snLen Octets) (left : List (Bool × Octets)),
      Machine.run receive {} outs = .ok (umUl, left) ∧
      left.map Prod.snd = (queued ops).take ((queued ops).length - umDl.sduQ.length) := by
  have hinv := Machine.history_invariant (P := fun _ _ => True)
    (J := fun ops umDl outs => ∃ (umUl : RlcUmUl rbCb.snLen Octets) (left : List (Bool × Octets))
      (sent : Octets), Machine.run receive {} outs = .ok (umUl, left) ∧
        Link umDl.sduQ umDl.txNext umUl sent ∧
        queued ops = left.map Prod.snd ++ contents sent umDl.sduQ)
    ⟨{}, [], [], rfl, .idle (by simp) ⟨rbCb.snLen.modulus_pos, rfl, rfl, rfl, rfl, rfl⟩, rfl⟩
    (fun ops op umDl umDl' outs out _ hJ _ hstep => by
      obtain ⟨umUl, left, sent, hrun, hlink, hq⟩ := hJ
      obtain ⟨umUl', left', sent', hrun', hlink', hq'⟩ := step_moves op hlink hstep
      refine ⟨umUl', left ++ left', sent', Machine.run_append hrun hrun', hlink', ?_⟩
      rw [queued_snoc, hq, List.append_assoc, hq', List.map_append, List.append_assoc])
    (Machine.along_of_forall (fun _ _ => trivial) ops _) h
  obtain ⟨umUl, left, sent, hrun, -, hq⟩ := hinv
  refine ⟨umUl, left, hrun, ?_⟩
  have hlen : (queued ops).length - umDl.sduQ.length = (left.map Prod.snd).length := by
    rw [hq, List.length_append, length_contents, Nat.add_sub_cancel]
  rw [hlen, hq, List.take_left]

/-- **The buffer occupancy is right in a run, and UM transparent, exactly if no call drops an
SDU.** -/
theorem um_right_iff (rbCb : RlcDlRbCb) (ops : List UmDlOp) :
    (∀ pre, pre <+: ops → UmRight rbCb pre) ↔
      Machine.Along (UmDlOp.step rbCb) (fun umDl op => ¬ op.Drops rbCb umDl) {} ops := by
  refine Machine.prefixes_iff_along ?_ (fun ops ⟨umDl, outs, _, _, h, _⟩ => ⟨umDl, outs, h⟩) ?_ ops
  · exact ⟨{}, [], {}, [], rfl, rfl, rfl, by simp, rfl⟩
  · intro ops op umDl outs hP hrun
    obtain ⟨umDl', out, hstep⟩ : ∃ umDl' out, op.step rbCb umDl = .ok (umDl', out) := by
      cases op <;> exact ⟨_, _, rfl⟩
    have hrun' := Machine.run_snoc_of_step hrun hstep
    -- nothing has leaked so far
    have hzero : leak umDl = 0 := by
      refine Machine.run_invariant (I := fun umDl => leak umDl = 0)
        (fun s i s' o hs hnot hstep => ?_) rfl hP hrun
      obtain ⟨hle, hiff⟩ := step_leak i hstep
      have hnlt := hiff.not.2 hnot
      omega
    obtain ⟨hle, hiff⟩ := step_leak op hstep
    rw [hzero] at hle hiff
    rw [← hiff, leak, Int.not_lt]
    rw [leak] at hle
    constructor
    · rintro ⟨umDl'', outs', umUl, left, h1, -, hbo, -⟩
      obtain ⟨rfl, -⟩ := Prod.mk.inj (Except.ok.inj (h1.symm.trans hrun'))
      omega
    · intro hle'
      have hbo : umDl'.bo = queueBo umDl'.sduQ := by omega
      obtain ⟨umUl, left, h1, h2⟩ := run_transparent hrun'
      exact ⟨umDl', _, umUl, left, hrun', h1, hbo, by rw [hbo, queueBo_eq_zero], h2⟩

/-- An SDU of ten octets that the upper layer has dropped before it is sent. -/
def discardOps : List UmDlOp :=
  [.qSdu 1 0 (List.replicate 10 0) (by decide), .discSdu 1]

/-- **Its buffer occupancy stays**: the queue is empty, and `bo` is 15. -/
theorem um_discard_leaks : ¬ ∀ pre, pre <+: discardOps →
    UmRight { snLen := .bits6, discTmrInt := 0, isDrb := true } pre := by
  intro h
  obtain ⟨umDl, outs, umUl, left, hrun, -, hbo, -⟩ := h discardOps List.prefix_rfl
  have hleak : umDl.bo = 15 ∧ umDl.sduQ = [] := by
    obtain ⟨rfl, -⟩ := Prod.mk.inj (Except.ok.inj hrun)
    decide
  rw [hleak.1, hleak.2] at hbo
  exact absurd hbo (by decide)

end OaiCu.OduRlc
