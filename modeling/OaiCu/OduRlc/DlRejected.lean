import OaiCu.OduRlc.AmDl

/-!
# The rejected STATUS

`rlcAmmDlHndlStatusPdu` looks at the NACK_SNs one after the other, and gives up at one that is not
in the window. What it did for the NACKs in front of that one stays done. Nothing ever comes back
into the buffers while a STATUS is processed, so that it is seen from their sizes whether anything
was done.
-/

namespace OaiCu.OduRlc

/-- The end of a PDU is before what is missing of its SN. -/
def RlcNackInfo.endsBefore (nack : RlcNackInfo) (soEnd : ℕ) : Bool :=
  nack.isSegment && decide (soEnd < nack.soStart)

/-- The end of a PDU is in what is missing of its SN. -/
def RlcNackInfo.endsIn (nack : RlcNackInfo) (soEnd : ℕ) : Bool :=
  !nack.endsBefore soEnd && (!nack.isSegment || decide (soEnd ≤ nack.soEnd))

/-- The nodes that `nackRetxLoop` goes over. -/
def RlcNackInfo.reach (nack : RlcNackInfo) (retx : RlcRetx) : Bool :=
  decide (retx.amHdr.sn = nack.sn) && (nack.endsBefore retx.soEnd || nack.endsIn retx.soEnd)

namespace StaProc

/-- `retxLst`. -/
def nodes (c : StaProc) : List RlcRetx := c.passed ++ c.ahead

/-- The number of nodes that wait for retransmission. -/
def waiting (c : StaProc) : ℕ := c.nodes.countP (·.pendingReTrans)

def txSize (c : StaProc) (sn : ℕ) : ℕ := (c.amDl.txBufLst sn).elim 0 (·.length + 1)

/-- The buffers are of the same size. -/
structure SameSize (c c' : StaProc) : Prop where
  tx : c'.amDl.txBufLst = c.amDl.txBufLst
  length : c'.nodes.length = c.nodes.length
  waiting : c'.waiting = c.waiting

/-- Nothing has come back: a buffer is smaller, or more nodes wait. -/
structure Fewer (c c' : StaProc) : Prop where
  txSize : ∀ sn, c'.txSize sn ≤ c.txSize sn
  cases : (∃ sn, c'.txSize sn < c.txSize sn) ∨ (c'.amDl.txBufLst = c.amDl.txBufLst ∧
    (c'.nodes.length < c.nodes.length ∨
      (c'.nodes.length = c.nodes.length ∧ c.waiting ≤ c'.waiting)))

variable {c c' c'' : StaProc}

theorem SameSize.txSize (h : SameSize c c') (sn : ℕ) : c'.txSize sn = c.txSize sn := by
  rw [StaProc.txSize, StaProc.txSize, h.tx]

theorem Fewer.refl (c : StaProc) : Fewer c c :=
  ⟨fun _ => Nat.le_refl _, .inr ⟨rfl, .inr ⟨rfl, Nat.le_refl _⟩⟩⟩

theorem Fewer.trans (h : Fewer c c') (h' : Fewer c' c'') : Fewer c c'' := by
  refine ⟨fun sn => (h'.txSize sn).trans (h.txSize sn), ?_⟩
  rcases h.cases with ⟨sn, hlt⟩ | ⟨htx, hn⟩
  · exact .inl ⟨sn, (h'.txSize sn).trans_lt hlt⟩
  · rcases h'.cases with ⟨sn, hlt⟩ | ⟨htx', hn'⟩
    · exact .inl ⟨sn, hlt.trans_le (h.txSize sn)⟩
    · exact .inr ⟨htx'.trans htx, by omega⟩

/-- If the sizes are the same at the end, they were the same all along. -/
theorem Fewer.sameSize (h : Fewer c c') (h' : Fewer c' c'') (hs : SameSize c c'') :
    SameSize c c' ∧ SameSize c' c'' := by
  have hsize : ∀ sn, c''.txSize sn = c'.txSize sn ∧ c'.txSize sn = c.txSize sn := fun sn => by
    have h1 := h.txSize sn
    have h2 := h'.txSize sn
    have h3 := hs.txSize sn
    omega
  have hlen := hs.length
  have hwait := hs.waiting
  rcases h.cases with ⟨sn, hlt⟩ | ⟨htx, hn⟩
  · exact absurd hlt (by have := hsize sn; omega)
  · rcases h'.cases with ⟨sn, hlt⟩ | ⟨htx', hn'⟩
    · exact absurd hlt (by have := hsize sn; omega)
    · exact ⟨⟨htx, by omega, by omega⟩, ⟨htx', by omega, by omega⟩⟩

/-! ## The operations -/

theorem confirm_frame (c : StaProc) (sduId : ℕ) :
    (c.confirm sduId).passed = c.passed ∧ (c.confirm sduId).ahead = c.ahead ∧
      (c.confirm sduId).amDl.txBufLst = c.amDl.txBufLst := by
  rw [confirm]
  split <;> exact ⟨rfl, rfl, rfl⟩

theorem deliver_frame (c : StaProc) (sduMap : RlcSduMap) :
    (c.rlcAmmDlCheckIsSDUDelivered sduMap).passed = c.passed ∧
      (c.rlcAmmDlCheckIsSDUDelivered sduMap).ahead = c.ahead ∧
      (c.rlcAmmDlCheckIsSDUDelivered sduMap).amDl.txBufLst = c.amDl.txBufLst := by
  rw [rlcAmmDlCheckIsSDUDelivered]
  simp only
  split
  · exact confirm_frame _ _
  · exact ⟨rfl, rfl, rfl⟩

theorem deliverAll_frame (pduLst : List RlcDlPduInfo) (c : StaProc) :
    (pduLst.foldl (fun c pduInfo => c.rlcAmmDlCheckIsSDUDelivered pduInfo.sduMap) c).passed =
        c.passed ∧
      (pduLst.foldl (fun c pduInfo => c.rlcAmmDlCheckIsSDUDelivered pduInfo.sduMap) c).ahead =
        c.ahead ∧
      (pduLst.foldl (fun c pduInfo => c.rlcAmmDlCheckIsSDUDelivered pduInfo.sduMap)
        c).amDl.txBufLst = c.amDl.txBufLst := by
  induction pduLst generalizing c with
  | nil => exact ⟨rfl, rfl, rfl⟩
  | cons pduInfo pduLst ih =>
      obtain ⟨h1, h2, h3⟩ := deliver_frame c pduInfo.sduMap
      obtain ⟨i1, i2, i3⟩ := ih (c.rlcAmmDlCheckIsSDUDelivered pduInfo.sduMap)
      exact ⟨i1.trans h1, i2.trans h2, i3.trans h3⟩

section

variable {retx : RlcRetx} {ahead : List RlcRetx}

/-- A node is removed. -/
theorem fewer_of_removed (htx : c'.amDl.txBufLst = c.amDl.txBufLst)
    (hlen : c'.nodes.length < c.nodes.length) : Fewer c c' ∧ ¬ SameSize c c' := by
  refine ⟨⟨fun sn => ?_, .inr ⟨htx, .inl hlen⟩⟩, fun hs => ?_⟩
  · rw [StaProc.txSize, StaProc.txSize, htx]
  · have := hs.length
    omega

/-- The PDUs of an SN are gone. -/
theorem fewer_of_tx {sn : ℕ} (hother : ∀ x, x ≠ sn → c'.amDl.txBufLst x = c.amDl.txBufLst x)
    (hlt : c'.txSize sn < c.txSize sn) : Fewer c c' ∧ ¬ SameSize c c' := by
  refine ⟨⟨fun x => ?_, .inl ⟨sn, hlt⟩⟩, fun hs => ?_⟩
  · by_cases hx : x = sn
    · exact hx ▸ hlt.le
    · rw [StaProc.txSize, StaProc.txSize, hother x hx]
  · have := hs.txSize sn
    omega

theorem successfulReTx_fewer (h : c.ahead = retx :: ahead) :
    (rlcAmmDlProcessSuccessfulReTx retx ahead c).ahead = ahead ∧
      Fewer c (rlcAmmDlProcessSuccessfulReTx retx ahead c) ∧
      ¬ SameSize c (rlcAmmDlProcessSuccessfulReTx retx ahead c) := by
  obtain ⟨h1, h2, h3⟩ := deliver_frame c retx.sduMap
  refine ⟨rfl, fewer_of_removed ?_ ?_⟩
  · rw [rlcAmmDlProcessSuccessfulReTx, rlcRemRetxPdu]
    exact h3
  · rw [nodes, nodes, rlcAmmDlProcessSuccessfulReTx, rlcRemRetxPdu, h]
    simp only [h1, List.length_append, List.length_cons]
    omega

/-- A node that does not wait yet is marked, or removed. -/
theorem mark_fewer (h : c.ahead = retx :: ahead) :
    (rlcAmmDlMarkPduForReTx retx ahead c).ahead = ahead ∧
      Fewer c (rlcAmmDlMarkPduForReTx retx ahead c) ∧
      ((c.amDl.maxReTxReached || retx.pendingReTrans) = false →
        ¬ SameSize c (rlcAmmDlMarkPduForReTx retx ahead c)) ∧
      ((c.amDl.maxReTxReached || retx.pendingReTrans) = true →
        rlcAmmDlMarkPduForReTx retx ahead c = { c with
          passed := c.passed ++ [retx]
          ahead := ahead }) := by
  rw [rlcAmmDlMarkPduForReTx]
  cases hw : c.amDl.maxReTxReached || retx.pendingReTrans with
  | true =>
      simp only [if_true]
      refine ⟨trivial, ⟨fun _ => Nat.le_refl _, .inr ⟨rfl, .inr ?_⟩⟩, Bool.noConfusion, fun _ => trivial⟩
      rw [waiting, waiting, nodes, nodes, h]
      simp
  | false =>
      have hp : retx.pendingReTrans = false := (Bool.or_eq_false_iff.1 hw).2
      simp only [Bool.false_eq_true, if_false]
      split
      · have hfewer := @fewer_of_removed c (rlcRemRetxPdu { retx with
            pendingReTrans := true
            retxCnt := retx.retxCnt + 1 } ahead { c with amDl := { c.amDl with
              maxReTxReached := true
              retxBo := 0 } }) rfl (by
          rw [nodes, nodes, rlcRemRetxPdu, h]
          simp only [List.length_append, List.length_cons]
          omega)
        exact ⟨rfl, hfewer.1, fun _ => hfewer.2, False.elim⟩
      · have hcount : ∀ amDl : RlcAmDl, StaProc.waiting { amDl := amDl
                                                          passed := c.passed ++ [{ retx with
                                                            pendingReTrans := true
                                                            retxCnt := retx.retxCnt + 1 }]
                                                          ahead := ahead } = c.waiting + 1 := by
          intro amDl
          rw [waiting, waiting, nodes, nodes, h]
          simp [hp]
          omega
        refine ⟨rfl, ⟨fun _ => Nat.le_refl _, .inr ⟨rfl, .inr ⟨?_, ?_⟩⟩⟩, fun _ hs => ?_, False.elim⟩
        · rw [nodes, nodes, h]
          simp
        · rw [hcount]
          omega
        · have := hs.waiting
          rw [hcount] at this
          omega

end

/-! ## The loops -/

theorem ackRetxBelow_fewer (m : ℕ) : ∀ (ahead : List RlcRetx) (c : StaProc), c.ahead = ahead →
    Fewer c (ackRetxBelow m ahead c) ∧
      ((ahead.head?.all fun retx => m ≤ c.amDl.pos retx.amHdr.sn) = false →
        ¬ SameSize c (ackRetxBelow m ahead c)) ∧
      ((ahead.head?.all fun retx => m ≤ c.amDl.pos retx.amHdr.sn) = true →
        ackRetxBelow m ahead c = c)
  | [], c, _ => ⟨Fewer.refl c, nofun, fun _ => rfl⟩
  | retx :: ahead, c, h => by
      rw [ackRetxBelow, List.head?_cons, Option.all_some]
      by_cases hm : c.amDl.pos retx.amHdr.sn < m
      · obtain ⟨h1, h2, h3⟩ := successfulReTx_fewer h
        obtain ⟨i1, -, -⟩ := ackRetxBelow_fewer m ahead _ h1
        rw [if_pos hm, decide_eq_false (by omega)]
        exact ⟨h2.trans i1, fun _ hs => h3 (h2.sameSize i1 hs).1, nofun⟩
      · rw [if_neg hm, decide_eq_true (by omega)]
        exact ⟨Fewer.refl c, nofun, fun _ => rfl⟩

/-- A NACK goes over nodes that wait already. -/
def goOver (nackSnInfo : RlcNackInfo) (c : StaProc) : StaProc :=
  { c with
    passed := c.passed ++ c.ahead.takeWhile nackSnInfo.reach
    ahead := c.ahead.dropWhile nackSnInfo.reach }

/-- A NACK of an SN changes nothing: no PDU of the SN is in `txBufLst`, and the nodes it comes to
are missing and wait already. -/
def nackIdle (nackSnInfo : RlcNackInfo) (c : StaProc) : Bool :=
  (c.amDl.txBufLst nackSnInfo.sn).isNone && (c.ahead.takeWhile nackSnInfo.reach).all fun retx =>
    nackSnInfo.endsIn retx.soEnd && (c.amDl.maxReTxReached || retx.pendingReTrans)

theorem nodes_goOver (nackSnInfo : RlcNackInfo) (c : StaProc) :
    (c.goOver nackSnInfo).nodes = c.nodes := by
  rw [nodes, nodes, goOver]
  simp only [List.append_assoc, List.takeWhile_append_dropWhile]

theorem nackRetxLoop_fewer (nack : RlcNackInfo) : ∀ (ahead : List RlcRetx) (c : StaProc),
    c.ahead = ahead → Fewer c (nackRetxLoop nack ahead c) ∧
      (((ahead.takeWhile nack.reach).all fun retx =>
          nack.endsIn retx.soEnd && (c.amDl.maxReTxReached || retx.pendingReTrans)) = false →
        ¬ SameSize c (nackRetxLoop nack ahead c)) ∧
      (((ahead.takeWhile nack.reach).all fun retx =>
          nack.endsIn retx.soEnd && (c.amDl.maxReTxReached || retx.pendingReTrans)) = true →
        nackRetxLoop nack ahead c = c.goOver nack)
  | [], c, h => by
      refine ⟨Fewer.refl c, nofun, fun _ => ?_⟩
      rw [nackRetxLoop, goOver, h]
      simp only [List.takeWhile_nil, List.dropWhile_nil, List.append_nil]
      rw [← h]
  | retx :: ahead, c, h => by
      have hstop : nack.reach retx = false → c = c.goOver nack := by
        intro hr
        rw [goOver, h]
        simp only [List.takeWhile_cons, List.dropWhile_cons, hr, Bool.false_eq_true, if_false,
          List.append_nil]
        rw [← h]
      rw [nackRetxLoop]
      split
      · rename_i hsn
        have hr : nack.reach retx = false := by simp [RlcNackInfo.reach, hsn]
        rw [List.takeWhile_cons, hr]
        exact ⟨Fewer.refl c, nofun, fun _ => hstop hr⟩
      rename_i hsn
      rw [not_not] at hsn
      split
      · rename_i hb
        have hb : nack.endsBefore retx.soEnd = true := hb
        have hr : nack.reach retx = true := by simp [RlcNackInfo.reach, hsn, hb]
        have hin : nack.endsIn retx.soEnd = false := by simp [RlcNackInfo.endsIn, hb]
        obtain ⟨h1, h2, h3⟩ := successfulReTx_fewer h
        obtain ⟨i1, -, -⟩ := nackRetxLoop_fewer nack ahead _ h1
        rw [List.takeWhile_cons, hr, if_pos rfl, List.all_cons, hin]
        exact ⟨h2.trans i1, fun _ hs => h3 (h2.sameSize i1 hs).1, nofun⟩
      rename_i hb
      have hb : nack.endsBefore retx.soEnd = false := Bool.eq_false_iff.mpr hb
      split
      · rename_i hin
        have hin : nack.endsIn retx.soEnd = true := by simp [RlcNackInfo.endsIn, hb, hin]
        have hr : nack.reach retx = true := by simp [RlcNackInfo.reach, hsn, hin]
        obtain ⟨h1, h2, h3, h4⟩ := mark_fewer h
        obtain ⟨i1, i2, i3⟩ := nackRetxLoop_fewer nack ahead _ h1
        rw [List.takeWhile_cons, hr, if_pos rfl, List.all_cons, hin, Bool.true_and]
        cases hw : c.amDl.maxReTxReached || retx.pendingReTrans with
        | false => exact ⟨h2.trans i1, fun _ hs => h3 hw (h2.sameSize i1 hs).1, nofun⟩
        | true =>
            rw [h4 hw] at i1 i2 i3 h2 ⊢
            rw [Bool.true_and]
            refine ⟨h2.trans i1, fun hf hs => i2 hf (h2.sameSize i1 hs).2, fun ht => ?_⟩
            rw [i3 ht, goOver, goOver, h]
            simp only [List.takeWhile_cons, List.dropWhile_cons, hr, if_true, List.append_assoc,
              List.singleton_append]
      · rename_i hin
        have hin : nack.endsIn retx.soEnd = false := by
          simp only [RlcNackInfo.endsIn, hb, Bool.not_false, Bool.true_and]
          exact Bool.eq_false_iff.mpr hin
        have hr : nack.reach retx = false := by simp [RlcNackInfo.reach, hb, hin]
        rw [List.takeWhile_cons, hr]
        exact ⟨Fewer.refl c, nofun, fun _ => hstop hr⟩

theorem move_txBufLst (pduInfo : RlcDlPduInfo) (c : StaProc) :
    (rlcAmmDlMoveSduByteSegFrmTxtoRetxBuffer pduInfo c).amDl.txBufLst = c.amDl.txBufLst := rfl

theorem moveAll_txBufLst (pduLst : List RlcDlPduInfo) (c : StaProc) :
    (pduLst.foldl (fun c pduInfo => rlcAmmDlMoveSduByteSegFrmTxtoRetxBuffer pduInfo c)
      c).amDl.txBufLst = c.amDl.txBufLst := by
  induction pduLst generalizing c with
  | nil => rfl
  | cons pduInfo pduLst ih => exact (ih _).trans (move_txBufLst pduInfo c)

/-- If a PDU was moved, fewer stay. -/
theorem hndlStatusSegs_frame (nack : RlcNackInfo) : ∀ (pduLst : List RlcDlPduInfo) (c : StaProc)
    (moved : Bool), (hndlStatusSegs nack pduLst c moved).2.1.amDl.txBufLst = c.amDl.txBufLst ∧
      (hndlStatusSegs nack pduLst c moved).1.length ≤ pduLst.length ∧
      ((hndlStatusSegs nack pduLst c moved).2.2 = true → moved = true ∨
        (hndlStatusSegs nack pduLst c moved).1.length < pduLst.length)
  | [], _, _ => ⟨rfl, Nat.le_refl _, .inl⟩
  | pduInfo :: pduLst, c, moved => by
      rw [hndlStatusSegs]
      split
      · obtain ⟨h1, h2, -⟩ := hndlStatusSegs_frame nack pduLst
          (c.rlcAmmDlCheckIsSDUDelivered pduInfo.sduMap) moved
        refine ⟨h1.trans (deliver_frame _ _).2.2, ?_, fun _ => .inr ?_⟩ <;>
          rw [List.length_cons] <;> omega
      · split
        · obtain ⟨h1, h2, -⟩ := hndlStatusSegs_frame nack pduLst
            (rlcAmmDlMoveSduByteSegFrmTxtoRetxBuffer pduInfo c) true
          refine ⟨h1.trans (move_txBufLst _ _), ?_, fun _ => .inr ?_⟩ <;>
            rw [List.length_cons] <;> omega
        · obtain ⟨h1, h2, h3⟩ := hndlStatusSegs_frame nack pduLst c moved
          simp only
          refine ⟨h1, ?_, fun hm => (h3 hm).imp_right fun hlt => ?_⟩ <;>
            rw [List.length_cons, List.length_cons] <;> omega

/-- The PDUs of an SN leave `txBufLst`, all or some. -/
theorem fewer_setTxBuf {sn : ℕ} {pduLst : List RlcDlPduInfo}
    (hL : c.amDl.txBufLst sn = some pduLst) (htx : c'.amDl.txBufLst = c.amDl.txBufLst)
    {txBuf : Option (List RlcDlPduInfo)}
    (hlt : txBuf.elim 0 (·.length + 1) < pduLst.length + 1) :
    Fewer c (c'.setTxBuf sn txBuf) ∧ ¬ SameSize c (c'.setTxBuf sn txBuf) := by
  refine @fewer_of_tx _ _ sn (fun x hx => ?_) ?_
  · rw [StaProc.setTxBuf, RlcAmDl.setTxBuf]
    exact (Function.update_of_ne hx _ _).trans (congrFun htx x)
  · rw [txSize, txSize, hL, StaProc.setTxBuf, RlcAmDl.setTxBuf]
    simp only [Function.update_self, Option.elim_some]
    exact hlt

theorem updateForNackSn_fewer {nack : RlcNackInfo}
    (h : rlcAmmDlUpdateTxAndReTxBufForNackSn nack c = some c') :
    Fewer c c' ∧ (nackIdle nack c = false → ¬ SameSize c c') ∧
      (nackIdle nack c = true → c' = c.goOver nack) := by
  rw [rlcAmmDlUpdateTxAndReTxBufForNackSn] at h
  rw [nackIdle]
  cases hL : c.amDl.txBufLst nack.sn with
  | none =>
      rw [hL] at h
      cases h
      exact nackRetxLoop_fewer nack c.ahead c rfl
  | some pduLst =>
      rw [hL] at h
      simp only at h
      have hboth : Fewer c c' ∧ ¬ SameSize c c' := by
        split at h
        · obtain ⟨h1, h2, h3⟩ := hndlStatusSegs_frame nack pduLst c false
          rw [rlcAmmDlHndlStatus4SduByteSegInTxBuf] at h
          generalize hndlStatusSegs nack pduLst c false = r at h h1 h2 h3
          obtain ⟨kept, c₁, moved⟩ := r
          simp only at h h1 h2 h3
          split at h
          · rename_i hmoved
            cases h
            have hlt := (h3 hmoved).resolve_left Bool.false_ne_true
            refine fewer_setTxBuf hL h1 ?_
            split
            · exact Nat.succ_pos _
            · rw [Option.elim_some]
              omega
          · cases h
        · rw [rlcAmmDlMoveFrmTxtoRetxBuffer] at h
          simp only at h
          split at h
          · cases h
            exact fewer_setTxBuf hL (moveAll_txBufLst pduLst c) (Nat.succ_pos _)
          · cases h
      exact ⟨hboth.1, fun _ => hboth.2, Bool.noConfusion⟩

theorem successfulTxPdu_fewer (sn : ℕ) (c : StaProc) :
    Fewer c (rlcAmmDlProcessSuccessfulTxPdu sn c) ∧
      ((c.amDl.txBufLst sn).isNone = false →
        ¬ SameSize c (rlcAmmDlProcessSuccessfulTxPdu sn c)) ∧
      ((c.amDl.txBufLst sn).isNone = true → rlcAmmDlProcessSuccessfulTxPdu sn c = c) := by
  rw [rlcAmmDlProcessSuccessfulTxPdu]
  cases hL : c.amDl.txBufLst sn with
  | none => exact ⟨Fewer.refl c, nofun, fun _ => rfl⟩
  | some pduLst =>
      have hboth := @fewer_setTxBuf _ _ _ _ hL (deliverAll_frame pduLst c).2.2 none
        (Nat.succ_pos _)
      exact ⟨hboth.1, fun _ => hboth.2, Bool.noConfusion⟩

/-- Nothing is in `txBufLst` from the SN on, up to the position `m`. -/
def txIdle (m : ℕ) (amDl : RlcAmDl) : ℕ → ℕ → Bool
  | 0, _ => true
  | fuel + 1, sn =>
    if amDl.pos sn < m then (amDl.txBufLst sn).isNone && txIdle m amDl fuel (amDl.nextSn sn)
    else true

theorem ackTxLoop_fewer (m : ℕ) : ∀ (fuel sn : ℕ) (c : StaProc),
    Fewer c (ackTxLoop m fuel sn c) ∧
      (txIdle m c.amDl fuel sn = false → ¬ SameSize c (ackTxLoop m fuel sn c)) ∧
      (txIdle m c.amDl fuel sn = true → ackTxLoop m fuel sn c = c)
  | 0, _, c => ⟨Fewer.refl c, nofun, fun _ => rfl⟩
  | fuel + 1, sn, c => by
      rw [ackTxLoop, txIdle]
      split
      · obtain ⟨h1, h2, h3⟩ := successfulTxPdu_fewer sn c
        obtain ⟨i1, i2, i3⟩ := ackTxLoop_fewer m fuel (c.amDl.nextSn sn)
          (rlcAmmDlProcessSuccessfulTxPdu sn c)
        refine ⟨h1.trans i1, ?_, ?_⟩
        · cases hn : (c.amDl.txBufLst sn).isNone with
          | false => exact fun _ hs => h2 hn (h1.sameSize i1 hs).1
          | true =>
              rw [h3 hn] at i1 i2 ⊢
              exact i2
        · cases hn : (c.amDl.txBufLst sn).isNone with
          | false => nofun
          | true =>
              rw [h3 hn] at i3 ⊢
              exact i3
      · exact ⟨Fewer.refl c, nofun, fun _ => rfl⟩

/-- Nothing is acknowledged by a NACK_SN at the position `m`: there is neither a node at
`retxNode` nor a PDU from `sn` on below it. -/
def belowIdle (sn m : ℕ) (c : StaProc) : Bool :=
  (c.ahead.head?.all fun retx => m ≤ c.amDl.pos retx.amHdr.sn) &&
    txIdle m c.amDl c.amDl.snLen.modulus sn

theorem lessThanNackSn_fewer (sn m : ℕ) (c : StaProc) :
    Fewer c (rlcAmmDlUpdTxAndReTxBufForLessThanNackSn sn m c) ∧
      (belowIdle sn m c = false → ¬ SameSize c (rlcAmmDlUpdTxAndReTxBufForLessThanNackSn sn m c)) ∧
      (belowIdle sn m c = true → rlcAmmDlUpdTxAndReTxBufForLessThanNackSn sn m c = c) := by
  rw [rlcAmmDlUpdTxAndReTxBufForLessThanNackSn, belowIdle]
  obtain ⟨h1, h2, h3⟩ := ackRetxBelow_fewer m c.ahead c rfl
  obtain ⟨i1, i2, i3⟩ := ackTxLoop_fewer m c.amDl.snLen.modulus sn (ackRetxBelow m c.ahead c)
  refine ⟨h1.trans i1, ?_, ?_⟩
  · cases hb : c.ahead.head?.all fun retx => decide (m ≤ c.amDl.pos retx.amHdr.sn) with
    | false => exact fun _ hs => h2 hb (h1.sameSize i1 hs).1
    | true =>
        rw [h3 hb] at i2 ⊢
        rw [Bool.true_and]
        exact i2
  · cases hb : c.ahead.head?.all fun retx => decide (m ≤ c.amDl.pos retx.amHdr.sn) with
    | false => nofun
    | true =>
        rw [h3 hb] at i3 ⊢
        rw [Bool.true_and]
        exact i3

/-! ## The NACKs -/

/-- The NACKs of a range change nothing, with `retxNode` behind them. -/
def rangeOver (nackInfo : RlcNackInfo) : ℕ → ℕ → RlcNackInfo → StaProc → Option StaProc
  | 0, _, _, c => some c
  | n + 1, idx, nackSnInfo, c =>
    let nackSnInfo := rlcDlAmmGetNackSnInfoFrmNackRangeIdx c nackInfo nackSnInfo idx
    if nackIdle nackSnInfo c then
      rangeOver nackInfo n (idx + 1) { nackSnInfo with sn := c.amDl.nextSn nackSnInfo.sn }
        (c.goOver nackSnInfo)
    else none

/-- A NACK changes nothing, with `retxNode` behind it. -/
def nackOver (transWinStartSn : ℕ) (nackInfo : RlcNackInfo) (c : StaProc) : Option StaProc :=
  if belowIdle transWinStartSn (c.amDl.pos nackInfo.sn) c then
    if nackInfo.nackRange = 0 then
      if nackIdle nackInfo c then some (c.goOver nackInfo) else none
    else rangeOver nackInfo nackInfo.nackRange 0 nackInfo c
  else none

/-- The NACKs in front of the one that is not in the window change nothing. -/
def nacksOver (mAckSn mTxNext : ℕ) : List RlcNackInfo → ℕ → StaProc → Option StaProc
  | [], _, c => some c
  | nackInfo :: nacks, transWinStartSn, c =>
    let mNackSn := c.amDl.pos nackInfo.sn
    if mAckSn < mNackSn ∨ mTxNext ≤ mNackSn then some c
    else do
      let c ← nackOver transWinStartSn nackInfo c
      let count := if nackInfo.nackRange = 0 then 1 else nackInfo.nackRange
      nacksOver mAckSn mTxNext nacks ((nackInfo.sn + count) &&& c.amDl.snLen.snModMask) c

/-- What the entity becomes if the check finds that nothing is changed, and else. -/
structure Decides (c : StaProc) (skip : Option StaProc) (c' : StaProc) : Prop where
  fewer : Fewer c c'
  changed : skip = none → ¬ SameSize c c'
  same : ∀ c₁, skip = some c₁ → c' = c₁ ∧ c₁.amDl = c.amDl ∧ c₁.nodes = c.nodes

theorem Decides.trans {skip : Option StaProc} {next : StaProc → Option StaProc}
    (h : Decides c skip c') (h' : ∀ c₁, skip = some c₁ → Decides c₁ (next c₁) c'')
    (hf : Fewer c' c'') : Decides c (skip.bind next) c'' := by
  cases ho : skip with
  | none => exact ⟨h.fewer.trans hf, fun _ hs => h.changed ho (h.fewer.sameSize hf hs).1,
      fun _ hc => by cases hc⟩
  | some c₁ =>
      obtain ⟨rfl, h2, h3⟩ := h.same c₁ ho
      have hn := h' c' ho
      rw [Option.bind_some]
      refine ⟨h.fewer.trans hf, fun hnone hs => hn.changed hnone (h.fewer.sameSize hf hs).2,
        fun c₂ hc => ?_⟩
      obtain ⟨i1, i2, i3⟩ := hn.same c₂ hc
      exact ⟨i1, i2.trans h2, i3.trans h3⟩

theorem updateForNackSn_decides {nack : RlcNackInfo}
    (h : rlcAmmDlUpdateTxAndReTxBufForNackSn nack c = some c') :
    Decides c (if nackIdle nack c then some (c.goOver nack) else none) c' := by
  obtain ⟨h1, h2, h3⟩ := updateForNackSn_fewer h
  cases hi : nackIdle nack c with
  | false => exact ⟨h1, fun _ => h2 hi, fun _ hc => by cases hc⟩
  | true =>
      refine ⟨h1, nofun, fun c₁ hc => ?_⟩
      cases hc
      exact ⟨h3 hi, rfl, nodes_goOver nack c⟩

theorem nackRangeLoop_decides (nackInfo : RlcNackInfo) : ∀ (n idx : ℕ) (nackSnInfo : RlcNackInfo)
    (c : StaProc) {c' : StaProc}, nackRangeLoop nackInfo n idx nackSnInfo c = some c' →
      Decides c (rangeOver nackInfo n idx nackSnInfo c) c'
  | 0, _, _, c, c', h => by
      cases h
      exact ⟨Fewer.refl c, nofun, fun c₁ hc => by cases hc; exact ⟨rfl, rfl, rfl⟩⟩
  | n + 1, idx, nackSnInfo, c, c', h => by
      simp only [nackRangeLoop, bind, Option.bind_eq_some_iff] at h
      obtain ⟨c₁, h1, h2⟩ := h
      have hd := updateForNackSn_decides h1
      have hrec := nackRangeLoop_decides nackInfo n (idx + 1) _ c₁ h2
      rw [rangeOver]
      have hnext : Decides c (Option.bind _ fun c₂ => rangeOver nackInfo n (idx + 1)
          { rlcDlAmmGetNackSnInfoFrmNackRangeIdx c nackInfo nackSnInfo idx with
            sn := c₂.amDl.nextSn (rlcDlAmmGetNackSnInfoFrmNackRangeIdx c nackInfo nackSnInfo idx).sn } c₂)
          c' :=
        hd.trans (fun c₂ hc => by rw [← (hd.same c₂ hc).1]; exact hrec) hrec.fewer
      cases hi : nackIdle (rlcDlAmmGetNackSnInfoFrmNackRangeIdx c nackInfo nackSnInfo idx) c with
      | false => simpa [hi] using hnext
      | true => simpa [hi, goOver] using hnext

theorem nackStep_decides {transWinStartSn : ℕ} {nackInfo : RlcNackInfo}
    (h : nackStep transWinStartSn nackInfo c = some c') :
    Decides c (nackOver transWinStartSn nackInfo c) c' := by
  rw [nackStep] at h
  rw [nackOver]
  obtain ⟨h1, h2, h3⟩ := lessThanNackSn_fewer transWinStartSn (c.amDl.pos nackInfo.sn) c
  have hrest : ∀ {c₁}, (if nackInfo.nackRange = 0 then rlcAmmDlUpdateTxAndReTxBufForNackSn nackInfo c₁
      else nackRangeLoop nackInfo nackInfo.nackRange 0 nackInfo c₁) = some c' →
      Decides c₁ (if nackInfo.nackRange = 0 then
        if nackIdle nackInfo c₁ then some (c₁.goOver nackInfo) else none
      else rangeOver nackInfo nackInfo.nackRange 0 nackInfo c₁) c' := by
    intro c₁ h
    split at h
    · rename_i hr
      rw [if_pos hr]
      exact updateForNackSn_decides h
    · rename_i hr
      rw [if_neg hr]
      exact nackRangeLoop_decides _ _ _ _ _ h
  have hd := hrest h
  cases hb : belowIdle transWinStartSn (c.amDl.pos nackInfo.sn) c with
  | false => exact ⟨h1.trans hd.fewer, fun _ hs => h2 hb (h1.sameSize hd.fewer hs).1,
      fun _ hc => by cases hc⟩
  | true =>
      rw [h3 hb] at hd
      exact hd

theorem nackLoop_decides (mAckSn mTxNext : ℕ) : ∀ (nacks : List RlcNackInfo) (transWinStartSn : ℕ)
    (c : StaProc) {c' : StaProc}, nackLoop mAckSn mTxNext nacks transWinStartSn c = some (c', false) →
      Decides c (nacksOver mAckSn mTxNext nacks transWinStartSn c) c'
  | [], _, c, c', h => by cases h
  | nackInfo :: nacks, transWinStartSn, c, c', h => by
      rw [nackLoop] at h
      rw [nacksOver]
      simp only at h ⊢
      split at h
      · rename_i hbad
        rw [if_pos hbad]
        cases h
        exact ⟨Fewer.refl c, nofun, fun c₁ hc => by cases hc; exact ⟨rfl, rfl, rfl⟩⟩
      · rename_i hbad
        rw [if_neg hbad]
        simp only [bind, Option.bind_eq_some_iff] at h
        obtain ⟨c₁, h1, h2⟩ := h
        have hd := nackStep_decides h1
        have hrec := nackLoop_decides mAckSn mTxNext nacks _ c₁ h2
        exact hd.trans (fun c₂ hc => by rw [← (hd.same c₂ hc).1]; exact hrec) hrec.fewer

end StaProc

/-! ## The error exits -/

/-- The poll timer is stopped if the ACK_SN is not behind `pollSn`; then the NACKs are looked at. -/
def startStatus (pStaPdu : RlcUdxStaPdu) (amDl : RlcAmDl) : StaProc :=
  .start (amDl.rlcAmmDlCheckAndStopPollTmr (amDl.pos pStaPdu.ackSn))

/-- What is there when `rlcAmmDlHndlStatusPdu` gives up in the loop over the NACKs. -/
def GivesUp (pStaPdu : RlcUdxStaPdu) (amDl : RlcAmDl) (c : StaProc) : Prop :=
  amDl.pos pStaPdu.ackSn ≤ amDl.pos amDl.txNext ∧
    nackLoop (amDl.pos pStaPdu.ackSn) (amDl.pos amDl.txNext) pStaPdu.nackInfo amDl.txNextAck
      (startStatus pStaPdu amDl) = some (c, false)

/-- The STATUS is rejected: its ACK_SN is not in the window, or one of its NACK_SNs. -/
def ErrorExit (pStaPdu : RlcUdxStaPdu) (amDl : RlcAmDl) : Prop :=
  amDl.pos amDl.txNext < amDl.pos pStaPdu.ackSn ∨ ∃ c, GivesUp pStaPdu amDl c

/-- Nothing has happened to the entity. -/
structure Unchanged (amDl amDl' : RlcAmDl) : Prop where
  txBufLst : amDl'.txBufLst = amDl.txBufLst
  retxLst : amDl'.retxLst = amDl.retxLst
  sduQ : amDl'.sduQ = amDl.sduQ
  rcvdSz : ∀ i, (amDl'.sdus i).rcvdSz = (amDl.sdus i).rcvdSz
  retxBo : amDl'.retxBo = amDl.retxBo
  txNextAck : amDl'.txNextAck = amDl.txNextAck
  pollRetxTmr : amDl'.pollRetxTmr = amDl.pollRetxTmr

/-- The STATUS leaves everything as it was, and no confirmation is in `datCfm` when it is freed. -/
structure WithoutEffect (pStaPdu : RlcUdxStaPdu) (amDl : RlcAmDl) : Prop where
  unchanged : ∃ amDl', rlcAmmDlHndlStatusPdu pStaPdu amDl = some amDl' ∧ Unchanged amDl amDl'
  confirmed : ∀ c, GivesUp pStaPdu amDl c → c.amDl.datCfm = []

/-- The ACK_SN is not in the window, or the poll timer is not stopped and the NACKs in front of
the bad one find nothing that is acknowledged or reported missing by them. -/
def NothingToDo (pStaPdu : RlcUdxStaPdu) (amDl : RlcAmDl) : Prop :=
  amDl.pos amDl.txNext < amDl.pos pStaPdu.ackSn ∨
    ((amDl.pollRetxTmr = true → amDl.pos pStaPdu.ackSn < amDl.pos amDl.pollSn) ∧
      (StaProc.nacksOver (amDl.pos pStaPdu.ackSn) (amDl.pos amDl.txNext) pStaPdu.nackInfo
        amDl.txNextAck (startStatus pStaPdu amDl)).isSome)

section

variable {pStaPdu : RlcUdxStaPdu} {amDl : RlcAmDl} {c : StaProc}

theorem givesUp_result (h : GivesUp pStaPdu amDl c) :
    rlcAmmDlHndlStatusPdu pStaPdu amDl = some c.close := by
  have hloop := h.2
  rw [startStatus] at hloop
  rw [rlcAmmDlHndlStatusPdu]
  simp only
  rw [if_neg (Nat.not_lt.mpr h.1), hloop]

theorem startStatus_nodes : (startStatus pStaPdu amDl).nodes = amDl.retxLst := by
  rw [startStatus, StaProc.start, StaProc.nodes, List.nil_append,
    RlcAmDl.rlcAmmDlCheckAndStopPollTmr]

theorem stopPollTmr_eq_iff (amDl : RlcAmDl) (mAckSn : ℕ) :
    (amDl.rlcAmmDlCheckAndStopPollTmr mAckSn).pollRetxTmr = amDl.pollRetxTmr ↔
      (amDl.pollRetxTmr = true → mAckSn < amDl.pos amDl.pollSn) := by
  rw [RlcAmDl.rlcAmmDlCheckAndStopPollTmr]
  simp only
  split
  · rename_i hle
    cases amDl.pollRetxTmr with
    | false => exact iff_of_true rfl nofun
    | true => exact iff_of_false Bool.false_ne_true fun h => absurd (h rfl) (Nat.not_lt.mpr hle)
  · rename_i hle
    exact iff_of_true rfl fun _ => Nat.lt_of_not_le hle

/-- If nothing was done, only the poll timer may have been stopped. -/
theorem close_of_same (hamDl : c.amDl = (startStatus pStaPdu amDl).amDl)
    (hnodes : c.nodes = (startStatus pStaPdu amDl).nodes) :
    c.close = { amDl with
      pollRetxTmr := (amDl.rlcAmmDlCheckAndStopPollTmr (amDl.pos pStaPdu.ackSn)).pollRetxTmr
      datCfm := [] } := by
  rw [startStatus_nodes, StaProc.nodes] at hnodes
  rw [StaProc.close, hamDl, hnodes, startStatus, StaProc.start, RlcAmDl.rlcAmmDlCheckAndStopPollTmr]

/-- The NACKs went over nothing if the buffers have the size they had. -/
theorem sameSize_of_unchanged (h : Unchanged amDl c.close) :
    StaProc.SameSize (startStatus pStaPdu amDl) c := by
  have hnodes : c.nodes = (startStatus pStaPdu amDl).nodes := by
    rw [startStatus_nodes, ← h.retxLst, StaProc.close, StaProc.nodes]
  refine ⟨?_, by rw [hnodes], by rw [StaProc.waiting, StaProc.waiting, hnodes]⟩
  have htx := h.txBufLst
  rw [StaProc.close] at htx
  rw [htx, startStatus, StaProc.start, RlcAmDl.rlcAmmDlCheckAndStopPollTmr]

/-- **A rejected STATUS leaves everything as it was exactly if there was nothing to do for it.** -/
theorem rejected_withoutEffect_iff (h : ErrorExit pStaPdu amDl) :
    WithoutEffect pStaPdu amDl ↔ NothingToDo pStaPdu amDl := by
  by_cases hack : amDl.pos amDl.txNext < amDl.pos pStaPdu.ackSn
  · refine iff_of_true ⟨⟨amDl, ?_, ⟨rfl, rfl, rfl, fun _ => rfl, rfl, rfl, rfl⟩⟩, fun c hc => ?_⟩ (.inl hack)
    · rw [rlcAmmDlHndlStatusPdu]
      exact if_pos hack
    · exact absurd hc.1 (Nat.not_le.mpr hack)
  obtain ⟨c, hc⟩ := h.resolve_left hack
  have hd := StaProc.nackLoop_decides _ _ _ _ _ hc.2
  have hres := givesUp_result hc
  constructor
  · rintro ⟨⟨amDl', hst, hu⟩, -⟩
    obtain rfl : c.close = amDl' := Option.some_inj.mp (hres.symm.trans hst)
    obtain ⟨c₁, hc₁⟩ := Option.ne_none_iff_exists'.mp fun hnone =>
      hd.changed hnone (sameSize_of_unchanged hu)
    obtain ⟨rfl, hamDl, hnodes⟩ := hd.same c₁ hc₁
    refine .inr ⟨(stopPollTmr_eq_iff _ _).mp ?_, Option.isSome_of_eq_some hc₁⟩
    have htmr := hu.pollRetxTmr
    rw [close_of_same hamDl hnodes] at htmr
    exact htmr
  · intro hn
    obtain ⟨htmr, hover⟩ := hn.resolve_left hack
    obtain ⟨c₁, hc₁⟩ := Option.isSome_iff_exists.mp hover
    obtain ⟨rfl, hamDl, hnodes⟩ := hd.same c₁ hc₁
    refine ⟨⟨c.close, hres, ?_⟩, fun c' hc' => ?_⟩
    · rw [close_of_same hamDl hnodes]
      exact ⟨rfl, rfl, rfl, fun _ => rfl, rfl, rfl, (stopPollTmr_eq_iff _ _).mpr htmr⟩
    · obtain rfl : c = c' := (Prod.mk.inj (Option.some_inj.mp (hc.2.symm.trans hc'.2))).1
      rw [hamDl, startStatus, StaProc.start]

end

/-! ## The SDU that is still being segmented -/

/-- The state after a run. -/
def DlOp.runState (ops : List DlOp) : Option RlcAmDl :=
  ops.foldlM DlOp.step {
    snLen := .bits12
    maxRetx := 4 }

/-- One SDU is sent, and two bytes of the next. -/
def segmentedOps : List DlOp :=
  [.qSdu 0 10, .qSdu 1 10, .processSdus 20 0 fun _ => false]

/-- SN 0 is missing, and SN 1. -/
def segmentedStaPdu : RlcUdxStaPdu where
  ackSn := 1
  nackInfo := [{ sn := 0 }, { sn := 1 }]

/-- The STATUS is rejected when a PDU is already moved to `retxLst`. -/
def movedAndRejected (pStaPdu : RlcUdxStaPdu) (amDl : RlcAmDl) : Bool :=
  decide (amDl.pos pStaPdu.ackSn ≤ amDl.pos amDl.txNext) &&
    match nackLoop (amDl.pos pStaPdu.ackSn) (amDl.pos amDl.txNext) pStaPdu.nackInfo amDl.txNextAck
      (startStatus pStaPdu amDl) with
    | some (c, false) => amDl.retxLst.isEmpty && !c.nodes.isEmpty
    | _ => false

theorem givesUp_of_moved {pStaPdu : RlcUdxStaPdu} {amDl : RlcAmDl}
    (h : movedAndRejected pStaPdu amDl = true) :
    ∃ c, GivesUp pStaPdu amDl c ∧ c.nodes ≠ amDl.retxLst := by
  rw [movedAndRejected, Bool.and_eq_true, decide_eq_true_iff] at h
  obtain ⟨hack, hmoved⟩ := h
  split at hmoved
  · rename_i c hc
    refine ⟨c, ⟨hack, hc⟩, fun he => ?_⟩
    rw [he] at hmoved
    simp at hmoved
  · cases hmoved

theorem segmented_moved :
    (DlOp.runState segmentedOps).map (movedAndRejected segmentedStaPdu) = some true := by
  decide +kernel

/-- **The STATUS is rejected for SN 1, of which two bytes are sent, when SN 0 is already moved.** -/
theorem rejected_not_withoutEffect : ∃ amDl, DlOp.runState segmentedOps = some amDl ∧
    ErrorExit segmentedStaPdu amDl ∧ ¬ WithoutEffect segmentedStaPdu amDl := by
  obtain ⟨amDl, hrun, hmoved⟩ := Option.map_eq_some_iff.mp segmented_moved
  obtain ⟨c, hc, hne⟩ := givesUp_of_moved hmoved
  refine ⟨amDl, hrun, .inr ⟨c, hc⟩, fun ⟨⟨amDl', hst, hu⟩, _⟩ => hne ?_⟩
  obtain rfl : c.close = amDl' := Option.some_inj.mp ((givesUp_result hc).symm.trans hst)
  exact hu.retxLst

theorem segmented_withoutEffect_iff : ∃ amDl, DlOp.runState segmentedOps = some amDl ∧
    (WithoutEffect segmentedStaPdu amDl ↔ NothingToDo segmentedStaPdu amDl) := by
  obtain ⟨amDl, hrun, hmoved⟩ := Option.map_eq_some_iff.mp segmented_moved
  obtain ⟨c, hc, -⟩ := givesUp_of_moved hmoved
  exact ⟨amDl, hrun, rejected_withoutEffect_iff (.inr ⟨c, hc⟩)⟩

end OaiCu.OduRlc
