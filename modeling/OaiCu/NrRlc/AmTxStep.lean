import OaiCu.NrRlc.AmRun
import OaiCu.NrRlc.AmTxInv

/-!
# RLC AM: what the calls do to the transmitter

Every call but the reception of a control PDU keeps the invariant of the transmitter, the
sizes it counts, the order of `retransmit_list` and `wait_end`.
-/

namespace OaiCu.NrRlc

open Serial

/-- What a call keeps; `lost` are the segments that are in no list. -/
structure AmTx.Keeps (cfg : AmConfig) (lost : List Segment) (tx tx' : AmTx) : Prop where
  inv : tx'.Inv cfg lost
  accounts : lost = [] → tx.Accounts cfg → tx'.Accounts cfg
  retxSorted : tx.RetxSorted cfg → tx'.RetxSorted cfg
  waitEnd : tx.WaitEndExact → tx'.WaitEndExact

section Keeps

variable {cfg : AmConfig} {lost : List Segment} {tx tx' tx'' : AmTx} {t : ℕ}

theorem AmTx.Keeps.refl (h : tx.Inv cfg lost) : tx.Keeps cfg lost tx :=
  ⟨h, fun _ h => h, id, id⟩

theorem AmTx.Keeps.trans (h : tx.Keeps cfg lost tx') (h' : tx'.Keeps cfg lost tx'') :
    tx.Keeps cfg lost tx'' :=
  ⟨h'.inv, fun hl ha => h'.accounts hl (h.accounts hl ha), fun hs => h'.retxSorted (h.retxSorted hs),
    fun he => h'.waitEnd (h.waitEnd he)⟩

/-- Polling and logging do not touch the lists. -/
theorem keeps_poll (h : tx.Inv cfg lost) (pollSn pduWithoutPoll byteWithoutPoll : ℤ)
    (forcePoll : Bool) (tLogBufferFull sduRejected tPollRetransmitStart : ℕ) :
    tx.Keeps cfg lost { tx with
      pollSn
      pduWithoutPoll
      byteWithoutPoll
      forcePoll
      tLogBufferFull
      sduRejected
      tPollRetransmitStart } :=
  ⟨⟨{ h.parts with }, { h.snInv with }, h.waitEnd, h.retxSorted⟩,
    fun _ ha => ⟨ha.bstatusTxSize_eq, ha.bstatusRetxSize_eq, ha.txSize_eq⟩, id, id⟩

theorem keeps_takeForcePoll (h : tx.Inv cfg lost) (p : Bool) :
    tx.Keeps cfg lost (takeForcePoll tx p).1 := keeps_poll h _ _ _ _ _ _ _

theorem keeps_serializeSdu (h : tx.Inv cfg lost) {s : Segment} {buffer pdu : List UInt8} {p : Bool}
    (hs : serializeSdu cfg t tx s buffer p = .ok (tx', pdu)) : tx.Keeps cfg lost tx' := by
  unfold serializeSdu at hs
  obtain ⟨header, -, hs⟩ := Machine.bind_ok hs
  injection hs with hs
  cases p with
  | true =>
      injection hs with hs _
      rw [← hs]
      exact keeps_poll h _ _ _ _ _ _ _
  | false =>
      injection hs with hs _
      rw [← hs]
      exact AmTx.Keeps.refl h

/-! ## `generate_pdu` -/

/-- **A segment in flight gets to `wait_list`.** -/
theorem keeps_putInWaitList {s : Segment} (hparts : tx.Parts (s :: lost))
    (hsn : tx.SnInv cfg [s]) (hend : tx.WaitEndLast) (hretx : tx.RetxSnSorted cfg)
    (hp : putInWaitList cfg tx s = .ok tx') : tx.Keeps cfg lost tx' := by
  have hnd : ((s :: tx.waitList).map Segment.addr).Nodup := by
    refine List.Nodup.sublist (List.Sublist.map Segment.addr (?_ : (s :: tx.waitList).Sublist
      (s :: (tx.txList ++ tx.waitList ++ tx.retransmitList ++ tx.freed ++ lost)))) ?_
    · refine List.Sublist.cons_cons _ ?_
      simp only [List.append_assoc]
      exact (List.sublist_append_left _ _).trans (List.sublist_append_right _ _)
    · refine (List.Perm.nodup_iff (List.Perm.map Segment.addr ?_)).mpr hparts.addr_nodup
      simp only [AmTx.segments]
      grind
  have hne : ∀ x ∈ tx.waitList, tx.sn x = tx.sn s → x.so ≠ s.so := by
    intro x hx heq hso
    have hsdu := hsn.sn_inj x (by simp [AmTx.outstanding, hx]) s (by simp) heq
    have := hparts.eq_of_so (s := s) (by simp [AmTx.segments]) (by simp [AmTx.segments, hx]) hsdu hso
    subst this
    exact (List.nodup_cons.mp hnd).1 (List.mem_map_of_mem hx)
  obtain ⟨l, e, rfl, hperm, hsort, hlast, hexact⟩ := putInWaitList_spec hsn hnd hne hend hp
  have hmem : ∀ x ∈ (l ++ tx.retransmitList) ++ [], x ∈ tx.outstanding ++ [s] := by
    intro x hx
    simp only [List.append_nil, List.mem_append] at hx
    rcases hx with hx | hx
    · rcases List.mem_cons.mp (hperm.mem_iff.mp hx) with rfl | hx
      · simp
      · simp [AmTx.outstanding, hx]
    · simp [AmTx.outstanding, hx]
  refine ⟨⟨?_, ?_, hlast, hretx⟩, fun _ ha => ⟨ha.bstatusTxSize_eq, ha.bstatusRetxSize_eq,
    ha.txSize_eq⟩, id, hexact⟩
  · refine hparts.of_perm ?_ rfl rfl (fun _ => ⟨rfl, rfl⟩) hparts.freeCount_eq
    simp only [AmTx.segments]
    have := hperm
    grind
  · exact {
      hsn with
      sn_range := fun x hx => hsn.sn_range x (hmem x hx)
      sn_le := fun x hx => hsn.sn_le x (hmem x hx)
      sn_inj := fun x hx y hy => hsn.sn_inj x (hmem x hx) y (hmem y hy)
      unfinished := fun x hx => hsn.unfinished x (hmem x hx)
      waitSorted := hsort }

/-- **The head of `retransmit_list` is sent again.** -/
theorem keeps_generateRetxPdu (h : tx.Inv cfg lost) {r : Segment} {next : List Segment}
    (hr : tx.retransmitList = r :: next) {buffer pdu : List UInt8}
    (hg : generateRetxPdu cfg t tx r next buffer = .ok (tx', pdu)) : tx.Keeps cfg lost tx' := by
  unfold generateRetxPdu at hg
  split at hg
  · injection hg with hg
    injection hg with hg _
    rw [← hg]
    exact AmTx.Keeps.refl h
  · rename_i hsize
    replace hsize : computePduHeaderSize cfg r < buffer.length := by omega
    obtain ⟨⟨tx₁, s⟩, ht⟩ : ∃ res, takeRetx cfg tx r next buffer.length = res := ⟨_, rfl⟩
    simp only [ht] at hg
    obtain ⟨tx₂, hput, hser⟩ := Machine.bind_ok hg
    obtain ⟨hparts₁, hheld⟩ := takeRetx_parts h.parts hr hsize
    rw [ht] at hparts₁ hheld
    simp only at hparts₁ hheld
    have hsn₁ := takeRetx_snInv h.snInv hr hsize ht
    obtain ⟨⟨retx, bst, heap, seg, rfl, hbst, hheap⟩, -, -, -, hretx⟩ :=
      takeRetx_spec cfg tx r next hsize ht
    have hsneq : ∀ x : Segment, (heap x.sdu).sn = tx.sn x := fun x => hheap x.sdu
    have hhead : ∀ y ∈ next, rel cfg.snModulus tx.txNextAck (tx.sn r) ≤
        rel cfg.snModulus tx.txNextAck (tx.sn y) := by
      have := h.retxSorted
      rw [AmTx.RetxSnSorted, hr] at this
      exact (List.pairwise_cons.mp this).1
    have hsort₁ : retx.Pairwise fun s s' => rel cfg.snModulus tx.txNextAck (tx.sn s) ≤
        rel cfg.snModulus tx.txNextAck (tx.sn s') := by
      have hs := h.retxSorted
      rw [AmTx.RetxSnSorted, hr] at hs
      rcases hretx with hretx | ⟨r', hretx, hsdu, -⟩
      · simp only at hretx
        rw [hretx]
        exact (List.pairwise_cons.mp hs).2
      · simp only at hretx
        rw [hretx]
        refine List.pairwise_cons.mpr ⟨?_, (List.pairwise_cons.mp hs).2⟩
        intro y hy
        rw [AmTx.sn, hsdu]
        exact hhead y hy
    have hkeep := keeps_putInWaitList hparts₁ hsn₁ h.waitEnd
      (by simpa only [AmTx.RetxSnSorted, AmTx.sn, hheap] using hsort₁) hput
    have hpoll := hkeep.trans (keeps_takeForcePoll hkeep.inv (checkPollAfterPduAssembly cfg tx₂))
    have hall := hpoll.trans (keeps_serializeSdu hpoll.inv hser)
    refine ⟨hall.inv, fun hl ha => hall.accounts hl ⟨ha.bstatusTxSize_eq, ?_, ?_⟩,
      fun hs => hall.retxSorted ?_, fun he => hall.waitEnd he⟩
    · simp only [hbst, ha.bstatusRetxSize_eq, hr, totalSize_cons]
      ring
    · simp only [AmTx.heldSize] at hheld ⊢
      rw [hheld]
      exact ha.txSize_eq
    · -- the rest of `r` is still before what follows `r`
      rw [AmTx.RetxSorted, hr] at hs
      obtain ⟨hrs, hns⟩ := List.pairwise_cons.mp hs
      suffices retx.Pairwise (segLe cfg.snModulus tx.txNextAck tx.sn) by
        refine this.imp fun {a b} hab => ?_
        simpa only [segLe, AmTx.sn, hheap] using hab
      rcases hretx with hretx | ⟨r', hretx, hsdu, hso, hso'⟩
      · simp only at hretx
        rw [hretx]
        exact hns
      · simp only at hretx
        rw [hretx]
        refine List.pairwise_cons.mpr ⟨?_, hns⟩
        intro y hy
        have hsnr : tx.sn r' = tx.sn r := by rw [AmTx.sn, AmTx.sn, hsdu]
        rcases hrs y hy with hlt | ⟨heq, hle⟩
        · left
          rw [hsnr]
          exact hlt
        · right
          refine ⟨hsnr.trans heq, ?_⟩
          have hmr : r ∈ tx.segments lost := by simp [AmTx.segments, hr]
          have hmy : y ∈ tx.segments lost := by simp [AmTx.segments, hr, hy]
          have hysdu := h.snInv.sn_inj r (by simp [AmTx.outstanding, hr]) y
            (by simp [AmTx.outstanding, hr, hy]) heq
          have hry : r ≠ y := by
            rintro rfl
            have hn := h.parts.addr_nodup
            simp only [AmTx.segments, hr, List.map_append, List.map_cons] at hn
            have hn' := (List.nodup_append.mp (List.nodup_append.mp (List.nodup_append.mp hn).1).1).2.1
            exact (List.nodup_cons.mp hn').1 (List.mem_map_of_mem hy)
          have := h.parts.end_le_so hmr hmy hysdu.symm hry hle
          omega

/-- **The head of `tx_list` is sent.** -/
theorem keeps_generateTxPdu (h : tx.Inv cfg lost) {buffer pdu : List UInt8}
    (hg : generateTxPdu cfg t tx buffer = .ok (tx', pdu)) : tx.Keeps cfg lost tx' := by
  have hrefl : ∀ {pdu' : List UInt8}, (Except.ok (tx, pdu') : Except Fault _) = .ok (tx', pdu) →
      tx.Keeps cfg lost tx' := by
    intro pdu' heq
    injection heq with heq
    injection heq with heq _
    rw [← heq]
    exact AmTx.Keeps.refl h
  unfold generateTxPdu at hg
  split at hg
  · exact hrefl hg
  · rename_i hw
    simp only at hg
    split at hg
    · exact hrefl hg
    · rename_i r next hr
      split at hg
      · exact hrefl hg
      · rename_i hsize
        replace hsize : computePduHeaderSize cfg r < buffer.length := by omega
        obtain ⟨⟨tx₁, s⟩, ht⟩ : ∃ res, takeTx cfg tx r next buffer.length = res := ⟨_, rfl⟩
        simp only [ht] at hg
        obtain ⟨tx₂, hput, hser⟩ := Machine.bind_ok hg
        obtain ⟨hparts₁, hheld⟩ := takeTx_parts h.parts hr hsize
        rw [ht] at hparts₁ hheld
        simp only at hparts₁ hheld
        have hsn₁ := takeTx_snInv h.snInv h.parts hr hsize (Bool.eq_false_iff.mpr hw) ht
        obtain ⟨⟨l, e, bst, heap, seg, htx₁, hbst, hheap⟩, -⟩ := takeTx_spec cfg tx r next ht
        have hold := sn_takeTx h.snInv h.parts hr hheap
        -- raising `tx_next` changes nothing else
        obtain ⟨n', hraise⟩ : ∃ n', raiseTxNext cfg tx₁ s = { tx₁ with txNext := n' } := by
          unfold raiseTxNext
          split
          · exact ⟨_, rfl⟩
          · exact ⟨tx₁.txNext, rfl⟩
        rw [hraise] at hput hsn₁
        have hparts₂ : ({ tx₁ with txNext := n' } : AmTx).Parts (s :: lost) := { hparts₁ with }
        subst htx₁
        have hsort : ∀ {R : ℤ → ℤ → ℕ → ℕ → Prop},
            (tx.retransmitList.Pairwise fun x y => R (tx.sn x) (tx.sn y) x.so y.so) →
            tx.retransmitList.Pairwise fun x y =>
              R (heap x.sdu).sn (heap y.sdu).sn x.so y.so := by
          intro R hs
          refine hs.imp_of_mem fun {x y} hx hy hxy => ?_
          rw [hold x (List.mem_append_right _ hx), hold y (List.mem_append_right _ hy)]
          exact hxy
        have hkeep := keeps_putInWaitList hparts₂ hsn₁ h.waitEnd
          (@hsort (fun a b _ _ => rel cfg.snModulus tx.txNextAck a ≤ rel cfg.snModulus tx.txNextAck b)
            h.retxSorted) hput
        have hpoll := hkeep.trans (keeps_poll hkeep.inv tx₂.pollSn (tx₂.pduWithoutPoll + 1)
          (tx₂.byteWithoutPoll + s.size) tx₂.forcePoll tx₂.tLogBufferFull tx₂.sduRejected
          tx₂.tPollRetransmitStart)
        have hforce := fun p => hpoll.trans (keeps_takeForcePoll hpoll.inv p)
        have hall := (hforce _).trans (keeps_serializeSdu (hforce _).inv hser)
        refine ⟨hall.inv, fun hl ha => hall.accounts hl ⟨?_, ha.bstatusRetxSize_eq, ?_⟩,
          fun hs => hall.retxSorted (@hsort (fun a b so so' => rel cfg.snModulus tx.txNextAck a <
            rel cfg.snModulus tx.txNextAck b ∨ (a = b ∧ so ≤ so')) hs), fun he => hall.waitEnd he⟩
        · simp only [hbst, ha.bstatusTxSize_eq, hr, totalSize_cons]
          ring
        · simp only [AmTx.heldSize] at hheld ⊢
          rw [hheld]
          exact ha.txSize_eq

theorem keeps_generateDataPdu (h : tx.Inv cfg lost) {buffer pdu : List UInt8}
    (hg : generateDataPdu cfg t tx buffer = .ok (tx', pdu)) : tx.Keeps cfg lost tx' := by
  unfold generateDataPdu at hg
  split at hg
  · exact keeps_generateTxPdu h hg
  · rename_i r next hr
    obtain ⟨⟨tx₁, pdu₁⟩, hretx, hg⟩ := Machine.bind_ok hg
    have hkeep := keeps_generateRetxPdu h hr hretx
    simp only at hg
    split at hg
    · exact hkeep.trans (keeps_generateTxPdu hkeep.inv hg)
    · injection hg with hg
      injection hg with hg _
      rw [← hg]
      exact hkeep

/-! ## `recv_sdu` -/

theorem AmTx.Parts.txList_nodup (h : tx.Parts lost) : (tx.txList.map Segment.addr).Nodup := by
  refine List.Nodup.sublist (List.Sublist.map _ ?_) h.addr_nodup
  simp only [AmTx.segments, List.append_assoc]
  exact List.sublist_append_left _ _

theorem AmTx.Parts.outstanding_sdu_lt (h : tx.Parts lost) {s : Segment} (hs : s ∈ tx.outstanding) :
    s.sdu < tx.nextSdu := by
  refine h.sdu_lt s ?_
  rcases List.mem_append.mp hs with hs | hs <;> simp [AmTx.segments, hs]

/-- **A new SDU goes to the end of `tx_list`.** -/
theorem keeps_recvSdu (h : tx.Inv cfg lost) {buffer : List UInt8} {sduId : ℤ}
    (hr : recvSdu cfg t tx buffer sduId = .ok tx') : tx.Keeps cfg lost tx' := by
  unfold recvSdu at hr
  split at hr
  · cases hr
  · rename_i hlen
    obtain ⟨log, rej, hlog⟩ : ∃ log rej,
        logRejected t tx = { tx with tLogBufferFull := log, sduRejected := rej } := by
      unfold logRejected
      split
      · exact ⟨_, _, rfl⟩
      · exact ⟨_, _, rfl⟩
    simp only [hlog] at hr
    split at hr
    · injection hr with hr
      rw [← hr]
      exact keeps_poll h _ _ _ _ _ _ _
    · obtain ⟨⟨l, e⟩, happ, hr⟩ := Machine.bind_ok hr
      rw [h.snInv.txEnd_eq, segmentListAppend_getLast h.parts.txList_nodup] at happ
      injection happ with happ
      injection happ with h1 h2
      subst h1 h2
      injection hr with hr
      subst hr
      obtain ⟨hparts, hheld⟩ := @AmTx.Parts.add tx { tx with
          tLogBufferFull := log
          sduRejected := rej
          txSize := tx.txSize + buffer.length
          heap := Function.update tx.heap tx.nextSdu (newSdu buffer sduId)
          nextSdu := tx.nextSdu + 1
          nextSeg := tx.nextSeg + 1
          txList := tx.txList ++ [newSegment tx.nextSeg tx.nextSdu buffer.length]
          txEnd := some (newSegment tx.nextSeg tx.nextSdu buffer.length).addr
          bstatusTxSize := tx.bstatusTxSize +
            pduSize cfg (newSegment tx.nextSeg tx.nextSdu buffer.length) }
        lost lost h.parts buffer sduId (by omega)
        (by
          simp only [AmTx.segments]
          grind) rfl rfl rfl rfl
      have hsn : ∀ s, s.sdu < tx.nextSdu →
          (Function.update tx.heap tx.nextSdu (newSdu buffer sduId) s.sdu).sn = tx.sn s := by
        intro s hs
        rw [Function.update_of_ne hs.ne]
        rfl
      have hout : ∀ s ∈ tx.outstanding ++ [], s.sdu < tx.nextSdu := by
        intro s hs
        exact h.parts.outstanding_sdu_lt (by simpa using hs)
      have hsort : ∀ {l : List Segment} {R : ℤ → ℤ → ℕ → ℕ → Prop},
          (∀ s ∈ l, s ∈ tx.outstanding) →
          (l.Pairwise fun x y => R (tx.sn x) (tx.sn y) x.so y.so) →
          l.Pairwise fun x y =>
            R (Function.update tx.heap tx.nextSdu (newSdu buffer sduId) x.sdu).sn
              (Function.update tx.heap tx.nextSdu (newSdu buffer sduId) y.sdu).sn x.so y.so := by
        intro l R hl hs
        refine hs.imp_of_mem fun {x y} hx hy hxy => ?_
        rw [hsn x (h.parts.outstanding_sdu_lt (hl x hx)),
          hsn y (h.parts.outstanding_sdu_lt (hl y hy))]
        exact hxy
      have hhead : ∀ {x : Segment},
          (tx.txList ++ [newSegment tx.nextSeg tx.nextSdu buffer.length]).head? = some x →
          tx.txList.head? = some x ∨ (tx.txList = [] ∧
            x = newSegment tx.nextSeg tx.nextSdu buffer.length) := by
        intro x hx
        cases htl : tx.txList with
        | nil =>
            rw [htl] at hx
            right
            simpa using hx.symm
        | cons y l =>
            rw [htl] at hx
            left
            simpa using hx
      have hsnInv : AmTx.SnInv cfg { tx with
          tLogBufferFull := log
          sduRejected := rej
          txSize := tx.txSize + buffer.length
          heap := Function.update tx.heap tx.nextSdu (newSdu buffer sduId)
          nextSdu := tx.nextSdu + 1
          nextSeg := tx.nextSeg + 1
          txList := tx.txList ++ [newSegment tx.nextSeg tx.nextSdu buffer.length]
          txEnd := some (newSegment tx.nextSeg tx.nextSdu buffer.length).addr
          bstatusTxSize := tx.bstatusTxSize +
            pduSize cfg (newSegment tx.nextSeg tx.nextSdu buffer.length) } [] := by
        refine ⟨h.snInv.txNextAck_range, h.snInv.txNext_range, h.snInv.txNext_le, ?_, ?_, ?_, ?_, ?_,
          ?_, ?_, ?_, ?_⟩
        · intro s hs
          simp only [AmTx.sn, hsn s (hout s hs)]
          exact h.snInv.sn_range s hs
        · intro s hs
          simp only [AmTx.sn, hsn s (hout s hs)]
          exact h.snInv.sn_le s hs
        · intro s hs s' hs' heq
          simp only [AmTx.sn, hsn s (hout s hs), hsn s' (hout s' hs')] at heq
          exact h.snInv.sn_inj s hs s' hs' heq
        · intro s hs heq
          simp only [AmTx.sn, hsn s (hout s hs)] at heq
          obtain ⟨x, hx, hxs⟩ := h.snInv.unfinished s hs heq
          exact ⟨x, by simp [List.head?_append, hx], hxs⟩
        · intro x hx
          rcases hhead hx with hx | ⟨-, rfl⟩
          · exact h.snInv.head_isLast x hx
          · rfl
        · intro x hx hf
          rcases hhead hx with hx | ⟨-, rfl⟩
          · have hlt : x.sdu < tx.nextSdu :=
              h.parts.sdu_lt x (by simp [AmTx.segments, List.mem_of_head? hx])
            simp only [AmTx.sn, hsn x hlt]
            exact h.snInv.head_sn x hx hf
          · cases hf
        · intro x hx
          cases htl : tx.txList with
          | nil => simp [htl] at hx
          | cons y l =>
              have htail := h.snInv.tail_whole
              rw [htl] at htail
              simp only [htl, List.cons_append, List.tail_cons, List.mem_append,
                List.mem_singleton] at hx htail
              rcases hx with hx | rfl
              · exact htail x hx
              · exact ⟨rfl, rfl⟩
        · simp
        · exact @hsort _ (fun a b so so' => rel cfg.snModulus tx.txNextAck a <
            rel cfg.snModulus tx.txNextAck b ∨ (a = b ∧ so ≤ so'))
            (fun s hs => List.mem_append_left _ hs) h.snInv.waitSorted
      refine ⟨⟨hparts, hsnInv, h.waitEnd, ?_⟩, fun _ ha => ⟨?_, ha.bstatusRetxSize_eq, ?_⟩, ?_,
        fun he => he⟩
      · exact @hsort _ (fun a b _ _ => rel cfg.snModulus tx.txNextAck a ≤
          rel cfg.snModulus tx.txNextAck b) (fun s hs => List.mem_append_right _ hs) h.retxSorted
      · simp [ha.bstatusTxSize_eq]
      · simp only
        rw [ha.txSize_eq]
        exact hheld.symm
      · exact @hsort _ (fun a b so so' => rel cfg.snModulus tx.txNextAck a <
          rel cfg.snModulus tx.txNextAck b ∨ (a = b ∧ so ≤ so'))
          (fun s hs => List.mem_append_right _ hs)

/-! ## `set_time` -/

/-- **The head of `wait_list` is to be sent again.** -/
theorem keeps_checkTPollRetransmit (h : tx.Inv cfg lost) {events : List Event}
    (hc : checkTPollRetransmit cfg t tx = .ok (tx', events)) : tx.Keeps cfg lost tx' := by
  unfold checkTPollRetransmit at hc
  split at hc
  · simp only at hc
    split at hc
    · split at hc
      · cases hc
      · rename_i cur next hw
        injection hc with hc
        injection hc with hc _
        have hheap := countRetx_heap cfg tx cur
        have hsn : ∀ x : Segment, ((tx.countRetx cfg cur).1.heap x.sdu).sn = tx.sn x :=
          fun x => (hheap x.sdu).1
        have hsn' : (tx.countRetx cfg cur).1.sn = tx.sn := funext hsn
        generalize hl : segmentListAdd (snCompareTx cfg tx) tx.sn tx.retransmitList cur = l
        have htx' : tx' = { tx with
            tPollRetransmitStart := 0
            forcePoll := true
            waitList := next
            waitEnd := if next.isEmpty then none else tx.waitEnd
            heap := (tx.countRetx cfg cur).1.heap
            bstatusRetxSize := tx.bstatusRetxSize + pduSize cfg cur
            retransmitList := l } := by
          rw [← hc, ← hl, ← hsn']
          rfl
        have hperm : l.Perm (cur :: tx.retransmitList) := by
          rw [← hl]
          exact List.perm_orderedInsert _ _ _
        have hmem : ∀ x ∈ (next ++ l) ++ [], x ∈ tx.outstanding ++ [] := by
          intro x hx
          simp only [List.append_nil, List.mem_append] at hx
          rw [hperm.mem_iff] at hx
          simpa [AmTx.outstanding, hw, or_assoc, or_left_comm] using hx
        have hrange : ∀ x ∈ cur :: tx.retransmitList, 0 ≤ tx.sn x ∧ tx.sn x < cfg.snModulus := by
          intro x hx
          refine h.snInv.sn_range x ?_
          rcases List.mem_cons.mp hx with rfl | hx
          · simp [AmTx.outstanding, hw]
          · simp [AmTx.outstanding, hx]
        have hlast : ∀ {e : Option ℕ}, e = tx.waitList.getLast?.map Segment.addr →
            (if next.isEmpty then none else e) = next.getLast?.map Segment.addr := by
          intro e he
          rw [he, hw]
          cases next <;> simp
        rw [htx']
        refine ⟨⟨?_, ?_, ?_, ?_⟩, fun _ ha => ⟨ha.bstatusTxSize_eq, ?_, ?_⟩, fun hs => ?_,
          fun he => hlast he⟩
        · refine h.parts.of_perm ?_ rfl rfl (fun i => ⟨(hheap i).2.1, (hheap i).2.2.1⟩) ?_
          · simp only [AmTx.segments, hw]
            have := hperm
            grind
          · intro i hi
            simp only [(hheap i).2.2.2]
            exact h.parts.freeCount_eq i hi
        · refine ⟨h.snInv.txNextAck_range, h.snInv.txNext_range, h.snInv.txNext_le, ?_, ?_, ?_, ?_,
            h.snInv.head_isLast, ?_, h.snInv.tail_whole, h.snInv.txEnd_eq, ?_⟩
          · intro x hx
            simp only [AmTx.sn, hsn]
            exact h.snInv.sn_range x (hmem x hx)
          · intro x hx
            simp only [AmTx.sn, hsn]
            exact h.snInv.sn_le x (hmem x hx)
          · intro x hx y hy heq
            simp only [AmTx.sn, hsn] at heq
            exact h.snInv.sn_inj x (hmem x hx) y (hmem y hy) heq
          · intro x hx heq
            simp only [AmTx.sn, hsn] at heq
            exact h.snInv.unfinished x (hmem x hx) heq
          · intro x hx hf
            simp only [AmTx.sn, hsn]
            exact h.snInv.head_sn x hx hf
          · have hs := h.snInv.waitSorted
            rw [hw] at hs
            refine (List.pairwise_cons.mp hs).2.imp fun hxy => ?_
            simpa only [segLe, AmTx.sn, hsn] using hxy
        · intro x hx he
          simp only at hx he ⊢
          split at he
          · cases he
          · have hx' := h.waitEnd x (by rw [hw]; exact List.mem_cons_of_mem _ hx) he
            rw [hw] at hx'
            obtain ⟨y, l', hy⟩ := List.exists_cons_of_ne_nil (List.ne_nil_of_mem hx)
            rw [hy, List.getLast?_cons_cons] at hx'
            rw [hy]
            exact hx'
        · suffices l.Pairwise fun x y => rel cfg.snModulus tx.txNextAck (tx.sn x) ≤
              rel cfg.snModulus tx.txNextAck (tx.sn y) by
            simpa only [AmTx.RetxSnSorted, AmTx.sn, hsn] using this
          rw [← hl]
          refine Lists.pairwise_orderedInsert h.retxSorted (fun a b c => le_trans) ?_ ?_
          · intro y hy hcmp
            rw [snCompareTx_eq h.snInv.txNextAck_range (hrange y (List.mem_cons_of_mem _ hy))
              (hrange cur List.mem_cons_self)] at hcmp
            rcases hcmp with hcmp | ⟨heq, -⟩
            · omega
            · rw [heq]
          · intro y hy hcmp
            rw [snCompareTx_eq h.snInv.txNextAck_range (hrange y (List.mem_cons_of_mem _ hy))
              (hrange cur List.mem_cons_self), not_or] at hcmp
            omega
        · rw [totalSize_perm hperm, totalSize_cons, ha.bstatusRetxSize_eq]
          ring
        · rw [ha.txSize_eq]
          refine Finset.sum_congr rfl fun i _ => ?_
          simp [Sdu.heldSize, Sdu.isFreed, Sdu.size, hheap i]
        · have := segmentListAdd_sorted h.snInv.txNextAck_range hrange hs
          rw [hl] at this
          refine this.imp fun {x y} hxy => ?_
          simpa only [segLe, AmTx.sn, hsn] using hxy
    · injection hc with hc
      injection hc with hc _
      rw [← hc]
      exact keeps_poll h _ _ _ _ _ _ _
  · injection hc with hc
    injection hc with hc _
    rw [← hc]
    exact AmTx.Keeps.refl h

/-! ## `discard_sdu` and `reestablishment` -/

/-- An SDU with a segment that is all of it has no other. -/
theorem AmTx.Parts.refCount_whole (h : tx.Parts lost) {s : Segment} {rest : List Segment}
    (hs : (s :: rest ++ tx.freed).Perm (tx.segments lost)) (hfirst : s.isFirst = true)
    (hlast : s.isLast = true) : (tx.heap s.sdu).freeSegment.isFreed = true := by
  have hmem : s ∈ tx.segments lost := hs.mem_iff.mp (by simp)
  have hlt := h.sdu_lt s hmem
  have hnd := (hs.map Segment.addr).nodup_iff.mpr h.addr_nodup
  have hzero : sduCount (rest ++ tx.freed) s.sdu = 0 := by
    refine List.countP_eq_zero.mpr fun x hx hxs => ?_
    have heq := h.eq_of_whole hmem (hs.mem_iff.mp (List.mem_cons_of_mem _ hx))
      (by simpa using hxs) hfirst hlast
    subst heq
    exact (List.nodup_cons.mp hnd).1 (List.mem_map_of_mem hx)
  have href : (tx.heap s.sdu).refCount = 1 := by
    rw [h.refCount_eq _ hlt, sduCount, ← hs.countP_eq, ← sduCount, List.cons_append, sduCount_cons,
      hzero, if_pos rfl]
  have hfree : (tx.heap s.sdu).freeCount = 0 := by
    rw [h.freeCount_eq _ hlt]
    rw [sduCount_append] at hzero
    omega
  simp [Sdu.freeSegment, Sdu.isFreed, href, hfree]

/-- **An SDU that was not sent is taken off `tx_list`.** -/
theorem keeps_discardSdu (h : tx.Inv cfg lost) (sduId : ℤ) :
    tx.Keeps cfg lost (discardSdu cfg tx sduId) := by
  have hsplit := (List.takeWhile_append_dropWhile
    (p := fun s => decide ((tx.heap s.sdu).upperLayerId ≠ sduId)) (l := tx.txList)).symm
  unfold discardSdu
  simp only
  generalize tx.txList.takeWhile (fun s => decide ((tx.heap s.sdu).upperLayerId ≠ sduId)) = front
    at hsplit ⊢
  split
  · exact AmTx.Keeps.refl h
  · rename_i cur next hdrop
    rw [hdrop] at hsplit
    split
    · exact AmTx.Keeps.refl h
    · rename_i hwhole
      simp only [Bool.or_eq_true, Bool.not_eq_true', not_or, Bool.not_eq_false] at hwhole
      obtain ⟨hfirst, hlast⟩ := hwhole
      have hperm : (cur :: (front ++ next ++ tx.waitList ++ tx.retransmitList ++ lost) ++
          tx.freed).Perm (tx.segments lost) := by
        simp only [AmTx.segments, hsplit]
        grind
      have hnd := h.parts.txList_nodup
      have hsn : ∀ x : Segment,
          (Function.update tx.heap cur.sdu (tx.heap cur.sdu).freeSegment x.sdu).sn = tx.sn x := by
        intro x
        by_cases hx : x.sdu = cur.sdu
        · rw [hx, Function.update_self, AmTx.sn, hx]
          rfl
        · rw [Function.update_of_ne hx]
          rfl
      -- what the head of `tx_list` is now
      have hhead : ∀ x, (front ++ next).head? = some x → tx.txList.head? = some x ∨
          (x.isFirst = true ∧ x.isLast = true) := by
        intro x hx
        cases front with
        | nil =>
            right
            have := h.snInv.tail_whole x
            rw [hsplit] at this
            exact this (List.mem_of_head? hx)
        | cons y l =>
            left
            rw [hsplit]
            simpa using hx
      have hend : (if tx.txEnd = some cur.addr then front.getLast?.map Segment.addr
          else tx.txEnd) = (front ++ next).getLast?.map Segment.addr := by
        rw [h.snInv.txEnd_eq, hsplit, List.getLast?_append, List.getLast?_append]
        cases next with
        | nil => simp
        | cons y l =>
            rw [List.getLast?_cons_cons]
            obtain ⟨z, hz⟩ : ∃ z, (y :: l).getLast? = some z :=
              ⟨_, List.getLast?_eq_some_getLast (by simp)⟩
            rw [hz, Option.some_or, Option.map_some, if_neg]
            intro heq
            injection heq with heq
            rw [hsplit, List.map_append, List.map_cons] at hnd
            have hnd' := (List.nodup_append.mp hnd).2.1
            exact (List.nodup_cons.mp hnd').1 (heq ▸ List.mem_map_of_mem (List.mem_of_getLast? hz))
      have hheld := h.parts.heldSize_free hperm
      rw [if_pos (h.parts.refCount_whole hperm hfirst hlast)] at hheld
      refine ⟨⟨?_, ?_, h.waitEnd, ?_⟩, fun _ ha => ⟨?_, ha.bstatusRetxSize_eq, ?_⟩, fun hs => ?_,
        fun he => he⟩
      · refine h.parts.free (s := cur) ?_ rfl rfl rfl rfl
        refine List.Perm.trans ?_ hperm
        simp only [AmTx.segments, AmTx.freeSduSegment]
        grind
      · refine ⟨h.snInv.txNextAck_range, h.snInv.txNext_range, h.snInv.txNext_le, ?_, ?_, ?_, ?_, ?_,
          ?_, ?_, hend, ?_⟩
        · intro x hx
          simp only [AmTx.sn, AmTx.freeSduSegment, hsn]
          exact h.snInv.sn_range x hx
        · intro x hx
          simp only [AmTx.sn, AmTx.freeSduSegment, hsn]
          exact h.snInv.sn_le x hx
        · intro x hx y hy heq
          simp only [AmTx.sn, AmTx.freeSduSegment, hsn] at heq
          exact h.snInv.sn_inj x hx y hy heq
        · intro x hx heq
          simp only [AmTx.sn, AmTx.freeSduSegment, hsn] at heq
          obtain ⟨y, hy, hyx, hyf⟩ := h.snInv.unfinished x hx heq
          refine ⟨y, ?_, hyx, hyf⟩
          simp only [AmTx.freeSduSegment]
          cases front with
          | nil =>
              rw [hsplit] at hy
              simp only [List.nil_append, List.head?_cons, Option.some.injEq] at hy
              rw [hy, hyf] at hfirst
              cases hfirst
          | cons z l =>
              rw [hsplit] at hy
              simpa using hy
        · intro x hx
          rcases hhead x hx with hx | hx
          · exact h.snInv.head_isLast x hx
          · exact hx.2
        · intro x hx hf
          simp only [AmTx.sn, AmTx.freeSduSegment, hsn]
          rcases hhead x hx with hx | hx
          · exact h.snInv.head_sn x hx hf
          · rw [hx.1] at hf
            cases hf
        · intro x hx
          refine h.snInv.tail_whole x ?_
          rw [hsplit]
          simp only [AmTx.freeSduSegment] at hx
          cases front with
          | nil => exact List.mem_of_mem_tail hx
          | cons y l =>
              simp only [List.cons_append, List.tail_cons, List.mem_append, List.mem_cons] at hx ⊢
              rcases hx with hx | hx
              · exact .inl hx
              · exact .inr (.inr hx)
        · refine h.snInv.waitSorted.imp fun hxy => ?_
          simpa only [segLe, AmTx.sn, AmTx.freeSduSegment, hsn] using hxy
      · simpa only [AmTx.RetxSnSorted, AmTx.sn, AmTx.freeSduSegment, hsn] using h.retxSorted
      · simp only [AmTx.freeSduSegment, ha.bstatusTxSize_eq, hsplit, totalSize_append,
          totalSize_cons]
        ring
      · simp only [AmTx.freeSduSegment, ha.txSize_eq]
        exact hheld.symm
      · refine hs.imp fun hxy => ?_
        simpa only [segLe, AmTx.sn, AmTx.freeSduSegment, hsn] using hxy

/-- **The entity is cleared.** -/
theorem keeps_clearTx (h : tx.Inv cfg lost) : tx.Keeps cfg lost (clearTx tx) := by
  obtain ⟨hparts, hheld⟩ := h.parts.clear
  have hM := cfg.snModulus_pos
  have hW := cfg.windowSize_pos
  refine ⟨⟨hparts, ?_, ?_, ?_⟩, fun hl _ => ⟨rfl, rfl, (hheld hl).symm⟩, ?_, fun _ => rfl⟩
  · refine ⟨⟨le_refl _, hM⟩, ⟨le_refl _, hM⟩, ?_, ?_, ?_, ?_, ?_, ?_, ?_, ?_, rfl, ?_⟩
    · simp only [clearTx, rel_self]
      omega
    all_goals simp [clearTx, AmTx.outstanding]
  · intro s hs
    simp [clearTx] at hs
  · simp [clearTx, AmTx.RetxSnSorted]
  · simp [clearTx, AmTx.RetxSorted]

theorem inv_newTx (cfg : AmConfig) : AmTx.Inv cfg {} [] := by
  have hM := cfg.snModulus_pos
  have hW := cfg.windowSize_pos
  refine ⟨parts_init, ⟨⟨le_refl _, hM⟩, ⟨le_refl _, hM⟩, ?_, ?_, ?_, ?_, ?_, ?_, ?_, ?_, rfl, ?_⟩,
    ?_, ?_⟩
  · simp only [rel_self]
    omega
  all_goals simp [AmTx.outstanding, AmTx.WaitEndLast, AmTx.RetxSnSorted]

end Keeps

end OaiCu.NrRlc
