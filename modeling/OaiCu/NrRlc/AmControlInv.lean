import OaiCu.NrRlc.AmMergeInv

/-!
# RLC AM: the transmitter after a STATUS PDU

The lists that `process_control_pdu` gives to the entity are in order again, relative to the
new `tx_next_ack`. Segments get lost only where the remaining `retransmit_list` is put at the
end of the new one as a whole.
-/

namespace OaiCu.NrRlc

open Serial

/-- What holds in the middle of the merge. -/
structure Merge.Inv (cfg : AmConfig) (tx : AmTx) (lost : List Segment) (ackSn : ℤ)
    (gs pre : List Nack) (m : Merge) : Prop where
  lists : m.Lists tx
  order : m.Order cfg tx ackSn gs pre
  parts : m.asTx.Parts lost
  sums : tx.Accounts cfg → m.Sums cfg
  endOk : m.EndOk

section Rules

variable {cfg : AmConfig} {tx : AmTx} {lost : List Segment} {ackSn : ℤ} {gs pre : List Nack}
  {m : Merge}

theorem stopPoll_parts (h : m.asTx.Parts lost) : m.stopPoll.asTx.Parts lost :=
  h.of_perm (List.Perm.refl _) rfl rfl (fun _ => ⟨rfl, rfl⟩) h.freeCount_eq

theorem inv_startMerge (h : tx.Inv cfg lost) :
    (startMerge cfg ackSn tx).Inv cfg tx lost ackSn gs [] := by
  refine ⟨lists_startMerge, order_startMerge, ?_, ?_, ?_⟩
  · have hp : ((startMerge cfg ackSn tx).asTx.segments lost).Perm (tx.segments lost) := by
      unfold startMerge
      split <;> simp [AmTx.segments, Merge.asTx]
    refine h.parts.of_perm hp ?_ ?_ ?_ ?_
    · unfold startMerge Merge.asTx
      split <;> rfl
    · unfold startMerge Merge.asTx
      split <;> rfl
    · intro i
      unfold startMerge Merge.asTx
      split <;> exact ⟨rfl, rfl⟩
    · unfold startMerge Merge.asTx
      split <;> exact h.parts.freeCount_eq
  · intro hacc
    unfold startMerge
    split <;> exact ⟨by simpa [Merge.asTx] using hacc.bstatusRetxSize_eq, hacc.txSize_eq⟩
  · intro a ha
    cases ha

theorem mergeRule_inv (h : tx.Inv cfg lost) (hack : 0 ≤ ackSn ∧ ackSn < cfg.snModulus)
    (hc : Chain cfg tx ackSn gs) :
    MergeRule cfg tx ackSn gs (fun pre m => m.Inv cfg tx lost ackSn gs pre) where
  frame hm := hm.lists.frame
  poll hm := ⟨lists_stopPoll hm.lists, order_same hm.order rfl rfl, stopPoll_parts hm.parts,
    fun hacc => ⟨(hm.sums hacc).bstatusRetxSize_eq, (hm.sums hacc).txSize_eq⟩, hm.endOk⟩
  next hgs hm hp := by
    obtain ⟨hparts, hsums⟩ := held_next hm.lists.waitRest hm.parts hp
    exact ⟨lists_next hm.lists hp, order_next hc hgs hm.order hp, hparts,
      fun hacc => hsums (hm.sums hacc),
      endOk_next h.snInv h.waitEnd h.parts.waitList_nodup hack hm.lists hm.order hm.endOk hp⟩
  done hgs hm _ := { hm with order := order_done hc hgs hm.order }
  ended hgs hm hp := by
    refine ⟨lists_over hm.lists hp, order_over hm.order hp, ?_, ?_, endOk_over hm.endOk hp⟩
    · cases hp with
      | ended => exact hm.parts
      | @keepAllRetx r rs hr hw =>
          have hrest := hm.lists.retxRest_nil (.inr (by simp [hr]))
          refine hm.parts.of_perm ?_ rfl rfl (fun _ => ⟨rfl, rfl⟩) hm.parts.freeCount_eq
          simp [AmTx.segments, Merge.asTx, Merge.keepAllRetx, hrest]
    · intro hacc
      have hs := hm.sums hacc
      cases hp with
      | ended => exact hs
      | @keepAllRetx r rs hr hw =>
          have hrest := hm.lists.retxRest_nil (.inr (by simp [hr]))
          refine ⟨?_, hs.txSize_eq⟩
          have := hs.bstatusRetxSize_eq
          simpa [Merge.asTx, Merge.keepAllRetx, hrest] using this

theorem finishRule_inv (h : tx.Inv cfg lost) :
    FinishRule cfg tx ackSn (fun m => m.Inv cfg tx lost ackSn gs gs) where
  frame hm := hm.lists.frame
  wait := by
    intro m s next hm hw hlt
    obtain ⟨hparts, hsums⟩ := @held_ackHead cfg m lost hm.lists.waitRest hm.parts s next hw
      (if m.tx.waitEnd = some s.addr then some m.prevWait else m.endWait)
    refine ⟨lists_ackHead hm.lists hw _, order_same hm.order (by simp) (by simp), hparts,
      fun hacc => hsums (hm.sums hacc), ?_⟩
    intro a ha
    simp only [ackLate_lists] at ha ⊢
    split at ha
    · rename_i he
      injection ha with ha
      exact ⟨waitEnd_last h.waitEnd h.parts.waitList_nodup hm.lists hw he, prevWait_node ha⟩
    · have := (hm.endOk a ha).1
      rw [hw] at this
      cases this
  retx := by
    intro m s next hm hr hlt
    obtain ⟨hparts, hsums⟩ := @held_ackRetx cfg m lost hm.parts s next hr
    refine ⟨lists_ackRetx hm.lists hr, order_same hm.order (by simp) (by simp), hparts,
      fun hacc => hsums (hm.sums hacc), ?_⟩
    intro a ha
    simp only [ackRetx_lists] at ha ⊢
    exact hm.endOk a ha

end Rules

/-! ## The new `tx_next_ack` -/

section Commit

variable {cfg : AmConfig} {tx : AmTx} {lost : List Segment} {ackSn : ℤ} {gs : List Nack} {m : Merge}

theorem lowerTxNextAck_spec (hta : 0 ≤ tx.txNextAck ∧ tx.txNextAck < cfg.snModulus)
    {l : List Segment} (hr : ∀ s ∈ l, 0 ≤ tx.sn s ∧ tx.sn s < cfg.snModulus) {a : ℤ}
    (ha : 0 ≤ a ∧ a < cfg.snModulus) :
    (0 ≤ lowerTxNextAck cfg tx l a ∧ lowerTxNextAck cfg tx l a < cfg.snModulus) ∧
      rel cfg.snModulus tx.txNextAck (lowerTxNextAck cfg tx l a) ≤
        rel cfg.snModulus tx.txNextAck a ∧
      ∀ s ∈ l.head?, rel cfg.snModulus tx.txNextAck (lowerTxNextAck cfg tx l a) ≤
        rel cfg.snModulus tx.txNextAck (tx.sn s) := by
  cases l with
  | nil => exact ⟨ha, le_refl _, by simp⟩
  | cons s l =>
      have hs := hr s List.mem_cons_self
      simp only [lowerTxNextAck, snCompareTx_eq hta hs ha, List.head?_cons, Option.mem_some_iff,
        forall_eq']
      split
      · exact ⟨hs, by omega, le_refl _⟩
      · exact ⟨ha, le_refl _, by omega⟩

/-- The new `tx_next_ack` is at or below `tx_next` and the two list heads. -/
theorem updateTxNextAck_spec (hta : 0 ≤ tx.txNextAck ∧ tx.txNextAck < cfg.snModulus)
    (htn : 0 ≤ tx.txNext ∧ tx.txNext < cfg.snModulus)
    (hack : 0 ≤ ackSn ∧ ackSn < cfg.snModulus)
    (hr : ∀ s ∈ tx.outstanding, 0 ≤ tx.sn s ∧ tx.sn s < cfg.snModulus) :
    (0 ≤ updateTxNextAck cfg ackSn tx ∧ updateTxNextAck cfg ackSn tx < cfg.snModulus) ∧
      rel cfg.snModulus tx.txNextAck (updateTxNextAck cfg ackSn tx) ≤
        rel cfg.snModulus tx.txNextAck tx.txNext ∧
      ∀ s, (s ∈ tx.waitList.head? ∨ s ∈ tx.retransmitList.head?) →
        rel cfg.snModulus tx.txNextAck (updateTxNextAck cfg ackSn tx) ≤
          rel cfg.snModulus tx.txNextAck (tx.sn s) := by
  obtain ⟨hr₁, hle₁, hh₁⟩ := lowerTxNextAck_spec hta (l := tx.waitList)
    (fun s hs => hr s (List.mem_append_left _ hs)) htn
  obtain ⟨hr₂, hle₂, hh₂⟩ := lowerTxNextAck_spec hta (l := tx.retransmitList)
    (fun s hs => hr s (List.mem_append_right _ hs)) hr₁
  simp only [updateTxNextAck]
  generalize lowerTxNextAck cfg tx tx.waitList tx.txNext = a₁ at *
  generalize lowerTxNextAck cfg tx tx.retransmitList a₁ = a₂ at *
  rw [snCompareTx_eq hta hack hr₂]
  have hfinal : ∀ x, rel cfg.snModulus tx.txNextAck a₂ ≤ x →
      rel cfg.snModulus tx.txNextAck (if rel cfg.snModulus tx.txNextAck ackSn -
        rel cfg.snModulus tx.txNextAck a₂ < 0 then ackSn else a₂) ≤ x := by
    intro x hx
    split <;> omega
  refine ⟨?_, hfinal _ (hle₂.trans hle₁), ?_⟩
  · split
    · exact hack
    · exact hr₂
  · rintro s (hs | hs)
    · exact hfinal _ (hle₂.trans (hh₁ s hs))
    · exact hfinal _ (hh₂ s hs)

/-- The lists of the entity after the merge. -/
theorem commit_spec (hm : m.Inv cfg tx lost ackSn gs gs) :
    m.commit.waitList = m.waitFront ++ m.curWait ∧
      m.commit.retransmitList = m.newRetx ++ m.curRetx ∧ m.commit.txNextAck = tx.txNextAck ∧
      m.commit.txNext = tx.txNext ∧ m.commit.txList = tx.txList ∧ m.commit.txEnd = tx.txEnd ∧
      m.commit.bstatusTxSize = tx.bstatusTxSize ∧ (∀ s, m.commit.sn s = tx.sn s) ∧
      (∀ s ∈ m.commit.outstanding, s ∈ tx.outstanding) := by
  obtain ⟨timer, bst, size, heap, freed, htx⟩ := hm.lists.frame.tx_eq
  have hw : m.commit.waitList = m.waitFront ++ m.curWait := by
    simp [Merge.commit, hm.lists.waitRest]
  refine ⟨hw, rfl, by simp [Merge.commit, htx], by simp [Merge.commit, htx],
    by simp [Merge.commit, htx], by simp [Merge.commit, htx], by simp [Merge.commit, htx],
    fun s => hm.lists.frame.sn s, ?_⟩
  intro s hs
  rcases List.mem_append.mp hs with hs | hs
  · rw [hw] at hs
    exact List.mem_append_left _ (hm.lists.wait.subset hs)
  · rcases List.mem_append.mp hs with hs | hs
    · exact hm.lists.newRetx s hs
    · exact List.mem_append_right _ (hm.lists.retx.subset (List.mem_append_left _ hs))

theorem commit_parts (hm : m.Inv cfg tx lost ackSn gs gs) :
    m.commit.Parts (m.retxRest ++ lost) := by
  refine hm.parts.of_perm ?_ rfl rfl (fun _ => ⟨rfl, rfl⟩) hm.parts.freeCount_eq
  simp only [AmTx.segments, Merge.commit, Merge.asTx]
  grind

/-- The new `retransmit_list` is sorted: what remains of the old one is not below the ACK. -/
theorem commit_retxSorted (h : tx.Inv cfg lost) (hack : 0 ≤ ackSn ∧ ackSn < cfg.snModulus)
    (hm : m.Inv cfg tx lost ackSn gs gs) (hhead : HeadUnacked cfg tx ackSn m.curRetx) :
    (m.newRetx ++ m.curRetx).Pairwise fun s s' =>
      rel cfg.snModulus tx.txNextAck (tx.sn s) ≤ rel cfg.snModulus tx.txNextAck (tx.sn s') := by
  have hta := h.snInv.txNextAck_range
  have hsub : m.curRetx.Sublist tx.retransmitList :=
    (List.sublist_append_left _ _).trans hm.lists.retx.sublist
  have hr : ∀ s ∈ m.newRetx ++ m.curRetx, 0 ≤ tx.sn s ∧ tx.sn s < cfg.snModulus := by
    intro s hs
    refine h.snInv.sn_range s (List.mem_append_left _ ?_)
    rcases List.mem_append.mp hs with hs | hs
    · exact hm.lists.newRetx s hs
    · exact List.mem_append_right _ (hsub.subset hs)
  refine List.pairwise_append.mpr ⟨?_, h.retxSorted.sublist hsub, ?_⟩
  · refine hm.order.sorted.imp_of_mem fun {a b} ha hb hab => ?_
    rw [snCompareTx_eq hta (hr a (by simp [ha])) (hr b (by simp [hb]))] at hab
    omega
  · intro a ha b hb
    have h1 := hm.order.le_ack a ha
    rw [snCompareTx_eq hta (hr a (by simp [ha])) hack] at h1
    cases hcur : m.curRetx with
    | nil =>
        rw [hcur] at hb
        cases hb
    | cons c l =>
        have h2 := hhead c (by simp [hcur])
        rw [snCompareTx_eq hta (hr c (by simp [hcur])) hack] at h2
        have h3 : rel cfg.snModulus tx.txNextAck (tx.sn c) ≤
            rel cfg.snModulus tx.txNextAck (tx.sn b) := by
          have hs := h.retxSorted.sublist hsub
          rw [hcur] at hb hs
          rcases List.mem_cons.mp hb with rfl | hb
          · exact le_refl _
          · exact (List.pairwise_cons.mp hs).1 b hb
        omega

theorem commit_waitEnd (h : tx.Inv cfg lost) (hm : m.Inv cfg tx lost ackSn gs gs) :
    m.commit.WaitEndLast := by
  have hw := (commit_spec hm).1
  have hnd := h.parts.waitList_nodup
  intro s hs he
  rw [hw] at hs ⊢
  simp only [Merge.commit, hm.lists.frame.waitEnd] at he
  cases hend : m.endWait with
  | none =>
      rw [hend] at he
      exact Lists.getLast?_sublist hm.lists.wait (List.Nodup.of_map _ hnd) hs
        (h.waitEnd s (hm.lists.wait.subset hs) he)
  | some p =>
      rw [hend] at he
      cases p with
      | head => cases he
      | node a =>
          obtain ⟨h1, h2⟩ := hm.endOk a hend
          have hnd' := hnd.sublist (hm.lists.wait.map Segment.addr)
          rw [h1, List.append_nil] at hs hnd' ⊢
          exact getLast?_eq_of_addr hnd' hs (h2.trans he)

/-- The new `tx_next_ack` is a base for all that is still outstanding: SNs relative to it are
less by the same amount. -/
theorem commit_rebase (h : tx.Inv cfg lost) (hack : 0 ≤ ackSn ∧ ackSn < cfg.snModulus)
    (hm : m.Inv cfg tx lost ackSn gs gs) (hheadr : HeadUnacked cfg tx ackSn m.curRetx) :
    (0 ≤ updateTxNextAck cfg ackSn m.commit ∧
        updateTxNextAck cfg ackSn m.commit < cfg.snModulus) ∧
      (∀ s ∈ m.commit.outstanding,
        rel cfg.snModulus (updateTxNextAck cfg ackSn m.commit) (tx.sn s) =
          rel cfg.snModulus tx.txNextAck (tx.sn s) -
            rel cfg.snModulus tx.txNextAck (updateTxNextAck cfg ackSn m.commit)) ∧
      rel cfg.snModulus (updateTxNextAck cfg ackSn m.commit) tx.txNext =
        rel cfg.snModulus tx.txNextAck tx.txNext -
          rel cfg.snModulus tx.txNextAck (updateTxNextAck cfg ackSn m.commit) := by
  have hM := cfg.snModulus_pos
  have hta := h.snInv.txNextAck_range
  obtain ⟨hw, hr, hb, hn, -, -, -, hsn, hout⟩ := commit_spec hm
  have hrange : ∀ s ∈ tx.outstanding, 0 ≤ tx.sn s ∧ tx.sn s < cfg.snModulus :=
    fun s hs => h.snInv.sn_range s (List.mem_append_left _ hs)
  obtain ⟨hbr, hbn, hbh⟩ := @updateTxNextAck_spec cfg m.commit ackSn (by rw [hb]; exact hta)
    (by rw [hn]; exact h.snInv.txNext_range) hack
    (fun s hs => by rw [hsn]; exact hrange s (hout s hs))
  rw [hb, hn] at hbn
  rw [hb] at hbh
  simp only [hsn] at hbh
  -- in a sorted list all are above the base that the head is above
  have hfirst : ∀ {l : List Segment}, (l.Pairwise fun s s' =>
      rel cfg.snModulus tx.txNextAck (tx.sn s) ≤ rel cfg.snModulus tx.txNextAck (tx.sn s')) →
      (∀ s ∈ l.head?, rel cfg.snModulus tx.txNextAck (updateTxNextAck cfg ackSn m.commit) ≤
        rel cfg.snModulus tx.txNextAck (tx.sn s)) →
      ∀ s ∈ l, rel cfg.snModulus tx.txNextAck (updateTxNextAck cfg ackSn m.commit) ≤
        rel cfg.snModulus tx.txNextAck (tx.sn s) := by
    intro l hl hh s hs
    cases l with
    | nil => cases hs
    | cons x l =>
        have hx := hh x (by simp)
        rcases List.mem_cons.mp hs with rfl | hs
        · exact hx
        · exact hx.trans ((List.pairwise_cons.mp hl).1 s hs)
  refine ⟨hbr, fun s hs => rel_of_base_le hM ?_, rel_of_base_le hM hbn⟩
  rcases List.mem_append.mp hs with hs | hs
  · refine hfirst ?_ (fun s hs => hbh s (.inl hs)) s hs
    rw [hw]
    exact (h.snInv.waitSorted.sublist hm.lists.wait).imp segLe_sn
  · exact hfirst (hr ▸ commit_retxSorted h hack hm hheadr) (fun s hs => hbh s (.inr hs)) s hs

/-- The order of segments does not depend on the base. -/
theorem segLe_rebase {M b b' d : ℤ} {sn : Segment → ℤ} {s s' : Segment}
    (hs : rel M b' (sn s) = rel M b (sn s) - d) (hs' : rel M b' (sn s') = rel M b (sn s') - d)
    (h : segLe M b sn s s') : segLe M b' sn s s' := by
  rcases h with h | h
  · left
    omega
  · exact .inr h

/-- **The transmitter after a STATUS PDU.** -/
theorem inv_commit (h : tx.Inv cfg lost) (hack : 0 ≤ ackSn ∧ ackSn < cfg.snModulus)
    (hm : m.Inv cfg tx lost ackSn gs gs) (hheadr : HeadUnacked cfg tx ackSn m.curRetx) :
    AmTx.Inv cfg { m.commit with txNextAck := updateTxNextAck cfg ackSn m.commit }
      (m.retxRest ++ lost) := by
  have hM := cfg.snModulus_pos
  obtain ⟨hw, hr, hb, hn, hl, he, -, hsn, hout⟩ := commit_spec hm
  obtain ⟨hbr, hrel, hreln⟩ := commit_rebase h hack hm hheadr
  have hsortr := commit_retxSorted h hack hm hheadr
  have hrange : ∀ s ∈ tx.outstanding, 0 ≤ tx.sn s ∧ tx.sn s < cfg.snModulus :=
    fun s hs => h.snInv.sn_range s (List.mem_append_left _ hs)
  have hnn := rel_nonneg hM tx.txNextAck (updateTxNextAck cfg ackSn m.commit)
  have hmem : ∀ s ∈ m.commit.outstanding ++ [], s ∈ m.commit.outstanding := by simp
  generalize updateTxNextAck cfg ackSn m.commit = b' at *
  refine ⟨?_, ⟨hbr, ?_, ?_, ?_, ?_, ?_, ?_, ?_, ?_, ?_, ?_, ?_⟩, ?_, ?_⟩
  · have hp := commit_parts hm
    exact hp.of_perm (List.Perm.refl _) rfl rfl (fun _ => ⟨rfl, rfl⟩) hp.freeCount_eq
  · simp only [hn]
    exact h.snInv.txNext_range
  · simp only [hn, hreln]
    have := h.snInv.txNext_le
    omega
  · intro s hs
    exact hsn s ▸ hrange s (hout s (hmem s hs))
  · intro s hs
    have hs' := hmem s hs
    have := h.snInv.sn_le s (List.mem_append_left _ (hout s hs'))
    show rel cfg.snModulus b' (m.commit.sn s) ≤ rel cfg.snModulus b' m.commit.txNext
    rw [hsn, hrel s hs', hn, hreln]
    omega
  · intro s hs s' hs' heq
    refine h.snInv.sn_inj s (List.mem_append_left _ (hout s (hmem s hs))) s'
      (List.mem_append_left _ (hout s' (hmem s' hs'))) ?_
    rw [← hsn s, ← hsn s']
    exact heq
  · intro s hs heq
    simp only [hl]
    refine h.snInv.unfinished s (List.mem_append_left _ (hout s (hmem s hs))) ?_
    rw [← hsn s, ← hn]
    exact heq
  · simp only [hl]
    exact h.snInv.head_isLast
  · intro x hx hf
    simp only [hl] at hx
    have := h.snInv.head_sn x hx hf
    rw [← hsn x, ← hn] at this
    exact this
  · simp only [hl]
    exact h.snInv.tail_whole
  · simp only [hl, he]
    exact h.snInv.txEnd_eq
  · have hsort := h.snInv.waitSorted.sublist hm.lists.wait
    rw [← hw] at hsort
    refine hsort.imp_of_mem fun {s s'} hs hs' hle => ?_
    show segLe cfg.snModulus b' m.commit.sn s s'
    rw [show m.commit.sn = tx.sn from funext hsn]
    exact segLe_rebase (hrel s (List.mem_append_left _ hs)) (hrel s' (List.mem_append_left _ hs')) hle
  · exact commit_waitEnd h hm
  · have hsort := hsortr
    rw [← hr] at hsort
    refine hsort.imp_of_mem fun {s s'} hs hs' hle => ?_
    have h1 := hrel s (List.mem_append_right _ hs)
    have h2 := hrel s' (List.mem_append_right _ hs')
    show rel cfg.snModulus b' (m.commit.sn s) ≤ rel cfg.snModulus b' (m.commit.sn s')
    rw [hsn, hsn, h1, h2]
    omega

theorem accounts_commit (hacc : tx.Accounts cfg) (hm : m.Inv cfg tx lost ackSn gs gs)
    (hrest : m.retxRest = []) (b : ℤ) : AmTx.Accounts cfg { m.commit with txNextAck := b } := by
  obtain ⟨-, hr, -, -, hl, -, hbst, -⟩ := commit_spec hm
  have hs := hm.sums hacc
  refine ⟨?_, ?_, hs.txSize_eq⟩
  · simp only [hbst, hl]
    exact hacc.bstatusTxSize_eq
  · have := hs.bstatusRetxSize_eq
    simpa only [Merge.asTx, hrest, List.append_nil, Merge.commit] using this

end Commit

end OaiCu.NrRlc
