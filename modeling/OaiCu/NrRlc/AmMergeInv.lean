import OaiCu.NrRlc.AmMerge
import OaiCu.NrRlc.AmTxInv

/-!
# RLC AM: what the merge keeps

No order of the two lists against each other is assumed here: whatever segment a pass looks
at first, segments are only moved and freed, and the new lists are in order.
-/

namespace OaiCu.NrRlc

open Serial

/-- The entity with the lists as they are in the middle of the merge. -/
def Merge.asTx (m : Merge) : AmTx :=
  { m.tx with
    waitList := m.waitFront ++ m.curWait ++ m.waitRest
    retransmitList := m.newRetx ++ m.curRetx ++ m.retxRest }

/-! ## Segments and sizes -/

/-- The two sizes of the entity that the merge changes. -/
structure Merge.Sums (cfg : AmConfig) (m : Merge) : Prop where
  bstatusRetxSize_eq : m.tx.bstatusRetxSize = totalSize cfg m.asTx.retransmitList
  txSize_eq : m.tx.txSize = m.tx.heldSize

section Held

variable {cfg : AmConfig} {tx : AmTx} {ackSn : ℤ} {nack : Nack} {m m' : Merge}
  {lost : List Segment}

/-- A pass that frees nothing. -/
theorem parts_move (h : m.asTx.Parts lost)
    (hp : (m'.asTx.segments lost).Perm (m.asTx.segments lost)) (hfreed : m'.tx.freed = m.tx.freed)
    (hsdu : m'.tx.nextSdu = m.tx.nextSdu) (hseg : m'.tx.nextSeg = m.tx.nextSeg)
    (hheap : ∀ i, (m'.tx.heap i).data = (m.tx.heap i).data ∧
      (m'.tx.heap i).refCount = (m.tx.heap i).refCount ∧
      (m'.tx.heap i).freeCount = (m.tx.heap i).freeCount) :
    m'.asTx.Parts lost ∧ m'.tx.heldSize = m.tx.heldSize := by
  refine ⟨h.of_perm hp hsdu hseg (fun i => ⟨(hheap i).1, (hheap i).2.1⟩) ?_, ?_⟩
  · intro i hi
    have hfree := h.freeCount_eq i (by simpa only [Merge.asTx, hsdu] using hi)
    simp only [Merge.asTx, (hheap i).2.2, hfreed] at hfree ⊢
    exact hfree
  · rw [AmTx.heldSize, AmTx.heldSize, hsdu]
    refine Finset.sum_congr rfl fun i _ => ?_
    simp [Sdu.heldSize, Sdu.isFreed, Sdu.size, hheap i]

/-- A pass that frees a segment. -/
theorem parts_ack (h : m.asTx.Parts lost) {s : Segment} (hm : m'.tx.heap = m.tx.heap)
    (hfreed : m'.tx.freed = m.tx.freed) (hsdu : m'.tx.nextSdu = m.tx.nextSdu)
    (hseg : m'.tx.nextSeg = m.tx.nextSeg) (hsize : m'.tx.txSize = m.tx.txSize)
    (hp : (s :: (m'.asTx.txList ++ m'.asTx.waitList ++ m'.asTx.retransmitList ++ lost) ++
      m.tx.freed).Perm (m.asTx.segments lost)) :
    (m'.ack s).asTx.Parts lost ∧
      (m.tx.txSize = m.tx.heldSize → (m'.ack s).tx.txSize = (m'.ack s).tx.heldSize) := by
  have hl := ack_lists m' s
  have hheld := h.heldSize_free hp
  refine ⟨h.free (s := s) ?_ ?_ ?_ ?_ ?_, ?_⟩
  · refine List.Perm.trans ?_ hp
    simp only [AmTx.segments, Merge.asTx, hl, ack_tx, AmTx.freeSduSegment, hfreed]
    grind
  · simp only [Merge.asTx, ack_tx, AmTx.freeSduSegment, hm]
  · simp only [Merge.asTx, ack_tx, AmTx.freeSduSegment, hsdu]
  · simp only [Merge.asTx, ack_tx, AmTx.freeSduSegment, hseg]
  · simp only [Merge.asTx, ack_tx, AmTx.freeSduSegment, hfreed]
  · intro ht
    have hheld' : (m'.ack s).tx.heldSize = (m.asTx.freeSduSegment s).heldSize := by
      simp only [AmTx.heldSize, ack_tx, AmTx.freeSduSegment, Merge.asTx, hm, hsdu]
    rw [hheld', hheld, ack_tx]
    simp only [hsize, hm, ht, Merge.asTx]
    split
    · rfl
    · rw [sub_zero]
      rfl

/-- The head of `wait_list` is freed. -/
theorem held_ackHead (hrest : m.waitRest = []) (h : m.asTx.Parts lost) {w : Segment}
    {ws : List Segment} (hw : m.curWait = w :: ws) (e : Option ListPos) :
    ({ m with curWait := ws, endWait := e }.ack w).asTx.Parts lost ∧
      (m.Sums cfg → ({ m with curWait := ws, endWait := e }.ack w).Sums cfg) := by
  obtain ⟨h1, h2⟩ := @parts_ack m { m with curWait := ws, endWait := e } lost h w rfl rfl rfl rfl
    rfl (by
      simp only [AmTx.segments, Merge.asTx, hw, hrest]
      grind)
  refine ⟨h1, fun hs => ⟨?_, h2 hs.txSize_eq⟩⟩
  have := hs.bstatusRetxSize_eq
  simpa only [Merge.asTx, ack_lists, ack_tx, AmTx.freeSduSegment] using this

/-- The head of `retransmit_list` is freed. -/
theorem held_ackRetx (h : m.asTx.Parts lost) {r : Segment} {rs : List Segment}
    (hr : m.curRetx = r :: rs) :
    (m.ackRetx cfg r rs).asTx.Parts lost ∧ (m.Sums cfg → (m.ackRetx cfg r rs).Sums cfg) := by
  obtain ⟨h1, h2⟩ := @parts_ack m { m with
      tx := { m.tx with bstatusRetxSize := m.tx.bstatusRetxSize - pduSize cfg r }
      curRetx := rs } lost h r rfl rfl rfl rfl rfl (by
      simp only [AmTx.segments, Merge.asTx, hr]
      grind)
  refine ⟨h1, fun hs => ⟨?_, h2 hs.txSize_eq⟩⟩
  have := hs.bstatusRetxSize_eq
  simp only [Merge.ackRetx, Merge.asTx, ack_lists, ack_tx, AmTx.freeSduSegment, hr,
    totalSize_append, totalSize_cons] at this ⊢
  omega

/-- **Segments and sizes in one pass.** -/
theorem held_next (hrest : m.waitRest = []) (h : m.asTx.Parts lost)
    (hp : Pass cfg tx ackSn nack m (.processNextPdu m')) :
    m'.asTx.Parts lost ∧ (m.Sums cfg → m'.Sums cfg) := by
  cases hp with
  | @nackWait w ws hw =>
      obtain ⟨h1, h2⟩ := @parts_move m (m.nackWait cfg w ws) lost h
        (by
          simp only [AmTx.segments, Merge.asTx, Merge.nackWait, AmTx.countRetx, hw, hrest]
          grind)
        rfl rfl rfl (fun i => (countRetx_heap cfg m.tx w i).2)
      refine ⟨h1, fun hs => ⟨?_, ?_⟩⟩
      · have := hs.bstatusRetxSize_eq
        simp only [Merge.nackWait, AmTx.countRetx, Merge.asTx, totalSize_append, totalSize_cons,
          totalSize_nil] at this ⊢
        omega
      · rw [h2]
        exact hs.txSize_eq
  | ackWait hw => exact held_ackHead hrest h hw _
  | @skipWait w ws hw =>
      obtain ⟨h1, h2⟩ := @parts_move m (m.skipWait w ws) lost h
        (by
          simp only [AmTx.segments, Merge.asTx, Merge.skipWait, hw, hrest]
          grind)
        rfl rfl rfl (fun i => ⟨rfl, rfl, rfl⟩)
      exact ⟨h1, fun hs => ⟨hs.bstatusRetxSize_eq, hs.txSize_eq⟩⟩
  | @keepRetx r rs hr =>
      obtain ⟨h1, h2⟩ := @parts_move m (m.keepRetx r rs) lost h
        (by
          simp only [AmTx.segments, Merge.asTx, Merge.keepRetx, hr]
          grind)
        rfl rfl rfl (fun i => ⟨rfl, rfl, rfl⟩)
      refine ⟨h1, fun hs => ⟨?_, hs.txSize_eq⟩⟩
      have := hs.bstatusRetxSize_eq
      simp only [Merge.keepRetx, Merge.asTx, hr, totalSize_append, totalSize_cons,
        totalSize_nil] at this ⊢
      omega
  | ackRetx hr => exact held_ackRetx h hr

end Held

/-! ## The lists -/

/-- The pieces of the two lists. -/
structure Merge.Lists (tx : AmTx) (m : Merge) : Prop where
  frame : m.Frame tx
  waitRest : m.waitRest = []
  wait : (m.waitFront ++ m.curWait).Sublist tx.waitList
  curWait : m.curWait <:+ tx.waitList
  retx : (m.curRetx ++ m.retxRest) <:+ tx.retransmitList
  retxRest : m.retxRest ≠ [] → m.curWait = [] ∧ m.curRetx = []
  newRetx : ∀ s ∈ m.newRetx, s ∈ tx.outstanding

/-- Segments that stay in `wait_list` are not acked, and the new `retransmit_list` does not
go beyond the NACK. -/
structure Merge.Order (cfg : AmConfig) (tx : AmTx) (ackSn : ℤ) (gs pre : List Nack) (m : Merge) :
    Prop where
  waitFront : ∀ s ∈ m.waitFront, ¬ snCompareTx cfg tx (tx.sn s) ackSn < 0
  sorted : m.newRetx.Pairwise fun s s' => snCompareTx cfg tx (tx.sn s) (tx.sn s') ≤ 0
  le_nack : ∀ n post, gs = pre ++ n :: post → ∀ s ∈ m.newRetx, snCompareTx cfg tx (tx.sn s) n.sn ≤ 0
  le_ack : ∀ s ∈ m.newRetx, snCompareTx cfg tx (tx.sn s) ackSn ≤ 0

section Lists

variable {cfg : AmConfig} {tx : AmTx} {ackSn : ℤ} {gs pre post : List Nack} {n : Nack}
  {m m' : Merge}

theorem lists_startMerge : (startMerge cfg ackSn tx).Lists tx where
  frame := frame_startMerge
  waitRest := rfl
  wait := List.Sublist.refl _
  curWait := List.suffix_refl _
  retx := by simp [startMerge]
  retxRest := by simp [startMerge]
  newRetx := by simp [startMerge]

theorem order_startMerge : (startMerge cfg ackSn tx).Order cfg tx ackSn gs pre where
  waitFront := by simp [startMerge]
  sorted := by simp [startMerge]
  le_nack := by simp [startMerge]
  le_ack := by simp [startMerge]

theorem Merge.Lists.retxRest_nil (h : m.Lists tx) (hm : m.curWait ≠ [] ∨ m.curRetx ≠ []) :
    m.retxRest = [] := by
  by_contra hne
  rcases hm with hm | hm
  · exact hm (h.retxRest hne).1
  · exact hm (h.retxRest hne).2

theorem Merge.Lists.cons_wait (h : m.Lists tx) {w : Segment} {ws : List Segment}
    (hw : m.curWait = w :: ws) : (m.waitFront ++ ws).Sublist tx.waitList ∧ ws <:+ tx.waitList ∧
      m.retxRest = [] ∧ w ∈ tx.waitList := by
  refine ⟨?_, ?_, h.retxRest_nil (.inl (by simp [hw])), ?_⟩
  · refine List.Sublist.trans ?_ h.wait
    rw [hw]
    exact List.Sublist.append_left (List.sublist_cons_self w ws) _
  · refine List.IsSuffix.trans ?_ h.curWait
    rw [hw]
    exact List.suffix_cons w ws
  · exact h.curWait.subset (by simp [hw])

theorem Merge.Lists.cons_retx (h : m.Lists tx) {r : Segment} {rs : List Segment}
    (hr : m.curRetx = r :: rs) : (rs ++ m.retxRest) <:+ tx.retransmitList ∧ m.retxRest = [] ∧
      r ∈ tx.retransmitList := by
  refine ⟨?_, h.retxRest_nil (.inr (by simp [hr])), ?_⟩
  · refine List.IsSuffix.trans ?_ h.retx
    rw [hr]
    exact List.suffix_cons r _
  · exact h.retx.subset (by simp [hr])

theorem lists_ackHead (h : m.Lists tx) {w : Segment} {ws : List Segment} (hw : m.curWait = w :: ws)
    (e : Option ListPos) : ({ m with curWait := ws, endWait := e }.ack w).Lists tx := by
  obtain ⟨h1, h2, h3, -⟩ := h.cons_wait hw
  have hf : ({ m with curWait := ws, endWait := e }.ack w).Frame tx := by
    apply Merge.Frame.ack
    exact ⟨h.frame.tx_eq, h.frame.heap_eq⟩
  refine ⟨hf, ?_, ?_, ?_, ?_, ?_, ?_⟩ <;> simp only [ack_lists]
  · exact h.waitRest
  · exact h1
  · exact h2
  · exact h.retx
  · exact fun hne => absurd h3 hne
  · exact h.newRetx

theorem lists_ackRetx (h : m.Lists tx) {r : Segment} {rs : List Segment}
    (hr : m.curRetx = r :: rs) : (m.ackRetx cfg r rs).Lists tx := by
  obtain ⟨h1, h2, -⟩ := h.cons_retx hr
  refine ⟨h.frame.ackRetx r rs, ?_, ?_, ?_, ?_, ?_, ?_⟩ <;> simp only [ackRetx_lists]
  · exact h.waitRest
  · exact h.wait
  · exact h.curWait
  · exact h1
  · exact fun hne => absurd h2 hne
  · exact h.newRetx

theorem lists_next (h : m.Lists tx) (hp : Pass cfg tx ackSn n m (.processNextPdu m')) :
    m'.Lists tx := by
  cases hp with
  | @nackWait w ws hw =>
      obtain ⟨h1, h2, h3, h4⟩ := h.cons_wait hw
      refine ⟨h.frame.countRetx w rfl, h.waitRest, h1, h2, h.retx, fun hne => absurd h3 hne, ?_⟩
      intro s hs
      rcases List.mem_append.mp hs with hs | hs
      · exact h.newRetx s hs
      · rw [List.mem_singleton.mp hs]
        exact List.mem_append_left _ h4
  | ackWait hw => exact lists_ackHead h hw _
  | @skipWait w ws hw =>
      obtain ⟨-, h2, h3, -⟩ := h.cons_wait hw
      refine ⟨⟨h.frame.tx_eq, h.frame.heap_eq⟩, h.waitRest, ?_, h2, h.retx,
        fun hne => absurd h3 hne, h.newRetx⟩
      have := h.wait
      rw [hw] at this
      simpa [Merge.skipWait] using this
  | @keepRetx r rs hr =>
      obtain ⟨h1, h2, h3⟩ := h.cons_retx hr
      refine ⟨⟨h.frame.tx_eq, h.frame.heap_eq⟩, h.waitRest, h.wait, h.curWait, h1,
        fun hne => absurd h2 hne, ?_⟩
      intro s hs
      rcases List.mem_append.mp hs with hs | hs
      · exact h.newRetx s hs
      · rw [List.mem_singleton.mp hs]
        exact List.mem_append_right _ h3
  | ackRetx hr => exact lists_ackRetx h hr

theorem lists_over (h : m.Lists tx) (hp : Pass cfg tx ackSn n m (.listsOver m')) :
    m'.Lists tx := by
  cases hp with
  | ended => exact h
  | @keepAllRetx r rs hr hw =>
      refine ⟨⟨h.frame.tx_eq, h.frame.heap_eq⟩, h.waitRest, h.wait, h.curWait, ?_,
        fun _ => ⟨hw, rfl⟩, h.newRetx⟩
      refine List.IsSuffix.trans ?_ h.retx
      rw [h.retxRest_nil (.inr (by simp [hr])), List.append_nil]
      exact List.suffix_refl _

theorem lists_stopPoll (h : m.Lists tx) : m.stopPoll.Lists tx := by
  refine { h with frame := ⟨?_, h.frame.heap_eq⟩ }
  obtain ⟨_, _, _, _, _, htx⟩ := h.frame.tx_eq
  simp only [Merge.stopPoll, htx]
  exact ⟨_, _, _, _, _, rfl⟩

/-! ## The order of the new lists -/

theorem verdict_unacked {s : Segment} (h : verdict cfg tx ackSn n s = .unacked) :
    snCompareTx cfg tx (tx.sn s) n.sn ≤ 0 ∧ ¬ snCompareTx cfg tx (tx.sn s) ackSn < 0 := by
  unfold verdict at h
  split_ifs at h with h1 h2 h3
  exact ⟨by omega, h3⟩

theorem verdict_acked {s : Segment} (h : verdict cfg tx ackSn n s = .acked) :
    snCompareTx cfg tx (tx.sn s) ackSn < 0 := by
  unfold verdict at h
  split_ifs at h with h1 h2 h3
  exact h3

/-- The NACKs that are processed are in order and not above the ACK. -/
structure Chain (cfg : AmConfig) (tx : AmTx) (ackSn : ℤ) (gs : List Nack) : Prop where
  le_ack : ∀ n ∈ gs, snCompareTx cfg tx n.sn ackSn ≤ 0
  sorted : gs.Pairwise fun n n' => snCompareTx cfg tx n.sn n'.sn ≤ 0

theorem snCompareTx_trans {a b c : ℤ} (h : snCompareTx cfg tx a b ≤ 0)
    (h' : snCompareTx cfg tx b c ≤ 0) : snCompareTx cfg tx a c ≤ 0 := by
  unfold snCompareTx at *
  omega

theorem chain_goodNacks (prev : Option Nack) (nacks : List Nack) :
    Chain cfg tx ackSn (goodNacks cfg tx ackSn prev nacks) ∧
      ∀ p, prev = some p → ∀ n ∈ goodNacks cfg tx ackSn prev nacks,
        snCompareTx cfg tx p.sn n.sn ≤ 0 := by
  induction nacks generalizing prev with
  | nil => exact ⟨⟨by simp [goodNacks], by simp [goodNacks]⟩, by simp [goodNacks]⟩
  | cons n nacks ih =>
      cases hb : badNack cfg tx ackSn prev n with
      | true =>
          rw [goodNacks, if_pos hb]
          exact ⟨⟨by simp, by simp⟩, by simp⟩
      | false =>
          obtain ⟨hc, hprev⟩ := ih (some n)
          rw [goodNacks_cons hb]
          refine ⟨⟨?_, List.pairwise_cons.mpr ⟨hprev n rfl, hc.sorted⟩⟩, ?_⟩
          · intro x hx
            rcases List.mem_cons.mp hx with rfl | hx
            · exact snCompareTx_of_good hb
            · exact hc.le_ack x hx
          · rintro p rfl x hx
            have hpn : snCompareTx cfg tx p.sn n.sn ≤ 0 := by
              unfold badNack at hb
              simp only [Bool.or_eq_false_iff, decide_eq_false_iff_not, not_or] at hb
              have := hb.1.1
              unfold snCompareTx at this ⊢
              omega
            rcases List.mem_cons.mp hx with rfl | hx
            · exact hpn
            · exact snCompareTx_trans hpn (hprev n rfl x hx)

/-- The new `retransmit_list` grows by a segment with the SN of the NACK. -/
theorem order_append (hc : Chain cfg tx ackSn gs) (hgs : gs = pre ++ n :: post)
    (h : m.Order cfg tx ackSn gs pre) {s : Segment} (hle : snCompareTx cfg tx (tx.sn s) n.sn ≤ 0)
    (hge : snCompareTx cfg tx n.sn (tx.sn s) ≤ 0) (hfront : m'.waitFront = m.waitFront)
    (hnew : m'.newRetx = m.newRetx ++ [s]) : m'.Order cfg tx ackSn gs pre := by
  refine ⟨hfront ▸ h.waitFront, ?_, ?_, ?_⟩
  · rw [hnew, List.pairwise_append]
    refine ⟨h.sorted, by simp, ?_⟩
    intro x hx y hy
    rw [List.mem_singleton.mp hy]
    exact snCompareTx_trans (h.le_nack n post hgs x hx) hge
  · intro n' post' hgs' x hx
    have hnn : n' = n := by
      rw [hgs, List.append_cancel_left_eq, List.cons.injEq] at hgs'
      exact hgs'.1.symm
    rw [hnew, List.mem_append, List.mem_singleton] at hx
    rcases hx with hx | rfl
    · exact h.le_nack n' post' hgs' x hx
    · rw [hnn]
      exact hle
  · intro x hx
    rw [hnew, List.mem_append, List.mem_singleton] at hx
    rcases hx with hx | rfl
    · exact h.le_ack x hx
    · exact snCompareTx_trans hle (hc.le_ack n (by simp [hgs]))

theorem order_same (h : m.Order cfg tx ackSn gs pre) (hfront : m'.waitFront = m.waitFront)
    (hnew : m'.newRetx = m.newRetx) : m'.Order cfg tx ackSn gs pre :=
  ⟨hfront ▸ h.waitFront, hnew ▸ h.sorted, hnew ▸ h.le_nack, hnew ▸ h.le_ack⟩

theorem order_next (hc : Chain cfg tx ackSn gs) (hgs : gs = pre ++ n :: post)
    (h : m.Order cfg tx ackSn gs pre) (hp : Pass cfg tx ackSn n m (.processNextPdu m')) :
    m'.Order cfg tx ackSn gs pre := by
  have hself : ∀ a : ℤ, snCompareTx cfg tx a a ≤ 0 := fun a => by simp [snCompareTx]
  cases hp with
  | @nackWait w ws hw _ hv =>
      have hsn := (verdict_eq_nacked.mp hv).1
      exact order_append hc hgs h (s := w) (by rw [hsn]; exact hself _) (by rw [hsn]; exact hself _)
        rfl rfl
  | ackWait => exact order_same h (by simp) (by simp)
  | @skipWait w ws hw _ hv =>
      refine ⟨?_, h.sorted, h.le_nack, h.le_ack⟩
      intro s hs
      rcases List.mem_append.mp hs with hs | hs
      · exact h.waitFront s hs
      · rw [List.mem_singleton.mp hs]
        exact (verdict_unacked hv).2
  | @keepRetx r rs hr _ hv =>
      rcases hv with hv | ⟨hv, -⟩
      · have hsn := (verdict_eq_nacked.mp hv).1
        exact order_append hc hgs h (s := r) (by rw [hsn]; exact hself _)
          (by rw [hsn]; exact hself _) rfl rfl
      · obtain ⟨h1, h2⟩ := verdict_unacked hv
        have h3 := hc.le_ack n (by simp [hgs])
        refine order_append hc hgs h (s := r) h1 ?_ rfl rfl
        unfold snCompareTx at *
        omega
  | ackRetx => exact order_same h (by simp) (by simp)

theorem order_done (hc : Chain cfg tx ackSn gs) (hgs : gs = pre ++ n :: post)
    (h : m.Order cfg tx ackSn gs pre) : m.Order cfg tx ackSn gs (pre ++ [n]) := by
  refine ⟨h.waitFront, h.sorted, ?_, h.le_ack⟩
  intro n' post' hgs' s hs
  refine snCompareTx_trans (h.le_nack n post hgs s hs) ?_
  have := hc.sorted
  rw [hgs', List.append_assoc, List.pairwise_append] at this
  exact (List.pairwise_cons.mp this.2.1).1 n' (by simp)

theorem order_over (h : m.Order cfg tx ackSn gs pre)
    (hp : Pass cfg tx ackSn n m (.listsOver m')) : m'.Order cfg tx ackSn gs gs := by
  have hgs : ∀ n' post', gs = gs ++ n' :: post' → False := by
    intro n' post' he
    have := congrArg List.length he
    simp at this
  cases hp with
  | ended => exact ⟨h.waitFront, h.sorted, fun n' post' he => (hgs n' post' he).elim, h.le_ack⟩
  | keepAllRetx => exact ⟨h.waitFront, h.sorted, fun n' post' he => (hgs n' post' he).elim, h.le_ack⟩

/-! ## `wait_end` -/

/-- If the new `wait_end` is a node, the new `wait_list` ends there. -/
def Merge.EndOk (m : Merge) : Prop :=
  ∀ a, m.endWait = some (.node a) →
    m.curWait = [] ∧ m.waitFront.getLast?.map Segment.addr = some a

theorem prevWait_node {a : ℕ} (h : m.prevWait = .node a) :
    m.waitFront.getLast?.map Segment.addr = some a := by
  unfold Merge.prevWait at h
  split at h
  · cases h
  · rename_i s hs
    rw [hs]
    injection h with h
    rw [Option.map_some, h]

/-- The segments before one that is acked are not there any more. -/
theorem waitFront_nil (hsn : tx.SnInv cfg []) (h : m.Lists tx)
    (hack : 0 ≤ ackSn ∧ ackSn < cfg.snModulus)
    (hf : ∀ s ∈ m.waitFront, ¬ snCompareTx cfg tx (tx.sn s) ackSn < 0) {w : Segment}
    (hw : w ∈ m.curWait) (hlt : snCompareTx cfg tx (tx.sn w) ackSn < 0) : m.waitFront = [] := by
  by_contra hne
  obtain ⟨x, l, hx⟩ := List.exists_cons_of_ne_nil hne
  have hxm : x ∈ m.waitFront := by simp [hx]
  have hle : segLe cfg.snModulus tx.txNextAck tx.sn x w :=
    (List.pairwise_append.mp (hsn.waitSorted.sublist h.wait)).2.2 x hxm w hw
  have hr : ∀ y ∈ m.waitFront ++ m.curWait, 0 ≤ tx.sn y ∧ tx.sn y < cfg.snModulus := by
    intro y hy
    refine hsn.sn_range y ?_
    simp [AmTx.outstanding, h.wait.subset hy]
  have hfx := hf x hxm
  rw [snCompareTx_eq hsn.txNextAck_range (hr x (by simp [hxm])) hack] at hfx
  rw [snCompareTx_eq hsn.txNextAck_range (hr w (by simp [hw])) hack] at hlt
  have := segLe_sn hle
  omega

/-- Nothing follows the node that `wait_end` points to. -/
theorem waitEnd_last (hend : tx.WaitEndLast) (hnd : (tx.waitList.map Segment.addr).Nodup)
    (h : m.Lists tx) {w : Segment} {ws : List Segment} (hw : m.curWait = w :: ws)
    (he : m.tx.waitEnd = some w.addr) : ws = [] := by
  have hsuf := h.curWait
  rw [hw] at hsuf
  rw [h.frame.waitEnd] at he
  exact Lists.nil_of_getLast?_suffix hsuf (List.Nodup.of_map _ hnd)
    (hend w (hsuf.subset List.mem_cons_self) he)

theorem endOk_next (hsn : tx.SnInv cfg []) (hend : tx.WaitEndLast)
    (hnd : (tx.waitList.map Segment.addr).Nodup) (hack : 0 ≤ ackSn ∧ ackSn < cfg.snModulus)
    (hl : m.Lists tx) (ho : m.Order cfg tx ackSn gs pre) (h : m.EndOk)
    (hp : Pass cfg tx ackSn n m (.processNextPdu m')) : m'.EndOk := by
  intro a ha
  cases hp with
  | @nackWait w ws hw =>
      simp only [Merge.nackWait] at ha ⊢
      split at ha
      · rename_i he
        injection ha with ha
        exact ⟨waitEnd_last hend hnd hl hw he, prevWait_node ha⟩
      · have := (h a ha).1
        rw [hw] at this
        cases this
  | @ackWait w ws hw _ hv =>
      have hnil := waitFront_nil hsn hl hack ho.waitFront (by simp [hw]) (verdict_acked hv)
      simp only [ackWait_lists] at ha ⊢
      split at ha
      · injection ha with ha
        have := prevWait_node ha
        rw [hnil] at this
        cases this
      · have := (h a ha).1
        rw [hw] at this
        cases this
  | @skipWait w ws hw =>
      have := (h a ha).1
      rw [hw] at this
      cases this
  | keepRetx => exact h a ha
  | ackRetx =>
      simp only [ackRetx_lists] at ha ⊢
      exact h a ha

theorem endOk_over (h : m.EndOk) (hp : Pass cfg tx ackSn n m (.listsOver m')) : m'.EndOk := by
  cases hp with
  | ended => exact h
  | keepAllRetx => exact h

end Lists

end OaiCu.NrRlc
