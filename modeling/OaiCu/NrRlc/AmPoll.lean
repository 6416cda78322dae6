import OaiCu.NrRlc.AmContents
import OaiCu.NrRlc.AmFate

/-!
# RLC AM: `wait_list` when `t_poll_retransmit` expires

`check_t_poll_retransmit` takes the head of `wait_list` when there is nothing else to send or the
window is stalling, and does not check that there is one. The timer is stopped by a STATUS PDU for
`poll_sn`, but `poll_sn` need not be an SN that is still outstanding.
-/

namespace OaiCu.NrRlc

open Serial

/-! ## The condition -/

/-- If `t_poll_retransmit` expires with nothing else to send or with the window stalling, there is
a segment in `wait_list`. -/
def AmTx.PollSafe (cfg : AmConfig) (tx : AmTx) : Prop :=
  tx.tPollRetransmitStart ≠ 0 → checkPollAfterPduAssembly cfg tx = true → tx.waitList ≠ []

/-- The SNs of the NACK include `poll_sn`. -/
def NackBlock.CoversPoll (cfg : AmConfig) (tx : AmTx) (b : NackBlock) : Prop :=
  snCompareTx cfg tx b.nackSn tx.pollSn ≤ 0 ∧
    snCompareTx cfg tx tx.pollSn ((b.nackSn + b.range) % cfg.snModulus) < 0

/-- `poll_sn` is acked or NACKed, which stops the timer. -/
def StatusPdu.StopsPoll (cfg : AmConfig) (tx : AmTx) (status : StatusPdu) : Prop :=
  snCompareTx cfg tx tx.pollSn status.ackSn < 0 ∨ ∃ b ∈ status.blocks, b.CoversPoll cfg tx

/-- A NACK is found to hit the segment. -/
def StatusPdu.Nacks (cfg : AmConfig) (tx : AmTx) (status : StatusPdu) (x : Look) : Prop :=
  (x, Verdict.nacked) ∈ (sweepOf cfg tx status.ackSn (status.goodNacks cfg tx)).1

/-- A segment of `wait_list` is neither acked nor NACKed. -/
def StatusPdu.LeavesWaiting (cfg : AmConfig) (tx : AmTx) (status : StatusPdu) : Prop :=
  ∃ s ∈ tx.waitList, isBelow cfg tx status.ackSn s = false ∧ ¬ status.Nacks cfg tx (.wait, s)

instance (cfg : AmConfig) (tx : AmTx) (status : StatusPdu) :
    Decidable (status.LeavesWaiting cfg tx) := by
  unfold StatusPdu.LeavesWaiting StatusPdu.Nacks; infer_instance

/-- There is something to send after the STATUS PDU: new data, a segment of `wait_list` that is
NACKed, or a retransmission that is neither acked nor lost. -/
def StatusPdu.LeavesMore (cfg : AmConfig) (tx : AmTx) (status : StatusPdu) : Prop :=
  tx.txList ≠ [] ∨ (∃ s, status.Nacks cfg tx (.wait, s)) ∨
    (¬ status.Speedup cfg tx ∧ ∃ s ∈ tx.retransmitList,
      isBelow cfg tx status.ackSn s = false ∨ status.Nacks cfg tx (.retx, s))

/-- The window is not stalling after the STATUS PDU: it was not before, or the SN at its lower edge
is acked. -/
def StatusPdu.OpensWindow (cfg : AmConfig) (tx : AmTx) (status : StatusPdu) : Prop :=
  isWindowStalling cfg tx = false ∨ (status.ackSn ≠ tx.txNextAck ∧
    ∀ x, status.Nacks cfg tx x → tx.sn x.2 ≠ tx.txNextAck)

/-- The SDU is the only one that is left to send, and nothing is outstanding. -/
def AmTx.OnlyLeft (tx : AmTx) (sduId : ℤ) : Prop :=
  tx.waitList = [] ∧ tx.retransmitList = [] ∧
    ∃ s, tx.txList = [s] ∧ s.isFirst = true ∧ s.isLast = true ∧
      (tx.heap s.sdu).upperLayerId = sduId

/-- A STATUS PDU comes with `t_poll_retransmit` stopped, stops it, leaves a segment in `wait_list`,
or leaves something else to send with the window open; the only SDU that is left is not discarded
with `t_poll_retransmit` running. -/
def PollKept (e : AmEntity) : Op → Prop
  | .recvPdu buffer => isControlPdu buffer → ∀ status, decodeStatus e.cfg buffer = some status →
      e.tx.tPollRetransmitStart = 0 ∨ status.StopsPoll e.cfg e.tx ∨
        status.LeavesWaiting e.cfg e.tx ∨
          (status.LeavesMore e.cfg e.tx ∧ status.OpensWindow e.cfg e.tx)
  | .discardSdu sduId => e.tx.tPollRetransmitStart ≠ 0 → ¬ e.tx.OnlyLeft sduId
  | _ => True

instance (cfg : AmConfig) (tx : AmTx) (status : StatusPdu) : Decidable (status.Ordered cfg tx) :=
  decidable_of_iff ((status.nacks cfg).Pairwise (Nack.Before cfg tx) ∧
    ∀ n ∈ status.nacks cfg, snCompareTx cfg tx n.sn status.ackSn ≤ 0)
    ⟨fun h => ⟨h.1, h.2⟩, fun h => ⟨h.sorted, h.le_ack⟩⟩

/-- A control PDU is a STATUS PDU that can be decoded, with NACKs in order that are not above
`ACK_SN`. -/
def ConformingStatus (e : AmEntity) : Op → Prop
  | .recvPdu buffer => isControlPdu buffer → ∃ status, decodeStatus e.cfg buffer = some status ∧
      status.complete = true ∧ status.Ordered e.cfg e.tx
  | _ => True

section Status

variable {cfg : AmConfig} {tx tx' : AmTx} {lost : List Segment} {status : StatusPdu} {ackSn : ℤ}
  {m : Merge} {events : List Event}

/-! ## `t_poll_retransmit` -/

/-- The timer is not started by the merge. -/
theorem mergeRule_stopped {gs : List Nack} :
    MergeRule cfg tx ackSn gs (fun _ m => m.Lists tx ∧ m.tx.tPollRetransmitStart = 0) where
  frame hm := hm.1.frame
  poll hm := ⟨lists_stopPoll hm.1, rfl⟩
  next _ hm hp := by
    refine ⟨lists_next hm.1 hp, ?_⟩
    cases hp with
    | nackWait => exact hm.2
    | ackWait =>
        rw [Merge.ackWait, ack_tx]
        exact hm.2
    | skipWait => exact hm.2
    | keepRetx => exact hm.2
    | ackRetx =>
        rw [Merge.ackRetx, ack_tx]
        exact hm.2
  done _ hm _ := hm
  ended _ hm hp := by
    refine ⟨lists_over hm.1 hp, ?_⟩
    cases hp with
    | ended => exact hm.2
    | keepAllRetx => exact hm.2

theorem finishRule_stopped :
    FinishRule cfg tx ackSn (fun m => m.Lists tx ∧ m.tx.tPollRetransmitStart = 0) where
  frame hm := hm.1.frame
  wait hm hw _ := by
    refine ⟨lists_ackHead hm.1 hw _, ?_⟩
    rw [Merge.ackLate, ack_tx]
    exact hm.2
  retx hm hr _ := by
    refine ⟨lists_ackRetx hm.1 hr, ?_⟩
    rw [Merge.ackRetx, ack_tx]
    exact hm.2

/-- NACKs in order are not skipped. -/
theorem processRange_ordered (nacks rest : List Nack) {prev : Option Nack}
    (hsort : (nacks ++ rest).Pairwise (Nack.Before cfg tx))
    (hack : ∀ n ∈ nacks ++ rest, snCompareTx cfg tx n.sn ackSn ≤ 0)
    (hprev : ∀ p ∈ prev, ∀ n ∈ nacks ++ rest, p.Before cfg tx n) (hm : m.Lists tx) :
    match processRange cfg ackSn nacks prev m with
    | (m', .rangeDone prev') | (m', .listsOver prev') =>
        m'.Lists tx ∧ ∀ p ∈ prev', ∀ n ∈ rest, p.Before cfg tx n
    | (_, .nacksDone) => False := by
  induction nacks generalizing m prev with
  | nil => exact ⟨hm, hprev⟩
  | cons n nacks ih =>
      obtain ⟨hn, hsort⟩ := List.pairwise_cons.mp hsort
      have hle := hack n List.mem_cons_self
      have hgood : badNack cfg tx ackSn prev n = false := by
        cases prev with
        | none => simpa [badNack] using hle
        | some p => exact badNack_of_before (hprev p rfl n List.mem_cons_self) hle
      rw [processRange, hm.frame.badNack, if_neg (by simp [hgood])]
      obtain ⟨⟨m', isOver⟩, hp⟩ : ∃ res, processNack cfg ackSn n m.fuel m = res := ⟨_, rfl⟩
      have hm' := @processNack_induct cfg tx ackSn [n] [] _ m mergeRule_lists n [] hle rfl m.fuel
        le_rfl hm m' isOver hp
      rw [hp]
      cases isOver with
      | true =>
          refine ⟨hm'.1, fun p hp x hx => hprev p hp x ?_⟩
          exact List.mem_cons_of_mem _ (List.mem_append_right _ hx)
      | false =>
          refine ih hsort (fun x hx => hack x (List.mem_cons_of_mem _ hx)) ?_ hm'
          rintro p hp x hx
          rw [Option.mem_some_iff] at hp
          exact hp ▸ hn x hx

theorem stopPollOnNack_of_covers {b : NackBlock} (hm : m.Frame tx) (h : b.CoversPoll cfg tx) :
    stopPollOnNack cfg b m = m.stopPoll := by
  have hpoll : m.tx.pollSn = tx.pollSn := by
    obtain ⟨_, _, _, _, _, htx⟩ := hm.tx_eq
    rw [htx]
  unfold stopPollOnNack
  rw [hm.snCompareTx, hm.snCompareTx, hpoll]
  exact if_pos h

/-- **A NACK for `poll_sn` stops the timer.** -/
theorem stopped_of_nack (blocks : List NackBlock) {prev : Option Nack}
    (hsort : (blocks.flatMap (NackBlock.nacks cfg)).Pairwise (Nack.Before cfg tx))
    (hack : ∀ n ∈ blocks.flatMap (NackBlock.nacks cfg), snCompareTx cfg tx n.sn ackSn ≤ 0)
    (hprev : ∀ p ∈ prev, ∀ n ∈ blocks.flatMap (NackBlock.nacks cfg), p.Before cfg tx n)
    (hm : m.Lists tx) (hcov : ∃ b ∈ blocks, b.CoversPoll cfg tx) :
    (processNacks cfg ackSn blocks prev m).1.tx.tPollRetransmitStart = 0 := by
  induction blocks generalizing m prev with
  | nil =>
      obtain ⟨b, hb, -⟩ := hcov
      cases hb
  | cons b blocks ih =>
      rw [List.flatMap_cons] at hsort hack hprev
      have hrange := processRange_ordered (b.nacks cfg) _ hsort hack hprev hm
      have hrest := (List.pairwise_append.mp hsort).2.1
      have hack' := fun n hn => hack n (List.mem_append_right _ hn)
      -- the timer is stopped here or by one of the NACKs that follow
      have hnext : ∀ (m' : Merge) (prev' : Option Nack), m'.Lists tx →
          (∀ p ∈ prev', ∀ n ∈ blocks.flatMap (NackBlock.nacks cfg), p.Before cfg tx n) →
          (processNacks cfg ackSn blocks prev' (stopPollOnNack cfg b m')).1.tx.tPollRetransmitStart =
            0 := by
        intro m' prev' hm' hprev'
        obtain ⟨x, hx, hxcov⟩ := hcov
        rcases List.mem_cons.mp hx with rfl | hx
        · rw [stopPollOnNack_of_covers hm'.frame hxcov]
          exact (@processNacks_induct cfg tx ackSn _ [] _ m'.stopPoll mergeRule_stopped blocks prev'
            rfl ⟨lists_stopPoll hm', rfl⟩).2
        · refine ih hrest hack' hprev' ?_ ⟨x, hx, hxcov⟩
          rcases @stopPollOnNack_cases cfg m' b with h | h
          · rw [h]
            exact hm'
          · rw [h]
            exact lists_stopPoll hm'
      rw [processNacks]
      split
      · rename_i m' hres
        rw [hres] at hrange
        exact hrange.elim
      · rename_i m' prev' hres
        rw [hres] at hrange
        exact hnext m' prev' hrange.1 hrange.2
      · rename_i m' prev' hres
        rw [hres] at hrange
        exact hnext m' prev' hrange.1 hrange.2

/-- A STATUS PDU for `poll_sn` stops the timer, and none starts it. -/
theorem stopped_of_stopsPoll (hord : status.Ordered cfg tx)
    (h : tx.tPollRetransmitStart = 0 ∨ status.StopsPoll cfg tx)
    (hf : finishStatus cfg status.ackSn (status.merge cfg tx) = (tx', events)) :
    tx'.tPollRetransmitStart = 0 := by
  have hmerge : (status.merge cfg tx).Lists tx ∧
      (status.merge cfg tx).tx.tPollRetransmitStart = 0 := by
    refine ⟨processNacks_lists status, ?_⟩
    have hstart : (startMerge cfg status.ackSn tx).tx.tPollRetransmitStart = 0 →
        (status.merge cfg tx).tx.tPollRetransmitStart = 0 := fun h0 =>
      (@processNacks_induct cfg tx status.ackSn _ [] _ (startMerge cfg status.ackSn tx)
        mergeRule_stopped status.blocks none rfl ⟨lists_startMerge, h0⟩).2
    rcases h with h0 | hack | hcov
    · refine hstart ?_
      unfold startMerge
      split
      · rfl
      · exact h0
    · refine hstart ?_
      rw [startMerge, if_pos hack]
    · exact stopped_of_nack status.blocks hord.sorted hord.le_ack (by simp) lists_startMerge hcov
  have hfin := (finishMerge_induct (@finishRule_stopped cfg tx status.ackSn) hmerge).1.2
  rw [finishStatus_eq] at hf
  injection hf with hf _
  rw [← hf]
  exact hfin

/-! ## The lists after a STATUS PDU -/

/-- The lists after the merge: `done` are the segments that it decided, `cw` and `cr` are what
remains of the two lists behind them, `lost` is what the speedup puts aside. -/
structure StatusPdu.Leaves (cfg : AmConfig) (tx : AmTx) (status : StatusPdu) (tx' : AmTx)
    (done : List (Look × Verdict)) (cw cr lost : List Segment) : Prop where
  decided : ∀ p ∈ done, p ∈ (sweepOf cfg tx status.ackSn (status.goodNacks cfg tx)).1
  nacked : ∀ s, status.Nacks cfg tx (.wait, s) → ((.wait, s), .nacked) ∈ done
  all : ¬ status.Speedup cfg tx →
    done = (sweepOf cfg tx status.ackSn (status.goodNacks cfg tx)).1 ∧ lost = []
  waitList : tx'.waitList = stays done ++ cw
  retransmitList : tx'.retransmitList = kept done ++ cr
  wait : ∀ s ∈ tx.waitList,
    (∃ v, ((.wait, s), v) ∈ done) ∨ s ∈ cw ∨ isBelow cfg tx status.ackSn s = true
  retx : ∀ s ∈ tx.retransmitList,
    (∃ v, ((.retx, s), v) ∈ done) ∨ s ∈ cr ++ lost ∨ isBelow cfg tx status.ackSn s = true
  head_wait : HeadUnacked cfg tx status.ackSn cw
  head_retx : HeadUnacked cfg tx status.ackSn cr

theorem mem_ofSrc_map {src : Src} {s : Segment} {done : List (Look × Verdict)} :
    s ∈ ofSrc src (done.map Prod.fst) ↔ ∃ v, ((src, s), v) ∈ done := by
  rw [ofSrc_map]
  simp

theorem leaves_status (hinv : tx.Inv cfg lost) {buffer : List UInt8}
    (hd : decodeStatus cfg buffer = some status)
    (hf : finishStatus cfg status.ackSn (status.merge cfg tx) = (tx', events)) :
    ∃ done cw cr rest, status.Leaves cfg tx tx' done cw cr rest := by
  obtain ⟨pre, now, hsw⟩ := sweptTo_merge cfg tx status
  obtain ⟨more, hD, -, hmore, -⟩ := sweepOf_of_sweptTo hsw
  have hwaits := waits_of_sweptTo hsw
  obtain ⟨hw, hr⟩ := lists_of_sweptTo hsw
  obtain ⟨lw, lr, hfin, hheadw, hheadr⟩ :=
    @finished_finishMerge cfg tx _ hsw.lists.frame status.ackSn
  obtain ⟨hm, -, -⟩ :=
    finishMerge_induct (finishRule_inv hinv) (inv_merge hinv (decodeStatus_ackSn hd))
  obtain ⟨hcw, hcr, -⟩ := commit_spec hm
  have hbelow : ∀ s ∈ lw ++ lr, isBelow cfg tx status.ackSn s = true :=
    fun s hs => decide_eq_true (hfin.acked s hs)
  have hfront : (status.merge cfg tx).waitFront =
      stays ((sweepOf cfg tx status.ackSn pre).1 ++ now) := hsw.swept.waitFront
  have hnew : (status.merge cfg tx).newRetx =
      kept ((sweepOf cfg tx status.ackSn pre).1 ++ now) := hsw.swept.newRetx
  rw [finishStatus_eq] at hf
  injection hf with hf _
  subst hf
  refine ⟨(sweepOf cfg tx status.ackSn pre).1 ++ now, _, _, (status.merge cfg tx).retxRest,
    fun p hp => ?_, fun s hs => ?_, fun hno => ?_, ?_, ?_, fun s hs => ?_, fun s hs => ?_, hheadw,
    hheadr⟩
  · rw [hD]
    exact List.mem_append_left _ hp
  · have hmem : ((.wait, s), .nacked) ∈ (sweepOf cfg tx status.ackSn (status.goodNacks cfg tx)).1.filter
        fun p => p.1.1 == .wait := List.mem_filter.mpr ⟨hs, rfl⟩
    rw [hwaits] at hmem
    exact (List.mem_filter.mp hmem).1
  · have hrest : (status.merge cfg tx).retxRest = [] := retxRest_of_not_speedup hno
    rw [hD, hmore hrest, List.append_nil]
    exact ⟨rfl, hrest⟩
  · rw [hcw, hfin.waitFront, hfront]
  · rw [hcr, hfin.newRetx, hnew]
  · rw [← hw, hfin.wait, List.mem_append, mem_ofSrc_map, List.mem_append] at hs
    rcases hs with hs | hs | hs
    · exact .inl hs
    · exact .inr (.inr (hbelow s (List.mem_append_left _ hs)))
    · exact .inr (.inl hs)
  · rw [← hr, hfin.retx, List.mem_append, mem_ofSrc_map, List.append_assoc, List.mem_append] at hs
    rcases hs with hs | hs | hs
    · exact .inl hs
    · exact .inr (.inr (hbelow s (List.mem_append_right _ hs)))
    · exact .inr (.inl hs)

section Leaves

variable {done : List (Look × Verdict)} {cw cr rest : List Segment}

theorem mem_pick {f : Src → Verdict → Bool} {s : Segment} :
    s ∈ pick f done ↔ ∃ src v, ((src, s), v) ∈ done ∧ f src v = true := by
  unfold pick
  simp only [List.mem_map, List.mem_filter, Prod.exists]
  constructor
  · rintro ⟨src, s', v, ⟨h1, h2⟩, rfl⟩
    exact ⟨src, v, h1, h2⟩
  · rintro ⟨src, v, h1, h2⟩
    exact ⟨src, s, v, ⟨h1, h2⟩, rfl⟩

/-- What a verdict says about a segment. -/
theorem StatusPdu.Leaves.verdict_cases (h : status.Leaves cfg tx tx' done cw cr rest)
    {x : Look} {v : Verdict} (hx : (x, v) ∈ done) :
    (v = .nacked ∧ status.Nacks cfg tx x) ∨
      (v = .acked ∧ isBelow cfg tx status.ackSn x.2 = true) ∨
      (v = .unacked ∧ isBelow cfg tx status.ackSn x.2 = false) := by
  have hmem := h.decided _ hx
  obtain ⟨hne, n, -, hv⟩ := sweepOf_verdict cfg tx status.ackSn _ _ hmem
  dsimp only at hne hv
  cases v with
  | undecided => exact absurd rfl hne
  | nacked => exact .inl ⟨rfl, hmem⟩
  | acked => exact .inr (.inl ⟨rfl, decide_eq_true (verdict_acked hv.symm)⟩)
  | unacked => exact .inr (.inr ⟨rfl, decide_eq_false (verdict_unacked hv.symm).2⟩)

/-- A segment that is neither acked nor NACKed stays in `wait_list`. -/
theorem StatusPdu.Leaves.waitList_ne (h : status.Leaves cfg tx tx' done cw cr rest)
    (hl : status.LeavesWaiting cfg tx) : tx'.waitList ≠ [] := by
  obtain ⟨s, hs, hbelow, hno⟩ := hl
  refine List.ne_nil_of_mem (a := s) ?_
  rw [h.waitList, List.mem_append]
  rcases h.wait s hs with ⟨v, hv⟩ | hs | hs
  · rcases h.verdict_cases hv with ⟨-, hnack⟩ | ⟨-, hb⟩ | ⟨rfl, -⟩
    · exact absurd hnack hno
    · exact absurd hb (by simp [hbelow])
    · exact .inl (mem_pick.mpr ⟨_, _, hv, rfl⟩)
  · exact .inr hs
  · exact absurd hs (by simp [hbelow])

/-- What is to be retransmitted is in `retransmit_list`. -/
theorem StatusPdu.Leaves.retransmitList_ne (h : status.Leaves cfg tx tx' done cw cr rest)
    (hl : (∃ s, status.Nacks cfg tx (.wait, s)) ∨ (¬ status.Speedup cfg tx ∧
      ∃ s ∈ tx.retransmitList, isBelow cfg tx status.ackSn s = false ∨
        status.Nacks cfg tx (.retx, s))) : tx'.retransmitList ≠ [] := by
  rw [h.retransmitList]
  rcases hl with ⟨s, hs⟩ | ⟨hno, s, hs, hl⟩
  · refine List.ne_nil_of_mem (List.mem_append_left _ (mem_pick.mpr ⟨_, _, h.nacked s hs, rfl⟩))
  · obtain ⟨hall, hrest⟩ := h.all hno
    refine List.ne_nil_of_mem (a := s) (List.mem_append.mpr ?_)
    rcases hl with hbelow | hnack
    · rcases h.retx s hs with ⟨v, hv⟩ | hs | hs
      · rcases h.verdict_cases hv with ⟨rfl, -⟩ | ⟨-, hb⟩ | ⟨rfl, -⟩
        · exact .inl (mem_pick.mpr ⟨_, _, hv, rfl⟩)
        · exact absurd hb (by simp [hbelow])
        · exact .inl (mem_pick.mpr ⟨_, _, hv, rfl⟩)
      · rw [hrest, List.append_nil] at hs
        exact .inr hs
      · exact absurd hs (by simp [hbelow])
    · have hmem : ((.retx, s), .nacked) ∈ done := by
        rw [hall]
        exact hnack
      exact .inl (mem_pick.mpr ⟨_, _, hmem, rfl⟩)

/-- Nothing with the SN `tx_next_ack` comes first in the new lists. -/
theorem StatusPdu.Leaves.head_sn (h : status.Leaves cfg tx tx' done cw cr rest)
    (hat : ∀ s, tx.sn s = tx.txNextAck → isBelow cfg tx status.ackSn s = true)
    (hno : ∀ x, status.Nacks cfg tx x → tx.sn x.2 ≠ tx.txNextAck) :
    (∀ s ∈ tx'.waitList.head?, tx.sn s ≠ tx.txNextAck) ∧
      ∀ s ∈ tx'.retransmitList.head?, tx.sn s ≠ tx.txNextAck := by
  have hhead : ∀ {l : List Segment}, HeadUnacked cfg tx status.ackSn l →
      ∀ s ∈ l.head?, tx.sn s ≠ tx.txNextAck := by
    intro l hl s hs heq
    exact hl s hs (of_decide_eq_true (hat s heq))
  have hpick : ∀ {f : Src → Verdict → Bool}, (∀ src, f src .acked = false) →
      ∀ s ∈ pick f done, tx.sn s ≠ tx.txNextAck := by
    intro f hf s hs heq
    obtain ⟨src, v, hv, hfv⟩ := mem_pick.mp hs
    rcases h.verdict_cases hv with ⟨-, hnack⟩ | ⟨rfl, -⟩ | ⟨-, hb⟩
    · exact hno _ hnack heq
    · exact absurd hfv (by simp [hf])
    · exact absurd (hat s heq) (by simp [hb])
  have happ : ∀ {l l' : List Segment}, (∀ s ∈ l, tx.sn s ≠ tx.txNextAck) →
      (∀ s ∈ l'.head?, tx.sn s ≠ tx.txNextAck) → ∀ s ∈ (l ++ l').head?, tx.sn s ≠ tx.txNextAck := by
    intro l l' hl hl' s hs
    cases l with
    | nil => exact hl' s hs
    | cons x l =>
        rw [List.cons_append, List.head?_cons, Option.mem_some_iff] at hs
        exact hs ▸ hl x List.mem_cons_self
  rw [h.waitList, h.retransmitList]
  refine ⟨happ (hpick fun src => ?_) (hhead h.head_wait),
    happ (hpick fun src => ?_) (hhead h.head_retx)⟩
  all_goals cases src <;> rfl

end Leaves

/-! ## The window -/

theorem isWindowStalling_iff (h : tx.SnInv cfg []) : isWindowStalling cfg tx = true ↔
    cfg.windowSize ≤ rel cfg.snModulus tx.txNextAck tx.txNext := by
  have hM := cfg.snModulus_eq
  have hW := cfg.windowSize_pos
  have hend : rel cfg.snModulus tx.txNextAck (tx.txNextAck + cfg.windowSize) = cfg.windowSize := by
    rw [rel_eq_sub (by omega) (by omega)]
    ring
  have hself := @rel_self cfg.snModulus tx.txNextAck
  have hnn := rel_nonneg cfg.snModulus_pos tx.txNextAck tx.txNext
  unfold isWindowStalling
  rw [Bool.not_eq_true', Bool.and_eq_false_iff, decide_eq_false_iff_not, decide_eq_false_iff_not,
    snCompareTx_eq h.txNextAck_range h.txNextAck_range h.txNext_range,
    snCompareTx_eq h.txNextAck_range h.txNext_range
      ⟨Int.emod_nonneg _ (by omega), Int.emod_lt_of_pos _ cfg.snModulus_pos⟩, rel_emod, hend]
  omega

theorem lowerTxNextAck_ne {l : List Segment} {a b : ℤ} (ha : a ≠ b)
    (hl : ∀ s ∈ l.head?, tx.sn s ≠ b) : lowerTxNextAck cfg tx l a ≠ b := by
  unfold lowerTxNextAck
  split
  · exact ha
  · split
    · exact hl _ rfl
    · exact ha

/-- `tx_next_ack` moves if nothing holds it back. -/
theorem updateTxNextAck_ne {b : ℤ} (hack : ackSn ≠ b) (hnext : tx.txNext ≠ b)
    (hw : ∀ s ∈ tx.waitList.head?, tx.sn s ≠ b) (hr : ∀ s ∈ tx.retransmitList.head?, tx.sn s ≠ b) :
    updateTxNextAck cfg ackSn tx ≠ b := by
  have hlow := @lowerTxNextAck_ne cfg tx _ _ _ (@lowerTxNextAck_ne cfg tx _ _ _ hnext hw) hr
  unfold updateTxNextAck
  dsimp only
  split
  · exact hack
  · exact hlow

/-- **The window opens** if it was open or `tx_next_ack` moves. -/
theorem opens_status (hinv : tx.Inv cfg lost) {buffer : List UInt8}
    (hd : decodeStatus cfg buffer = some status) (hopen : status.OpensWindow cfg tx)
    (hf : finishStatus cfg status.ackSn (status.merge cfg tx) = (tx', events)) :
    isWindowStalling cfg tx' = false := by
  have hM := cfg.snModulus_pos
  have hW := cfg.windowSize_pos
  have hack := decodeStatus_ackSn hd
  have hta := hinv.snInv.txNextAck_range
  obtain ⟨done, cw, cr, rest, hleaves⟩ := leaves_status hinv hd hf
  obtain ⟨hm, -, hheadr⟩ := finishMerge_induct (finishRule_inv hinv) (inv_merge hinv hack)
  obtain ⟨-, -, hb, hn, -, -, -, hsn, -⟩ := commit_spec hm
  obtain ⟨hrange, -, hrel⟩ := commit_rebase hinv hack hm hheadr
  have hinv' := (inv_control hinv hd hf).1
  rw [finishStatus_eq] at hf
  injection hf with hf _
  rw [Bool.eq_false_iff, Ne, isWindowStalling_iff hinv'.snInv, not_le]
  subst hf
  show rel cfg.snModulus (updateTxNextAck cfg status.ackSn _) _ < _
  rw [hn, hrel]
  have hnn := rel_nonneg hM tx.txNextAck
    (updateTxNextAck cfg status.ackSn (finishMerge cfg status.ackSn (status.merge cfg tx)).commit)
  by_cases hstall : isWindowStalling cfg tx = true
  · -- the window was full: `tx_next_ack` moves
    have hfull := (isWindowStalling_iff hinv.snInv).mp hstall
    rcases hopen with hopen | ⟨hne, hno⟩
    · exact absurd hstall (by simp [hopen])
    have hle := hinv.snInv.txNext_le
    have hat : ∀ s, tx.sn s = tx.txNextAck → isBelow cfg tx status.ackSn s = true := by
      intro s hs
      refine decide_eq_true ?_
      have hpos : rel cfg.snModulus tx.txNextAck status.ackSn ≠ 0 := fun h0 =>
        hne ((rel_eq_zero hta.1 hta.2 hack.1 hack.2).mp h0)
      have := rel_nonneg hM tx.txNextAck status.ackSn
      rw [hs, snCompareTx_eq hta hta hack, rel_self]
      omega
    obtain ⟨hw, hr⟩ := hleaves.head_sn hat hno
    have hnext : tx.txNext ≠ tx.txNextAck := by
      intro heq
      rw [heq, rel_self] at hfull
      omega
    have hmoved := @updateTxNextAck_ne cfg (finishMerge cfg status.ackSn (status.merge cfg tx)).commit
      status.ackSn tx.txNextAck hne (hn ▸ hnext) (fun s hs => hsn s ▸ hw s hs)
      (fun s hs => hsn s ▸ hr s hs)
    have hpos : rel cfg.snModulus tx.txNextAck (updateTxNextAck cfg status.ackSn
        (finishMerge cfg status.ackSn (status.merge cfg tx)).commit) ≠ 0 := fun h0 =>
      hmoved ((rel_eq_zero hta.1 hta.2 hrange.1 hrange.2).mp h0)
    omega
  · rw [isWindowStalling_iff hinv.snInv] at hstall
    omega

/-- **A STATUS PDU** that meets the condition. -/
theorem pollSafe_status (hinv : tx.Inv cfg lost) {buffer : List UInt8}
    (hd : decodeStatus cfg buffer = some status) (hord : status.Ordered cfg tx)
    (hkept : tx.tPollRetransmitStart = 0 ∨ status.StopsPoll cfg tx ∨
      status.LeavesWaiting cfg tx ∨ (status.LeavesMore cfg tx ∧ status.OpensWindow cfg tx))
    (hf : finishStatus cfg status.ackSn (status.merge cfg tx) = (tx', events)) :
    tx'.PollSafe cfg := by
  intro hstart hcheck
  obtain ⟨done, cw, cr, rest, hleaves⟩ := leaves_status hinv hd hf
  rcases hkept with h0 | hstop | hwait | ⟨hmore, hopen⟩
  · exact absurd (stopped_of_stopsPoll hord (.inl h0) hf) hstart
  · exact absurd (stopped_of_stopsPoll hord (.inr hstop) hf) hstart
  · exact hleaves.waitList_ne hwait
  · have hstall := opens_status hinv hd hopen hf
    rw [checkPollAfterPduAssembly, hstall, Bool.or_false, Bool.and_eq_true, List.isEmpty_iff,
      List.isEmpty_iff] at hcheck
    rcases hmore with hl | hl
    · have htxList : tx'.txList = tx.txList := by
        obtain ⟨hm, -, -⟩ :=
          finishMerge_induct (finishRule_inv hinv) (inv_merge hinv (decodeStatus_ackSn hd))
        rw [finishStatus_eq] at hf
        injection hf with hf _
        rw [← hf]
        exact (commit_spec hm).2.2.2.2.1
      exact absurd (htxList ▸ hcheck.1) hl
    · exact absurd hcheck.2 (hleaves.retransmitList_ne hl)

end Status

/-! ## The other calls -/

section Calls

variable {cfg : AmConfig} {tx tx' : AmTx} {tCurrent : ℕ} {buffer : List UInt8}

/-- What the condition looks at. -/
theorem AmTx.PollSafe.of_eq (h : tx.PollSafe cfg) (hl : tx'.txList = tx.txList)
    (hr : tx'.retransmitList = tx.retransmitList) (hw : tx'.waitList = tx.waitList)
    (ht : tx'.tPollRetransmitStart = tx.tPollRetransmitStart) (hn : tx'.txNext = tx.txNext)
    (ha : tx'.txNextAck = tx.txNextAck) : tx'.PollSafe cfg := by
  unfold AmTx.PollSafe checkPollAfterPduAssembly isWindowStalling snCompareTx modulusTx at *
  rw [hl, hr, hw, ht, hn, ha]
  exact h

theorem pollSafe_recvSdu {sduId : ℤ} (h : tx.PollSafe cfg)
    (hr : recvSdu cfg tCurrent tx buffer sduId = .ok tx') : tx'.PollSafe cfg := by
  have hlog : (logRejected tCurrent tx).PollSafe cfg := by
    unfold logRejected
    split
    · exact h.of_eq rfl rfl rfl rfl rfl rfl
    · exact h
  unfold recvSdu at hr
  split at hr
  · cases hr
  dsimp only at hr
  generalize logRejected tCurrent tx = tx at hlog hr
  split at hr
  · injection hr with hr
    subst hr
    exact hlog.of_eq rfl rfl rfl rfl rfl rfl
  obtain ⟨⟨txList, txEnd⟩, happ, hr⟩ := Machine.bind_ok hr
  obtain ⟨hmem, -⟩ := segmentListAppend_subset happ
  injection hr with hr
  subst hr
  -- there is something to send, so that only the window matters
  intro hstart hcheck
  have hne : txList.isEmpty = false := by
    rw [Bool.eq_false_iff, Ne, List.isEmpty_iff]
    exact List.ne_nil_of_mem hmem
  refine hlog hstart ?_
  have hstall : isWindowStalling cfg tx = true := by
    simpa [checkPollAfterPduAssembly, hne, isWindowStalling, snCompareTx, modulusTx] using hcheck
  rw [checkPollAfterPduAssembly, hstall, Bool.or_true]

/-- The segment that is sent is in `wait_list` afterwards. -/
theorem pollSafe_generateDataPdu {pdu : List UInt8} (h : tx.PollSafe cfg)
    (hg : generateDataPdu cfg tCurrent tx buffer = .ok (tx', pdu)) : tx'.PollSafe cfg := by
  have hout := @generateDataPdu_outcome cfg tx tCurrent buffer
  rw [hg] at hout
  cases hout with
  | refused => exact h
  | @sent tx₁ _ s p _ _ _ hs _ =>
      intro _ _
      have hwait : tx'.waitList = tx₁.waitList := by
        have heq := hs.eq
        unfold serializeSdu at heq
        obtain ⟨header, -, heq⟩ := Machine.bind_ok heq
        cases p with
        | false =>
            obtain ⟨rfl, -⟩ := ok_pair heq
            rfl
        | true =>
            obtain ⟨rfl, -⟩ := ok_pair heq
            rfl
      rw [hwait]
      exact List.ne_nil_of_mem hs.mem

/-- `t_poll_retransmit` is stopped when it expires. -/
theorem pollSafe_checkTPollRetransmit {events : List Event} (h : tx.PollSafe cfg)
    (hc : checkTPollRetransmit cfg tCurrent tx = .ok (tx', events)) : tx'.PollSafe cfg := by
  unfold checkTPollRetransmit at hc
  split at hc
  · dsimp only at hc
    split at hc
    · split at hc
      · cases hc
      · obtain ⟨rfl, -⟩ := ok_pair hc
        exact fun hstart => absurd rfl hstart
    · obtain ⟨rfl, -⟩ := ok_pair hc
      exact fun hstart => absurd rfl hstart
  · obtain ⟨rfl, -⟩ := ok_pair hc
    exact h

/-- The `NULL` pointer is the head of an empty `wait_list`. -/
theorem waitList_nil_of_error {f : Fault} (h : checkTPollRetransmit cfg tCurrent tx = .error f) :
    tx.waitList = [] := by
  unfold checkTPollRetransmit at h
  split at h
  · dsimp only at h
    split at h
    · split at h
      · rename_i hw
        exact hw
      · cases h
    · cases h
  · cases h

theorem pollSafe_discardSdu {sduId : ℤ} (h : tx.PollSafe cfg)
    (hleft : tx.tPollRetransmitStart ≠ 0 → ¬ tx.OnlyLeft sduId) :
    (discardSdu cfg tx sduId).PollSafe cfg := by
  unfold discardSdu
  have hsplit := tx.txList.takeWhile_append_dropWhile
    (p := fun s => decide ((tx.heap s.sdu).upperLayerId ≠ sduId))
  generalize hfront : tx.txList.takeWhile _ = front at hsplit
  generalize hback : tx.txList.dropWhile _ = back at hsplit
  dsimp only
  cases back with
  | nil => exact h
  | cons cur next =>
      dsimp only
      split
      · exact h
      rename_i hwhole
      intro hstart hcheck hwait
      have hcheck : ((front ++ next).isEmpty && tx.retransmitList.isEmpty ||
          isWindowStalling cfg tx) = true := hcheck
      rw [Bool.or_eq_true, Bool.and_eq_true] at hcheck
      rcases hcheck with ⟨hnil, hretx⟩ | hstall
      · rw [List.isEmpty_iff, List.append_eq_nil_iff] at hnil
        rw [hnil.1, hnil.2, List.nil_append] at hsplit
        have hid : (tx.heap cur.sdu).upperLayerId = sduId := by
          have hhead := List.head?_dropWhile_not
            (fun s => decide ((tx.heap s.sdu).upperLayerId ≠ sduId)) tx.txList
          rw [hback] at hhead
          simpa using hhead
        simp only [Bool.or_eq_true, Bool.not_eq_true', not_or, Bool.not_eq_false] at hwhole
        exact hleft hstart ⟨hwait, List.isEmpty_iff.mp hretx, cur, hsplit.symm, hwhole.1, hwhole.2, hid⟩
      · exact h hstart (by rw [checkPollAfterPduAssembly, hstall, Bool.or_true]) hwait

end Calls

/-! ## Whole runs -/

section Runs

variable {e e' : AmEntity} {op : Op} {events : List Event} {lost : List Segment}

theorem pollSafe_recvPdu {buffer : List UInt8} (hinv : e.tx.Inv e.cfg lost)
    (hsafe : e.tx.PollSafe e.cfg) (hc : ConformingStatus e (.recvPdu buffer))
    (hk : PollKept e (.recvPdu buffer)) (hs : amStep e (.recvPdu buffer) = .ok (e', events)) :
    ∃ lost, e'.tx.Inv e.cfg lost ∧ e'.tx.PollSafe e.cfg := by
  rcases recvPdu_tx hs with ⟨hctl, hr⟩ | heq
  · -- a conforming STATUS PDU is processed to the end
    obtain ⟨status, hd, hcomplete, hord⟩ := hc hctl
    have hfree : ErrorFree e.cfg e.tx buffer := by
      rw [errorFree_iff, processControlPdu, hd]
      dsimp only
      rw [hcomplete, Bool.or_true, if_pos rfl]
      rfl
    obtain ⟨status', hd', hf⟩ := processControlPdu_done (recvControlPdu_errorFree hfree hr)
    obtain rfl : status = status' := Option.some.inj (hd.symm.trans hd')
    exact ⟨_, (inv_control hinv hd hf).1, pollSafe_status hinv hd hord (hk hctl status hd) hf⟩
  · rw [heq]
    exact ⟨lost, hinv, hsafe⟩

/-- The transmitter after a call that meets the condition. -/
theorem pollSafe_amStep (h : ∃ lost, e.tx.Inv e.cfg lost ∧ e.tx.PollSafe e.cfg)
    (hc : ConformingStatus e op) (hk : PollKept e op) (hs : amStep e op = .ok (e', events)) :
    ∃ lost, e'.tx.Inv e'.cfg lost ∧ e'.tx.PollSafe e'.cfg := by
  obtain ⟨lost, hinv, hsafe⟩ := h
  obtain ⟨hcfg, hcases⟩ := amStep_tx hinv hs
  rw [hcfg]
  have hinv' : (∀ buffer, op ≠ .recvPdu buffer) → e'.tx.Inv e.cfg lost := fun hne =>
    (hcases.resolve_left fun ⟨buffer, hop, _⟩ => hne buffer hop).inv
  cases op with
  | recvPdu buffer => exact pollSafe_recvPdu hinv hsafe hc hk hs
  | recvSdu buffer sduId =>
      refine ⟨lost, hinv' (by simp), ?_⟩
      obtain ⟨tx, hr, hs⟩ := Machine.bind_ok hs
      obtain ⟨rfl, -⟩ := ok_pair hs
      exact pollSafe_recvSdu hsafe hr
  | generatePdu buffer =>
      refine ⟨lost, hinv' (by simp), ?_⟩
      obtain ⟨⟨e₁, pdu⟩, hg, hs⟩ := Machine.bind_ok hs
      obtain ⟨rfl, -⟩ := ok_pair hs
      unfold amGeneratePdu at hg
      obtain ⟨⟨rx, pdu₁⟩, -, hg⟩ := Machine.bind_ok hg
      dsimp only at hg
      split at hg
      · obtain ⟨⟨tx, pdu₂⟩, hd, hg⟩ := Machine.bind_ok hg
        obtain ⟨rfl, -⟩ := ok_pair hg
        exact pollSafe_generateDataPdu hsafe hd
      · obtain ⟨rfl, -⟩ := ok_pair hg
        exact hsafe
  | setTime now =>
      refine ⟨lost, hinv' (by simp), ?_⟩
      simp only [amStep, amSetTime] at hs
      obtain ⟨⟨tx, ev⟩, hc, hs⟩ := Machine.bind_ok hs
      obtain ⟨rfl, -⟩ := ok_pair hs
      exact pollSafe_checkTPollRetransmit hsafe hc
  | discardSdu sduId =>
      refine ⟨lost, hinv' (by simp), ?_⟩
      obtain ⟨rfl, -⟩ := ok_pair hs
      exact pollSafe_discardSdu hsafe hk
  | reestablishment =>
      refine ⟨lost, hinv' (by simp), ?_⟩
      obtain ⟨rfl, -⟩ := ok_pair hs
      exact fun hstart => absurd rfl hstart

end Runs

/-- **`t_poll_retransmit` finds a segment in `wait_list`** in every state that is reached with
STATUS PDUs of a conforming peer and calls that meet the condition, whenever it expires. -/
theorem poll_retransmit_waiting (cfg : AmConfig) (ops : List Op) (e : AmEntity)
    (events : List Event) (hrun : amRun (newAmEntity cfg) ops = .ok (e, events))
    (hpeer : Machine.Along amStep ConformingStatus (newAmEntity cfg) ops)
    (hkept : Machine.Along amStep PollKept (newAmEntity cfg) ops) (now : ℕ)
    (hexp : timerExpired now e.tx.tPollRetransmitStart e.cfg.tPollRetransmit = true)
    (hcheck : checkPollAfterPduAssembly e.cfg e.tx = true) :
    e.tx.waitList ≠ [] ∧ checkTPollRetransmit e.cfg now e.tx ≠ .error .nullPointer := by
  obtain ⟨lost, -, hsafe⟩ := @Machine.run_invariant _ _ _ _ amStep
    (fun e op => ConformingStatus e op ∧ PollKept e op)
    (fun e => ∃ lost, e.tx.Inv e.cfg lost ∧ e.tx.PollSafe e.cfg)
    (fun _ _ _ _ hI hop hs => pollSafe_amStep hI hop.1 hop.2 hs) (newAmEntity cfg) _ _ _
    ⟨[], inv_newTx cfg, fun hstart => absurd rfl hstart⟩ (Machine.along_and hpeer hkept) hrun
  have hstart : e.tx.tPollRetransmitStart ≠ 0 := by
    intro h0
    simp [timerExpired, h0] at hexp
  have hne := hsafe hstart hcheck
  exact ⟨hne, fun herr => hne (waitList_nil_of_error herr)⟩

/-- The check that a control PDU is one of a conforming peer. -/
def conformingCheck (e : AmEntity) : Op → Bool
  | .recvPdu buffer =>
      match decodeStatus e.cfg buffer with
      | none => false
      | some status => status.complete && decide (status.Ordered e.cfg e.tx)
  | _ => true

theorem conforming_of_check (e : AmEntity) (op : Op) (h : conformingCheck e op = true) :
    ConformingStatus e op := by
  cases op with
  | recvPdu buffer =>
      intro _
      dsimp only [conformingCheck] at h
      cases hd : decodeStatus e.cfg buffer with
      | none =>
          rw [hd] at h
          cases h
      | some status =>
          rw [hd, Bool.and_eq_true, decide_eq_true_eq] at h
          exact ⟨status, rfl, h.1, h.2⟩
  | _ => trivial

/-- A check that a STATUS PDU leaves a segment in `wait_list`. -/
def leavesWaitingCheck (e : AmEntity) : Op → Bool
  | .recvPdu buffer =>
      match decodeStatus e.cfg buffer with
      | none => true
      | some status => decide (status.LeavesWaiting e.cfg e.tx)
  | .discardSdu _ => false
  | _ => true

theorem pollKept_of_check (e : AmEntity) (op : Op) (h : leavesWaitingCheck e op = true) :
    PollKept e op := by
  cases op with
  | recvPdu buffer =>
      intro _ status hd
      dsimp only [leavesWaitingCheck] at h
      rw [hd] at h
      exact .inr (.inr (.inl (of_decide_eq_true h)))
  | discardSdu sduId => cases h
  | _ => trivial

/-- Two SDUs are sent, the first one is acked. -/
theorem poll_retransmit_waiting_acked :
    ∃ e events, amRun (newAmEntity testConfig)
        [.setTime 1, .recvSdu [0xaa] 0, .recvSdu [0xbb] 1, .generatePdu [0, 0, 0],
          .generatePdu [0, 0, 0], .recvPdu [0x00, 0x01, 0x00]] = .ok (e, events) ∧
      e.tx.waitList ≠ [] ∧ checkTPollRetransmit e.cfg 1000 e.tx ≠ .error .nullPointer := by
  exact ⟨_, _, rfl, poll_retransmit_waiting testConfig
    [.setTime 1, .recvSdu [0xaa] 0, .recvSdu [0xbb] 1, .generatePdu [0, 0, 0],
      .generatePdu [0, 0, 0], .recvPdu [0x00, 0x01, 0x00]] _ _ rfl
    (Machine.along_of_check conforming_of_check (by decide +kernel))
    (Machine.along_of_check pollKept_of_check (by decide +kernel)) 1000 (by decide +kernel)
    (by decide +kernel)⟩

/-- An SDU of 20 bytes is sent in three PDUs, with a poll in the second one: `poll_sn` is the SN
before. The peer acks the SDU, which does not stop `t_poll_retransmit`, and the SDU that waits to be
sent is discarded. -/
theorem poll_retransmit_null :
    ¬ ∀ (cfg : AmConfig) (ops : List Op) (e : AmEntity) (events : List Event),
      amRun (newAmEntity cfg) ops = .ok (e, events) →
      Machine.Along amStep ConformingStatus (newAmEntity cfg) ops → ∀ now : ℕ,
      timerExpired now e.tx.tPollRetransmitStart e.cfg.tPollRetransmit = true →
      checkPollAfterPduAssembly e.cfg e.tx = true →
      e.tx.waitList ≠ [] ∧ checkTPollRetransmit e.cfg now e.tx ≠ .error .nullPointer := by
  intro h
  have hc := (h { testConfig with pollPdu := 2 }
    [.setTime 1, .recvSdu (List.replicate 20 0xaa) 1, .recvSdu [7] 2,
      .generatePdu (List.replicate 12 0), .generatePdu (List.replicate 8 0),
      .generatePdu (List.replicate 20 0), .recvPdu [0x00, 0x01, 0x00], .discardSdu 2] _ _ rfl
    (Machine.along_of_check conforming_of_check (by decide +kernel)) 1000 (by decide +kernel)
    (by decide +kernel)).1
  exact hc (by decide +kernel)

end OaiCu.NrRlc
