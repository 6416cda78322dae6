import OaiCu.NrRlc.AmControl

/-!
# RLC AM: the merge of `process_control_pdu`, pass by pass

What one pass of the merge can do is said once, as the relation `Pass`. What every pass
keeps then holds after all NACKs: `processNacks_induct`.
-/

namespace OaiCu.NrRlc

/-! ## NACKs -/

/-- What a NACK and the ACK say about a segment. -/
inductive Verdict where
  | nacked
  /-- The segment comes after the NACK. -/
  | undecided
  | acked
  | unacked
deriving DecidableEq, Repr

/-- The NACK overlaps with the segment. -/
def Nack.Hits (tx : AmTx) (nack : Nack) (s : Segment) : Prop :=
  tx.sn s = nack.sn ∧
    soOverlap nack.soStart nack.soEnd s.so ((s.so : ℤ) + s.size - 1) = true

instance (tx : AmTx) (nack : Nack) (s : Segment) : Decidable (nack.Hits tx s) := by
  unfold Nack.Hits; infer_instance

/-- The tests that both list heads go through. -/
def verdict (cfg : AmConfig) (tx : AmTx) (ackSn : ℤ) (nack : Nack) (s : Segment) : Verdict :=
  if tx.sn s = nack.sn ∧
      soOverlap nack.soStart nack.soEnd s.so ((s.so : ℤ) + s.size - 1) = true then .nacked
  else if snCompareTx cfg tx (tx.sn s) nack.sn > 0 ∨
      (tx.sn s = nack.sn ∧ (s.so : ℤ) > nack.soStart) then .undecided
  else if snCompareTx cfg tx (tx.sn s) ackSn < 0 then .acked
  else .unacked

theorem verdict_eq_nacked {cfg : AmConfig} {tx : AmTx} {ackSn : ℤ} {nack : Nack} {s : Segment} :
    verdict cfg tx ackSn nack s = .nacked ↔ nack.Hits tx s := by
  unfold verdict Nack.Hits
  split_ifs with h1 <;> simp [h1]

/-- The NACKs up to the first that is skipped. -/
def goodNacks (cfg : AmConfig) (tx : AmTx) (ackSn : ℤ) : Option Nack → List Nack → List Nack
  | _, [] => []
  | prev, nack :: nacks =>
      if badNack cfg tx ackSn prev nack then []
      else nack :: goodNacks cfg tx ackSn (some nack) nacks

/-- All NACKs of a STATUS PDU that are processed. -/
def StatusPdu.goodNacks (cfg : AmConfig) (tx : AmTx) (status : StatusPdu) : List Nack :=
  NrRlc.goodNacks cfg tx status.ackSn none (status.blocks.flatMap (NackBlock.nacks cfg))

/-! ## The entity during the merge -/

/-- What the merge leaves alone: of the SDUs only `retx_count` and `free_count` change, of
the entity only two sizes and a timer. -/
structure Merge.Frame (tx : AmTx) (m : Merge) : Prop where
  tx_eq : ∃ timer bst size heap freed, m.tx = { tx with
    tPollRetransmitStart := timer
    bstatusRetxSize := bst
    txSize := size
    heap := heap
    freed := freed }
  heap_eq : ∀ i, (m.tx.heap i).sn = (tx.heap i).sn ∧ (m.tx.heap i).data = (tx.heap i).data ∧
    (m.tx.heap i).refCount = (tx.heap i).refCount

section Frame

variable {cfg : AmConfig} {tx : AmTx} {ackSn : ℤ} {m : Merge}

theorem Merge.Frame.sn (h : m.Frame tx) (s : Segment) : m.tx.sn s = tx.sn s := (h.heap_eq s.sdu).1

theorem Merge.Frame.txNextAck (h : m.Frame tx) : m.tx.txNextAck = tx.txNextAck := by
  obtain ⟨_, _, _, _, _, htx⟩ := h.tx_eq
  rw [htx]

theorem Merge.Frame.waitEnd (h : m.Frame tx) : m.tx.waitEnd = tx.waitEnd := by
  obtain ⟨_, _, _, _, _, htx⟩ := h.tx_eq
  rw [htx]

theorem Merge.Frame.snCompareTx (h : m.Frame tx) (a b : ℤ) :
    snCompareTx cfg m.tx a b = snCompareTx cfg tx a b := by
  simp only [NrRlc.snCompareTx, modulusTx, h.txNextAck]

theorem Merge.Frame.badNack (h : m.Frame tx) (prev : Option Nack) (nack : Nack) :
    badNack cfg m.tx ackSn prev nack = badNack cfg tx ackSn prev nack := by
  simp only [NrRlc.badNack, h.snCompareTx]

theorem Merge.Frame.waitBeforeRetx (h : m.Frame tx) (w r : Segment) :
    waitBeforeRetx m.tx w r ↔ waitBeforeRetx tx w r := by
  simp only [NrRlc.waitBeforeRetx, h.sn]

theorem frame_startMerge : (startMerge cfg ackSn tx).Frame tx := by
  unfold startMerge
  split
  · exact ⟨⟨_, _, _, _, _, rfl⟩, fun _ => ⟨rfl, rfl, rfl⟩⟩
  · exact ⟨⟨_, _, _, _, _, rfl⟩, fun _ => ⟨rfl, rfl, rfl⟩⟩

theorem Merge.Frame.countRetx (h : m.Frame tx) (s : Segment) {m' : Merge}
    (hm : m'.tx = (m.tx.countRetx cfg s).1) : m'.Frame tx := by
  obtain ⟨_, _, _, _, _, htx⟩ := h.tx_eq
  refine ⟨?_, fun i => ?_⟩
  · rw [hm, AmTx.countRetx, htx]
    exact ⟨_, _, _, _, _, rfl⟩
  · rw [hm, AmTx.countRetx]
    by_cases hi : i = s.sdu
    · subst hi
      simpa using h.heap_eq s.sdu
    · simpa [hi] using h.heap_eq i

/-- The entity after a segment is acked. -/
theorem ack_tx (m : Merge) (s : Segment) : (m.ack s).tx =
    { m.tx.freeSduSegment s with
      txSize := m.tx.txSize -
        if (m.tx.heap s.sdu).freeSegment.isFreed then ((m.tx.heap s.sdu).size : ℤ) else 0 } := by
  unfold Merge.ack
  simp only
  split
  · rfl
  · rw [sub_zero]
    rfl

theorem Merge.Frame.ack (h : m.Frame tx) (s : Segment) : (m.ack s).Frame tx := by
  obtain ⟨_, _, _, _, _, htx⟩ := h.tx_eq
  refine ⟨?_, fun i => ?_⟩
  · rw [ack_tx, AmTx.freeSduSegment, htx]
    exact ⟨_, _, _, _, _, rfl⟩
  · rw [ack_tx, AmTx.freeSduSegment]
    by_cases hi : i = s.sdu
    · subst hi
      simpa [Sdu.freeSegment] using h.heap_eq s.sdu
    · simpa [hi] using h.heap_eq i

end Frame

/-! ## Passes -/

/-- The head of `wait_list` is the next segment to look at. -/
def Merge.PicksWait (tx : AmTx) (m : Merge) (w : Segment) : Prop :=
  ∀ r ∈ m.curRetx.head?, waitBeforeRetx tx w r

/-- The head of `retransmit_list` is the next segment to look at. -/
def Merge.PicksRetx (tx : AmTx) (m : Merge) (r : Segment) : Prop :=
  ∀ w ∈ m.curWait.head?, ¬ waitBeforeRetx tx w r

/-- What one pass of the merge can do. `cur_wait_list` is never reset for a NACK that is not
above the ACK. -/
inductive Pass (cfg : AmConfig) (tx : AmTx) (ackSn : ℤ) (nack : Nack) (m : Merge) : Goto → Prop
  | ended (hw : m.curWait = []) (hr : m.curRetx = []) : Pass cfg tx ackSn nack m (.listsOver m)
  | nackWait {w : Segment} {ws : List Segment} (hw : m.curWait = w :: ws)
      (hp : m.PicksWait tx w) (hv : verdict cfg tx ackSn nack w = .nacked) :
      Pass cfg tx ackSn nack m (.processNextPdu (m.nackWait cfg w ws))
  | doneWait {w : Segment} {ws : List Segment} (hw : m.curWait = w :: ws)
      (hp : m.PicksWait tx w) (hv : verdict cfg tx ackSn nack w = .undecided) :
      Pass cfg tx ackSn nack m .doneNack
  | ackWait {w : Segment} {ws : List Segment} (hw : m.curWait = w :: ws)
      (hp : m.PicksWait tx w) (hv : verdict cfg tx ackSn nack w = .acked) :
      Pass cfg tx ackSn nack m (.processNextPdu (m.ackWait w ws))
  | skipWait {w : Segment} {ws : List Segment} (hw : m.curWait = w :: ws)
      (hp : m.PicksWait tx w) (hv : verdict cfg tx ackSn nack w = .unacked) :
      Pass cfg tx ackSn nack m (.processNextPdu (m.skipWait w ws))
  | keepRetx {r : Segment} {rs : List Segment} (hr : m.curRetx = r :: rs)
      (hp : m.PicksRetx tx r) (hv : verdict cfg tx ackSn nack r = .nacked ∨
        verdict cfg tx ackSn nack r = .unacked ∧ m.curWait ≠ []) :
      Pass cfg tx ackSn nack m (.processNextPdu (m.keepRetx r rs))
  | doneRetx {r : Segment} {rs : List Segment} (hr : m.curRetx = r :: rs)
      (hp : m.PicksRetx tx r) (hv : verdict cfg tx ackSn nack r = .undecided) :
      Pass cfg tx ackSn nack m .doneNack
  | ackRetx {r : Segment} {rs : List Segment} (hr : m.curRetx = r :: rs)
      (hp : m.PicksRetx tx r) (hv : verdict cfg tx ackSn nack r = .acked) :
      Pass cfg tx ackSn nack m (.processNextPdu (m.ackRetx cfg r rs))
  | keepAllRetx {r : Segment} {rs : List Segment} (hr : m.curRetx = r :: rs)
      (hw : m.curWait = []) (hv : verdict cfg tx ackSn nack r = .unacked) :
      Pass cfg tx ackSn nack m (.listsOver m.keepAllRetx)

section Pass

variable {cfg : AmConfig} {tx : AmTx} {ackSn : ℤ} {nack : Nack} {m : Merge}

theorem pass_wait (h : m.Frame tx) (hgood : snCompareTx cfg tx nack.sn ackSn ≤ 0) {w : Segment}
    {ws : List Segment} (hw : m.curWait = w :: ws) (hp : m.PicksWait tx w) :
    Pass cfg tx ackSn nack m (processWaitListHead cfg ackSn nack m w ws) := by
  simp only [processWaitListHead, h.sn, h.snCompareTx]
  split
  · rename_i h1
    exact .nackWait hw hp (by rw [verdict, if_pos h1])
  · rename_i h1
    split
    · rename_i h2
      exact .doneWait hw hp (by rw [verdict, if_neg h1, if_pos h2])
    · rename_i h2
      split
      · rename_i h3
        exact .ackWait hw hp (by rw [verdict, if_neg h1, if_neg h2, if_pos h3])
      · rename_i h3
        split
        · -- the segment would be above the ACK and not after the NACK
          rename_i h4
          simp only [snCompareTx] at *
          omega
        · exact .skipWait hw hp (by rw [verdict, if_neg h1, if_neg h2, if_neg h3])

theorem pass_retx (h : m.Frame tx) {r : Segment} {rs : List Segment} (hr : m.curRetx = r :: rs)
    (hp : m.PicksRetx tx r) :
    Pass cfg tx ackSn nack m (processRetransmitListHead cfg ackSn nack m r rs) := by
  simp only [processRetransmitListHead, h.sn, h.snCompareTx]
  split
  · rename_i h1
    exact .keepRetx hr hp (.inl (by rw [verdict, if_pos h1]))
  · rename_i h1
    split
    · rename_i h2
      exact .doneRetx hr hp (by rw [verdict, if_neg h1, if_pos h2])
    · rename_i h2
      split
      · rename_i h3
        exact .ackRetx hr hp (by rw [verdict, if_neg h1, if_neg h2, if_pos h3])
      · rename_i h3
        have hv : verdict cfg tx ackSn nack r = .unacked := by
          rw [verdict, if_neg h1, if_neg h2, if_neg h3]
        split
        · rename_i hw
          exact .keepAllRetx hr (List.isEmpty_iff.mp hw) hv
        · rename_i hw
          exact .keepRetx hr hp (.inr ⟨hv, fun h => hw (by simp [h])⟩)

theorem pass_processNextPdu (h : m.Frame tx) (hgood : snCompareTx cfg tx nack.sn ackSn ≤ 0) :
    Pass cfg tx ackSn nack m (processNextPdu cfg ackSn nack m) := by
  unfold processNextPdu
  split
  · rename_i hw hr
    exact .ended hw hr
  · rename_i r rs hw hr
    exact pass_retx h hr (by simp [Merge.PicksRetx, hw])
  · rename_i w ws hw hr
    exact pass_wait h hgood hw (by simp [Merge.PicksWait, hr])
  · rename_i w ws r rs hw hr
    simp only [h.waitBeforeRetx]
    split
    · rename_i hb
      exact pass_wait h hgood hw (by simpa [Merge.PicksWait, hr] using hb)
    · rename_i hb
      exact pass_retx h hr (by simpa [Merge.PicksRetx, hw] using hb)

@[simp] theorem ack_lists (m : Merge) (s : Segment) :
    (m.ack s).waitFront = m.waitFront ∧ (m.ack s).curWait = m.curWait ∧
      (m.ack s).waitRest = m.waitRest ∧ (m.ack s).newRetx = m.newRetx ∧
      (m.ack s).curRetx = m.curRetx ∧ (m.ack s).retxRest = m.retxRest ∧
      (m.ack s).endWait = m.endWait := by
  unfold Merge.ack
  simp only
  split <;> exact ⟨rfl, rfl, rfl, rfl, rfl, rfl, rfl⟩

@[simp] theorem ackWait_lists (m : Merge) (w : Segment) (ws : List Segment) :
    (m.ackWait w ws).waitFront = m.waitFront ∧ (m.ackWait w ws).curWait = ws ∧
      (m.ackWait w ws).waitRest = m.waitRest ∧ (m.ackWait w ws).newRetx = m.newRetx ∧
      (m.ackWait w ws).curRetx = m.curRetx ∧ (m.ackWait w ws).retxRest = m.retxRest ∧
      (m.ackWait w ws).endWait =
        if ws.head?.map Segment.addr = m.tx.waitEnd then some m.prevWait else m.endWait :=
  ack_lists _ w

@[simp] theorem ackRetx_lists (m : Merge) (r : Segment) (rs : List Segment) :
    (m.ackRetx cfg r rs).waitFront = m.waitFront ∧ (m.ackRetx cfg r rs).curWait = m.curWait ∧
      (m.ackRetx cfg r rs).waitRest = m.waitRest ∧ (m.ackRetx cfg r rs).newRetx = m.newRetx ∧
      (m.ackRetx cfg r rs).curRetx = rs ∧ (m.ackRetx cfg r rs).retxRest = m.retxRest ∧
      (m.ackRetx cfg r rs).endWait = m.endWait :=
  ack_lists _ r

theorem Merge.Frame.ackRetx (h : m.Frame tx) (r : Segment) (rs : List Segment) :
    (m.ackRetx cfg r rs).Frame tx := by
  unfold Merge.ackRetx
  apply Merge.Frame.ack
  obtain ⟨_, _, _, _, _, htx⟩ := h.tx_eq
  refine ⟨?_, h.heap_eq⟩
  simp only [htx]
  exact ⟨_, _, _, _, _, rfl⟩

/-- A pass that is not the last one takes a segment off. -/
theorem Pass.fuel_lt {m' : Merge} (h : Pass cfg tx ackSn nack m (.processNextPdu m')) :
    m'.fuel < m.fuel := by
  cases h with
  | nackWait hw => simp [Merge.fuel, Merge.nackWait, hw]
  | ackWait hw => simp [Merge.fuel, hw]
  | skipWait hw => simp [Merge.fuel, Merge.skipWait, hw]
  | keepRetx hr => simp [Merge.fuel, Merge.keepRetx, hr]
  | ackRetx hr => simp [Merge.fuel, hr]

theorem Pass.lists_over {m' : Merge} (h : Pass cfg tx ackSn nack m (.listsOver m')) :
    m'.curWait = [] ∧ m'.curRetx = [] := by
  cases h with
  | ended hw hr => exact ⟨hw, hr⟩
  | keepAllRetx hr hw => exact ⟨hw, rfl⟩

end Pass

/-! ## All passes -/

/-- The merge with `t_poll_retransmit` stopped. -/
def Merge.stopPoll (m : Merge) : Merge := { m with tx := { m.tx with tPollRetransmitStart := 0 } }

/-- `J` is kept by the merge: `J pre m` is to hold when the passes for the NACKs `pre` are
over. -/
structure MergeRule (cfg : AmConfig) (tx : AmTx) (ackSn : ℤ) (gs : List Nack)
    (J : List Nack → Merge → Prop) : Prop where
  frame : ∀ {pre m}, J pre m → m.Frame tx
  poll : ∀ {pre m}, J pre m → J pre m.stopPoll
  next : ∀ {pre n post m m'}, gs = pre ++ n :: post → J pre m →
    Pass cfg tx ackSn n m (.processNextPdu m') → J pre m'
  done : ∀ {pre n post m}, gs = pre ++ n :: post → J pre m →
    Pass cfg tx ackSn n m .doneNack → J (pre ++ [n]) m
  ended : ∀ {pre n post m m'}, gs = pre ++ n :: post → J pre m →
    Pass cfg tx ackSn n m (.listsOver m') → J gs m'

section Rule

variable {cfg : AmConfig} {tx : AmTx} {ackSn : ℤ} {gs pre : List Nack}
  {J : List Nack → Merge → Prop} {m : Merge}

theorem processNack_induct (hJ : MergeRule cfg tx ackSn gs J) {n : Nack} {post : List Nack}
    (hgood : snCompareTx cfg tx n.sn ackSn ≤ 0) (hgs : gs = pre ++ n :: post) (fuel : ℕ)
    (hfuel : m.fuel ≤ fuel) (hm : J pre m) {m' : Merge} {isOver : Bool}
    (h : processNack cfg ackSn n fuel m = (m', isOver)) :
    if isOver then J gs m' ∧ m'.curWait = [] ∧ m'.curRetx = [] else J (pre ++ [n]) m' := by
  induction fuel generalizing m with
  | zero =>
      injection h with h1 h2
      subst h1 h2
      have hw : m.curWait = [] := List.eq_nil_of_length_eq_zero (by unfold Merge.fuel at hfuel; omega)
      have hr : m.curRetx = [] := List.eq_nil_of_length_eq_zero (by unfold Merge.fuel at hfuel; omega)
      exact ⟨hJ.ended hgs hm (.ended hw hr), hw, hr⟩
  | succ fuel ih =>
      have hpass := @pass_processNextPdu cfg tx ackSn n m (hJ.frame hm) hgood
      rw [processNack] at h
      split at h
      · rename_i m₁ hg
        rw [hg] at hpass
        exact ih (by have := hpass.fuel_lt; omega) (hJ.next hgs hm hpass) h
      · rename_i hg
        rw [hg] at hpass
        injection h with h1 h2
        subst h1 h2
        exact hJ.done hgs hm hpass
      · rename_i m₁ hg
        rw [hg] at hpass
        injection h with h1 h2
        subst h1 h2
        exact ⟨hJ.ended hgs hm hpass, hpass.lists_over⟩

/-- Once the lists are over, NACKs are only checked. -/
theorem processRange_over (hw : m.curWait = []) (hr : m.curRetx = []) (nacks : List Nack)
    (prev : Option Nack) : (processRange cfg ackSn nacks prev m).1 = m := by
  cases nacks with
  | nil => rfl
  | cons nack nacks =>
      rw [processRange]
      split
      · rfl
      · have : processNack cfg ackSn nack m.fuel m = (m, true) := by
          simp [Merge.fuel, hw, hr, processNack]
        rw [this]

theorem stopPollOnNack_cases (b : NackBlock) :
    stopPollOnNack cfg b m = m ∨ stopPollOnNack cfg b m = m.stopPoll := by
  unfold stopPollOnNack
  split
  · exact .inr rfl
  · exact .inl rfl

theorem MergeRule.stopPollOnNack (hJ : MergeRule cfg tx ackSn gs J) (hm : J pre m)
    (b : NackBlock) : J pre (stopPollOnNack cfg b m) := by
  rcases @stopPollOnNack_cases cfg m b with h | h
  · rw [h]
    exact hm
  · rw [h]
    exact hJ.poll hm

theorem stopPollOnNack_lists (b : NackBlock) :
    (stopPollOnNack cfg b m).curWait = m.curWait ∧ (stopPollOnNack cfg b m).curRetx = m.curRetx := by
  rcases @stopPollOnNack_cases cfg m b with h | h <;> rw [h] <;> exact ⟨rfl, rfl⟩

theorem processNacks_over (hJ : MergeRule cfg tx ackSn gs J) (hm : J gs m)
    (hw : m.curWait = []) (hr : m.curRetx = []) (blocks : List NackBlock) (prev : Option Nack) :
    J gs (processNacks cfg ackSn blocks prev m).1 := by
  induction blocks generalizing m prev with
  | nil => exact hm
  | cons b blocks ih =>
      have heq := @processRange_over cfg ackSn m hw hr (b.nacks cfg) prev
      have hl := @stopPollOnNack_lists cfg m b
      rw [processNacks]
      split <;> rename_i hres <;> rw [hres] at heq <;> subst heq
      · exact hm
      · exact ih (hJ.stopPollOnNack hm b) (hl.1.trans hw) (hl.2.trans hr) _
      · exact ih (hJ.stopPollOnNack hm b) (hl.1.trans hw) (hl.2.trans hr) _

theorem goodNacks_cons {prev : Option Nack} {n : Nack} {nacks : List Nack}
    (h : badNack cfg tx ackSn prev n = false) :
    goodNacks cfg tx ackSn prev (n :: nacks) = n :: goodNacks cfg tx ackSn (some n) nacks := by
  rw [goodNacks, h]
  rfl

theorem snCompareTx_of_good {prev : Option Nack} {n : Nack}
    (h : badNack cfg tx ackSn prev n = false) : snCompareTx cfg tx n.sn ackSn ≤ 0 := by
  unfold badNack at h
  have := (Bool.or_eq_false_iff.mp h).2
  simpa using this

theorem processRange_induct (hJ : MergeRule cfg tx ackSn gs J) (nacks rest : List Nack)
    {prev : Option Nack} (hgs : gs = pre ++ goodNacks cfg tx ackSn prev (nacks ++ rest))
    (hm : J pre m) :
    match processRange cfg ackSn nacks prev m with
    | (m', .rangeDone prev') => ∃ pre', J pre' m' ∧ gs = pre' ++ goodNacks cfg tx ackSn prev' rest
    | (m', .listsOver _) => J gs m' ∧ m'.curWait = [] ∧ m'.curRetx = []
    | (m', .nacksDone) => J gs m' := by
  induction nacks generalizing pre m prev with
  | nil => exact ⟨pre, hm, hgs⟩
  | cons n nacks ih =>
      rw [processRange, (hJ.frame hm).badNack]
      cases hb : badNack cfg tx ackSn prev n with
      | true =>
          rw [List.cons_append, goodNacks, if_pos hb, List.append_nil] at hgs
          exact hgs ▸ hm
      | false =>
          rw [List.cons_append, goodNacks_cons hb] at hgs
          obtain ⟨⟨m', isOver⟩, hp⟩ : ∃ res, processNack cfg ackSn n m.fuel m = res := ⟨_, rfl⟩
          have := processNack_induct hJ (snCompareTx_of_good hb) hgs m.fuel le_rfl hm hp
          rw [hp]
          cases isOver with
          | true => exact this
          | false => exact ih (by rw [hgs, List.append_assoc]; rfl) this

/-- **What every pass keeps holds after all NACKs.** -/
theorem processNacks_induct (hJ : MergeRule cfg tx ackSn gs J) (blocks : List NackBlock)
    {prev : Option Nack}
    (hgs : gs = pre ++ goodNacks cfg tx ackSn prev (blocks.flatMap (NackBlock.nacks cfg)))
    (hm : J pre m) : J gs (processNacks cfg ackSn blocks prev m).1 := by
  induction blocks generalizing pre m prev with
  | nil =>
      rw [List.flatMap_nil, goodNacks, List.append_nil] at hgs
      exact hgs ▸ hm
  | cons b blocks ih =>
      rw [List.flatMap_cons] at hgs
      have hrange := processRange_induct hJ (b.nacks cfg) _ hgs hm
      rw [processNacks]
      split
      · rename_i m' hres
        rw [hres] at hrange
        exact hrange
      · rename_i m' prev' hres
        rw [hres] at hrange
        obtain ⟨hm', hw, hr⟩ := hrange
        have hl := @stopPollOnNack_lists cfg m' b
        exact processNacks_over hJ (hJ.stopPollOnNack hm' b) (hl.1.trans hw) (hl.2.trans hr) _ _
      · rename_i m' prev' hres
        rw [hres] at hrange
        obtain ⟨pre', hm', hgs'⟩ := hrange
        exact ih hgs' (hJ.stopPollOnNack hm' b)

end Rule

/-! ## After the NACKs -/

section Finish

variable {cfg : AmConfig} {tx : AmTx} {ackSn : ℤ} {J : Merge → Prop} {m : Merge}

@[simp] theorem ackLate_lists (m : Merge) (w : Segment) (ws : List Segment) :
    (m.ackLate w ws).waitFront = m.waitFront ∧ (m.ackLate w ws).curWait = ws ∧
      (m.ackLate w ws).waitRest = m.waitRest ∧ (m.ackLate w ws).newRetx = m.newRetx ∧
      (m.ackLate w ws).curRetx = m.curRetx ∧ (m.ackLate w ws).retxRest = m.retxRest ∧
      (m.ackLate w ws).endWait =
        if m.tx.waitEnd = some w.addr then some m.prevWait else m.endWait :=
  ack_lists _ w

theorem Merge.Frame.ackLate (h : m.Frame tx) (w : Segment) (ws : List Segment) :
    (m.ackLate w ws).Frame tx := by
  unfold Merge.ackLate
  apply Merge.Frame.ack
  exact ⟨h.tx_eq, h.heap_eq⟩

/-- The two lists once what remains of them is acked. -/
def finishMerge (cfg : AmConfig) (ackSn : ℤ) (m : Merge) : Merge :=
  let m := ackWaitList cfg ackSn m.curWait m
  ackRetransmitList cfg ackSn m.curRetx m

theorem finishStatus_eq (m : Merge) : finishStatus cfg ackSn m =
    ({ (finishMerge cfg ackSn m).commit with
        txNextAck := updateTxNextAck cfg ackSn (finishMerge cfg ackSn m).commit },
      (finishMerge cfg ackSn m).events) := rfl

/-- `J` is kept when a segment is acked after the NACKs. -/
structure FinishRule (cfg : AmConfig) (tx : AmTx) (ackSn : ℤ) (J : Merge → Prop) : Prop where
  frame : ∀ {m}, J m → m.Frame tx
  wait : ∀ {m s next}, J m → m.curWait = s :: next → snCompareTx cfg tx (tx.sn s) ackSn < 0 →
    J (m.ackLate s next)
  retx : ∀ {m s next}, J m → m.curRetx = s :: next → snCompareTx cfg tx (tx.sn s) ackSn < 0 →
    J (m.ackRetx cfg s next)

/-- The first segment of a list that remains is not acked. -/
def HeadUnacked (cfg : AmConfig) (tx : AmTx) (ackSn : ℤ) (l : List Segment) : Prop :=
  ∀ s ∈ l.head?, ¬ snCompareTx cfg tx (tx.sn s) ackSn < 0

theorem ackWaitList_induct (hJ : FinishRule cfg tx ackSn J) (l : List Segment)
    (hl : m.curWait = l) (hm : J m) :
    J (ackWaitList cfg ackSn l m) ∧
      HeadUnacked cfg tx ackSn (ackWaitList cfg ackSn l m).curWait := by
  induction l generalizing m with
  | nil =>
      have heq : ackWaitList cfg ackSn [] m = m := by
        rw [ackWaitList, ← hl]
      rw [heq]
      exact ⟨hm, by simp [HeadUnacked, hl]⟩
  | cons s next ih =>
      rw [ackWaitList, (hJ.frame hm).snCompareTx, (hJ.frame hm).sn]
      split
      · rename_i hlt
        exact ih (ackLate_lists m s next).2.1 (hJ.wait hm hl hlt)
      · rename_i hlt
        have heq : { m with curWait := s :: next } = m := by rw [← hl]
        rw [heq]
        exact ⟨hm, by simpa [HeadUnacked, hl] using hlt⟩

theorem ackRetransmitList_induct (hJ : FinishRule cfg tx ackSn J) (l : List Segment)
    (hl : m.curRetx = l) (hm : J m) :
    J (ackRetransmitList cfg ackSn l m) ∧
      (ackRetransmitList cfg ackSn l m).curWait = m.curWait ∧
      HeadUnacked cfg tx ackSn (ackRetransmitList cfg ackSn l m).curRetx := by
  induction l generalizing m with
  | nil =>
      have heq : ackRetransmitList cfg ackSn [] m = m := by
        rw [ackRetransmitList, ← hl]
      rw [heq]
      exact ⟨hm, rfl, by simp [HeadUnacked, hl]⟩
  | cons s next ih =>
      rw [ackRetransmitList, (hJ.frame hm).snCompareTx, (hJ.frame hm).sn]
      split
      · rename_i hlt
        have hlists := @ackRetx_lists cfg m s next
        obtain ⟨h1, h2, h3⟩ := ih hlists.2.2.2.2.1 (hJ.retx hm hl hlt)
        exact ⟨h1, h2.trans hlists.2.1, h3⟩
      · rename_i hlt
        have heq : { m with curRetx := s :: next } = m := by rw [← hl]
        rw [heq]
        exact ⟨hm, rfl, by simpa [HeadUnacked, hl] using hlt⟩

/-- **What acking a segment keeps holds at the end of the merge.** -/
theorem finishMerge_induct (hJ : FinishRule cfg tx ackSn J) (hm : J m) :
    J (finishMerge cfg ackSn m) ∧
      HeadUnacked cfg tx ackSn (finishMerge cfg ackSn m).curWait ∧
      HeadUnacked cfg tx ackSn (finishMerge cfg ackSn m).curRetx := by
  obtain ⟨h1, h2⟩ := ackWaitList_induct hJ m.curWait rfl hm
  obtain ⟨h3, h4, h5⟩ := ackRetransmitList_induct hJ _ rfl h1
  exact ⟨h3, by rw [finishMerge]; simp only [h4]; exact h2, h5⟩

end Finish

end OaiCu.NrRlc
