import Mathlib.Algebra.Order.BigOperators.Group.List
import OaiCu.NrRlc.AmTxInv
import OaiCu.NrRlc.UmEntity

/-!
# RLC UM: what the counters count

`rx_size`, `tx_size` and the buffer status are sums over the lists. Three calls can take an
element from a list and leave its size in a counter: the expiry of `t_reassembly`, a discarded
SDU, and a grant into which no segment fits.
-/

namespace OaiCu.NrRlc.Um

open Machine

/-- The sizes of the PDUs. -/
def sizeSum (l : List Pdu) : ℤ := (l.map fun p => (p.size : ℤ)).sum

/-- The sizes of the segments. -/
def segSum (l : List Segment) : ℤ := (l.map fun s => (s.size : ℤ)).sum

/-- The sizes of the PDUs that carry the segments. -/
def pduSum (cfg : UmConfig) (l : List Segment) : ℤ := (l.map fun s => (pduSize cfg s : ℤ)).sum

@[simp] theorem sizeSum_append (a b : List Pdu) : sizeSum (a ++ b) = sizeSum a + sizeSum b := by
  simp [sizeSum]

theorem sizeSum_nonneg (l : List Pdu) : 0 ≤ sizeSum l := by
  refine List.sum_nonneg fun x hx => ?_
  obtain ⟨p, -, rfl⟩ := List.mem_map.1 hx
  exact Int.natCast_nonneg _

theorem sizeSum_eq_zero {l : List Pdu} : sizeSum l = 0 ↔ ∀ p ∈ l, p.size = 0 := by
  induction l with
  | nil => simp [sizeSum]
  | cons p l ih =>
      have hcons : sizeSum (p :: l) = p.size + sizeSum l := by simp [sizeSum]
      have := sizeSum_nonneg l
      rw [List.forall_mem_cons, ← ih, hcons]
      omega

@[simp] theorem segSum_cons (s : Segment) (l : List Segment) :
    segSum (s :: l) = s.size + segSum l := by
  simp [segSum]

@[simp] theorem segSum_append (a b : List Segment) : segSum (a ++ b) = segSum a + segSum b := by
  simp [segSum]

@[simp] theorem pduSum_cons (cfg : UmConfig) (s : Segment) (l : List Segment) :
    pduSum cfg (s :: l) = pduSize cfg s + pduSum cfg l := by
  simp [pduSum]

@[simp] theorem pduSum_append (cfg : UmConfig) (a b : List Segment) :
    pduSum cfg (a ++ b) = pduSum cfg a + pduSum cfg b := by
  simp [pduSum]

/-- The counters are the sums over the lists; so a counter is zero when its list is empty. -/
structure Accounted (e : UmEntity) : Prop where
  rx : e.rx.rxSize = sizeSum e.rx.rxList
  tx : e.tx.txSize = segSum e.tx.txList
  bstatus : e.tx.bstatusTxSize = pduSum e.cfg e.tx.txList
  rxEmpty : e.rx.rxList = [] → e.rx.rxSize = 0
  txEmpty : e.tx.txList = [] → e.tx.txSize = 0

/-- The counters are right after the call. -/
def CountersKept (e : UmEntity) (op : Op) : Prop :=
  ∀ e' out, step e op = .ok (e', out) → Accounted e'

/-- The PDUs that the expiry of `t_reassembly` takes from `rx_list`: those at its front that
are before the first SN from `rx_timer_trigger` on that is not delivered. -/
def expired (cfg : UmConfig) (rx : UmRx) : List Pdu :=
  rx.rxList.takeWhile fun p => decide (snCompareRx cfg rx p.sn
    (skipDelivered cfg.snModulus rx.rxList rx.rxList.length rx.rxTimerTrigger) < 0)

/-- The head of `tx_list` is a whole SDU that needs an SN of twelve bits in a grant of two
bytes. -/
def NoRoomForSn (cfg : UmConfig) (tx : UmTx) (buffer : List UInt8) : Prop :=
  cfg.snFieldLength = 12 ∧ buffer.length = 2 ∧
    ∃ s, tx.txList.head? = some s ∧ s.isFirst = true ∧ s.isLast = true ∧ 2 ≤ s.size

/-- The calls that account for what they take: on expiry only delivered PDUs go, there is no
whole SDU to discard, and a grant of two bytes does not meet a whole SDU that would have to be
segmented under an SN of twelve bits. -/
def Accounts (e : UmEntity) : Op → Prop
  | .setTime now =>
      timerExpired now.toNat e.rx.tReassemblyStart e.cfg.tReassembly = true →
        ∀ p ∈ expired e.cfg e.rx, p.size = 0
  | .discardSdu sduId =>
      ∀ s, e.tx.txList.find? (fun s => (e.tx.heap s.sdu).upperLayerId = sduId) = some s →
        s.isFirst = true → s.isLast = true → s.size = 0
  | .generatePdu buffer => ¬ NoRoomForSn e.cfg e.tx buffer
  | .recvPdu _ => True
  | .recvSdu _ _ => True
  | .reestablishment => True

theorem accounted_iff {e : UmEntity} :
    Accounted e ↔ e.rx.rxSize = sizeSum e.rx.rxList ∧ e.tx.txSize = segSum e.tx.txList ∧
      e.tx.bstatusTxSize = pduSum e.cfg e.tx.txList := by
  constructor
  · exact fun h => ⟨h.rx, h.tx, h.bstatus⟩
  · rintro ⟨h1, h2, h3⟩
    refine ⟨h1, h2, h3, fun hl => ?_, fun hl => ?_⟩
    · rw [h1, hl]
      rfl
    · rw [h2, hl]
      rfl

/-! ## Receiving -/

/-- `rx_size` is the sum over `rx_list`. -/
def RxCounted (rx : UmRx) : Prop := rx.rxSize = sizeSum rx.rxList

theorem rxCounted_storePdu {cfg : UmConfig} {rx : UmRx} (h : RxCounted rx) (sn : ℤ) (so : ℕ)
    (isFirst isLast : Bool) (data : List UInt8) :
    RxCounted (storePdu cfg rx sn so isFirst isLast data) := by
  have hperm := List.perm_orderedInsert (fun pdu cur : Pdu => snCompareRx cfg rx cur.sn pdu.sn > 0 ∨
    (cur.sn = pdu.sn ∧ cur.so > pdu.so)) (newPdu sn so isFirst isLast data) rx.rxList
  have hsum := (hperm.map fun p => (p.size : ℤ)).sum_eq
  rw [RxCounted] at h ⊢
  simp only [storePdu, sizeSum, pduListAdd] at h ⊢
  rw [hsum, List.map_cons, List.sum_cons, h]
  exact add_comm _ _

theorem rxCounted_reassembleAndDeliver {rx : UmRx} (h : RxCounted rx) (sn : ℤ) :
    RxCounted (reassembleAndDeliver rx sn).1 := by
  have hl := congrArg sizeSum (split_run sn rx.rxList)
  have hempty : sizeSum ((runSn sn rx.rxList).map emptyPdu) = 0 := by
    refine List.sum_eq_zero fun x hx => ?_
    simp only [List.map_map, List.mem_map] at hx
    obtain ⟨p, -, rfl⟩ := hx
    rfl
  rw [sizeSum_append, sizeSum_append] at hl
  rw [RxCounted] at h ⊢
  simp only [reassembleAndDeliver, mapRun, sizeSum_append, hempty, h]
  rw [runSize, ← sizeSum]
  omega

theorem rxCounted_moveWindow {cfg : UmConfig} {rx : UmRx} (h : RxCounted rx) (x : ℤ) :
    RxCounted (moveWindow cfg rx x) := by
  have hdiscard : ∀ {rx : UmRx}, RxCounted rx → RxCounted (discardOutOfWindow cfg rx) := by
    intro rx h
    have hl := congrArg sizeSum (List.takeWhile_append_dropWhile (l := rx.rxList)
      (p := fun p => decide (snCompareRx cfg rx p.sn rx.rxNextHighest ≥ 0)))
    rw [sizeSum_append] at hl
    rw [RxCounted] at h ⊢
    simp only [discardOutOfWindow]
    rw [h, ← hl, ← sizeSum]
    omega
  have hmoved : RxCounted { rx with rxNextHighest := (x + 1) % cfg.snModulus } := h
  rw [moveWindow]
  split
  · simp only
    split
    · exact hdiscard hmoved
    · exact hdiscard hmoved
  · exact h

/-- The timer has nothing to do with the counter. -/
theorem rxCounted_timer {cfg : UmConfig} {rx : UmRx} (tCurrent : ℕ) (next : ℤ) :
    (RxCounted (stopTReassembly cfg rx) ↔ RxCounted rx) ∧
      (RxCounted (startTReassembly cfg tCurrent rx next) ↔ RxCounted rx) := by
  constructor
  · rw [stopTReassembly]
    split <;> exact Iff.rfl
  · rw [startTReassembly]
    split <;> exact Iff.rfl

theorem rxCounted_recvPdu {cfg : UmConfig} {rx : UmRx} (h : RxCounted rx) (tCurrent : ℕ)
    (buffer : List UInt8) : RxCounted (recvPdu cfg tCurrent rx buffer).1 := by
  rw [recvPdu]
  split
  · exact h
  · exact h
  split
  · rename_i sn so isFirst isLast data _ _
    have hst := @rxCounted_storePdu cfg rx h sn so isFirst isLast data
    rw [receptionActions]
    simp only
    rw [(rxCounted_timer tCurrent _).2, (rxCounted_timer tCurrent 0).1]
    split
    · have hd := rxCounted_reassembleAndDeliver hst sn
      rw [deliverFull]
      simp only
      split <;> exact hd
    · exact rxCounted_moveWindow hst sn
  · exact h

/-- On expiry, the counter is right exactly if nothing is taken that it counts. -/
theorem rxCounted_checkTReassembly {cfg : UmConfig} {rx : UmRx} (h : RxCounted rx)
    (tCurrent : ℕ) :
    RxCounted (checkTReassembly cfg tCurrent rx) ↔
      (timerExpired tCurrent rx.tReassemblyStart cfg.tReassembly = true →
        ∀ p ∈ expired cfg rx, p.size = 0) := by
  rw [checkTReassembly]
  split
  · rename_i hexp
    rw [(rxCounted_timer tCurrent _).2, RxCounted]
    have hl := congrArg sizeSum (List.takeWhile_append_dropWhile (l := rx.rxList)
      (p := fun p => decide (snCompareRx cfg rx p.sn (skipDelivered cfg.snModulus rx.rxList
        rx.rxList.length rx.rxTimerTrigger) < 0)))
    rw [sizeSum_append] at hl
    simp only [hexp, true_imp_iff, ← sizeSum_eq_zero]
    rw [RxCounted] at h
    change rx.rxSize = sizeSum (rx.rxList.dropWhile fun p => decide (snCompareRx cfg rx p.sn
      (skipDelivered cfg.snModulus rx.rxList rx.rxList.length rx.rxTimerTrigger) < 0)) ↔ _
    rw [expired]
    omega
  · rename_i hexp
    exact iff_of_true h fun h => absurd h hexp

/-! ## Sending -/

/-- `tx_end` is the last node of `tx_list`, and nodes have addresses of their own. -/
structure TxNodes (tx : UmTx) : Prop where
  txEnd_eq : tx.txEnd = tx.txList.getLast?.map Segment.addr
  nodup : (tx.txList.map Segment.addr).Nodup
  addr_lt : ∀ s ∈ tx.txList, s.addr < tx.nextSeg

structure TxCounted (cfg : UmConfig) (tx : UmTx) : Prop where
  size : tx.txSize = segSum tx.txList
  bstatus : tx.bstatusTxSize = pduSum cfg tx.txList

theorem TxNodes.append {tx : UmTx} (hn : TxNodes tx) {s : Segment} (hs : s.addr = tx.nextSeg)
    {tx' : UmTx} (hl : tx'.txList = tx.txList ++ [s]) (he : tx'.txEnd = some s.addr)
    (ha : tx'.nextSeg = tx.nextSeg + 1) : TxNodes tx' where
  txEnd_eq := by
    rw [hl, he, List.getLast?_concat]
    rfl
  nodup := by
    rw [hl, List.map_append, List.nodup_append]
    refine ⟨hn.nodup, List.nodup_singleton _, ?_⟩
    rintro a ha b hb rfl
    obtain ⟨s', hs', rfl⟩ := List.mem_map.1 ha
    have := hn.addr_lt s' hs'
    simp only [List.map_cons, List.map_nil, List.mem_singleton] at hb
    omega
  addr_lt := by
    intro s' hs'
    rw [hl] at hs'
    rcases List.mem_append.1 hs' with h | h
    · have := hn.addr_lt s' h
      omega
    · rw [List.mem_singleton.1 h]
      omega

theorem recvSdu_spec {cfg : UmConfig} {tx tx' : UmTx} (hn : TxNodes tx) (hc : TxCounted cfg tx)
    {buffer : List UInt8} {sduId : ℤ} (h : recvSdu cfg tx buffer sduId = .ok tx') :
    TxNodes tx' ∧ TxCounted cfg tx' := by
  rw [recvSdu] at h
  split at h
  · cases h
  simp only at h
  split at h
  · cases h
    exact ⟨hn, hc⟩
  · obtain ⟨⟨l, end'⟩, happ, h⟩ := bind_ok h
    rw [hn.txEnd_eq, segmentListAppend_getLast hn.nodup] at happ
    cases happ
    cases h
    refine ⟨hn.append rfl rfl rfl rfl, ?_, ?_⟩
    · simp [hc.size, newSegment, segSum]
    · simp [hc.bstatus, newSegment, pduSum]

/-- The header of a segment is that of its PDU, but for a whole SDU under an SN of twelve
bits. -/
theorem computePduHeaderSize_false {cfg : UmConfig} (isFirst isLast : Bool) :
    computePduHeaderSize cfg isFirst false =
      computePduHeaderSize cfg isFirst isLast +
        if cfg.snFieldLength = 12 ∧ isFirst = true ∧ isLast = true then 1 else 0 := by
  cases isFirst <;> cases isLast <;> by_cases h : cfg.snFieldLength = 12 <;>
    simp [computePduHeaderSize, h]

theorem sendSegment_spec {cfg : UmConfig} {tx tx' : UmTx} {sdu : Segment} {buffer pdu : List UInt8}
    (h : sendSegment cfg tx sdu buffer = .ok (tx', pdu)) :
    tx'.txList = tx.txList ∧ tx'.txEnd = tx.txEnd ∧ tx'.nextSeg = tx.nextSeg ∧
      tx'.bstatusTxSize = tx.bstatusTxSize ∧ tx'.txSize = tx.txSize - sdu.size := by
  rw [sendSegment] at h
  obtain ⟨p, -, h⟩ := bind_ok h
  cases h
  split <;> exact ⟨rfl, rfl, rfl, rfl, rfl⟩

/-- The head of the list is gone. -/
theorem TxNodes.tail {tx tx' : UmTx} (hn : TxNodes tx) {s : Segment} {next : List Segment}
    (hl : tx.txList = s :: next) (hl' : tx'.txList = next)
    (he : tx'.txEnd = if next.isEmpty then none else tx.txEnd) (ha : tx'.nextSeg = tx.nextSeg) :
    TxNodes tx' where
  txEnd_eq := by
    rw [he, hl', hn.txEnd_eq, hl]
    cases next with
    | nil => rfl
    | cons x l => rw [List.getLast?_cons_cons]; rfl
  nodup := by
    have := hn.nodup
    rw [hl, List.map_cons, List.nodup_cons] at this
    rw [hl']
    exact this.2
  addr_lt := by
    intro x hx
    rw [ha]
    exact hn.addr_lt x (hl ▸ List.mem_cons_of_mem _ (hl' ▸ hx))

/-- A new node is put at the head of the list. -/
theorem TxNodes.cons {tx tx' : UmTx} (hn : TxNodes tx) {s : Segment} (hs : s.addr = tx.nextSeg)
    (hl' : tx'.txList = s :: tx.txList)
    (he : tx'.txEnd = if tx.txEnd.isNone then some s.addr else tx.txEnd)
    (ha : tx'.nextSeg = tx.nextSeg + 1) : TxNodes tx' where
  txEnd_eq := by
    rw [he, hl', hn.txEnd_eq]
    cases hx : tx.txList with
    | nil => rfl
    | cons x l =>
        rw [List.getLast?_cons_cons]
        obtain ⟨y, hy⟩ : ∃ y, (x :: l).getLast? = some y :=
          ⟨_, List.getLast?_eq_some_getLast (by simp)⟩
        rw [hy]
        rfl
  nodup := by
    rw [hl', List.map_cons, List.nodup_cons]
    refine ⟨fun hm => ?_, hn.nodup⟩
    obtain ⟨x, hx, hxs⟩ := List.mem_map.1 hm
    have := hn.addr_lt x hx
    omega
  addr_lt := by
    intro x hx
    rw [hl'] at hx
    rcases List.mem_cons.1 hx with rfl | hx
    · omega
    · have := hn.addr_lt x hx
      omega

/-- A segment that is cut does not get lost unless there is no room for its SN. -/
theorem resegment_eq_none_iff {cfg : UmConfig} {tx : UmTx} {sdu : Segment} {next : List Segment}
    {buffer : List UInt8} {addr : ℕ} (hl : tx.txList = sdu :: next)
    (hroom : computePduHeaderSize cfg sdu.isFirst sdu.isLast + 1 ≤ buffer.length)
    (hcut : pduSize cfg sdu > buffer.length) :
    resegment cfg sdu buffer.length addr = none ↔ NoRoomForSn cfg tx buffer := by
  have hhead := @computePduHeaderSize_false cfg sdu.isFirst sdu.isLast
  have hiff : resegment cfg sdu buffer.length addr = none ↔
      computePduHeaderSize cfg sdu.isFirst false + 1 > buffer.length := by
    simp [resegment]
  rw [pduSize] at hcut
  rw [hiff, NoRoomForSn, hl, List.head?_cons]
  by_cases hw : cfg.snFieldLength = 12 ∧ sdu.isFirst = true ∧ sdu.isLast = true
  · obtain ⟨h12, h1, h2⟩ := hw
    have hone : computePduHeaderSize cfg sdu.isFirst sdu.isLast = 1 := by
      simp [computePduHeaderSize, h1, h2]
    have htwo : computePduHeaderSize cfg sdu.isFirst false = 2 := by
      rw [hhead, if_pos ⟨h12, h1, h2⟩, hone]
    rw [htwo]
    simp only [Option.some.injEq, exists_eq_left', h12, h1, h2, true_and]
    omega
  · rw [if_neg hw] at hhead
    refine iff_of_false (by omega) ?_
    rintro ⟨h12, -, s, hs, h1, h2, -⟩
    cases hs
    exact hw ⟨h12, h1, h2⟩

/-- The two parts of a segment. -/
theorem resegment_some {cfg : UmConfig} {sdu s1 s2 : Segment} {size addr : ℕ}
    (h : resegment cfg sdu size addr = some (s1, s2)) :
    s1.size + s2.size = sdu.size ∧ s2.addr = addr := by
  rw [resegment] at h
  simp only at h
  split at h
  · cases h
  · cases h
    refine ⟨?_, rfl⟩
    simp only
    omega

/-- A grant takes the head of the list, or cuts it in two. -/
theorem generateTxPdu_spec {cfg : UmConfig} {tx tx' : UmTx} {buffer pdu : List UInt8}
    (hn : TxNodes tx) (hc : TxCounted cfg tx)
    (h : generateTxPdu cfg tx buffer = .ok (tx', pdu)) :
    TxNodes tx' ∧ (TxCounted cfg tx' ↔ ¬ NoRoomForSn cfg tx buffer) := by
  rw [generateTxPdu] at h
  split at h
  · rename_i hl
    cases h
    exact ⟨hn, iff_of_true hc (by simp [NoRoomForSn, hl])⟩
  rename_i sdu next hl
  split at h
  · rename_i hroom
    cases h
    refine ⟨hn, iff_of_true hc ?_⟩
    rintro ⟨h12, h2, s, hs, h3, h4, -⟩
    rw [hl, List.head?_cons, Option.some.injEq] at hs
    subst hs
    simp [computePduHeaderSize, h3, h4] at hroom
    omega
  rename_i hroom
  have hsize := hc.size
  have hbst := hc.bstatus
  rw [hl, segSum_cons] at hsize
  rw [hl, pduSum_cons] at hbst
  simp only at h
  split at h
  · rename_i hcut
    have hnone := @resegment_eq_none_iff cfg tx sdu next buffer tx.nextSeg hl (by omega) hcut
    split at h
    · -- the segment is gone, `tx_size` still counts it
      rename_i hres
      cases h
      refine ⟨hn.tail hl rfl rfl rfl, iff_of_false (fun hc' => ?_) (not_not.2 (hnone.1 hres))⟩
      have hsz : (tx.txSize : ℤ) = segSum next := hc'.size
      obtain ⟨-, -, s, hs, -, -, h2⟩ := hnone.1 hres
      rw [hl, List.head?_cons, Option.some.injEq] at hs
      subst hs
      omega
    · rename_i s1 s2 hres
      obtain ⟨h1, h2, h3, h4, h5⟩ := sendSegment_spec h
      obtain ⟨hsum, haddr⟩ := resegment_some hres
      have htail : TxNodes { tx with txList := next, txEnd := if next.isEmpty then none else tx.txEnd } :=
        hn.tail hl rfl rfl rfl
      have hsome : ¬ NoRoomForSn cfg tx buffer := by
        rw [← hnone, hres]
        simp
      refine ⟨htail.cons haddr h1 h2 h3, iff_of_true ⟨?_, ?_⟩ hsome⟩
      · rw [h5, h1, segSum_cons]
        simp only
        omega
      · rw [h4, h1, pduSum_cons]
        simp only
        omega
  · obtain ⟨h1, h2, h3, h4, h5⟩ := sendSegment_spec h
    refine ⟨hn.tail hl h1 h2 h3, iff_of_true ⟨?_, ?_⟩ ?_⟩
    · rw [h5, h1]
      simp only
      omega
    · rw [h4, h1]
      simp only
      omega
    · rintro ⟨h12, h2', s, hs, hf, hla, hs2⟩
      rename_i hfits
      rw [hl, List.head?_cons, Option.some.injEq] at hs
      subst hs
      simp [pduSize, computePduHeaderSize, hf, hla] at hfits
      omega

/-- A node is taken out of the middle. -/
theorem TxNodes.remove {tx tx' : UmTx} (hn : TxNodes tx) {front next : List Segment} {s : Segment}
    (hl : tx.txList = front ++ s :: next) (hl' : tx'.txList = front ++ next)
    (he : tx'.txEnd = if tx.txEnd = some s.addr then front.getLast?.map Segment.addr else tx.txEnd)
    (ha : tx'.nextSeg = tx.nextSeg) : TxNodes tx' := by
  have hsub : tx'.txList.Sublist tx.txList := by
    rw [hl, hl']
    exact (List.Sublist.refl front).append (List.sublist_cons_self _ _)
  refine ⟨?_, hn.nodup.sublist (hsub.map _), ?_⟩
  · rw [he, hl', hn.txEnd_eq, hl]
    cases next with
    | nil => simp
    | cons x l =>
        obtain ⟨y, hy⟩ : ∃ y, (x :: l).getLast? = some y :=
          ⟨_, List.getLast?_eq_some_getLast (by simp)⟩
        have hlast : (front ++ s :: x :: l).getLast? = some y := by
          rw [List.getLast?_append_of_ne_nil _ (by simp), List.getLast?_cons_cons, hy]
        have hne : y.addr ≠ s.addr := by
          have hnd := hn.nodup
          rw [hl, List.map_append, List.nodup_append] at hnd
          have := (List.nodup_cons.1 hnd.2.1).1
          intro h
          exact this (h ▸ List.mem_map_of_mem (List.mem_of_getLast? hy))
        rw [hlast, Option.map_some, if_neg (by simpa using hne),
          List.getLast?_append_of_ne_nil _ (by simp), hy]
        rfl
  · intro x hx
    rw [ha]
    exact hn.addr_lt x (hsub.subset hx)

/-- A whole SDU that is discarded stays in `tx_size`. -/
theorem discardSdu_spec {cfg : UmConfig} {tx : UmTx} (sduId : ℤ) (hn : TxNodes tx)
    (hc : TxCounted cfg tx) :
    TxNodes (discardSdu cfg tx sduId) ∧ (TxCounted cfg (discardSdu cfg tx sduId) ↔
      ∀ s, tx.txList.find? (fun s => (tx.heap s.sdu).upperLayerId = sduId) = some s →
        s.isFirst = true → s.isLast = true → s.size = 0) := by
  have hsplit := List.takeWhile_append_dropWhile (l := tx.txList)
    (p := fun s => decide ((tx.heap s.sdu).upperLayerId ≠ sduId))
  have hfind : tx.txList.find? (fun s => (tx.heap s.sdu).upperLayerId = sduId) =
      (tx.txList.dropWhile fun s => (tx.heap s.sdu).upperLayerId ≠ sduId).head? := by
    rw [Lists.find?_eq_head?_dropWhile]
    simp only [ne_eq, decide_not]
  rw [discardSdu, hfind]
  split
  · rename_i hnil
    refine ⟨hn, iff_of_true hc ?_⟩
    rw [hnil]
    simp
  rename_i cur next hcur
  rw [hcur] at hsplit
  split
  · rename_i hpart
    refine ⟨hn, iff_of_true hc ?_⟩
    rintro s hs h1 h2
    rw [hcur] at hs
    cases hs
    simp [h1, h2] at hpart
  · rename_i hwhole
    refine ⟨hn.remove hsplit.symm rfl rfl rfl, ?_⟩
    have hsize := hc.size
    have hbst := hc.bstatus
    rw [← hsplit, segSum_append, segSum_cons] at hsize
    rw [← hsplit, pduSum_append, pduSum_cons] at hbst
    have hwhole' : cur.isFirst = true ∧ cur.isLast = true := by simpa using hwhole
    rw [hcur]
    simp only [List.head?_cons, Option.some.injEq, forall_eq', hwhole', true_imp_iff]
    constructor
    · intro h
      have h1 := h.size
      simp only [segSum_append] at h1
      omega
    · intro h
      constructor
      · simp only [segSum_append]
        omega
      · simp only [pduSum_append]
        omega

/-! ## Runs -/

/-- The invariant of the calls that account for what they take. -/
structure SizeInv (e : UmEntity) : Prop where
  rx : RxCounted e.rx
  tx : TxCounted e.cfg e.tx
  nodes : TxNodes e.tx

theorem accounted_iff_counted {e : UmEntity} :
    Accounted e ↔ RxCounted e.rx ∧ TxCounted e.cfg e.tx := by
  rw [accounted_iff]
  exact and_congr_right fun _ => ⟨fun h => ⟨h.1, h.2⟩, fun h => ⟨h.1, h.2⟩⟩

/-- One call: the nodes are in order, and the counters are right exactly if it accounts for
what it takes. -/
theorem step_counted {e e' : UmEntity} {op : Op} {out : List Event} (hI : SizeInv e)
    (h : step e op = .ok (e', out)) :
    TxNodes e'.tx ∧ (Accounted e' ↔ Accounts e op) := by
  rw [accounted_iff_counted]
  cases op with
  | recvPdu buffer =>
      cases h
      exact ⟨hI.nodes, iff_of_true ⟨rxCounted_recvPdu hI.rx _ buffer, hI.tx⟩ trivial⟩
  | recvSdu buffer sduId =>
      obtain ⟨tx, htx, h⟩ := bind_ok h
      cases h
      obtain ⟨h1, h2⟩ := recvSdu_spec hI.nodes hI.tx htx
      exact ⟨h1, iff_of_true ⟨hI.rx, h2⟩ trivial⟩
  | generatePdu buffer =>
      obtain ⟨⟨tx, pdu⟩, htx, h⟩ := bind_ok h
      cases h
      obtain ⟨h1, h2⟩ := generateTxPdu_spec hI.nodes hI.tx htx
      exact ⟨h1, (and_iff_right hI.rx).trans h2⟩
  | setTime now =>
      cases h
      exact ⟨hI.nodes, (and_iff_left hI.tx).trans (rxCounted_checkTReassembly hI.rx _)⟩
  | discardSdu sduId =>
      cases h
      obtain ⟨h1, h2⟩ := discardSdu_spec sduId hI.nodes hI.tx
      exact ⟨h1, (and_iff_right hI.rx).trans h2⟩
  | reestablishment =>
      cases h
      refine ⟨⟨rfl, List.nodup_nil, fun s hs => absurd hs List.not_mem_nil⟩, ?_⟩
      exact iff_of_true ⟨rfl, rfl, rfl⟩ trivial

/-- The counters are right in a run exactly if every call accounts for what it takes. -/
theorem counters_kept (cfg : UmConfig) (ops : List Op) (e : UmEntity) (outs : List Event)
    (hrun : run (newUmEntity cfg) ops = .ok (e, outs)) :
    Along step CountersKept (newUmEntity cfg) ops ↔ Along step Accounts (newUmEntity cfg) ops := by
  have hiff : ∀ e op e' out, SizeInv e → step e op = .ok (e', out) →
      (CountersKept e op ↔ Accounts e op) := by
    intro e op e' out hI hs
    rw [← (step_counted hI hs).2]
    refine ⟨fun h => h e' out hs, fun h e'' out' hs' => ?_⟩
    rw [hs] at hs'
    cases hs'
    exact h
  refine along_iff_along_of_run (I := SizeInv) hiff ?_ ?_ hrun
  · intro e op e' out hI ha hs
    obtain ⟨h1, h2⟩ := step_counted hI hs
    obtain ⟨h3, h4⟩ := accounted_iff_counted.1 (h2.2 ha)
    exact ⟨h3, h4, h1⟩
  · exact ⟨rfl, ⟨rfl, rfl⟩, rfl, List.nodup_nil, fun s hs => absurd hs List.not_mem_nil⟩

def exampleUm (snFieldLength : ℕ) (h : snFieldLength = 6 ∨ snFieldLength = 12) : UmConfig where
  rxMaxsize := 1000
  txMaxsize := 1000
  tReassembly := 35
  snFieldLength
  snFieldLength_valid := h

/-- An SDU sent in two PDUs. -/
theorem counters_kept_segmented :
    Along step CountersKept (newUmEntity (exampleUm 6 (.inl rfl)))
      [.recvSdu [1, 2, 3, 4] 0, .generatePdu [0, 0, 0], .generatePdu [0, 0, 0, 0, 0]] := by
  refine (counters_kept (exampleUm 6 (.inl rfl)) _ _ _ rfl).2 ?_
  refine ⟨trivial, fun _ _ h => ?_⟩
  cases h
  refine ⟨fun h => absurd h.1 (by decide), fun _ _ h => ?_⟩
  cases h
  exact ⟨fun h => absurd h.1 (by decide), fun _ _ _ => trivial⟩

/-- An SDU that is discarded before it is sent leaves its byte in `tx_size`. -/
theorem discarded_sdu_counted :
    ¬ Along step CountersKept (newUmEntity (exampleUm 6 (.inl rfl)))
      [.recvSdu [1] 7, .discardSdu 7] := by
  rintro ⟨-, h⟩
  obtain ⟨h, -⟩ := h _ _ rfl
  exact absurd ((h _ _ rfl).txEmpty rfl) (by decide)

end OaiCu.NrRlc.Um
