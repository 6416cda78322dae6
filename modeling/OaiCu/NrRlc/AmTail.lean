import OaiCu.NrRlc.AmSweep

/-!
# RLC AM: the order of the lists and `wait_end`

`process_control_pdu` keeps the two lists in order as long as its comparison of their heads, which
takes SNs as plain numbers, agrees with the order relative to `tx_next_ack`. It keeps `wait_end`
as long as no segment is acked during the NACKs right before the last one of `wait_list`, or as
the last one: there it compares `wait_end` with the wrong node.
-/

namespace OaiCu.NrRlc

open Serial

/-! ## The order of the lists -/

/-- The comparison of the list heads agrees with the order relative to `tx_next_ack`. -/
def AmTx.OrderAgrees (cfg : AmConfig) (tx : AmTx) : Prop :=
  ∀ w ∈ tx.waitList, ∀ r ∈ tx.retransmitList,
    tx.sn w < tx.sn r ↔ snCompareTx cfg tx (tx.sn w) (tx.sn r) < 0

instance (cfg : AmConfig) (tx : AmTx) : Decidable (tx.OrderAgrees cfg) := by
  unfold AmTx.OrderAgrees
  infer_instance

section Order

variable {cfg : AmConfig} {tx : AmTx} {lost : List Segment} {ackSn : ℤ} {gs pre : List Nack}
  {m m' : Merge} {now : List (Look × Verdict)}

/-- The merge looks at the segments in order. -/
theorem lookOrder_sorted (h : tx.Inv cfg lost) (hs : tx.RetxSorted cfg)
    (ho : tx.OrderAgrees cfg) : (lookOrder tx tx.waitList tx.retransmitList).Pairwise
      fun a b => segLe cfg.snModulus tx.txNextAck tx.sn a.2 b.2 := by
  refine Lists.pairwise_merge (fun a b c => segLe_trans a.2 b.2 c.2)
    (List.pairwise_map.mpr h.snInv.waitSorted) (List.pairwise_map.mpr hs) ?_
  rintro x hx y hy
  obtain ⟨w, hw, rfl⟩ := List.mem_map.mp hx
  obtain ⟨r, hr, rfl⟩ := List.mem_map.mp hy
  have hrange : ∀ s ∈ tx.outstanding, 0 ≤ tx.sn s ∧ tx.sn s < cfg.snModulus :=
    fun s hs => h.snInv.sn_range s (List.mem_append_left _ hs)
  have hrw := hrange w (List.mem_append_left _ hw)
  have hrr := hrange r (List.mem_append_right _ hr)
  have hagree := ho w hw r hr
  rw [snCompareTx_eq h.snInv.txNextAck_range hrw hrr] at hagree
  rw [decide_eq_true_eq, decide_eq_false_iff_not]
  show (waitBeforeRetx tx w r → segLe cfg.snModulus tx.txNextAck tx.sn w r) ∧
    (¬ waitBeforeRetx tx w r → segLe cfg.snModulus tx.txNextAck tx.sn r w)
  unfold waitBeforeRetx
  constructor
  · rintro (hlt | ⟨heq, hso⟩)
    · left
      have := hagree.mp hlt
      omega
    · exact .inr ⟨heq, hso.le⟩
  · intro hnot
    rw [not_or, not_and] at hnot
    by_cases heq : tx.sn w = tx.sn r
    · exact .inr ⟨heq.symm, not_lt.mp (hnot.2 heq)⟩
    · left
      have hne : rel cfg.snModulus tx.txNextAck (tx.sn w) ≠
          rel cfg.snModulus tx.txNextAck (tx.sn r) :=
        fun he => heq (rel_inj hrw.1 hrw.2 hrr.1 hrr.2 he)
      have := mt hagree.mpr hnot.1
      omega

/-- The new `retransmit_list` is in the order of the sweep. -/
theorem retx_sublist (h : m.SweptTo cfg tx ackSn gs gs pre now) :
    (m.newRetx ++ (m.curRetx ++ m.retxRest)).Sublist
      ((lookOrder tx tx.waitList tx.retransmitList).map Prod.snd) := by
  have hsplit := sweepOf_split cfg tx ackSn pre
  rw [h.swept.rest, ← List.append_assoc, ← List.map_append] at hsplit
  have hnew : m.newRetx = _ := h.swept.newRetx
  have hcur : (m.curRetx ++ m.retxRest).Sublist
      ((lookOrder tx m.curWait (m.curRetx ++ m.retxRest)).map Prod.snd) := by
    have := (ofSrc_lookOrder tx m.curWait (m.curRetx ++ m.retxRest)).2
    rw [ofSrc] at this
    conv_lhs => rw [← this]
    exact List.filter_sublist.map _
  rw [← hsplit, List.map_append, List.map_map, hnew]
  exact (pick_sublist _).append hcur

/-- Without NACKs nothing is moved. -/
theorem newRetx_of_nil (h : m.SweptTo cfg tx ackSn [] [] pre now) : m.newRetx = [] := by
  obtain ⟨more, hD, -, -, -⟩ := sweepOf_of_sweptTo h
  have hnil : (sweepOf cfg tx ackSn pre).1 ++ now = [] := by
    have : (sweepOf cfg tx ackSn []).1 = [] := rfl
    rw [this] at hD
    exact (List.append_eq_nil_iff.mp hD.symm).1
  have hnew : m.newRetx = kept ((sweepOf cfg tx ackSn pre).1 ++ now) := h.swept.newRetx
  rw [hnew, hnil]
  rfl

/-- **`retransmit_list` stays in order.** -/
theorem merge_retxSorted (hinv : tx.Inv cfg lost) (hs : tx.RetxSorted cfg)
    (ho : gs ≠ [] → tx.OrderAgrees cfg) (h : m.SweptTo cfg tx ackSn gs gs pre now) :
    (m.newRetx ++ (m.curRetx ++ m.retxRest)).Pairwise
      (segLe cfg.snModulus tx.txNextAck tx.sn) := by
  by_cases hgs : gs = []
  · subst hgs
    rw [newRetx_of_nil h, List.nil_append]
    exact List.Pairwise.sublist h.lists.retx.sublist hs
  · exact (List.pairwise_map.mpr (lookOrder_sorted hinv hs (ho hgs))).sublist (retx_sublist h)

end Order

/-! ## `wait_end` during the NACKs -/

/-- The decided segments of `wait_list`. -/
def waits (d : List (Look × Verdict)) : List (Segment × Verdict) :=
  (d.filter fun p => p.1.1 == .wait).map fun p => (p.1.2, p.2)

/-- `end_wait_list` when one segment of `wait_list` is left: it was set if the segment before
was acked. -/
def endAfterAck (dw : List (Segment × Verdict)) : Option ListPos :=
  if dw.getLast?.map Prod.snd = some .acked then some .head else none

/-- `end_wait_list`, by what is decided of `wait_list` and what is left of it. -/
structure Merge.Tail (tx : AmTx) (m : Merge) (dw : List (Segment × Verdict)) : Prop where
  wait : tx.waitList = dw.map Prod.fst ++ m.curWait
  many : 2 ≤ m.curWait.length → m.endWait = none
  one : ∀ t, m.curWait = [t] → m.endWait = endAfterAck dw
  ended : m.curWait = [] → ∀ d t v, dw = d ++ [(t, v)] →
    m.endWait = if v = .nacked then some m.prevWait else endAfterAck d
  empty : m.curWait = [] → dw = [] → m.endWait = none

section Tail

variable {cfg : AmConfig} {tx : AmTx} {lost : List Segment} {ackSn : ℤ} {gs pre post : List Nack}
  {n : Nack} {m m' : Merge} {dw : List (Segment × Verdict)} {x : Segment} {v : Verdict}

theorem waits_append (d d' : List (Look × Verdict)) : waits (d ++ d') = waits d ++ waits d' := by
  simp [waits]

/-- `wait_end` is the last node of what is left. -/
theorem waitEnd_suffix (hend : tx.WaitEndExact) {f ws : List Segment} {w : Segment}
    (hw : tx.waitList = f ++ w :: ws) :
    tx.waitEnd = (w :: ws).getLast?.map Segment.addr := by
  rw [hend, hw, List.getLast?_append_of_ne_nil _ (by simp)]

theorem waitEnd_eq_head (hend : tx.WaitEndExact) (hnd : (tx.waitList.map Segment.addr).Nodup)
    {f ws : List Segment} {w : Segment} (hw : tx.waitList = f ++ w :: ws) :
    tx.waitEnd = some w.addr ↔ ws = [] := by
  rw [waitEnd_suffix hend hw]
  rw [hw, List.map_append, List.map_cons] at hnd
  have hw' := (List.nodup_cons.mp (List.nodup_append.mp hnd).2.1).1
  constructor
  · intro he
    by_contra hne
    rw [List.getLast?_cons, Option.map_some, Option.some.injEq] at he
    obtain ⟨y, hy⟩ : ∃ y, ws.getLast? = some y := by
      cases hl : ws.getLast? with
      | none => exact absurd (List.getLast?_eq_none_iff.mp hl) hne
      | some y => exact ⟨y, rfl⟩
    rw [hy, Option.getD_some] at he
    exact hw' (he ▸ List.mem_map_of_mem (List.mem_of_getLast? hy))
  · rintro rfl
    rfl

theorem head_eq_waitEnd (hend : tx.WaitEndExact) (hnd : (tx.waitList.map Segment.addr).Nodup)
    {f ws : List Segment} {w : Segment} (hw : tx.waitList = f ++ w :: ws) :
    ws.head?.map Segment.addr = tx.waitEnd ↔ ∃ t, ws = [t] := by
  cases ws with
  | nil =>
      rw [waitEnd_suffix hend hw]
      simp
  | cons t ws =>
      have hw' : tx.waitList = (f ++ [w]) ++ t :: ws := by simp [hw]
      rw [List.head?_cons, Option.map_some, eq_comm, waitEnd_eq_head hend hnd hw']
      simp

/-- A segment of `wait_list` is decided. -/
theorem tail_wait (hend : tx.WaitEndExact) (hnd : (tx.waitList.map Segment.addr).Nodup)
    (hframe : m.Frame tx) (h : m.Tail tx dw) (hw : m.curWait = x :: m'.curWait)
    (hacked : v = .acked → m.waitFront = []) (hfront : v = .nacked → m'.waitFront = m.waitFront)
    (he : m'.endWait = m.endAfter x m'.curWait v) : m'.Tail tx (dw ++ [(x, v)]) := by
  have hwait : tx.waitList = dw.map Prod.fst ++ x :: m'.curWait := by rw [h.wait, hw]
  have hlast := waitEnd_eq_head hend hnd hwait
  have hnext := head_eq_waitEnd hend hnd hwait
  rw [← hframe.waitEnd] at hlast hnext
  refine ⟨by simp [hwait], ?_, ?_, ?_, by simp⟩
  · intro hlen
    have h0 : m.endWait = none := h.many (by rw [hw, List.length_cons]; omega)
    have h1 : ¬ m.tx.waitEnd = some x.addr := by
      rw [hlast]
      rintro hnil
      simp [hnil] at hlen
    have h2 : ¬ m'.curWait.head?.map Segment.addr = m.tx.waitEnd := by
      rw [hnext]
      rintro ⟨t, ht⟩
      simp [ht] at hlen
    rw [he]
    cases v <;> simp [Merge.endAfter, h0, h1, h2]
  · intro t ht
    have h0 : m.endWait = none := h.many (by rw [hw, ht]; simp)
    have h1 : ¬ m.tx.waitEnd = some x.addr := by
      rw [hlast, ht]
      simp
    have h2 := hnext.mpr ⟨t, ht⟩
    rw [he, endAfterAck, List.getLast?_concat]
    cases v with
    | nacked => simp [Merge.endAfter, h0, h1]
    | undecided => simp [Merge.endAfter, h0]
    | acked => simp [Merge.endAfter, h2, Merge.prevWait, hacked rfl]
    | unacked => simp [Merge.endAfter, h0]
  · intro hnil d t v' heq
    obtain ⟨hd, ht⟩ := List.append_inj' heq rfl
    simp only [List.cons.injEq, Prod.mk.injEq, and_true] at ht
    have h0 : m.endWait = endAfterAck dw := h.one x (by rw [hw, hnil])
    have h1 := hlast.mpr hnil
    have h2 : ¬ m'.curWait.head?.map Segment.addr = m.tx.waitEnd := by
      rw [hnext, hnil]
      simp
    rw [he, ← hd, ← ht.2]
    cases v with
    | nacked => simp [Merge.endAfter, h1, Merge.prevWait, hfront rfl]
    | undecided => simp [Merge.endAfter, h0]
    | acked => simp only [Merge.endAfter, if_neg h2, h0, reduceCtorEq, if_false]
    | unacked => simp [Merge.endAfter, h0]

theorem tail_same (h : m.Tail tx dw) (hw : m'.curWait = m.curWait)
    (hf : m'.waitFront = m.waitFront) (he : m'.endWait = m.endWait) : m'.Tail tx dw := by
  refine ⟨hw ▸ h.wait, hw ▸ he ▸ h.many, hw ▸ he ▸ h.one, ?_, hw ▸ he ▸ h.empty⟩
  have hp : m'.prevWait = m.prevWait := by simp [Merge.prevWait, hf]
  rw [hw, he, hp]
  exact h.ended

/-- **`end_wait_list` through the merge.** -/
theorem mergeRule_tail (hinv : tx.Inv cfg lost) (hend : tx.WaitEndExact)
    (hack : 0 ≤ ackSn ∧ ackSn < cfg.snModulus) (hc : Chain cfg tx ackSn gs) :
    MergeRule cfg tx ackSn gs (fun pre m => m.Inv cfg tx lost ackSn gs pre ∧
      ∃ pre' now, m.SweptTo cfg tx ackSn gs pre pre' now ∧
        m.Tail tx (waits ((sweepOf cfg tx ackSn pre').1 ++ now))) where
  frame hm := hm.1.lists.frame
  poll hm := by
    obtain ⟨hi, pre', now, hsw, ht⟩ := hm
    exact ⟨(mergeRule_inv hinv hack hc).poll hi, pre', now, sweptTo_stopPoll hsw,
      tail_same ht rfl rfl rfl⟩
  next := by
    rintro pre n post m m' hgs ⟨hi, pre', now, hsw, ht⟩ hp
    refine ⟨(mergeRule_inv hinv hack hc).next hgs hi hp, ?_⟩
    obtain ⟨s, x, hsw', hcases⟩ := sweptTo_next hgs hsw hp
    have hpre : pre' = pre := hsw.all (hp.retxRest_nil hsw.lists (by simp))
    subst hpre
    refine ⟨pre', _, hsw', ?_⟩
    rw [← List.append_assoc, waits_append]
    rcases hcases with ⟨rfl, hw, he⟩ | ⟨rfl, hw, hf, he⟩
    · refine tail_wait hend hinv.parts.waitList_nodup hi.lists.frame ht hw ?_ ?_ he
      · intro hv
        exact waitFront_nil hinv.snInv hi.lists hack hi.order.waitFront (by simp [hw])
          (verdict_acked hv)
      · intro (hv : verdict cfg tx ackSn n x = .nacked)
        have h1 : m.waitFront = _ := hsw.swept.waitFront
        have h2 : m'.waitFront = _ := hsw'.swept.waitFront
        rw [h1, h2, ← List.append_assoc, stays, pick_snoc, hv]
        simp
    · have hnil : waits [((Src.retx, x), verdict cfg tx ackSn n x)] = [] := rfl
      rw [hnil, List.append_nil]
      exact tail_same ht hw hf he
  done := by
    rintro pre n post m hgs ⟨hi, pre', now, hsw, ht⟩ hp
    refine ⟨(mergeRule_inv hinv hack hc).done hgs hi hp, ?_⟩
    obtain ⟨hsw', heq⟩ := sweptTo_done hgs hsw hp
    refine ⟨_, _, hsw', ?_⟩
    rw [List.append_nil, heq]
    exact ht
  ended := by
    rintro pre n post m m' hgs ⟨hi, pre', now, hsw, ht⟩ hp
    refine ⟨(mergeRule_inv hinv hack hc).ended hgs hi hp, ?_⟩
    obtain ⟨pre₁, now₁, hsw', heq⟩ := sweptTo_over hgs hsw hp
    refine ⟨pre₁, now₁, hsw', ?_⟩
    rw [heq]
    cases hp with
    | ended => exact ht
    | keepAllRetx => exact tail_same ht rfl rfl rfl

theorem tail_startMerge : (startMerge cfg ackSn tx).Tail tx [] := by
  refine ⟨rfl, fun _ => rfl, fun _ _ => rfl, ?_, fun _ _ => rfl⟩
  intro _ d t v h
  exact absurd h (by simp)

/-! ## `wait_end` after the NACKs -/

/-- A segment acked after the NACKs sets `end_wait_list` if it is the last one. -/
theorem finishRule_tail (hend : tx.WaitEndExact) (hnd : (tx.waitList.map Segment.addr).Nodup)
    {m₀ : Merge} (h₀ : m₀.curWait <:+ tx.waitList) :
    FinishRule cfg tx ackSn (fun m => m.Frame tx ∧ m.waitFront = m₀.waitFront ∧
      ∃ lw, m₀.curWait = lw ++ m.curWait ∧
        m.endWait = if lw ≠ [] ∧ m.curWait = [] then some m₀.prevWait else m₀.endWait) where
  frame hm := hm.1
  wait := by
    rintro m s next ⟨hframe, hfront, lw, hlw, he⟩ hw -
    have hl := ackLate_lists m s next
    refine ⟨hframe.ackLate s next, by rw [hl.1, hfront], lw ++ [s], by rw [hlw, hw, hl.2.1]; simp, ?_⟩
    obtain ⟨f, hf⟩ := h₀
    have hwait : tx.waitList = (f ++ lw) ++ s :: next := by rw [← hf, hlw, hw]; simp
    have hlast := waitEnd_eq_head hend hnd hwait
    rw [← hframe.waitEnd] at hlast
    have hp : m.prevWait = m₀.prevWait := by simp [Merge.prevWait, hfront]
    rw [hl.2.2.2.2.2.2, hl.2.1, he, hp]
    simp [hlast, hw]
  retx := by
    rintro m s next ⟨hframe, hfront, lw, hlw, he⟩ hr -
    have hl := @ackRetx_lists cfg m s next
    refine ⟨hframe.ackRetx s next, by rw [hl.1, hfront], lw, by rw [hlw, hl.2.1], ?_⟩
    rw [hl.2.2.2.2.2.2, hl.2.1]
    exact he

end Tail

/-- The two places where `wait_end` is compared with the wrong node do no harm: the last segment of
`wait_list` is acked during the NACKs only if the one before it is, and if the one before it is,
the last one does not stay in `wait_list`. -/
structure TailOk (cfg : AmConfig) (tx : AmTx) (ackSn : ℤ) (gs : List Nack) : Prop where
  last : ∀ front t, tx.waitList = front ++ [t] →
    (t, .acked) ∈ waits (sweepOf cfg tx ackSn gs).1 →
    ∃ p ∈ front.getLast?, (p, .acked) ∈ waits (sweepOf cfg tx ackSn gs).1
  before : ∀ front t, tx.waitList = front ++ [t] →
    ∀ p ∈ front.getLast?, (p, .acked) ∈ waits (sweepOf cfg tx ackSn gs).1 →
    (t, .unacked) ∉ waits (sweepOf cfg tx ackSn gs).1 ∧
      (t ∈ (waits (sweepOf cfg tx ackSn gs).1).map Prod.fst ∨
        snCompareTx cfg tx (tx.sn t) ackSn < 0)

instance (cfg : AmConfig) (tx : AmTx) (ackSn : ℤ) (gs : List Nack) :
    Decidable (TailOk cfg tx ackSn gs) :=
  let dw := waits (sweepIn cfg tx ackSn gs).1
  decidable_of_iff (∀ t ∈ tx.waitList.getLast?,
      ((t, .acked) ∈ dw → ∃ p ∈ tx.waitList.dropLast.getLast?, (p, .acked) ∈ dw) ∧
      ∀ p ∈ tx.waitList.dropLast.getLast?, (p, .acked) ∈ dw → (t, .unacked) ∉ dw ∧
        (t ∈ dw.map Prod.fst ∨ snCompareTx cfg tx (tx.sn t) ackSn < 0)) <| by
    have hlast : ∀ front t, tx.waitList = front ++ [t] →
        tx.waitList.getLast? = some t ∧ tx.waitList.dropLast = front := fun front t h => by
      rw [h, List.getLast?_concat, List.dropLast_concat]
      exact ⟨rfl, rfl⟩
    rw [show dw = waits (sweepOf cfg tx ackSn gs).1 by rw [sweepOf_eq]]
    constructor
    · intro h
      refine ⟨fun front t hw => ?_, fun front t hw => ?_⟩
      · obtain ⟨ht, hf⟩ := hlast front t hw
        exact hf ▸ (h t ht).1
      · obtain ⟨ht, hf⟩ := hlast front t hw
        exact hf ▸ (h t ht).2
    · intro h t ht
      obtain ⟨front, hw⟩ := List.getLast?_eq_some_iff.mp ht
      rw [(hlast front t hw).2]
      exact ⟨h.last front t hw, h.before front t hw⟩

section Exact

variable {cfg : AmConfig} {tx : AmTx} {lost : List Segment} {status : StatusPdu}

/-- In a list without duplicates a segment has one verdict. -/
theorem verdict_unique {dw : List (Segment × Verdict)} (hnd : (dw.map Prod.fst).Nodup) {s : Segment}
    {v v' : Verdict} (h : (s, v) ∈ dw) (h' : (s, v') ∈ dw) : v = v' :=
  congrArg Prod.snd (List.inj_on_of_nodup_map hnd h h' rfl)

theorem stays_waits (d : List (Look × Verdict)) :
    stays d = ((waits d).filter fun p => p.2 == .unacked).map Prod.fst := by
  rw [stays_eq, waits, List.filter_map, List.map_map]
  rfl

theorem getLast?_of_endAfterAck {dw : List (Segment × Verdict)}
    (h : endAfterAck dw ≠ none) : ∃ p, dw.getLast? = some (p, .acked) := by
  unfold endAfterAck at h
  split at h
  · rename_i heq
    obtain ⟨⟨p, v⟩, hp, hv⟩ := Option.map_eq_some_iff.mp heq
    exact ⟨p, by rw [hp, ← hv]⟩
  · exact absurd rfl h

theorem commit_waitEnd_none {m : Merge} (hm : m.Frame tx) (h : m.endWait = none) :
    m.commit.waitEnd = tx.waitEnd := by
  rw [← hm.waitEnd]
  simp only [Merge.commit, h]

theorem commit_waitEnd_prev {m : Merge} (h : m.endWait = some m.prevWait) :
    m.commit.waitEnd = m.waitFront.getLast?.map Segment.addr := by
  simp only [Merge.commit, h, Merge.prevWait]
  cases m.waitFront.getLast? <;> rfl

/-- Nothing stays in `wait_list` when its last segment is acked. -/
theorem waitFront_nil_of_last {ackSn : ℤ} {gs : List Nack} {m : Merge} (hinv : tx.Inv cfg lost)
    (hack : 0 ≤ ackSn ∧ ackSn < cfg.snModulus) (hm : m.Inv cfg tx lost ackSn gs gs)
    {front : List Segment} {t : Segment} (hwait : tx.waitList = front ++ [t])
    (hlt : snCompareTx cfg tx (tx.sn t) ackSn < 0) : m.waitFront = [] := by
  rw [List.eq_nil_iff_forall_not_mem]
  intro w hw
  have hwt : w ∈ tx.waitList := hm.lists.wait.subset (List.mem_append_left _ hw)
  have hrange : ∀ s ∈ tx.waitList, 0 ≤ tx.sn s ∧ tx.sn s < cfg.snModulus := fun s hs =>
    hinv.snInv.sn_range s (List.mem_append_left _ (List.mem_append_left _ hs))
  have hsort := hinv.snInv.waitSorted
  have hle : rel cfg.snModulus tx.txNextAck (tx.sn w) ≤ rel cfg.snModulus tx.txNextAck (tx.sn t) := by
    rw [hwait] at hwt hsort
    rcases List.mem_append.mp hwt with h | h
    · exact segLe_sn ((List.pairwise_append.mp hsort).2.2 w h t (by simp))
    · rw [List.mem_singleton.mp h]
  have hnot := hm.order.waitFront w hw
  rw [snCompareTx_eq hinv.snInv.txNextAck_range (hrange w hwt) hack] at hnot
  rw [snCompareTx_eq hinv.snInv.txNextAck_range (hrange t (by simp [hwait])) hack] at hlt
  omega

/-- The merge of a STATUS PDU, with all decided segments of `wait_list`. -/
theorem tail_merge (hinv : tx.Inv cfg lost) (hend : tx.WaitEndExact)
    (hack : 0 ≤ status.ackSn ∧ status.ackSn < cfg.snModulus) :
    (status.merge cfg tx).Inv cfg tx lost status.ackSn (status.goodNacks cfg tx)
        (status.goodNacks cfg tx) ∧
      (status.merge cfg tx).Tail tx
        (waits (sweepOf cfg tx status.ackSn (status.goodNacks cfg tx)).1) ∧
      (status.merge cfg tx).waitFront =
        ((waits (sweepOf cfg tx status.ackSn (status.goodNacks cfg tx)).1).filter
          fun p => p.2 == .unacked).map Prod.fst := by
  have hmerge := @processNacks_induct cfg tx status.ackSn (status.goodNacks cfg tx) [] _
    (startMerge cfg status.ackSn tx) (mergeRule_tail hinv hend hack (chain_goodNacks none _).1)
    status.blocks none rfl ⟨inv_startMerge hinv, _, _, sweptTo_startMerge, tail_startMerge⟩
  obtain ⟨hi, pre, now, hsw, ht⟩ := hmerge
  have hdw : waits ((sweepOf cfg tx status.ackSn pre).1 ++ now) =
      waits (sweepOf cfg tx status.ackSn (status.goodNacks cfg tx)).1 := by
    rw [waits, waits, waits_of_sweptTo hsw]
  have hstay : (status.merge cfg tx).waitFront = _ := hsw.swept.waitFront
  rw [stays_waits, hdw] at hstay
  exact ⟨hi, hdw ▸ ht, hstay⟩

theorem waits_verdict {ackSn : ℤ} {gs : List Nack} {p : Segment × Verdict}
    (hp : p ∈ waits (sweepOf cfg tx ackSn gs).1) :
    p.2 ≠ .undecided ∧ ∃ n, p.2 = verdict cfg tx ackSn n p.1 := by
  obtain ⟨q, hq, rfl⟩ := List.mem_map.mp hp
  obtain ⟨h1, n, -, h2⟩ := sweepOf_verdict _ _ _ _ q (List.mem_filter.mp hq).1
  exact ⟨h1, n, h2⟩

section Ends

variable {ackSn : ℤ} {gs : List Nack} {m₀ m : Merge} {dw : List (Segment × Verdict)}

/-- All of `wait_list` was decided by the NACKs. -/
theorem waitEnd_decided (hinv : tx.Inv cfg lost) (hend : tx.WaitEndExact)
    (hack : 0 ≤ ackSn ∧ ackSn < cfg.snModulus) (hok : TailOk cfg tx ackSn gs)
    (hdw : waits (sweepOf cfg tx ackSn gs).1 = dw) (ht : m₀.Tail tx dw)
    (hm : m.Inv cfg tx lost ackSn gs gs) (hcur : m₀.curWait = [])
    (hstay : m.waitFront = (dw.filter fun p => p.2 == .unacked).map Prod.fst)
    (hfront : m.waitFront = m₀.waitFront) (he : m.endWait = m₀.endWait) :
    m.commit.waitEnd = m.waitFront.getLast?.map Segment.addr := by
  have hframe := hm.lists.frame
  have hwait := ht.wait
  rw [hcur, List.append_nil] at hwait
  have hndw : (dw.map Prod.fst).Nodup := by
    rw [← hwait]
    exact List.Nodup.of_map _ hinv.parts.waitList_nodup
  obtain ⟨hlast, hbefore⟩ := hok
  rw [hdw] at hlast hbefore
  rcases List.eq_nil_or_concat dw with hdw0 | ⟨d, ⟨t, v⟩, hd⟩
  · rw [commit_waitEnd_none hframe (he.trans (ht.empty hcur hdw0)), hend, hstay, hwait, hdw0]
    rfl
  · rw [List.concat_eq_append] at hd
    have hend' := ht.ended hcur d t v hd
    rw [hd, List.map_append, List.map_singleton] at hwait
    have htm : (t, v) ∈ dw := by simp [hd]
    have hverdict := waits_verdict (hdw ▸ htm)
    cases v with
    | undecided => exact absurd rfl hverdict.1
    | nacked =>
        refine commit_waitEnd_prev ?_
        rw [he, hend', if_pos rfl]
        simp [Merge.prevWait, hfront]
    | acked =>
        obtain ⟨n, hv⟩ := hverdict.2
        obtain ⟨p, hp, hpm⟩ := hlast _ t hwait htm
        have hnil := waitFront_nil_of_last hinv hack hm hwait (verdict_acked hv.symm)
        have hdl : d.getLast? = some (p, .acked) := by
          rw [Option.mem_def, List.getLast?_map, Option.map_eq_some_iff] at hp
          obtain ⟨⟨p', v'⟩, hp', rfl⟩ := hp
          have : (p', v') ∈ dw := by simp [hd, List.mem_of_getLast? hp']
          rw [hp', verdict_unique hndw this hpm]
        have hhd : m.endWait = some .head := by
          rw [he, hend', if_neg (by simp), endAfterAck, hdl]
          rfl
        simp only [Merge.commit, hhd, hnil]
        rfl
    | unacked =>
        have hnone : endAfterAck d = none := by
          by_contra hne
          obtain ⟨p, hp⟩ := getLast?_of_endAfterAck hne
          refine (hbefore _ t hwait p ?_ ?_).1 htm
          · rw [Option.mem_def, List.getLast?_map, hp]
            rfl
          · simp [hd, List.mem_of_getLast? hp]
        rw [commit_waitEnd_none hframe (by rw [he, hend', if_neg (by simp), hnone]), hend, hstay,
          hwait, hd]
        simp

/-- The last segment of `wait_list` stays, and `wait_end` is left alone. -/
theorem endWait_none_of_stays (hinv : tx.Inv cfg lost) (hok : TailOk cfg tx ackSn gs)
    (ht : m₀.Tail tx (waits (sweepOf cfg tx ackSn gs).1)) {lw cw : List Segment}
    (hlw : m₀.curWait = lw ++ cw) (hcur : cw ≠ []) (hhead : HeadUnacked cfg tx ackSn cw) :
    m₀.endWait = none := by
  by_cases hlen : 2 ≤ m₀.curWait.length
  · exact ht.many hlen
  · -- one segment is left, and it is not acked
    have hlen' := congrArg List.length hlw
    have hpos := List.length_pos_of_ne_nil hcur
    rw [List.length_append] at hlen'
    have hlw0 : lw = [] := List.eq_nil_of_length_eq_zero (by omega)
    obtain ⟨t, htc⟩ := List.length_eq_one_iff.mp (show cw.length = 1 by omega)
    rw [hlw0, htc, List.nil_append] at hlw
    rw [ht.one t hlw]
    by_contra hne
    obtain ⟨p, hp⟩ := getLast?_of_endAfterAck hne
    have hwait := ht.wait
    rw [hlw] at hwait
    rcases (hok.before _ t hwait p (by rw [Option.mem_def, List.getLast?_map, hp]; rfl)
      (List.mem_of_getLast? hp)).2 with h | h
    · have := List.Nodup.of_map _ hinv.parts.waitList_nodup
      rw [hwait] at this
      exact (List.nodup_append.mp this).2.2 t h t (by simp) rfl
    · exact hhead t (by simp [htc]) h

end Ends

/-- **`wait_end` after a STATUS PDU.** -/
theorem commit_waitEndExact (hinv : tx.Inv cfg lost) (hend : tx.WaitEndExact)
    (hack : 0 ≤ status.ackSn ∧ status.ackSn < cfg.snModulus)
    (hok : TailOk cfg tx status.ackSn (status.goodNacks cfg tx)) :
    (finishMerge cfg status.ackSn (status.merge cfg tx)).commit.WaitEndExact := by
  obtain ⟨hi, ht, hstay⟩ := tail_merge hinv hend hack
  obtain ⟨⟨hframe, hfront, lw, hlw, he⟩, hhead, -⟩ :=
    finishMerge_induct (@finishRule_tail cfg tx status.ackSn hend hinv.parts.waitList_nodup
      (status.merge cfg tx) hi.lists.curWait) ⟨hi.lists.frame, rfl, [], rfl, by simp⟩
  obtain ⟨hm, -, -⟩ := finishMerge_induct (finishRule_inv hinv) hi
  unfold AmTx.WaitEndExact
  rw [(commit_spec hm).1]
  by_cases hcur : (finishMerge cfg status.ackSn (status.merge cfg tx)).curWait = []
  · rw [hcur, List.append_nil]
    by_cases hlw0 : lw = []
    · rw [hlw0, if_neg (by simp)] at he
      exact waitEnd_decided hinv hend hack hok rfl ht hm (by rw [hlw, hlw0, hcur]; rfl)
        (hfront.trans hstay) hfront he
    · refine commit_waitEnd_prev ?_
      rw [he, if_pos ⟨hlw0, hcur⟩]
      simp [Merge.prevWait, hfront]
  · rw [if_neg (by simp [hcur])] at he
    have hnone := endWait_none_of_stays hinv hok ht hlw hcur hhead
    rw [commit_waitEnd_none hframe (he.trans hnone), hend, ht.wait, hlw, ← List.append_assoc,
      List.getLast?_append_of_ne_nil _ hcur, List.getLast?_append_of_ne_nil _ hcur]

end Exact

/-! ## Whole runs -/

/-- A STATUS PDU does no harm to the order of the lists and to `wait_end`. -/
def OrderedStatus (e : AmEntity) : Op → Prop
  | .recvPdu buffer => isControlPdu buffer → ∀ status, decodeStatus e.cfg buffer = some status →
      (status.goodNacks e.cfg e.tx ≠ [] → e.tx.OrderAgrees e.cfg) ∧
        TailOk e.cfg e.tx status.ackSn (status.goodNacks e.cfg e.tx)
  | _ => True

/-- A check of the condition. -/
def orderedCheck (e : AmEntity) : Op → Bool
  | .recvPdu buffer => (decodeStatus e.cfg buffer).all fun status =>
      decide ((status.goodNacks e.cfg e.tx ≠ [] → e.tx.OrderAgrees e.cfg) ∧
        TailOk e.cfg e.tx status.ackSn (status.goodNacks e.cfg e.tx))
  | _ => true

theorem orderedStatus_of_check (e : AmEntity) (op : Op) (h : orderedCheck e op = true) :
    OrderedStatus e op := by
  cases op with
  | recvPdu buffer =>
      intro _ status hd
      rw [orderedCheck, hd, Option.all_some, decide_eq_true_eq] at h
      exact h
  | _ => trivial

/-- Strictly sorted by SN and SO. -/
def segLt (M b : ℤ) (sn : Segment → ℤ) (s s' : Segment) : Prop :=
  rel M b (sn s) < rel M b (sn s') ∨ (sn s = sn s' ∧ s.so < s'.so)

section Runs

variable {cfg : AmConfig} {tx tx' : AmTx} {lost : List Segment} {events : List Event}
  {e e' : AmEntity} {op : Op}

/-- Segments in order are strictly in order: no two of an SDU have the same SO. -/
theorem pairwise_segLt (h : tx.Inv cfg lost) {l : List Segment} (hl : ∀ s ∈ l, s ∈ tx.outstanding)
    (hnd : (l.map Segment.addr).Nodup)
    (hsort : l.Pairwise (segLe cfg.snModulus tx.txNextAck tx.sn)) :
    l.Pairwise (segLt cfg.snModulus tx.txNextAck tx.sn) := by
  have hmem : ∀ s ∈ tx.outstanding, s ∈ tx.segments lost := by
    intro s hs
    simp only [AmTx.outstanding, AmTx.segments, List.mem_append] at hs ⊢
    tauto
  have hboth := hsort.and (List.Nodup.of_map _ hnd)
  refine hboth.imp_of_mem ?_
  rintro s s' hs hs' ⟨hle | ⟨hsn, hso⟩, hne⟩
  · exact .inl hle
  · refine .inr ⟨hsn, lt_of_le_of_ne hso fun heq => hne ?_⟩
    have hsdu := h.snInv.sn_inj s (List.mem_append_left _ (hl s hs)) s'
      (List.mem_append_left _ (hl s' hs')) hsn
    exact h.parts.eq_of_so (hmem s (hl s hs)) (hmem s' (hl s' hs')) hsdu.symm heq.symm

/-- **`retransmit_list` after a STATUS PDU.** -/
theorem commit_retxOrder {status : StatusPdu} (hinv : tx.Inv cfg lost) (hs : tx.RetxSorted cfg)
    (hack : 0 ≤ status.ackSn ∧ status.ackSn < cfg.snModulus)
    (ho : status.goodNacks cfg tx ≠ [] → tx.OrderAgrees cfg) {events : List Event}
    (hf : finishStatus cfg status.ackSn (status.merge cfg tx) = (tx', events)) :
    tx'.RetxSorted cfg := by
  obtain ⟨pre, now, hsw⟩ := sweptTo_merge cfg tx status
  have hsort := merge_retxSorted hinv hs ho hsw
  obtain ⟨hm, -, hheadr⟩ := finishMerge_induct (finishRule_inv hinv) (inv_merge hinv hack)
  obtain ⟨lw, lr, hfin, -, -⟩ := @finished_finishMerge cfg tx _ hsw.lists.frame status.ackSn
  obtain ⟨-, hrel, -⟩ := commit_rebase hinv hack hm hheadr
  obtain ⟨-, hr, -, -, -, -, -, hsn, -⟩ := commit_spec hm
  rw [finishStatus_eq] at hf
  injection hf with hf _
  rw [← hf]
  have hsub : (finishMerge cfg status.ackSn (status.merge cfg tx)).commit.retransmitList.Sublist
      ((status.merge cfg tx).newRetx ++
        ((status.merge cfg tx).curRetx ++ (status.merge cfg tx).retxRest)) := by
    rw [hr, hfin.newRetx, hfin.retx]
    refine List.Sublist.append_left ?_ _
    exact (List.sublist_append_right _ _).trans (List.sublist_append_left _ _)
  refine (hsort.sublist hsub).imp_of_mem fun {s s'} hs hs' hle => ?_
  show segLe cfg.snModulus _ (finishMerge cfg status.ackSn (status.merge cfg tx)).commit.sn s s'
  rw [show (finishMerge cfg status.ackSn (status.merge cfg tx)).commit.sn = tx.sn from funext hsn]
  exact segLe_rebase (hrel s (List.mem_append_right _ hs)) (hrel s' (List.mem_append_right _ hs')) hle

theorem lists_amStep (h : ∃ lost, e.tx.Inv e.cfg lost ∧ e.tx.RetxSorted e.cfg ∧ e.tx.WaitEndExact)
    (hfree : ErrorFreeStatus e op) (ho : OrderedStatus e op)
    (hs : amStep e op = .ok (e', events)) :
    ∃ lost, e'.tx.Inv e'.cfg lost ∧ e'.tx.RetxSorted e'.cfg ∧ e'.tx.WaitEndExact := by
  obtain ⟨lost, hinv, hsort, hend⟩ := h
  obtain ⟨hcfg, ⟨buffer, rfl, hctl, hc⟩ | hk⟩ := amStep_tx hinv hs
  · obtain ⟨status, hd, hfin⟩ := processControlPdu_done (recvControlPdu_errorFree (hfree hctl) hc)
    obtain ⟨horder, htail⟩ := ho hctl status hd
    have hack := decodeStatus_ackSn hd
    rw [hcfg]
    refine ⟨_, (inv_control hinv hd hfin).1, commit_retxOrder hinv hsort hack horder hfin, ?_⟩
    have := commit_waitEndExact hinv hend hack htail
    rw [finishStatus_eq] at hfin
    injection hfin with hfin _
    rw [← hfin]
    exact this
  · rw [hcfg]
    exact ⟨lost, hk.inv, hk.retxSorted hsort, hk.waitEnd hend⟩

end Runs

/-- **List tails and order.** In a run with error-free STATUS PDUs that do no harm to the order of
the lists and to `wait_end`, `wait_end` and `tx_end` are the last nodes of their lists and `NULL`
if these are empty, and `wait_list` and `retransmit_list` are strictly sorted by SN, relative to
`tx_next_ack`, and SO. -/
theorem list_tails (cfg : AmConfig) (ops : List Op) (e : AmEntity) (events : List Event)
    (hrun : amRun (newAmEntity cfg) ops = .ok (e, events))
    (hfree : Machine.Along amStep ErrorFreeStatus (newAmEntity cfg) ops)
    (hordered : Machine.Along amStep OrderedStatus (newAmEntity cfg) ops) :
    e.tx.waitEnd = e.tx.waitList.getLast?.map Segment.addr ∧
      e.tx.txEnd = e.tx.txList.getLast?.map Segment.addr ∧
      e.tx.waitList.Pairwise (segLt e.cfg.snModulus e.tx.txNextAck e.tx.sn) ∧
      e.tx.retransmitList.Pairwise (segLt e.cfg.snModulus e.tx.txNextAck e.tx.sn) := by
  have hinit : (newAmEntity cfg).tx.RetxSorted cfg := List.Pairwise.nil
  obtain ⟨lost, hinv, hsort, hend⟩ := @Machine.run_invariant _ _ _ _ amStep
    (fun e op => ErrorFreeStatus e op ∧ OrderedStatus e op)
    (fun e => ∃ lost, e.tx.Inv e.cfg lost ∧ e.tx.RetxSorted e.cfg ∧ e.tx.WaitEndExact)
    (fun _ _ _ _ hI hop hs => lists_amStep hI hop.1 hop.2 hs) (newAmEntity cfg) _ _ _
    ⟨[], inv_newTx cfg, hinit, rfl⟩ (Machine.along_and hfree hordered) hrun
  refine ⟨hend, hinv.snInv.txEnd_eq, ?_, ?_⟩
  · exact pairwise_segLt hinv (fun s hs => List.mem_append_left _ hs) hinv.parts.waitList_nodup
      hinv.snInv.waitSorted
  · refine pairwise_segLt hinv (fun s hs => List.mem_append_right _ hs) ?_ hsort
    refine List.Nodup.sublist (List.Sublist.map _ ?_) hinv.parts.addr_nodup
    simp only [AmTx.segments]
    grind

/-- Five SDUs are sent. A STATUS NACKs SNs 0 and 2 and acks SN 1, SN 0 is retransmitted, a STATUS NACKs
SNs 2 and 3 and acks SN 0, and SN 2 is retransmitted. -/
def nackedOps : List Op :=
  [.recvSdu [0xaa] 0, .recvSdu [0xaa] 1, .recvSdu [0xaa] 2, .recvSdu [0xaa] 3, .recvSdu [0xaa] 4,
    .generatePdu [0, 0, 0], .generatePdu [0, 0, 0], .generatePdu [0, 0, 0], .generatePdu [0, 0, 0],
    .generatePdu [0, 0, 0], .recvPdu [0x00, 0x03, 0x80, 0x00, 0x08, 0x00, 0x20],
    .generatePdu [0, 0, 0], .recvPdu [0x00, 0x04, 0x80, 0x00, 0x28, 0x00, 0x30],
    .generatePdu [0, 0, 0]]

/-- SNs 2 and 4 wait, and SN 3 is to be retransmitted. -/
theorem list_tails_nacked :
    ∃ e events, amRun (newAmEntity testConfig) nackedOps = .ok (e, events) ∧
      (e.tx.waitList.map e.tx.sn = [2, 4] ∧ e.tx.retransmitList.map e.tx.sn = [3]) ∧
      e.tx.waitEnd = e.tx.waitList.getLast?.map Segment.addr ∧
      e.tx.txEnd = e.tx.txList.getLast?.map Segment.addr ∧
      e.tx.waitList.Pairwise (segLt e.cfg.snModulus e.tx.txNextAck e.tx.sn) ∧
      e.tx.retransmitList.Pairwise (segLt e.cfg.snModulus e.tx.txNextAck e.tx.sn) := by
  exact ⟨_, _, rfl, by decide +kernel, list_tails testConfig nackedOps _ _ rfl
    (Machine.along_of_check errorFreeStatus_of_check (by decide +kernel))
    (Machine.along_of_check orderedStatus_of_check (by decide +kernel))⟩

/-- SNs 0 and 1 of three SDUs are NACKed and SN 0 is retransmitted; the next STATUS NACKs SN 1
only. SN 0 is acked while SN 2 is the next and last node of `wait_list`, and stays there:
`wait_end` is `NULL`. -/
theorem wait_end_lost :
    ¬ ∀ (cfg : AmConfig) (ops : List Op) (e : AmEntity) (events : List Event),
      amRun (newAmEntity cfg) ops = .ok (e, events) →
      Machine.Along amStep ErrorFreeStatus (newAmEntity cfg) ops →
      e.tx.waitEnd = e.tx.waitList.getLast?.map Segment.addr ∧
        e.tx.txEnd = e.tx.txList.getLast?.map Segment.addr ∧
        e.tx.waitList.Pairwise (segLt e.cfg.snModulus e.tx.txNextAck e.tx.sn) ∧
        e.tx.retransmitList.Pairwise (segLt e.cfg.snModulus e.tx.txNextAck e.tx.sn) := by
  intro h
  have hc := h testConfig [.recvSdu [0xaa] 0, .recvSdu [0xaa] 1, .recvSdu [0xaa] 2,
      .generatePdu [0, 0, 0], .generatePdu [0, 0, 0], .generatePdu [0, 0, 0],
      .recvPdu [0x00, 0x02, 0x80, 0x00, 0x08, 0x00, 0x10], .generatePdu [0, 0, 0],
      .recvPdu [0x00, 0x02, 0x80, 0x00, 0x10]] _ _ rfl
    (Machine.along_of_check errorFreeStatus_of_check (by decide +kernel))
  exact absurd hc.1 (by decide +kernel)

end OaiCu.NrRlc
