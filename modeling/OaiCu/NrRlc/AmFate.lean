import OaiCu.NrRlc.AmErr
import OaiCu.NrRlc.AmTail

/-!
# RLC AM: what a STATUS PDU does to every segment

When the comparison of the list heads agrees with the order relative to `tx_next_ack` and the
NACKs are in order, the sweep gives every segment its due: those that a NACK hits are to be
retransmitted, the others below `ACK_SN` are freed, and the rest stays where it is.
-/

namespace OaiCu.NrRlc

open Serial

/-! ## NACKs in order -/

/-- The second NACK starts after the first one. -/
def Nack.Before (cfg : AmConfig) (tx : AmTx) (p n : Nack) : Prop :=
  snCompareTx cfg tx p.sn n.sn < 0 ∨
    (p.sn = n.sn ∧ p.soEnd ≠ -1 ∧ p.soStart < n.soStart ∧ p.soEnd < n.soStart)

instance (cfg : AmConfig) (tx : AmTx) (p n : Nack) : Decidable (p.Before cfg tx n) := by
  unfold Nack.Before; infer_instance

/-- All NACKs of a STATUS PDU, one for each SN. -/
def StatusPdu.nacks (cfg : AmConfig) (status : StatusPdu) : List Nack :=
  status.blocks.flatMap (NackBlock.nacks cfg)

/-- The NACKs are strictly increasing and not above `ACK_SN`. -/
structure StatusPdu.Ordered (cfg : AmConfig) (tx : AmTx) (status : StatusPdu) : Prop where
  sorted : (status.nacks cfg).Pairwise (Nack.Before cfg tx)
  le_ack : ∀ n ∈ status.nacks cfg, snCompareTx cfg tx n.sn status.ackSn ≤ 0

section Fate

variable {cfg : AmConfig} {tx : AmTx} {ackSn : ℤ} {n n' p : Nack} {gs : List Nack}
  {s s' : Segment}

theorem badNack_of_before (h : p.Before cfg tx n) (hack : snCompareTx cfg tx n.sn ackSn ≤ 0) :
    badNack cfg tx ackSn (some p) n = false := by
  simp only [badNack, Bool.or_eq_false_iff, decide_eq_false_iff_not, not_or, not_and, not_lt,
    not_le]
  refine ⟨?_, hack⟩
  rcases h with h | ⟨h1, h2, -, h3⟩
  · unfold snCompareTx at *
    omega
  · rw [h1]
    exact ⟨by simp [snCompareTx], fun _ => ⟨h2, h3⟩⟩

/-- NACKs in order are all processed. -/
theorem goodNacks_eq (prev : Option Nack) (h : gs.Pairwise (Nack.Before cfg tx))
    (hack : ∀ n ∈ gs, snCompareTx cfg tx n.sn ackSn ≤ 0)
    (hprev : ∀ p ∈ prev, ∀ n ∈ gs.head?, p.Before cfg tx n) :
    goodNacks cfg tx ackSn prev gs = gs := by
  induction gs generalizing prev with
  | nil => rfl
  | cons n gs ih =>
      obtain ⟨hn, hgs⟩ := List.pairwise_cons.mp h
      have hgood : badNack cfg tx ackSn prev n = false := by
        have hle := hack n List.mem_cons_self
        cases prev with
        | none => simpa [badNack] using hle
        | some p => exact badNack_of_before (hprev p rfl n (by simp)) hle
      rw [goodNacks_cons hgood, ih (some n) hgs (fun x hx => hack x (List.mem_cons_of_mem _ hx))]
      rintro p hp x hx
      rw [Option.mem_some_iff] at hp
      subst hp
      exact hn x (List.mem_of_mem_head? hx)

theorem StatusPdu.Ordered.goodNacks {status : StatusPdu} (h : status.Ordered cfg tx) :
    status.goodNacks cfg tx = status.nacks cfg :=
  goodNacks_eq none h.sorted h.le_ack (by simp)

/-! ## Fates -/

/-- Behind a segment that comes after the NACK, all do. -/
theorem undecided_mono {lost : List Segment} (hinv : tx.Inv cfg lost) (hn : 0 ≤ n.sn ∧ n.sn < cfg.snModulus)
    (hs : s ∈ tx.outstanding) (hs' : s' ∈ tx.outstanding)
    (hle : segLe cfg.snModulus tx.txNextAck tx.sn s s')
    (h : verdict cfg tx ackSn n s = .undecided) : verdict cfg tx ackSn n s' = .undecided := by
  have hta := hinv.snInv.txNextAck_range
  have hr := hinv.snInv.sn_range s (List.mem_append_left _ hs)
  have hr' := hinv.snInv.sn_range s' (List.mem_append_left _ hs')
  unfold verdict at h ⊢
  rw [snCompareTx_eq hta hr hn] at h
  rw [snCompareTx_eq hta hr' hn]
  split_ifs at h with h1 h2 h3
  have hself : ∀ x y : ℤ, x = y → rel cfg.snModulus tx.txNextAck x = rel cfg.snModulus tx.txNextAck y :=
    fun x y hxy => by rw [hxy]
  have hno : ¬ (tx.sn s' = n.sn ∧
      soOverlap n.soStart n.soEnd s'.so ((s'.so : ℤ) + s'.size - 1) = true) := by
    rintro ⟨heq, hov⟩
    have := hself _ _ heq
    rcases h2 with h2 | ⟨h2, hso⟩
    · have := segLe_sn hle
      omega
    · rcases hle with hle | ⟨hsn, hle⟩
      · have := hself _ _ h2
        omega
      · -- the NACK ends before the first segment starts
        refine h1 ⟨h2, ?_⟩
        unfold soOverlap at hov ⊢
        rw [if_pos (by omega)] at hov ⊢
        simp only [decide_eq_true_eq] at hov ⊢
        omega
  rw [if_neg hno, if_pos]
  rcases h2 with h2 | ⟨h2, hso⟩
  · have := segLe_sn hle
    omega
  · rcases hle with hle | ⟨hsn, hle⟩
    · have := hself _ _ h2
      omega
    · right
      exact ⟨hsn ▸ h2, by omega⟩

/-- A segment that a later NACK hits is not decided otherwise by an earlier one. -/
theorem verdict_of_later_hit (hb : p.Before cfg tx n) (h : n.Hits tx s) :
    verdict cfg tx ackSn p s = .nacked ∨ verdict cfg tx ackSn p s = .undecided := by
  obtain ⟨hsn, hov⟩ := h
  unfold verdict
  split_ifs with h1 h2 h3
  · exact .inl rfl
  · exact .inr rfl
  all_goals
    exfalso
    rw [not_or] at h2
    rcases hb with hb | ⟨heq, hne, hst, hen⟩
    · rw [hsn] at h2
      unfold snCompareTx at hb h2
      omega
    · have hso : ¬ ((s.so : ℤ) > p.soStart) := fun hgt => h2.2 ⟨hsn.trans heq.symm, hgt⟩
      unfold soOverlap at h1 hov
      rw [if_neg (by omega)] at h1 hov
      simp only [decide_eq_true_eq, not_and] at h1 hov
      have := h1 (hsn.trans heq.symm)
      omega

/-- A segment that a NACK hits is found to be. -/
theorem fate_of_hit {x : Look} (h : gs.Pairwise (Nack.Before cfg tx)) (hn : n ∈ gs)
    (hit : n.Hits tx x.2) : Sweep.fate (fun v => v == Verdict.undecided)
      (fun n (x : Look) => verdict cfg tx ackSn n x.2) gs x = some .nacked := by
  induction gs with
  | nil => cases hn
  | cons p gs ih =>
      obtain ⟨hp, hgs⟩ := List.pairwise_cons.mp h
      have hcases : verdict cfg tx ackSn p x.2 = .nacked ∨
          (verdict cfg tx ackSn p x.2 = .undecided ∧ n ∈ gs) := by
        rcases List.mem_cons.mp hn with rfl | hn
        · exact .inl (verdict_eq_nacked.mpr hit)
        · exact (verdict_of_later_hit (hp n hn) hit).imp id fun hv => ⟨hv, hn⟩
      rw [Sweep.fate]
      rcases hcases with hv | ⟨hv, hn⟩
      · simp [hv]
      · rw [if_pos (by simp [hv])]
        exact ih hgs hn

/-- **The sweep finds exactly the segments that are NACKed.** -/
theorem sweepOf_hits {lost : List Segment} (hinv : tx.Inv cfg lost) (hs : tx.RetxSorted cfg)
    (ho : gs ≠ [] → tx.OrderAgrees cfg) (hgs : gs.Pairwise (Nack.Before cfg tx))
    (hr : ∀ n ∈ gs, 0 ≤ n.sn ∧ n.sn < cfg.snModulus) :
    (∀ p ∈ (sweepOf cfg tx ackSn gs).1, p.2 = .nacked ↔ ∃ n ∈ gs, n.Hits tx p.1.2) ∧
      ∀ x ∈ (sweepOf cfg tx ackSn gs).2, ¬ ∃ n ∈ gs, n.Hits tx x.2 := by
  by_cases hnil : gs = []
  · subst hnil
    simp [sweepOf, Sweep.sweep]
  · have hmem : ∀ x ∈ lookOrder tx tx.waitList tx.retransmitList, x.2 ∈ tx.outstanding := by
      intro x hx
      rcases mem_lookOrder.mp hx with ⟨-, hx⟩ | ⟨-, hx⟩
      · exact List.mem_append_left _ hx
      · exact List.mem_append_right _ hx
    obtain ⟨h1, h2⟩ := @Sweep.sweep_fate _ _ _ (fun v => v == Verdict.undecided)
      (fun n (x : Look) => verdict cfg tx ackSn n x.2) gs _ _ (lookOrder_sorted hinv hs (ho hnil))
      (by
        intro n hn x hx y hy hle hv
        simp only [beq_iff_eq] at hv ⊢
        exact undecided_mono hinv (hr n hn) (hmem x hx) (hmem y hy) hle hv)
    refine ⟨fun p hp => ⟨fun hv => ?_, ?_⟩, ?_⟩
    · obtain ⟨-, n, hn, hv'⟩ := sweepOf_verdict cfg tx ackSn gs p hp
      exact ⟨n, hn, verdict_eq_nacked.mp (hv'.symm.trans hv)⟩
    · rintro ⟨n, hn, hit⟩
      have := h1 p hp
      rw [fate_of_hit hgs hn hit] at this
      exact (Option.some.inj this).symm
    · rintro x hx ⟨n, hn, hit⟩
      have := h2 x hx
      rw [fate_of_hit hgs hn hit] at this
      cases this

end Fate

/-! ## Every segment gets its due -/

/-- Some NACK hits the segment. -/
def isNacked (tx : AmTx) (nacks : List Nack) (s : Segment) : Bool :=
  nacks.any fun n => decide (n.Hits tx s)

/-- The SN of the segment is below `ACK_SN`. -/
def isBelow (cfg : AmConfig) (tx : AmTx) (ackSn : ℤ) (s : Segment) : Bool :=
  decide (snCompareTx cfg tx (tx.sn s) ackSn < 0)

/-- Every segment gets its due: those that are NACKed are to be retransmitted, the others below
`ACK_SN` are freed and counted as such for their SDU, the rest stays where it is. -/
structure Classified (cfg : AmConfig) (ackSn : ℤ) (nacks : List Nack) (tx tx' : AmTx) : Prop where
  waitList : tx'.waitList =
    tx.waitList.filter fun s => !isNacked tx nacks s && !isBelow cfg tx ackSn s
  retransmitList : tx'.retransmitList.Perm (tx.waitList.filter (isNacked tx nacks) ++
    tx.retransmitList.filter fun s => isNacked tx nacks s || !isBelow cfg tx ackSn s)
  freed : ∃ l, tx'.freed = tx.freed ++ l ∧ l.Perm ((tx.waitList ++ tx.retransmitList).filter
    fun s => isBelow cfg tx ackSn s && !isNacked tx nacks s) ∧
    ∀ i < tx.nextSdu, (tx'.heap i).freeCount = (tx.heap i).freeCount + sduCount l i
  txList : tx'.txList = tx.txList

section Classified

variable {cfg : AmConfig} {tx tx' : AmTx} {lost : List Segment} {ackSn : ℤ} {gs : List Nack}
  {buffer : List UInt8}

/-- The decided segments by what they are. -/
structure Decided (cfg : AmConfig) (tx : AmTx) (ackSn : ℤ) (gs : List Nack)
    (p : Look × Verdict) : Prop where
  nacked : (p.2 == .nacked) = isNacked tx gs p.1.2
  acked : (p.2 == .acked) = (isBelow cfg tx ackSn p.1.2 && !isNacked tx gs p.1.2)
  unacked : (p.2 == .unacked) = (!isNacked tx gs p.1.2 && !isBelow cfg tx ackSn p.1.2)

theorem decided_sweepOf (h : ∀ p ∈ (sweepOf cfg tx ackSn gs).1,
      p.2 = .nacked ↔ ∃ n ∈ gs, n.Hits tx p.1.2) :
    ∀ p ∈ (sweepOf cfg tx ackSn gs).1, Decided cfg tx ackSn gs p := by
  intro p hp
  obtain ⟨hne, n, -, hv⟩ := sweepOf_verdict cfg tx ackSn gs p hp
  have hnk : isNacked tx gs p.1.2 = true ↔ p.2 = .nacked := by
    rw [h p hp]
    simp [isNacked]
  cases hp2 : p.2 with
  | undecided => exact absurd hp2 hne
  | nacked =>
      have h1 := hnk.mpr hp2
      exact ⟨by simp [h1, hp2], by simp [h1, hp2], by simp [h1, hp2]⟩
  | acked =>
      have h1 : isNacked tx gs p.1.2 = false := by
        rw [Bool.eq_false_iff, Ne, hnk, hp2]
        decide
      have h2 : isBelow cfg tx ackSn p.1.2 = true :=
        decide_eq_true (verdict_acked (hv.symm.trans hp2))
      exact ⟨by simp [h1, hp2], by simp [h1, h2, hp2], by simp [h1, h2, hp2]⟩
  | unacked =>
      have h1 : isNacked tx gs p.1.2 = false := by
        rw [Bool.eq_false_iff, Ne, hnk, hp2]
        decide
      have h2 : isBelow cfg tx ackSn p.1.2 = false :=
        decide_eq_false (verdict_unacked (hv.symm.trans hp2)).2
      exact ⟨by simp [h1, hp2], by simp [h1, h2, hp2], by simp [h1, h2, hp2]⟩

/-- Decided segments chosen by list and verdict, one list after the other. -/
theorem pick_bySrc (f : Src → Verdict → Bool) (d : List (Look × Verdict)) : (pick f d).Perm
    (((d.filter fun p => p.1.1 == .wait).filter fun p => f .wait p.2).map (fun p => p.1.2) ++
      ((d.filter fun p => p.1.1 == .retx).filter fun p => f .retx p.2).map fun p => p.1.2) := by
  induction d with
  | nil => exact List.Perm.refl _
  | cons p d ih =>
      obtain ⟨⟨s, x⟩, v⟩ := p
      simp only [pick] at ih ⊢
      cases s with
      | wait =>
          cases hf : f .wait v with
          | false => simpa [hf] using ih
          | true => simpa [hf] using ih
      | retx =>
          cases hf : f .retx v with
          | false => simpa [hf] using ih
          | true => simpa [hf] using (ih.cons x).trans List.perm_middle.symm

/-- Segments of one list chosen by their verdict are those chosen by what they are. -/
theorem filter_decided {d : List (Look × Verdict)} {src : Src} {f : Verdict → Bool}
    {g : Segment → Bool} (h : ∀ p ∈ d, f p.2 = g p.1.2) :
    ((d.filter fun p => p.1.1 == src).filter fun p => f p.2).map (fun p => p.1.2) =
      (ofSrc src (d.map Prod.fst)).filter g := by
  rw [ofSrc_map, List.filter_map]
  congr 1
  exact List.filter_congr fun p hp => h p (List.mem_filter.mp hp).1

/-- What remains of a list that is sorted by SN is not below `ACK_SN` when its head is not. -/
theorem not_below_of_head (hinv : tx.Inv cfg lost) {l : List Segment}
    (hl : ∀ s ∈ l, s ∈ tx.outstanding) (hsort : l.Pairwise fun s s' =>
      rel cfg.snModulus tx.txNextAck (tx.sn s) ≤ rel cfg.snModulus tx.txNextAck (tx.sn s'))
    (hhead : HeadUnacked cfg tx ackSn l) : ∀ s ∈ l, isBelow cfg tx ackSn s = false := by
  intro s hs
  refine decide_eq_false ?_
  cases l with
  | nil => cases hs
  | cons x l =>
      have hx := hhead x (by simp)
      rcases List.mem_cons.mp hs with rfl | hs'
      · exact hx
      · have hle := (List.pairwise_cons.mp hsort).1 s hs'
        have hcmp := snCompareTx_eq hinv.snInv.txNextAck_range
          (hinv.snInv.sn_range x (List.mem_append_left _ (hl x (by simp))))
          (hinv.snInv.sn_range s (List.mem_append_left _ (hl s hs)))
        unfold snCompareTx at *
        omega

/-- What the NACKs did not decide, when its front is acked after them. -/
theorem filter_undecided {l late rest : List Segment} (hl : l = late ++ rest)
    (hnk : ∀ s ∈ l, isNacked tx gs s = false) (hlate : ∀ s ∈ late, isBelow cfg tx ackSn s = true)
    (hrest : ∀ s ∈ rest, isBelow cfg tx ackSn s = false) :
    l.filter (isNacked tx gs) = [] ∧
      l.filter (fun s => !isNacked tx gs s && !isBelow cfg tx ackSn s) = rest ∧
      l.filter (fun s => isNacked tx gs s || !isBelow cfg tx ackSn s) = rest ∧
      l.filter (fun s => isBelow cfg tx ackSn s && !isNacked tx gs s) = late := by
  subst hl
  refine ⟨List.filter_eq_nil_iff.mpr fun s hs => by simp [hnk s hs], ?_, ?_, ?_⟩
  · rw [List.filter_append, List.filter_eq_nil_iff.mpr fun s hs => by simp [hlate s hs],
      List.filter_eq_self.mpr fun s hs => by simp [hnk s (by simp [hs]), hrest s hs], List.nil_append]
  · rw [List.filter_append, List.filter_eq_nil_iff.mpr fun s hs => by
      simp [hlate s hs, hnk s (by simp [hs])],
      List.filter_eq_self.mpr fun s hs => by simp [hrest s hs], List.nil_append]
  · rw [List.filter_append, List.filter_eq_self.mpr fun s hs => by
      simp [hlate s hs, hnk s (by simp [hs])],
      List.filter_eq_nil_iff.mpr fun s hs => by simp [hrest s hs], List.append_nil]

theorem nacks_range (cfg : AmConfig) (status : StatusPdu) :
    ∀ n ∈ status.nacks cfg, 0 ≤ n.sn ∧ n.sn < cfg.snModulus := by
  intro n hn
  obtain ⟨b, -, hn⟩ := List.mem_flatMap.mp hn
  obtain ⟨i, -, rfl⟩ := List.mem_map.mp hn
  have hM := cfg.snModulus_pos
  exact ⟨Int.emod_nonneg _ hM.ne', Int.emod_lt_of_pos _ hM⟩

/-- Without the speedup the merge is the whole sweep. -/
structure Merge.SweptAll (cfg : AmConfig) (tx : AmTx) (ackSn : ℤ) (gs : List Nack) (m : Merge) :
    Prop where
  waitFront : m.waitFront = stays (sweepOf cfg tx ackSn gs).1
  newRetx : m.newRetx = kept (sweepOf cfg tx ackSn gs).1
  freed : m.tx.freed = tx.freed ++ acked (sweepOf cfg tx ackSn gs).1
  rest : (sweepOf cfg tx ackSn gs).2 = lookOrder tx m.curWait m.curRetx
  wait : tx.waitList = ofSrc .wait ((sweepOf cfg tx ackSn gs).1.map Prod.fst) ++ m.curWait
  retx : tx.retransmitList = ofSrc .retx ((sweepOf cfg tx ackSn gs).1.map Prod.fst) ++ m.curRetx

theorem sweptAll_of_rest {m : Merge} {pre : List Nack} {now : List (Look × Verdict)}
    (h : m.SweptTo cfg tx ackSn gs gs pre now) (hrest : m.retxRest = []) :
    m.SweptAll cfg tx ackSn gs := by
  obtain ⟨more, hD, hahead, hmore, -⟩ := sweepOf_of_sweptTo h
  rw [hmore hrest, List.append_nil] at hD
  obtain ⟨hw, hr⟩ := lists_of_sweptTo h
  rw [hrest, List.append_nil] at hr
  rw [hmore hrest, hrest, List.append_nil, List.map_nil, List.nil_append] at hahead
  rw [← hD] at hw hr
  exact ⟨hD ▸ h.swept.waitFront, hD ▸ h.swept.newRetx, hD ▸ h.swept.freed, hahead, hw.symm, hr.symm⟩

/-- What the NACKs do not decide is not NACKed. -/
theorem Merge.SweptAll.not_nacked {m : Merge} (h : m.SweptAll cfg tx ackSn gs)
    (hmiss : ∀ x ∈ (sweepOf cfg tx ackSn gs).2, ¬ ∃ n ∈ gs, n.Hits tx x.2) {s : Segment}
    (hs : s ∈ m.curWait ∨ s ∈ m.curRetx) : isNacked tx gs s = false := by
  have hx : ∃ src, (src, s) ∈ (sweepOf cfg tx ackSn gs).2 := by
    rw [h.rest]
    rcases hs with hs | hs
    · exact ⟨.wait, mem_lookOrder.mpr (.inl ⟨rfl, hs⟩)⟩
    · exact ⟨.retx, mem_lookOrder.mpr (.inr ⟨rfl, hs⟩)⟩
  obtain ⟨src, hx⟩ := hx
  simpa [isNacked] using hmiss _ hx

/-- The lists after the merge, by what the segments are. -/
theorem classified_lists {m₀ m : Merge} {lw lr : List Segment} (hinv : tx.Inv cfg lost)
    (hsw : m₀.SweptAll cfg tx ackSn gs)
    (hit : ∀ p ∈ (sweepOf cfg tx ackSn gs).1, p.2 = .nacked ↔ ∃ n ∈ gs, n.Hits tx p.1.2)
    (hmiss : ∀ x ∈ (sweepOf cfg tx ackSn gs).2, ¬ ∃ n ∈ gs, n.Hits tx x.2)
    (hfin : m₀.Finished cfg tx ackSn m lw lr) (hm : m.Lists tx)
    (hheadw : HeadUnacked cfg tx ackSn m.curWait) (hheadr : HeadUnacked cfg tx ackSn m.curRetx) :
    m.waitFront ++ m.curWait =
        tx.waitList.filter (fun s => !isNacked tx gs s && !isBelow cfg tx ackSn s) ∧
      (m.newRetx ++ m.curRetx).Perm (tx.waitList.filter (isNacked tx gs) ++
        tx.retransmitList.filter fun s => isNacked tx gs s || !isBelow cfg tx ackSn s) ∧
      ∃ l, m.tx.freed = tx.freed ++ l ∧ l.Perm ((tx.waitList ++ tx.retransmitList).filter
        fun s => isBelow cfg tx ackSn s && !isNacked tx gs s) := by
  have hdec := decided_sweepOf hit
  have hlate : ∀ s ∈ lw ++ lr, isBelow cfg tx ackSn s = true :=
    fun s hs => decide_eq_true (hfin.acked s hs)
  obtain ⟨hw1, hw2, -, hw4⟩ := filter_undecided hfin.wait
    (fun s hs => hsw.not_nacked hmiss (.inl hs)) (fun s hs => hlate s (List.mem_append_left _ hs))
    (not_below_of_head hinv (fun s hs => List.mem_append_left _
      (hm.wait.subset (List.mem_append_right _ hs))) ((hinv.snInv.waitSorted.sublist
      ((List.sublist_append_right _ _).trans hm.wait)).imp segLe_sn) hheadw)
  obtain ⟨-, -, hr3, hr4⟩ := filter_undecided hfin.retx
    (fun s hs => hsw.not_nacked hmiss (.inr hs)) (fun s hs => hlate s (List.mem_append_right _ hs))
    (not_below_of_head hinv (fun s hs => List.mem_append_right _
      (hm.retx.subset (List.mem_append_left _ hs))) (hinv.retxSorted.sublist
      ((List.sublist_append_left _ _).trans hm.retx.sublist)) hheadr)
  refine ⟨?_, ?_, ?_⟩
  · rw [hfin.waitFront, hsw.waitFront, stays_eq, hsw.wait, List.filter_append, hw2]
    congr 1
    exact filter_decided (f := fun v => v == .unacked) fun p hp => (hdec p hp).unacked
  · rw [hfin.newRetx, hsw.newRetx, hsw.wait, hsw.retx, List.filter_append, List.filter_append, hw1,
      hr3, List.append_nil, ← List.append_assoc]
    refine List.Perm.append_right _ ((pick_bySrc _ _).trans (List.Perm.of_eq ?_))
    congr 1
    · refine filter_decided (f := fun v => v == .nacked || (Src.wait == .retx && v == .unacked)) ?_
      intro p hp
      simp [(hdec p hp).nacked]
    · refine filter_decided (f := fun v => v == .nacked || (Src.retx == .retx && v == .unacked)) ?_
      intro p hp
      rw [(hdec p hp).nacked, (hdec p hp).unacked]
      cases isNacked tx gs p.1.2 <;> simp
  · obtain ⟨l, hl, hperm⟩ := hfin.freed
    refine ⟨acked (sweepOf cfg tx ackSn gs).1 ++ l, by rw [hl, hsw.freed, List.append_assoc], ?_⟩
    rw [hsw.wait, hsw.retx, List.filter_append, List.filter_append, List.filter_append, hw4, hr4]
    have hd := pick_bySrc (fun _ v => v == .acked) (sweepOf cfg tx ackSn gs).1
    have hsrc : ∀ src, _ = _ := fun src => @filter_decided (sweepOf cfg tx ackSn gs).1 src
      (fun v => v == .acked) (fun s => isBelow cfg tx ackSn s && !isNacked tx gs s)
      fun p hp => (hdec p hp).acked
    rw [hsrc .wait, hsrc .retx] at hd
    refine (hd.append hperm).trans ?_
    grind

/-- **What a STATUS PDU does.** -/
theorem classified_status {status : StatusPdu} {events : List Event} (hinv : tx.Inv cfg lost)
    (hs : tx.RetxSorted cfg) (hd : decodeStatus cfg buffer = some status)
    (hord : status.Ordered cfg tx) (ho : status.nacks cfg ≠ [] → tx.OrderAgrees cfg)
    (hspeed : ¬ status.Speedup cfg tx)
    (hf : finishStatus cfg status.ackSn (status.merge cfg tx) = (tx', events)) :
    Classified cfg status.ackSn (status.nacks cfg) tx tx' := by
  obtain ⟨pre, now, hsw⟩ := sweptTo_merge cfg tx status
  have hall := sweptAll_of_rest hsw (retxRest_of_not_speedup hspeed)
  rw [hord.goodNacks] at hall
  obtain ⟨hit, hmiss⟩ := @sweepOf_hits cfg tx status.ackSn _ _ hinv hs ho hord.sorted
    (nacks_range cfg status)
  obtain ⟨lw, lr, hfin, hheadw, hheadr⟩ :=
    @finished_finishMerge cfg tx _ hsw.lists.frame status.ackSn
  obtain ⟨hm, -, -⟩ :=
    finishMerge_induct (finishRule_inv hinv) (inv_merge hinv (decodeStatus_ackSn hd))
  obtain ⟨h1, h2, l, h3, h4⟩ := classified_lists hinv hall hit hmiss hfin hm.lists hheadw hheadr
  obtain ⟨hinv', -⟩ := inv_control hinv hd hf
  obtain ⟨hcw, hcr, -, -, hcl, -, -, -, -⟩ := commit_spec hm
  obtain ⟨_, _, _, _, _, htx⟩ := hm.lists.frame.tx_eq
  have hnext : (finishMerge cfg status.ackSn (status.merge cfg tx)).tx.nextSdu = tx.nextSdu := by
    rw [htx]
  rw [finishStatus_eq] at hf
  injection hf with hf _
  subst hf
  refine ⟨hcw.trans h1, hcr ▸ h2, ⟨l, h3, h4, fun i hi => ?_⟩, hcl⟩
  have h5 := hinv'.parts.freeCount_eq i (hnext ▸ hi)
  rw [hinv.parts.freeCount_eq i hi]
  refine h5.trans ?_
  show sduCount (finishMerge cfg status.ackSn (status.merge cfg tx)).tx.freed i = _
  rw [h3, sduCount_append]

end Classified

/-! ## Whole runs -/

section Err

variable {cfg : AmConfig} {tx : AmTx} {lost : List Segment} {ackSn : ℤ} {gs pre : List Nack}
  {m : Merge} {now : List (Look × Verdict)}

/-- The transmitter after an error that did no harm. -/
theorem inv_err (hinv : tx.Inv cfg lost) (hs : tx.RetxSorted cfg)
    (ho : gs ≠ [] → tx.OrderAgrees cfg) (h : m.SweptTo cfg tx ackSn gs gs pre now)
    (hparts : m.asTx.Parts lost) :
    AmTx.Inv cfg { m.tx with
      waitList := m.waitFront ++ m.curWait
      retransmitList := m.newRetx ++ m.retxRest ++ m.curRetx } lost ∧
    AmTx.RetxSorted cfg { m.tx with
      waitList := m.waitFront ++ m.curWait
      retransmitList := m.newRetx ++ m.retxRest ++ m.curRetx } := by
  have hsn : m.tx.sn = tx.sn := funext h.lists.frame.sn
  have hswap : m.newRetx ++ m.retxRest ++ m.curRetx = m.newRetx ++ (m.curRetx ++ m.retxRest) := by
    by_cases hnil : m.retxRest = []
    · simp [hnil]
    · simp [(h.lists.retxRest hnil).2]
  obtain ⟨timer, bst, size, heap, freed, htx⟩ := h.lists.frame.tx_eq
  have hout : ∀ s ∈ (m.waitFront ++ m.curWait) ++ (m.newRetx ++ m.retxRest ++ m.curRetx),
      s ∈ tx.outstanding := by
    intro s hs
    rcases List.mem_append.mp hs with hs | hs
    · exact List.mem_append_left _ (h.lists.wait.subset hs)
    · rw [hswap] at hs
      rcases List.mem_append.mp hs with hs | hs
      · exact h.lists.newRetx s hs
      · exact List.mem_append_right _ (h.lists.retx.subset hs)
  have hsort := merge_retxSorted hinv hs ho h
  rw [← hswap] at hsort
  have hretx : AmTx.RetxSorted cfg { m.tx with
      waitList := m.waitFront ++ m.curWait
      retransmitList := m.newRetx ++ m.retxRest ++ m.curRetx } := by
    show List.Pairwise (segLe cfg.snModulus m.tx.txNextAck m.tx.sn) _
    rw [h.lists.frame.txNextAck, hsn]
    exact hsort
  refine ⟨⟨?_, ?_, ?_, hretx.sn⟩, hretx⟩
  · refine hparts.of_perm ?_ rfl rfl (fun _ => ⟨rfl, rfl⟩) hparts.freeCount_eq
    simp only [AmTx.segments, Merge.asTx, h.lists.waitRest]
    grind
  · exact hinv.snInv.sub h.lists.frame.txNextAck (by simp [htx]) (by simp [htx]) (by simp [htx]) hsn
      hout h.lists.wait
  · intro s hs he
    refine Lists.getLast?_sublist h.lists.wait (List.Nodup.of_map _ hinv.parts.waitList_nodup) hs ?_
    exact hinv.waitEnd s (h.lists.wait.subset hs) (h.lists.frame.waitEnd ▸ he)

end Err

/-- The NACKs of a control PDU come when the comparison of the list heads is right, and if there
is a decoding error it does no harm. -/
def TameStatus (e : AmEntity) : Op → Prop
  | .recvPdu buffer => isControlPdu buffer →
      ((decodedPart e.cfg e.tx buffer).2 ≠ [] → e.tx.OrderAgrees e.cfg) ∧
        (¬ ErrorFree e.cfg e.tx buffer → Harmless e.cfg e.tx (decodedPart e.cfg e.tx buffer).1
          (decodedPart e.cfg e.tx buffer).2)
  | _ => True

section Runs

variable {cfg : AmConfig} {tx tx' : AmTx} {lost : List Segment} {buffer : List UInt8}
  {events : List Event} {e e' : AmEntity} {op : Op}

theorem recvControlPdu_err {state : ErrState} (herr : processControlPdu cfg tx buffer = .err state)
    (h : recvControlPdu cfg tx buffer = .ok (tx', events)) :
    ∃ waitList retransmitList, state.waitList = some waitList ∧
      state.retransmitList = some retransmitList ∧
      tx' = { state.tx with waitList, retransmitList } := by
  unfold recvControlPdu at h
  rw [herr] at h
  simp only at h
  split at h
  · rename_i wl rl hwl hrl
    split at h
    · obtain ⟨rfl, -⟩ := ok_pair h
      exact ⟨wl, rl, hwl, hrl, rfl⟩
    · cases h
  · cases h

/-- The order of the lists over a call. -/
theorem order_amStep (h : ∃ lost, e.tx.Inv e.cfg lost ∧ e.tx.RetxSorted e.cfg)
    (ht : TameStatus e op) (hs : amStep e op = .ok (e', events)) :
    ∃ lost, e'.tx.Inv e'.cfg lost ∧ e'.tx.RetxSorted e'.cfg := by
  obtain ⟨lost, hinv, hsort⟩ := h
  obtain ⟨hcfg, ⟨buffer, rfl, hctl, hc⟩ | hk⟩ := amStep_tx hinv hs
  · obtain ⟨horder, hharm⟩ := ht hctl
    rw [hcfg]
    by_cases hfree : ErrorFree e.cfg e.tx buffer
    · obtain ⟨status, hd, hfin⟩ := processControlPdu_done (recvControlPdu_errorFree hfree hc)
      rw [decodedPart, hd] at horder
      exact ⟨_, (inv_control hinv hd hfin).1,
        commit_retxOrder hinv hsort (decodeStatus_ackSn hd) horder hfin⟩
    · unfold ErrorFree at hfree
      rw [not_forall] at hfree
      obtain ⟨state, herr⟩ := hfree
      rw [not_not] at herr
      have hharm := hharm fun hf => hf state herr
      obtain ⟨m, pre, now, rfl, hsw, hparts, -⟩ := processControlPdu_err hinv herr
      obtain ⟨wl, rl, hwl, hrl, htx⟩ := recvControlPdu_err herr hc
      -- the pointers of the entity still lead to the two lists
      have hpieces := pieces_of_sweptTo hinv hsw
      have hnd := List.Nodup.of_map _ hpieces.nodup
      obtain ⟨hndw, hndr, -⟩ := List.nodup_append.mp hnd
      obtain ⟨h1, h2⟩ := seen_of_heads hpieces ((heads_iff hndw hndr hsw hharm.acked).mpr hharm)
      obtain ⟨_, _, _, _, _, hframe⟩ := hsw.lists.frame.tx_eq
      have hwl' : wl = m.waitFront ++ m.curWait := by
        have : m.seenFrom (m.tx.waitList.head?.map Segment.addr) = some wl := hwl
        rw [show m.tx.waitList = e.tx.waitList by rw [hframe], h1] at this
        exact (Option.some.inj this).symm
      have hrl' : rl = m.newRetx ++ m.retxRest ++ m.curRetx := by
        have : m.seenFrom (m.tx.retransmitList.head?.map Segment.addr) = some rl := hrl
        rw [show m.tx.retransmitList = e.tx.retransmitList by rw [hframe], h2] at this
        exact (Option.some.inj this).symm
      rw [htx, hwl', hrl']
      exact ⟨lost, inv_err hinv hsort horder hsw hparts⟩
  · rw [hcfg]
    exact ⟨lost, hk.inv, hk.retxSorted hsort⟩

end Runs

/-- **STATUS processing.** In a state that is reached with control PDUs whose NACKs come when the
comparison of the list heads is right and whose decoding errors do no harm, a STATUS PDU that comes
in such a state too, with NACKs in order and without the speedup, gives every segment its due. -/
theorem status_classification (cfg : AmConfig) (ops : List Op) (e : AmEntity) (events : List Event)
    (buffer : List UInt8) (status : StatusPdu) (tx' : AmTx) (events' : List Event)
    (hrun : amRun (newAmEntity cfg) ops = .ok (e, events))
    (htame : Machine.Along amStep TameStatus (newAmEntity cfg) ops)
    (hd : decodeStatus e.cfg buffer = some status)
    (hdone : processControlPdu e.cfg e.tx buffer = .done tx' events')
    (hord : status.Ordered e.cfg e.tx) (horder : status.nacks e.cfg ≠ [] → e.tx.OrderAgrees e.cfg)
    (hspeed : ¬ status.Speedup e.cfg e.tx) :
    Classified e.cfg status.ackSn (status.nacks e.cfg) e.tx tx' := by
  have hinit : (newAmEntity cfg).tx.RetxSorted cfg := List.Pairwise.nil
  obtain ⟨lost, hinv, hsort⟩ := @Machine.run_invariant _ _ _ _ amStep TameStatus
    (fun e => ∃ lost, e.tx.Inv e.cfg lost ∧ e.tx.RetxSorted e.cfg)
    (fun _ _ _ _ hI hop hs => order_amStep hI hop hs) (newAmEntity cfg) _ _ _
    ⟨[], inv_newTx cfg, hinit⟩ htame hrun
  obtain ⟨status', hd', hfin⟩ := processControlPdu_done hdone
  rw [hd] at hd'
  injection hd' with hd'
  subst hd'
  exact classified_status hinv hsort hd hord horder hspeed hfin

/-- A check that a PDU is processed to the end, in a state where the heads are compared right. -/
def tameCheck (e : AmEntity) : Op → Bool
  | .recvPdu buffer =>
      decide (e.tx.OrderAgrees e.cfg) && (processControlPdu e.cfg e.tx buffer).isDone
  | _ => true

theorem tameStatus_of_check (e : AmEntity) (op : Op) (h : tameCheck e op = true) :
    TameStatus e op := by
  cases op with
  | recvPdu buffer =>
      rw [tameCheck, Bool.and_eq_true, decide_eq_true_eq] at h
      exact fun _ => ⟨fun _ => h.1, fun hno => absurd (errorFree_iff.mpr h.2) hno⟩
  | _ => trivial

/-- Of an SDU in two segments, both NACKed before, the first one was retransmitted and is NACKed again
by its bytes; the second one is acked. -/
theorem status_classification_nacked :
    ∃ e events tx' events', amRun (newAmEntity testConfig)
        (splitOps ++ [.generatePdu (List.replicate 12 0)]) = .ok (e, events) ∧
      processControlPdu e.cfg e.tx [0x00, 0x01, 0x80, 0x00, 0x04, 0x00, 0x00, 0x00, 0x09] =
        .done tx' events' ∧
      Classified e.cfg 1 [{ sn := 0, soStart := 0, soEnd := 9 }] e.tx tx' := by
  refine ⟨_, _, _, _, rfl, rfl, status_classification testConfig
    (splitOps ++ [.generatePdu (List.replicate 12 0)]) _ _
    [0x00, 0x01, 0x80, 0x00, 0x04, 0x00, 0x00, 0x00, 0x09]
    { ackSn := 1, blocks := [{ nackSn := 0, soStart := 0, soEnd := 9, range := 1 }], complete := true }
    _ _ rfl (Machine.along_of_check tameStatus_of_check (by decide +kernel)) (by decide +kernel) rfl
    ⟨by decide +kernel, by decide +kernel⟩ (fun _ => by decide +kernel)
    (not_speedup_of_verdict (by decide +kernel))⟩

/-- An SDU of 20 bytes is sent in two segments, both are NACKed, then the second one is NACKed
again with its SN as `ACK_SN`: it is not to be retransmitted any more, and the first one is in no
list. -/
theorem status_classification_lost :
    ¬ ∀ (cfg : AmConfig) (ops : List Op) (e : AmEntity) (events : List Event)
      (buffer : List UInt8) (status : StatusPdu) (tx' : AmTx) (events' : List Event),
      amRun (newAmEntity cfg) ops = .ok (e, events) →
      decodeStatus e.cfg buffer = some status →
      processControlPdu e.cfg e.tx buffer = .done tx' events' →
      status.Ordered e.cfg e.tx →
      Classified e.cfg status.ackSn (status.nacks e.cfg) e.tx tx' := by
  intro h
  have hc := (h testConfig [.recvSdu (List.replicate 20 0xaa) 7,
      .generatePdu (List.replicate 12 0), .generatePdu (List.replicate 14 0),
      .recvPdu [0x00, 0x01, 0x80, 0x00, 0x00]] _ _
    [0x00, 0x00, 0x80, 0x00, 0x04, 0x00, 0x0a, 0x00, 0x13]
    { ackSn := 0, blocks := [{ nackSn := 0, soStart := 10, soEnd := 19, range := 1 }], complete := true }
    _ _ rfl (by decide +kernel) rfl ⟨by decide +kernel, by decide +kernel⟩).retransmitList.length_eq
  exact absurd hc (by decide +kernel)

end OaiCu.NrRlc
