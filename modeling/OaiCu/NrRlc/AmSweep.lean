import OaiCu.Lib.Sweep
import OaiCu.NrRlc.AmSegments

/-!
# RLC AM: the merge as a sweep

The order in which the merge looks at the segments does not depend on the NACKs: it is the
interleaving of the two lists by the comparison of the source. Each NACK goes over what the
NACKs before it left, up to the first segment it cannot decide. So the merge of
`process_control_pdu` computes a sweep.
-/

namespace OaiCu.NrRlc

/-- The list that a segment is in. -/
inductive Src where
  | wait
  | retx
deriving DecidableEq, Repr

/-- A segment and where the merge finds it. -/
abbrev Look := Src × Segment

/-- The order in which the merge looks at the segments of the two lists. -/
def lookOrder (tx : AmTx) (ws rs : List Segment) : List Look :=
  List.merge (ws.map fun s => (Src.wait, s)) (rs.map fun s => (Src.retx, s))
    fun a b => decide (waitBeforeRetx tx a.2 b.2)

/-- The segments of one list among those looked at. -/
def ofSrc (s : Src) (l : List Look) : List Segment := (l.filter fun x => x.1 == s).map Prod.snd

theorem ofSrc_append (s : Src) (l l' : List Look) : ofSrc s (l ++ l') = ofSrc s l ++ ofSrc s l' := by
  simp [ofSrc]

/-- The sweep of the NACKs `gs` over the two lists. -/
def sweepOf (cfg : AmConfig) (tx : AmTx) (ackSn : ℤ) (gs : List Nack) :
    List (Look × Verdict) × List Look :=
  Sweep.sweep (fun v => v == .undecided) (fun n x => verdict cfg tx ackSn n x.2) gs
    (lookOrder tx tx.waitList tx.retransmitList)

/-- The same, by recursions that can be evaluated. -/
def sweepIn (cfg : AmConfig) (tx : AmTx) (ackSn : ℤ) (gs : List Nack) :
    List (Look × Verdict) × List Look :=
  Sweep.sweep (fun v => v == .undecided) (fun n x => verdict cfg tx ackSn n x.2) gs
    (Lists.mergeIn (fun a b => decide (waitBeforeRetx tx a.2 b.2))
      (tx.waitList.length + tx.retransmitList.length)
      (tx.waitList.map fun s => (Src.wait, s)) (tx.retransmitList.map fun s => (Src.retx, s)))

theorem sweepOf_eq (cfg : AmConfig) (tx : AmTx) (ackSn : ℤ) (gs : List Nack) :
    sweepOf cfg tx ackSn gs = sweepIn cfg tx ackSn gs := by
  rw [sweepOf, sweepIn, lookOrder, Lists.merge_eq_mergeIn _ _ _ _ (by
    rw [List.length_map, List.length_map])]

theorem sweepOf_split (cfg : AmConfig) (tx : AmTx) (ackSn : ℤ) (gs : List Nack) :
    (sweepOf cfg tx ackSn gs).1.map Prod.fst ++ (sweepOf cfg tx ackSn gs).2 =
      lookOrder tx tx.waitList tx.retransmitList := Sweep.sweep_split _ _

/-- The segments that were decided in some way. -/
def pick (f : Src → Verdict → Bool) (done : List (Look × Verdict)) : List Segment :=
  (done.filter fun p => f p.1.1 p.2).map fun p => p.1.2

/-- Skipped in `wait_list`. -/
def stays : List (Look × Verdict) → List Segment := pick fun s v => s == .wait && v == .unacked

/-- Put in the new `retransmit_list`. -/
def kept : List (Look × Verdict) → List Segment :=
  pick fun s v => v == .nacked || (s == .retx && v == .unacked)

/-- Freed. -/
def acked : List (Look × Verdict) → List Segment := pick fun _ v => v == .acked

section Pick

variable {f : Src → Verdict → Bool}

@[simp] theorem pick_nil : pick f [] = [] := rfl

theorem pick_append (a b : List (Look × Verdict)) : pick f (a ++ b) = pick f a ++ pick f b := by
  simp [pick]

theorem pick_snoc (a : List (Look × Verdict)) (s : Src) (x : Segment) (v : Verdict) :
    pick f (a ++ [((s, x), v)]) = pick f a ++ if f s v then [x] else [] := by
  rw [pick_append]
  congr 1
  cases h : f s v <;> simp [pick, h]

/-- A decided segment is in one of the new lists or is freed. -/
theorem pick_perm {done : List (Look × Verdict)} (h : ∀ p ∈ done, p.2 ≠ .undecided) :
    (stays done ++ kept done ++ acked done).Perm (done.map fun p => p.1.2) := by
  induction done with
  | nil => exact List.Perm.refl _
  | cons p done ih =>
      obtain ⟨⟨s, x⟩, v⟩ := p
      have ih := ih fun p hp => h p (List.mem_cons_of_mem _ hp)
      have hv := h _ List.mem_cons_self
      simp only [stays, kept, acked, pick] at ih ⊢
      cases v with
      | undecided => exact absurd rfl hv
      | nacked => cases s <;> simp <;> grind
      | acked => cases s <;> simp <;> grind
      | unacked => cases s <;> simp <;> grind

theorem pick_sublist (done : List (Look × Verdict)) :
    (pick f done).Sublist (done.map fun p => p.1.2) :=
  List.Sublist.map _ List.filter_sublist

theorem stays_eq (d : List (Look × Verdict)) : stays d =
    ((d.filter fun p => p.1.1 == .wait).filter fun p => p.2 == .unacked).map fun p => p.1.2 := by
  simp [stays, pick, List.filter_filter, Bool.and_comm]

theorem ofSrc_map (s : Src) (d : List (Look × Verdict)) :
    ofSrc s (d.map Prod.fst) = (d.filter fun p => p.1.1 == s).map fun p => p.1.2 := by
  simp [ofSrc, List.filter_map, Function.comp_def]

theorem ofSrc_eq_nil {s : Src} {l : List Look} : ofSrc s l = [] ↔ ∀ x ∈ l, x.1 ≠ s := by
  simp [ofSrc]

end Pick

section Order

variable {tx : AmTx} {w r : Segment} {ws rs : List Segment}

theorem lookOrder_wait (h : ∀ r ∈ rs.head?, waitBeforeRetx tx w r) :
    lookOrder tx (w :: ws) rs = (.wait, w) :: lookOrder tx ws rs := by
  cases rs with
  | nil => simp [lookOrder]
  | cons r rs =>
      have hr := h r (by simp)
      simp [lookOrder, hr]

theorem lookOrder_retx (h : ∀ w ∈ ws.head?, ¬ waitBeforeRetx tx w r) :
    lookOrder tx ws (r :: rs) = (.retx, r) :: lookOrder tx ws rs := by
  cases ws with
  | nil => simp [lookOrder]
  | cons w ws =>
      have hw := h w (by simp)
      simp [lookOrder, hw]

theorem lookOrder_nil : lookOrder tx [] [] = [] := by simp [lookOrder]

theorem mem_lookOrder {x : Look} : x ∈ lookOrder tx ws rs ↔
    (x.1 = .wait ∧ x.2 ∈ ws) ∨ (x.1 = .retx ∧ x.2 ∈ rs) := by
  obtain ⟨s, x⟩ := x
  cases s <;> simp [lookOrder, List.mem_merge]

theorem lookOrder_perm (tx : AmTx) (ws rs : List Segment) :
    ((lookOrder tx ws rs).map Prod.snd).Perm (ws ++ rs) := by
  have := (@List.merge_perm_append _ (fun a b : Look => decide (waitBeforeRetx tx a.2 b.2))
    (ws.map fun s => (Src.wait, s)) (rs.map fun s => (Src.retx, s))).map Prod.snd
  simpa [lookOrder, Function.comp_def] using this

/-- The segments of one list, in the order they are looked at, are that list. -/
theorem ofSrc_lookOrder (tx : AmTx) (ws rs : List Segment) :
    ofSrc .wait (lookOrder tx ws rs) = ws ∧ ofSrc .retx (lookOrder tx ws rs) = rs := by
  induction ws generalizing rs with
  | nil => simp [ofSrc, lookOrder, List.filter_map, Function.comp_def]
  | cons w ws ihw =>
      induction rs with
      | nil => simp [ofSrc, lookOrder, List.filter_map, Function.comp_def]
      | cons r rs ihr =>
          by_cases hb : waitBeforeRetx tx w r
          · rw [lookOrder_wait (by simpa using hb)]
            simpa [ofSrc] using ihw (r :: rs)
          · rw [lookOrder_retx (by simpa using hb)]
            simpa [ofSrc] using ihr

end Order

/-! ## The refinement -/

/-- The merge has swept: `now` are the segments that the current NACK has decided so far. -/
structure Merge.Swept (cfg : AmConfig) (tx : AmTx) (ackSn : ℤ) (gs pre : List Nack) (m : Merge)
    (now : List (Look × Verdict)) : Prop where
  rest : (sweepOf cfg tx ackSn pre).2 = now.map Prod.fst ++ lookOrder tx m.curWait m.curRetx
  now_eq : ∀ n post, gs = pre ++ n :: post →
    ∀ p ∈ now, p.2 = verdict cfg tx ackSn n p.1.2 ∧ p.2 ≠ .undecided
  now_nil : pre = gs → now = []
  waitFront : m.waitFront = stays ((sweepOf cfg tx ackSn pre).1 ++ now)
  newRetx : m.newRetx = kept ((sweepOf cfg tx ackSn pre).1 ++ now)
  freed : m.tx.freed = tx.freed ++ acked ((sweepOf cfg tx ackSn pre).1 ++ now)

section Swept

variable {cfg : AmConfig} {tx : AmTx} {ackSn : ℤ} {gs pre post : List Nack} {n : Nack}
  {m m' : Merge} {now : List (Look × Verdict)}

theorem swept_startMerge : (startMerge cfg ackSn tx).Swept cfg tx ackSn gs [] [] := by
  refine ⟨rfl, by simp, fun _ => rfl, rfl, rfl, ?_⟩
  unfold startMerge
  split <;> simp [sweepOf, Sweep.sweep, acked]

/-- One more segment is decided. -/
theorem swept_snoc (hgs : gs = pre ++ n :: post) (h : m.Swept cfg tx ackSn gs pre now) {s : Src}
    {x : Segment} (hv : verdict cfg tx ackSn n x ≠ .undecided)
    (hl : lookOrder tx m.curWait m.curRetx = (s, x) :: lookOrder tx m'.curWait m'.curRetx)
    (hw : m'.waitFront = m.waitFront ++
      if (s == .wait && verdict cfg tx ackSn n x == .unacked) = true then [x] else [])
    (hr : m'.newRetx = m.newRetx ++ if (verdict cfg tx ackSn n x == .nacked ||
      (s == .retx && verdict cfg tx ackSn n x == .unacked)) = true then [x] else [])
    (hf : m'.tx.freed = m.tx.freed ++
      if (verdict cfg tx ackSn n x == .acked) = true then [x] else []) :
    m'.Swept cfg tx ackSn gs pre (now ++ [((s, x), verdict cfg tx ackSn n x)]) := by
  refine ⟨?_, ?_, ?_, ?_, ?_, ?_⟩
  · rw [h.rest, hl]
    simp
  · intro n' post' hgs' p hp
    rcases List.mem_append.mp hp with hp | hp
    · exact h.now_eq n' post' hgs' p hp
    · have hnn : n' = n := by
        rw [hgs, List.append_cancel_left_eq, List.cons.injEq] at hgs'
        exact hgs'.1.symm
      rw [List.mem_singleton.mp hp, hnn]
      exact ⟨rfl, hv⟩
  · intro hpre
    rw [hpre] at hgs
    have := congrArg List.length hgs
    simp at this
  · rw [hw, h.waitFront, ← List.append_assoc, stays, pick_snoc]
  · rw [hr, h.newRetx, ← List.append_assoc, kept, pick_snoc]
  · rw [hf, h.freed, ← List.append_assoc, acked, pick_snoc, List.append_assoc]

/-- `end_wait_list` after a segment of `wait_list` is decided. -/
def Merge.endAfter (m : Merge) (w : Segment) (ws : List Segment) : Verdict → Option ListPos
  | .nacked => if m.tx.waitEnd = some w.addr then some m.prevWait else m.endWait
  | .acked => if ws.head?.map Segment.addr = m.tx.waitEnd then some m.prevWait else m.endWait
  | _ => m.endWait

/-- **One pass is one step of the sweep.** -/
theorem swept_next (hgs : gs = pre ++ n :: post) (h : m.Swept cfg tx ackSn gs pre now)
    (hp : Pass cfg tx ackSn n m (.processNextPdu m')) :
    ∃ s x, m'.Swept cfg tx ackSn gs pre (now ++ [((s, x), verdict cfg tx ackSn n x)]) ∧
      ((s = .wait ∧ m.curWait = x :: m'.curWait ∧
          m'.endWait = m.endAfter x m'.curWait (verdict cfg tx ackSn n x)) ∨
        (s = .retx ∧ m'.curWait = m.curWait ∧ m'.waitFront = m.waitFront ∧
          m'.endWait = m.endWait ∧ (verdict cfg tx ackSn n x = .unacked → m'.curWait ≠ []))) := by
  cases hp with
  | @nackWait w ws hw hpick hv =>
      refine ⟨.wait, w, swept_snoc hgs h (by rw [hv]; decide) ?_ ?_ ?_ ?_, .inl ⟨rfl, hw, ?_⟩⟩
      · rw [hw, lookOrder_wait hpick]
        rfl
      · simp [Merge.nackWait, hv]
      · simp [Merge.nackWait, hv]
      · simp [Merge.nackWait, hv, AmTx.countRetx]
      · rw [hv]
        rfl
  | @ackWait w ws hw hpick hv =>
      have hl := ackWait_lists m w ws
      refine ⟨.wait, w, swept_snoc hgs h (by rw [hv]; decide) ?_ ?_ ?_ ?_, .inl ⟨rfl, ?_, ?_⟩⟩
      · rw [hw, lookOrder_wait hpick]
        simp only [hl]
      · simp [hv]
      · simp [hv]
      · simp [Merge.ackWait, ack_tx, AmTx.freeSduSegment, hv]
      · rw [hl.2.1, hw]
      · rw [hv, hl.2.1]
        exact hl.2.2.2.2.2.2
  | @skipWait w ws hw hpick hv =>
      refine ⟨.wait, w, swept_snoc hgs h (by rw [hv]; decide) ?_ ?_ ?_ ?_, .inl ⟨rfl, hw, ?_⟩⟩
      · rw [hw, lookOrder_wait hpick]
        rfl
      · simp [Merge.skipWait, hv]
      · simp [Merge.skipWait, hv]
      · simp [Merge.skipWait, hv]
      · rw [hv]
        rfl
  | @keepRetx r rs hr hpick hv =>
      have hdec : verdict cfg tx ackSn n r = .nacked ∨ verdict cfg tx ackSn n r = .unacked := by
        rcases hv with hv | ⟨hv, -⟩
        · exact .inl hv
        · exact .inr hv
      refine ⟨.retx, r, swept_snoc hgs h ?_ ?_ ?_ ?_ ?_, .inr ⟨rfl, rfl, rfl, rfl, ?_⟩⟩
      · rcases hdec with hv | hv <;> rw [hv] <;> decide
      · rw [hr, lookOrder_retx hpick]
        rfl
      · simp [Merge.keepRetx]
      · rcases hdec with hv | hv <;> simp [Merge.keepRetx, hv]
      · rcases hdec with hv | hv <;> simp [Merge.keepRetx, hv]
      · intro hu
        rcases hv with hv | ⟨-, hw⟩
        · rw [hv] at hu
          cases hu
        · exact hw
  | @ackRetx r rs hr hpick hv =>
      have hl := @ackRetx_lists cfg m r rs
      refine ⟨.retx, r, swept_snoc hgs h (by rw [hv]; decide) ?_ ?_ ?_ ?_,
        .inr ⟨rfl, hl.2.1, hl.1, hl.2.2.2.2.2.2, fun hu => by rw [hv] at hu; cases hu⟩⟩
      · rw [hr, lookOrder_retx hpick]
        simp only [hl]
      · simp
      · simp [hv]
      · simp [Merge.ackRetx, ack_tx, AmTx.freeSduSegment, hv]

theorem map_verdict (h : ∀ p ∈ now, p.2 = verdict cfg tx ackSn n p.1.2) :
    (now.map Prod.fst).map (fun x => (x, verdict cfg tx ackSn n x.2)) = now := by
  rw [List.map_map]
  conv_rhs => rw [← List.map_id now]
  refine List.map_congr_left fun p hp => ?_
  simp only [Function.comp, id]
  rw [← h p hp]

/-- The sweep of the current NACK ends where the next segment is undecided, or at the end. -/
theorem sweepOf_snoc (hgs : gs = pre ++ n :: post) (h : m.Swept cfg tx ackSn gs pre now)
    (hstop : ∀ x ∈ (lookOrder tx m.curWait m.curRetx).head?,
      verdict cfg tx ackSn n x.2 = .undecided) :
    sweepOf cfg tx ackSn (pre ++ [n]) =
      ((sweepOf cfg tx ackSn pre).1 ++ now, lookOrder tx m.curWait m.curRetx) := by
  have hnow := h.now_eq n post hgs
  have hone := @Sweep.sweep_singleton _ _ _ (fun v => v == Verdict.undecided)
    (fun n (x : Look) => verdict cfg tx ackSn n x.2) n _ _ _ h.rest
    (by
      intro x hx
      obtain ⟨p, hp, rfl⟩ := List.mem_map.mp hx
      obtain ⟨h1, h2⟩ := hnow p hp
      rw [← h1]
      simpa using h2)
    (by
      intro x hx
      rw [hstop x hx]
      rfl)
  have hmap : (now.map Prod.fst).map (fun x => (x, verdict cfg tx ackSn n x.2)) = now :=
    map_verdict fun p hp => (hnow p hp).1
  unfold sweepOf at hone ⊢
  rw [Sweep.sweep_append, hone, hmap]

/-- The NACK is done at a segment it cannot decide. -/
theorem Pass.stops (hp : Pass cfg tx ackSn n m .doneNack) :
    ∀ x ∈ (lookOrder tx m.curWait m.curRetx).head?, verdict cfg tx ackSn n x.2 = .undecided := by
  intro x hx
  cases hp with
  | doneWait hw hpick hv =>
      rw [hw, lookOrder_wait hpick, List.head?_cons, Option.mem_some_iff] at hx
      rw [← hx]
      exact hv
  | doneRetx hr hpick hv =>
      rw [hr, lookOrder_retx hpick, List.head?_cons, Option.mem_some_iff] at hx
      rw [← hx]
      exact hv

theorem swept_done (hgs : gs = pre ++ n :: post) (h : m.Swept cfg tx ackSn gs pre now)
    (hp : Pass cfg tx ackSn n m .doneNack) : m.Swept cfg tx ackSn gs (pre ++ [n]) [] := by
  have heq := sweepOf_snoc hgs h hp.stops
  refine ⟨by rw [heq]; simp, by simp, fun _ => rfl, ?_, ?_, ?_⟩
  · rw [heq, List.append_nil]
    exact h.waitFront
  · rw [heq, List.append_nil]
    exact h.newRetx
  · rw [heq, List.append_nil]
    exact h.freed

/-- When both lists are over, so is the sweep. -/
theorem sweepOf_over (hgs : gs = pre ++ n :: post) (h : m.Swept cfg tx ackSn gs pre now)
    (hw : m.curWait = []) (hr : m.curRetx = []) :
    sweepOf cfg tx ackSn gs = ((sweepOf cfg tx ackSn pre).1 ++ now, []) := by
  have hone := sweepOf_snoc hgs h (by
    intro x hx
    rw [hw, hr, lookOrder_nil] at hx
    cases hx)
  rw [hw, hr, lookOrder_nil] at hone
  have hsplit : gs = (pre ++ [n]) ++ post := by simp [hgs]
  rw [hsplit]
  unfold sweepOf at hone ⊢
  rw [Sweep.sweep_append, hone, Sweep.sweep_nil]
  simp

theorem swept_over (hgs : gs = pre ++ n :: post) (h : m.Swept cfg tx ackSn gs pre now)
    (hw : m.curWait = []) (hr : m.curRetx = []) : m.Swept cfg tx ackSn gs gs [] := by
  have heq := sweepOf_over hgs h hw hr
  refine ⟨by rw [heq, hw, hr, lookOrder_nil]; rfl, by simp, fun _ => rfl, ?_, ?_, ?_⟩
  · rw [heq, List.append_nil]
    exact h.waitFront
  · rw [heq, List.append_nil]
    exact h.newRetx
  · rw [heq, List.append_nil]
    exact h.freed

/-- The merge with the remaining `retransmit_list` taken back from the end of the new one. -/
def Merge.unrest (m : Merge) : Merge := { m with curRetx := m.curRetx ++ m.retxRest }

theorem unrest_eq (h : m.retxRest = []) : m.unrest = m := by
  have hcur : m.curRetx ++ m.retxRest = m.curRetx := by rw [h, List.append_nil]
  rw [Merge.unrest, hcur]

/-- The merge has swept with the NACKs `pre'` and decided `now` with the next one. That are all
NACKs so far, but for the speedup: it ends the sweep at a segment that is not acked. -/
structure Merge.SweptTo (cfg : AmConfig) (tx : AmTx) (ackSn : ℤ) (gs pre : List Nack) (m : Merge)
    (pre' : List Nack) (now : List (Look × Verdict)) : Prop where
  lists : m.Lists tx
  all : m.retxRest = [] → pre' = pre
  speedup : m.retxRest ≠ [] → ∃ n post, ∃ r ∈ m.retxRest.head?, gs = pre' ++ n :: post ∧
    verdict cfg tx ackSn n r = .unacked
  swept : m.unrest.Swept cfg tx ackSn gs pre' now
  /-- Behind a segment that was kept for `ACK_SN` there is one of `wait_list`. -/
  waits : ∀ d₁ r d₂, (sweepOf cfg tx ackSn pre').1 ++ now = d₁ ++ ((.retx, r), .unacked) :: d₂ →
    ∃ x ∈ d₂.map Prod.fst ++ lookOrder tx m.curWait (m.curRetx ++ m.retxRest), x.1 = .wait

theorem sweptTo_startMerge : (startMerge cfg ackSn tx).SweptTo cfg tx ackSn gs [] [] [] :=
  ⟨lists_startMerge, fun _ => rfl, fun hne => absurd rfl hne, by
    rw [unrest_eq rfl]
    exact swept_startMerge, by simp [sweepOf, Sweep.sweep]⟩

theorem sweptTo_stopPoll {pre' : List Nack} (h : m.SweptTo cfg tx ackSn gs pre pre' now) :
    m.stopPoll.SweptTo cfg tx ackSn gs pre pre' now :=
  ⟨lists_stopPoll h.lists, h.all, h.speedup, ⟨h.swept.rest, h.swept.now_eq, h.swept.now_nil,
    h.swept.waitFront, h.swept.newRetx, h.swept.freed⟩, h.waits⟩

/-- A pass finds nothing put aside. -/
theorem Pass.retxRest_nil (hl : m.Lists tx) {g : Goto} (hp : Pass cfg tx ackSn n m g)
    (hg : ∀ m', g = .listsOver m' → m.curRetx ≠ []) : m.retxRest = [] := by
  cases hp with
  | ended hw hr => exact absurd hr (hg m rfl)
  | nackWait hw => exact (hl.cons_wait hw).2.2.1
  | doneWait hw => exact (hl.cons_wait hw).2.2.1
  | ackWait hw => exact (hl.cons_wait hw).2.2.1
  | skipWait hw => exact (hl.cons_wait hw).2.2.1
  | keepRetx hr => exact (hl.cons_retx hr).2.1
  | doneRetx hr => exact (hl.cons_retx hr).2.1
  | ackRetx hr => exact (hl.cons_retx hr).2.1
  | keepAllRetx hr => exact (hl.cons_retx hr).2.1

theorem Pass.retxRest_next (hl : m.Lists tx) (hp : Pass cfg tx ackSn n m (.processNextPdu m')) :
    m'.retxRest = [] := by
  have hnil := hp.retxRest_nil hl (by simp)
  cases hp with
  | nackWait => exact hnil
  | ackWait => simpa using hnil
  | skipWait => exact hnil
  | keepRetx => exact hnil
  | ackRetx => simpa using hnil

theorem sweptTo_next {pre' : List Nack} (hgs : gs = pre ++ n :: post)
    (h : m.SweptTo cfg tx ackSn gs pre pre' now)
    (hp : Pass cfg tx ackSn n m (.processNextPdu m')) :
    ∃ s x, m'.SweptTo cfg tx ackSn gs pre pre (now ++ [((s, x), verdict cfg tx ackSn n x)]) ∧
      ((s = .wait ∧ m.curWait = x :: m'.curWait ∧
          m'.endWait = m.endAfter x m'.curWait (verdict cfg tx ackSn n x)) ∨
        (s = .retx ∧ m'.curWait = m.curWait ∧ m'.waitFront = m.waitFront ∧
          m'.endWait = m.endWait)) := by
  have hnil := hp.retxRest_nil h.lists (by simp)
  have hnil' := hp.retxRest_next h.lists
  have hsw := h.swept
  rw [unrest_eq hnil, h.all hnil] at hsw
  obtain ⟨s, x, hsw', hcases⟩ := swept_next hgs hsw hp
  -- the segment comes off the front of what is ahead
  have hahead : lookOrder tx m.curWait m.curRetx = (s, x) :: lookOrder tx m'.curWait m'.curRetx := by
    have h1 := hsw.rest
    rw [hsw'.rest, List.map_append, List.append_assoc, List.append_cancel_left_eq] at h1
    exact h1.symm
  have hwaits := h.waits
  rw [h.all hnil, hnil, List.append_nil] at hwaits
  refine ⟨s, x, ⟨lists_next h.lists hp, fun _ => rfl, fun hne => absurd hnil' hne,
    (unrest_eq hnil').symm ▸ hsw', ?_⟩, ?_⟩
  · rw [hnil', List.append_nil]
    intro d₁ r d₂ heq
    rw [← List.append_assoc] at heq
    rcases List.eq_nil_or_concat d₂ with rfl | ⟨d, p, rfl⟩
    · obtain ⟨-, hlast⟩ := List.append_inj' heq rfl
      simp only [List.cons.injEq, Prod.mk.injEq, and_true] at hlast
      rcases hcases with ⟨hs, -⟩ | ⟨-, -, -, -, hne⟩
      · rw [hs] at hlast
        cases hlast.1.1
      · obtain ⟨w, ws, hw⟩ := List.exists_cons_of_ne_nil (hne hlast.2)
        exact ⟨(.wait, w), by simp [mem_lookOrder, hw], rfl⟩
    · rw [List.concat_eq_append, ← List.cons_append, ← List.append_assoc] at heq
      obtain ⟨hd, hlast⟩ := List.append_inj' heq rfl
      obtain ⟨y, hy, hyw⟩ := hwaits d₁ r d hd
      simp only [List.cons.injEq, and_true] at hlast
      refine ⟨y, ?_, hyw⟩
      rw [hahead] at hy
      rw [List.concat_eq_append, List.map_append, ← hlast]
      simpa [or_assoc] using hy
  · rcases hcases with hw | ⟨h1, h2, h3, h4, -⟩
    · exact .inl hw
    · exact .inr ⟨h1, h2, h3, h4⟩

theorem sweptTo_done {pre' : List Nack} (hgs : gs = pre ++ n :: post)
    (h : m.SweptTo cfg tx ackSn gs pre pre' now) (hp : Pass cfg tx ackSn n m .doneNack) :
    m.SweptTo cfg tx ackSn gs (pre ++ [n]) (pre ++ [n]) [] ∧
      (sweepOf cfg tx ackSn (pre ++ [n])).1 = (sweepOf cfg tx ackSn pre').1 ++ now := by
  have hnil := hp.retxRest_nil h.lists (by simp)
  have hsw := h.swept
  rw [unrest_eq hnil, h.all hnil] at hsw
  have heq : (sweepOf cfg tx ackSn (pre ++ [n])).1 = (sweepOf cfg tx ackSn pre').1 ++ now := by
    rw [h.all hnil, sweepOf_snoc hgs hsw (hp.stops)]
  refine ⟨⟨h.lists, fun _ => rfl, fun hne => absurd hnil hne,
    (unrest_eq hnil).symm ▸ swept_done hgs hsw hp, ?_⟩, heq⟩
  rw [heq, List.append_nil]
  exact h.waits

theorem sweptTo_over {pre' : List Nack} (hgs : gs = pre ++ n :: post)
    (h : m.SweptTo cfg tx ackSn gs pre pre' now)
    (hp : Pass cfg tx ackSn n m (.listsOver m')) :
    ∃ pre₁ now₁, m'.SweptTo cfg tx ackSn gs gs pre₁ now₁ ∧
      (sweepOf cfg tx ackSn pre₁).1 ++ now₁ = (sweepOf cfg tx ackSn pre').1 ++ now := by
  cases hp with
  | ended hw hr =>
      by_cases hnil : m.retxRest = []
      · have hsw := h.swept
        rw [unrest_eq hnil, h.all hnil] at hsw
        have heq : (sweepOf cfg tx ackSn gs).1 ++ [] = (sweepOf cfg tx ackSn pre').1 ++ now := by
          rw [h.all hnil, sweepOf_over hgs hsw hw hr, List.append_nil]
        exact ⟨gs, [], ⟨h.lists, fun _ => rfl, fun hne => absurd hnil hne,
          (unrest_eq hnil).symm ▸ swept_over hgs hsw hw hr, by rw [heq]; exact h.waits⟩, heq⟩
      · exact ⟨pre', now, ⟨h.lists, fun h0 => absurd h0 hnil, h.speedup, h.swept, h.waits⟩, rfl⟩
  | @keepAllRetx r rs hr hw hv =>
      have hnil := (h.lists.cons_retx hr).2.1
      have hsw := h.swept
      rw [unrest_eq hnil, h.all hnil] at hsw
      refine ⟨pre, now, ⟨lists_over h.lists (.keepAllRetx hr hw hv), ?_, ?_, ?_, ?_⟩, by
        rw [h.all hnil]⟩
      · intro h0
        rw [Merge.keepAllRetx, hr] at h0
        cases h0
      · intro _
        refine ⟨n, post, r, ?_, hgs, hv⟩
        simp [Merge.keepAllRetx, hr]
      · exact ⟨hsw.rest, hsw.now_eq, hsw.now_nil, hsw.waitFront, hsw.newRetx, hsw.freed⟩
      · have hwaits := h.waits
        rw [h.all hnil, hnil, List.append_nil] at hwaits
        exact hwaits

/-- **The merge computes the sweep.** -/
theorem mergeRule_swept : MergeRule cfg tx ackSn gs
    (fun pre m => ∃ pre' now, m.SweptTo cfg tx ackSn gs pre pre' now) where
  frame := fun ⟨_, _, h⟩ => h.lists.frame
  poll := fun ⟨_, _, h⟩ => ⟨_, _, sweptTo_stopPoll h⟩
  next := fun hgs ⟨_, _, h⟩ hp => by
    obtain ⟨s, x, h', -⟩ := sweptTo_next hgs h hp
    exact ⟨_, _, h'⟩
  done := fun hgs ⟨_, _, h⟩ hp => ⟨_, _, (sweptTo_done hgs h hp).1⟩
  ended := fun hgs ⟨_, _, h⟩ hp => by
    obtain ⟨_, _, h', -⟩ := sweptTo_over hgs h hp
    exact ⟨_, _, h'⟩

theorem sweptTo_merge (cfg : AmConfig) (tx : AmTx) (status : StatusPdu) :
    ∃ pre now, (status.merge cfg tx).SweptTo cfg tx status.ackSn (status.goodNacks cfg tx)
      (status.goodNacks cfg tx) pre now :=
  @processNacks_induct cfg tx status.ackSn _ [] _ (startMerge cfg status.ackSn tx)
    mergeRule_swept status.blocks none rfl ⟨_, _, sweptTo_startMerge⟩

end Swept

/-! ## What the NACKs decided -/

section Decided

variable {cfg : AmConfig} {tx : AmTx} {ackSn : ℤ} {gs pre : List Nack} {m : Merge}
  {now : List (Look × Verdict)}

/-- All that the full sweep decides beyond the merge is the list that the speedup puts aside, and
what the speedup puts aside starts with a segment at `ACK_SN`. -/
theorem sweepOf_of_sweptTo (h : m.SweptTo cfg tx ackSn gs gs pre now) :
    ∃ more, (sweepOf cfg tx ackSn gs).1 = (sweepOf cfg tx ackSn pre).1 ++ now ++ more ∧
      more.map Prod.fst ++ (sweepOf cfg tx ackSn gs).2 =
        lookOrder tx m.curWait (m.curRetx ++ m.retxRest) ∧
      (m.retxRest = [] → more = []) ∧
      (m.retxRest ≠ [] → ∃ r more', more = ((.retx, r), .unacked) :: more') := by
  have hrest := h.swept.rest
  by_cases hnil : m.retxRest = []
  · have hpre := h.all hnil
    have hnow := h.swept.now_nil hpre
    rw [hpre, hnow] at hrest ⊢
    exact ⟨[], by simp, by simpa [Merge.unrest] using hrest, fun _ => rfl, fun hne => absurd hnil hne⟩
  · obtain ⟨n, post, r, hr, hgs, hv⟩ := h.speedup hnil
    obtain ⟨hw, hc⟩ := h.lists.retxRest hnil
    obtain ⟨rs, hrs⟩ : ∃ rs, m.retxRest = r :: rs := by
      cases hm : m.retxRest with
      | nil => exact absurd hm hnil
      | cons x rs =>
          rw [hm, List.head?_cons, Option.mem_some_iff] at hr
          exact ⟨rs, by rw [hr]⟩
    have hl : lookOrder tx m.curWait (m.curRetx ++ m.retxRest) =
        (.retx, r) :: lookOrder tx [] rs := by
      rw [hw, hc, List.nil_append, hrs, lookOrder_retx (by simp)]
    rw [Merge.unrest] at hrest
    simp only [hl] at hrest
    have hnow := h.swept.now_eq n post hgs
    obtain ⟨more, hmore⟩ := @Sweep.sweep_further _ _ _ (fun v => v == Verdict.undecided)
      (fun n (x : Look) => verdict cfg tx ackSn n x.2) pre n _ _ _ _ post hrest
      (by
        intro y hy
        obtain ⟨p, hp, rfl⟩ := List.mem_map.mp hy
        obtain ⟨h1, h2⟩ := hnow p hp
        rw [← h1]
        simpa using h2)
      (by simp [hv])
    have hmap : (now.map Prod.fst).map (fun x => (x, verdict cfg tx ackSn n x.2)) = now :=
      map_verdict fun p hp => (hnow p hp).1
    rw [hmap, ← hgs] at hmore
    simp only [hv] at hmore
    refine ⟨_, hmore, ?_, fun h0 => absurd h0 hnil, fun _ => ⟨r, more, rfl⟩⟩
    have hsplit := (sweepOf_split cfg tx ackSn gs).trans (sweepOf_split cfg tx ackSn pre).symm
    rw [hrest] at hsplit
    rw [sweepOf, hmore] at hsplit
    rw [hl]
    simpa only [sweepOf, List.map_append, List.append_assoc, List.append_cancel_left_eq] using hsplit

/-- The speedup comes when `wait_list` is used up. -/
theorem waits_of_sweptTo (h : m.SweptTo cfg tx ackSn gs gs pre now) :
    ((sweepOf cfg tx ackSn gs).1.filter fun p => p.1.1 == .wait) =
      ((sweepOf cfg tx ackSn pre).1 ++ now).filter fun p => p.1.1 == .wait := by
  obtain ⟨more, hD, hahead, hnil, -⟩ := sweepOf_of_sweptTo h
  have hmore : (more.filter fun p => p.1.1 == .wait) = [] := by
    by_cases h0 : m.retxRest = []
    · rw [hnil h0]
      rfl
    · have hw := (ofSrc_lookOrder tx m.curWait (m.curRetx ++ m.retxRest)).1
      rw [← hahead, ofSrc_append, (h.lists.retxRest h0).1, List.append_eq_nil_iff, ofSrc_map,
        List.map_eq_nil_iff] at hw
      exact hw.1
  rw [hD, List.filter_append, hmore, List.append_nil]

/-- The two lists, with the segments that the merge has decided in front. -/
theorem lists_of_sweptTo (h : m.SweptTo cfg tx ackSn gs gs pre now) :
    ofSrc .wait (((sweepOf cfg tx ackSn pre).1 ++ now).map Prod.fst) ++ m.curWait = tx.waitList ∧
      ofSrc .retx (((sweepOf cfg tx ackSn pre).1 ++ now).map Prod.fst) ++
        (m.curRetx ++ m.retxRest) = tx.retransmitList := by
  have hsplit := sweepOf_split cfg tx ackSn pre
  rw [h.swept.rest, Merge.unrest, ← List.append_assoc, ← List.map_append] at hsplit
  have hall := ofSrc_lookOrder tx tx.waitList tx.retransmitList
  have hahead := ofSrc_lookOrder tx m.curWait (m.curRetx ++ m.retxRest)
  rw [← hsplit, ofSrc_append, ofSrc_append] at hall
  simp only [hahead] at hall
  exact hall

theorem sweepOf_verdict (cfg : AmConfig) (tx : AmTx) (ackSn : ℤ) (gs : List Nack) :
    ∀ p ∈ (sweepOf cfg tx ackSn gs).1,
      p.2 ≠ .undecided ∧ ∃ n ∈ gs, p.2 = verdict cfg tx ackSn n p.1.2 := by
  intro p hp
  obtain ⟨h1, h2⟩ := Sweep.sweep_verdict _ _ p hp
  exact ⟨by simpa using h1, h2⟩

end Decided

/-! ## After the NACKs -/

/-- What is acked after the NACKs: `lw` and `lr`, from the front of what remained. -/
structure Merge.Finished (cfg : AmConfig) (tx : AmTx) (ackSn : ℤ) (m₀ m : Merge)
    (lw lr : List Segment) : Prop where
  frame : m.Frame tx
  waitFront : m.waitFront = m₀.waitFront
  newRetx : m.newRetx = m₀.newRetx
  wait : m₀.curWait = lw ++ m.curWait
  retx : m₀.curRetx = lr ++ m.curRetx
  acked : ∀ x ∈ lw ++ lr, snCompareTx cfg tx (tx.sn x) ackSn < 0
  freed : ∃ l, m.tx.freed = m₀.tx.freed ++ l ∧ l.Perm (lw ++ lr)

theorem finished_finishMerge {cfg : AmConfig} {tx : AmTx} {m₀ : Merge} (h : m₀.Frame tx)
    (ackSn : ℤ) : ∃ lw lr, Merge.Finished cfg tx ackSn m₀ (finishMerge cfg ackSn m₀) lw lr ∧
      HeadUnacked cfg tx ackSn (finishMerge cfg ackSn m₀).curWait ∧
      HeadUnacked cfg tx ackSn (finishMerge cfg ackSn m₀).curRetx := by
  have hrule : FinishRule cfg tx ackSn
      (fun m => ∃ lw lr, Merge.Finished cfg tx ackSn m₀ m lw lr) := by
    refine ⟨fun ⟨_, _, h⟩ => h.frame, ?_, ?_⟩
    · rintro m s next ⟨lw, lr, hm⟩ hw hlt
      obtain ⟨l, hl, hp⟩ := hm.freed
      have hlists := ackLate_lists m s next
      refine ⟨lw ++ [s], lr, hm.frame.ackLate s next, by simp [hm.waitFront], by simp [hm.newRetx],
        ?_, ?_, ?_, l ++ [s], ?_, ?_⟩
      · rw [hm.wait, hw, hlists.2.1]
        simp
      · rw [hm.retx, hlists.2.2.2.2.1]
      · intro x hx
        simp only [List.mem_append, List.mem_singleton] at hx
        rcases hx with (hx | rfl) | hx
        · exact hm.acked x (by simp [hx])
        · exact hlt
        · exact hm.acked x (by simp [hx])
      · simp [Merge.ackLate, ack_tx, AmTx.freeSduSegment, hl]
      · grind
    · rintro m s next ⟨lw, lr, hm⟩ hr hlt
      obtain ⟨l, hl, hp⟩ := hm.freed
      have hlists := @ackRetx_lists cfg m s next
      refine ⟨lw, lr ++ [s], hm.frame.ackRetx s next, by simp [hm.waitFront], by simp [hm.newRetx],
        ?_, ?_, ?_, l ++ [s], ?_, ?_⟩
      · rw [hm.wait, hlists.2.1]
      · rw [hm.retx, hr, hlists.2.2.2.2.1]
        simp
      · intro x hx
        simp only [List.mem_append, List.mem_singleton] at hx
        rcases hx with hx | hx | rfl
        · exact hm.acked x (by simp [hx])
        · exact hm.acked x (by simp [hx])
        · exact hlt
      · simp [Merge.ackRetx, ack_tx, AmTx.freeSduSegment, hl]
      · grind
  obtain ⟨⟨lw, lr, hf⟩, h1, h2⟩ := finishMerge_induct hrule
    ⟨[], [], h, rfl, rfl, rfl, rfl, by simp, [], by simp, by simp⟩
  exact ⟨lw, lr, hf, h1, h2⟩

end OaiCu.NrRlc
