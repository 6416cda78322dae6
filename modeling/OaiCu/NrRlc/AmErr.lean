import OaiCu.NrRlc.AmSweep

/-!
# RLC AM: a decoding error in the middle of the merge

On a decoding error `process_control_pdu` returns in the middle of the merge, and the entity
keeps its pointers to the old list heads. What it sees from there is what it should see in
exactly two cases: the first segment of `wait_list` was left alone, and of `retransmit_list`
either nothing was looked at or all of it, from its first segment on.
-/

namespace OaiCu.NrRlc

/-! ## What the pointers lead to -/

section Suffix

variable {l l' : List Segment} {a : ℕ}

theorem suffixFrom_some (h : suffixFrom a l = some l') :
    (∃ f, l = f ++ l') ∧ l'.head?.map Segment.addr = some a := by
  induction l with
  | nil => cases h
  | cons s l ih =>
      rw [suffixFrom] at h
      split at h
      · rename_i hs
        injection h with h
        subst h
        exact ⟨⟨[], rfl⟩, by simp [hs]⟩
      · obtain ⟨⟨f, hf⟩, hh⟩ := ih h
        exact ⟨⟨s :: f, by rw [hf]; rfl⟩, hh⟩

theorem suffixFrom_head {s : Segment} (h : l.head? = some s) : suffixFrom s.addr l = some l := by
  cases l with
  | nil => cases h
  | cons x l =>
      rw [List.head?_cons, Option.some.injEq] at h
      rw [suffixFrom, if_pos (by rw [h])]

theorem suffixFrom_none (h : ∀ s ∈ l, s.addr ≠ a) : suffixFrom a l = none := by
  induction l with
  | nil => rfl
  | cons s l ih =>
      rw [suffixFrom, if_neg (h s List.mem_cons_self)]
      exact ih fun x hx => h x (List.mem_cons_of_mem _ hx)

end Suffix

/-- The pieces of the two lists when decoding fails, and the segments freed so far. -/
structure Merge.Pieces (tx : AmTx) (m : Merge) (freed : List Segment) : Prop where
  waitRest : m.waitRest = []
  wait_subset : ∀ s ∈ m.waitFront ++ m.curWait, s ∈ tx.waitList
  retx_subset : ∀ s ∈ m.curRetx, s ∈ tx.retransmitList
  perm : (m.waitFront ++ m.curWait ++ (m.newRetx ++ m.retxRest) ++ m.curRetx ++ freed).Perm
    (tx.waitList ++ tx.retransmitList)
  nodup : ((tx.waitList ++ tx.retransmitList).map Segment.addr).Nodup

/-- The heads of the lists are where the pointers of the entity lead to. -/
def Merge.Heads (tx : AmTx) (m : Merge) : Prop :=
  (m.waitFront ++ m.curWait).head? = tx.waitList.head? ∧
    ((m.newRetx ++ m.retxRest = [] ∧ m.curRetx.head? = tx.retransmitList.head?) ∨
      (m.curRetx = [] ∧ (m.newRetx ++ m.retxRest).head? = tx.retransmitList.head?))

/-- The two lists as seen from the pointers of the entity hold all segments that are not freed,
and the ones of `retransmit_list` have the size that is counted. -/
def Merge.Whole (cfg : AmConfig) (tx : AmTx) (m : Merge) (freed : List Segment) : Prop :=
  ∃ wl rl, m.seenFrom (tx.waitList.head?.map Segment.addr) = some wl ∧
    m.seenFrom (tx.retransmitList.head?.map Segment.addr) = some rl ∧
    (wl ++ rl ++ freed).Perm (tx.waitList ++ tx.retransmitList) ∧
    totalSize cfg (m.newRetx ++ m.curRetx ++ m.retxRest) = totalSize cfg rl

section Whole

variable {cfg : AmConfig} {tx : AmTx} {m : Merge} {freed : List Segment}

theorem Merge.Pieces.disjoint (h : m.Pieces tx freed) {w r : Segment} (hw : w ∈ tx.waitList)
    (hr : r ∈ tx.retransmitList) : w.addr ≠ r.addr := by
  have hn := h.nodup
  rw [List.map_append, List.nodup_append] at hn
  exact hn.2.2 _ (List.mem_map_of_mem hw) _ (List.mem_map_of_mem hr)

theorem Merge.Pieces.inj (h : m.Pieces tx freed) {s s' : Segment}
    (hs : s ∈ tx.waitList ++ tx.retransmitList) (hs' : s' ∈ tx.waitList ++ tx.retransmitList)
    (ha : s.addr = s'.addr) : s = s' := List.inj_on_of_nodup_map h.nodup hs hs' ha

/-- The pieces have no segment in common. -/
theorem Merge.Pieces.nodup_pieces (h : m.Pieces tx freed) :
    (m.waitFront ++ m.curWait ++ (m.newRetx ++ m.retxRest) ++ m.curRetx ++ freed).Nodup :=
  h.perm.nodup_iff.mpr (List.Nodup.of_map _ h.nodup)

/-- What a pointer leads to is the rest of one of the pieces. -/
theorem seenFrom_cases (h : m.Pieces tx freed) {x : Segment}
    (hx : x ∈ tx.waitList ++ tx.retransmitList) {l : List Segment}
    (hl : m.seenFrom (some x.addr) = some l) :
    l.head? = some x ∧ ((∃ f, m.waitFront ++ m.curWait = f ++ l) ∨
      (∃ f, m.newRetx ++ m.retxRest = f ++ l) ∨ ∃ f, m.curRetx = f ++ l) := by
  have hhead : ∀ {l' : List Segment}, l'.head?.map Segment.addr = some x.addr →
      (∀ s ∈ l', s ∈ tx.waitList ++ tx.retransmitList) → l'.head? = some x := by
    intro l' hl' hsub
    obtain ⟨y, hy, hyx⟩ := Option.map_eq_some_iff.mp hl'
    rw [hy, h.inj (hsub y (List.mem_of_head? hy)) hx hyx]
  have hmem : ∀ {s}, s ∈ m.waitFront ++ m.curWait ++ (m.newRetx ++ m.retxRest) ++ m.curRetx →
      s ∈ tx.waitList ++ tx.retransmitList := fun hs =>
    h.perm.mem_iff.mp (List.mem_append_left _ hs)
  simp only [Merge.seenFrom, h.waitRest, List.append_nil] at hl
  rw [Option.or_eq_some_iff, Option.or_eq_some_iff] at hl
  rcases hl with hl | ⟨-, hl | ⟨-, hl⟩⟩
  · obtain ⟨⟨f, hf⟩, hh⟩ := suffixFrom_some hl
    exact ⟨hhead hh fun s hs => hmem (by
      rw [hf]
      simp [hs]), .inl ⟨f, hf⟩⟩
  · obtain ⟨⟨f, hf⟩, hh⟩ := suffixFrom_some hl
    exact ⟨hhead hh fun s hs => hmem (by
      rw [hf]
      simp [hs]), .inr (.inl ⟨f, hf⟩)⟩
  · obtain ⟨⟨f, hf⟩, hh⟩ := suffixFrom_some hl
    exact ⟨hhead hh fun s hs => hmem (by
      rw [hf]
      simp [hs]), .inr (.inr ⟨f, hf⟩)⟩

theorem pduSize_pos (cfg : AmConfig) (s : Segment) : 0 < pduSize cfg s := by
  unfold pduSize computePduHeaderSize
  omega

theorem totalSize_nonneg (cfg : AmConfig) (l : List Segment) : 0 ≤ totalSize cfg l := by
  induction l with
  | nil => simp
  | cons s l ih =>
      rw [totalSize_cons]
      omega

/-- What is seen from the heads. -/
theorem seen_of_heads (h : m.Pieces tx freed) (hh : m.Heads tx) :
    m.seenFrom (tx.waitList.head?.map Segment.addr) = some (m.waitFront ++ m.curWait) ∧
      m.seenFrom (tx.retransmitList.head?.map Segment.addr) =
        some (m.newRetx ++ m.retxRest ++ m.curRetx) := by
  obtain ⟨hw, hr⟩ := hh
  constructor
  · cases hhd : tx.waitList.head? with
    | none =>
        rw [hhd, List.head?_eq_none_iff] at hw
        simp [Merge.seenFrom, hw]
    | some s =>
        rw [hhd] at hw
        simp only [Option.map_some, Merge.seenFrom, h.waitRest, List.append_nil,
          suffixFrom_head hw, Option.some_or]
  · cases hhd : tx.retransmitList.head? with
    | none =>
        rw [hhd] at hr
        have hnil : m.newRetx ++ m.retxRest ++ m.curRetx = [] := by
          rcases hr with ⟨h1, h2⟩ | ⟨h1, h2⟩
          · rw [h1, List.head?_eq_none_iff.mp h2]
            rfl
          · rw [h1, List.head?_eq_none_iff.mp h2]
            rfl
        rw [hnil]
        rfl
    | some r =>
        rw [hhd] at hr
        have hnot : suffixFrom r.addr (m.waitFront ++ m.curWait) = none :=
          suffixFrom_none fun s hs => h.disjoint (h.wait_subset s hs) (List.mem_of_head? hhd)
        simp only [Option.map_some, Merge.seenFrom, h.waitRest, List.append_nil, hnot,
          Option.none_or]
        rcases hr with ⟨h1, h2⟩ | ⟨h1, h2⟩
        · simp only [h1, List.nil_append, suffixFrom, suffixFrom_head h2, Option.none_or]
        · rw [suffixFrom_head h2, h1, List.append_nil]
          rfl

/-- From the heads everything is seen. -/
theorem whole_of_heads (h : m.Pieces tx freed) (hh : m.Heads tx) : m.Whole cfg tx freed := by
  obtain ⟨hwl, hrl⟩ := seen_of_heads h hh
  refine ⟨_, _, hwl, hrl, ?_, ?_⟩
  · refine List.Perm.trans ?_ h.perm
    simp
  · simp only [totalSize_append]
    ring

/-- Everything is seen from the heads only. -/
theorem heads_of_whole (h : m.Pieces tx freed) (hwhole : m.Whole cfg tx freed) : m.Heads tx := by
  obtain ⟨wl, rl, hwl, hrl, hperm, hsize⟩ := hwhole
  have hnd := h.nodup_pieces
  have hall : (wl ++ rl).Perm (m.waitFront ++ m.curWait ++ (m.newRetx ++ m.retxRest) ++ m.curRetx) :=
    (List.perm_append_right_iff freed).mp (hperm.trans h.perm.symm)
  have hnd' := (List.nodup_append.mp hnd).1
  have hndl : (wl ++ rl).Nodup := hall.nodup_iff.mpr hnd'
  -- what is seen as `retransmit_list`
  have hrcases : rl = [] ∧ tx.retransmitList = [] ∨ ∃ r, tx.retransmitList.head? = some r ∧
      rl.head? = some r ∧ ((∃ f, m.newRetx ++ m.retxRest = f ++ rl) ∨ ∃ f, m.curRetx = f ++ rl) := by
    cases hhd : tx.retransmitList.head? with
    | none =>
        rw [hhd] at hrl
        injection hrl with hrl
        exact .inl ⟨hrl.symm, List.head?_eq_none_iff.mp hhd⟩
    | some r =>
        have hr := List.mem_of_head? hhd
        rw [hhd] at hrl
        obtain ⟨hhead, ⟨f, hf⟩ | hc⟩ := seenFrom_cases h (List.mem_append_right _ hr) hrl
        · have : r ∈ tx.waitList := h.wait_subset r (by rw [hf]; simp [List.mem_of_head? hhead])
          exact absurd rfl (h.disjoint this hr)
        · exact .inr ⟨r, rfl, hhead, hc⟩
  -- it has nothing of the wait list
  have hrsub : ∀ s ∈ rl, s ∉ m.waitFront ++ m.curWait := by
    intro s hs hsw
    rw [List.append_assoc, List.append_assoc, ← List.append_assoc m.waitFront] at hnd'
    have hdis := (List.nodup_append.mp hnd').2.2 s hsw
    rcases hrcases with ⟨rfl, -⟩ | ⟨r, -, -, ⟨f, hf⟩ | ⟨f, hf⟩⟩
    · cases hs
    · exact hdis s (by rw [hf]; simp [hs]) rfl
    · exact hdis s (by rw [hf]; simp [hs]) rfl
  have hwmem : ∀ s ∈ m.waitFront ++ m.curWait, s ∈ wl := by
    intro s hs
    have : s ∈ wl ++ rl := hall.mem_iff.mpr (by simp only [List.mem_append] at hs ⊢; tauto)
    rcases List.mem_append.mp this with h1 | h1
    · exact h1
    · exact absurd hs (hrsub s h1)
  -- what is seen as `wait_list`
  have hwl' : wl = m.waitFront ++ m.curWait ∧
      (m.waitFront ++ m.curWait).head? = tx.waitList.head? := by
    cases hhd : tx.waitList.head? with
    | none =>
        rw [hhd] at hwl
        injection hwl with hwl
        have hnil : m.waitFront ++ m.curWait = [] := by
          rw [List.eq_nil_iff_forall_not_mem]
          intro s hs
          have := h.wait_subset s hs
          rw [List.head?_eq_none_iff.mp hhd] at this
          cases this
        rw [hnil]
        exact ⟨hwl.symm, rfl⟩
    | some w =>
        have hw := List.mem_of_head? hhd
        rw [hhd] at hwl
        obtain ⟨hhead, ⟨f, hf⟩ | ⟨f, hf⟩ | ⟨f, hf⟩⟩ :=
          seenFrom_cases h (List.mem_append_left _ hw) hwl
        · have hfnil : f = [] := by
            rw [List.eq_nil_iff_forall_not_mem]
            intro s hs
            have h1 := hwmem s (by rw [hf]; simp [hs])
            have h2 : (f ++ wl).Nodup := by
              rw [← hf]
              rw [List.append_assoc, List.append_assoc, ← List.append_assoc m.waitFront] at hnd'
              exact (List.nodup_append.mp hnd').1
            exact (List.nodup_append.mp h2).2.2 s hs s h1 rfl
          rw [hfnil, List.nil_append] at hf
          exact ⟨hf.symm, by rw [hf, hhead]⟩
        · -- it was moved to the new retransmit list, and its size is counted there
          exfalso
          have hnil : m.waitFront ++ m.curWait = [] := by
            rw [List.eq_nil_iff_forall_not_mem]
            intro s hs
            have h1 : s ∈ m.newRetx ++ m.retxRest := by
              rw [hf]
              simp [hwmem s hs]
            rw [List.append_assoc, List.append_assoc, ← List.append_assoc m.waitFront] at hnd'
            exact (List.nodup_append.mp hnd').2.2 s hs s (by simp only [List.mem_append] at h1 ⊢; tauto)
              rfl
          have ht := @totalSize_perm cfg _ _ hall
          rw [hnil] at ht
          simp only [totalSize_append, totalSize_nil] at ht hsize
          obtain ⟨y, l, hy⟩ := List.exists_cons_of_ne_nil (List.ne_nil_of_mem (List.mem_of_head? hhead))
          have hpos := pduSize_pos cfg y
          have hnn := totalSize_nonneg cfg l
          rw [hy, totalSize_cons] at ht
          omega
        · exfalso
          have : w ∈ tx.retransmitList := h.retx_subset w (by rw [hf]; simp [List.mem_of_head? hhead])
          exact h.disjoint hw this rfl
  refine ⟨hwl'.2, ?_⟩
  have hrperm : rl.Perm (m.newRetx ++ m.retxRest ++ m.curRetx) := by
    rw [hwl'.1] at hall
    simpa only [List.append_assoc, List.perm_append_left_iff] using hall
  have hlen := hrperm.length_eq
  rcases hrcases with ⟨hnil, hretx⟩ | ⟨r, hr, hhead, ⟨f, hf⟩ | ⟨f, hf⟩⟩
  · rw [hnil, List.nil_perm] at hrperm
    have h2 := List.append_eq_nil_iff.mp hrperm
    exact .inl ⟨h2.1, by rw [h2.2, hretx]⟩
  · rw [hf] at hlen
    simp only [List.length_append] at hlen
    have h1 : f = [] := List.eq_nil_of_length_eq_zero (by omega)
    have h2 : m.curRetx = [] := List.eq_nil_of_length_eq_zero (by omega)
    rw [h1, List.nil_append] at hf
    exact .inr ⟨h2, by rw [hf, hr, hhead]⟩
  · have hlen' := congrArg List.length hf
    simp only [List.length_append] at hlen hlen'
    have h1 : f = [] := List.eq_nil_of_length_eq_zero (by omega)
    have h2 : m.newRetx ++ m.retxRest = [] :=
      List.eq_nil_of_length_eq_zero (by simp only [List.length_append]; omega)
    rw [h1, List.nil_append] at hf
    exact .inl ⟨h2, by rw [hf, hr, hhead]⟩

end Whole

/-- A segment of `retransmit_list` at `ACK_SN` is found with nothing of `wait_list` behind it: what
is left of the list is kept as a whole. -/
def KeptWhole (swept : List (Look × Verdict) × List Look) : Prop :=
  ∃ d₁ r d₂, swept.1 = d₁ ++ ((.retx, r), .unacked) :: d₂ ∧
    ∀ x ∈ d₂.map Prod.fst ++ swept.2, x.1 = .retx

/-- When the error does no harm: the first segment of `wait_list` was left alone; of
`retransmit_list` either nothing was looked at and nothing is added to it, or all of it was looked
at (or kept as a whole) and the new one starts with the old one; and no NACK hits a segment that is
freed. -/
structure Harmless (cfg : AmConfig) (tx : AmTx) (ackSn : ℤ) (gs : List Nack) : Prop where
  waitHead : ∀ p ∈ ((sweepOf cfg tx ackSn gs).1.filter fun p => p.1.1 == .wait).head?,
    p.2 = .unacked
  retx : (∀ p ∈ (sweepOf cfg tx ackSn gs).1, p.1.1 = .wait ∧ p.2 ≠ .nacked) ∨
    (kept (sweepOf cfg tx ackSn gs).1).head? = tx.retransmitList.head? ∧
      ((∀ x ∈ (sweepOf cfg tx ackSn gs).2, x.1 = .wait) ∨
        KeptWhole (sweepOf cfg tx ackSn gs))
  acked : ∀ p ∈ (sweepOf cfg tx ackSn gs).1, p.2 = .acked →
    ∀ n ∈ gs, ¬ n.Hits tx p.1.2

section Harmless

variable {cfg : AmConfig} {tx : AmTx} {ackSn : ℤ} {gs pre : List Nack} {m : Merge}
  {now : List (Look × Verdict)}

theorem kept_eq_nil {d : List (Look × Verdict)} : kept d = [] ↔
    ∀ p ∈ d, p.2 ≠ .nacked ∧ (p.1.1 = .retx → p.2 ≠ .unacked) := by
  simp [kept, pick]

/-- The first segment of `wait_list` is where it was. -/
theorem waitHead_iff (hnd : tx.waitList.Nodup) (h : m.SweptTo cfg tx ackSn gs gs pre now) :
    (m.waitFront ++ m.curWait).head? = tx.waitList.head? ↔
      ∀ p ∈ ((sweepOf cfg tx ackSn gs).1.filter fun p => p.1.1 == .wait).head?, p.2 = .unacked := by
  obtain ⟨hw, -⟩ := lists_of_sweptTo h
  rw [ofSrc_map] at hw
  have hiff := @Lists.head?_filter_append _ _ (fun p : Look × Verdict => p.1.2)
    (fun p => p.2 == .unacked) _ m.curWait (hw ▸ hnd)
  rw [hw, ← stays_eq, ← h.swept.waitFront] at hiff
  rw [waits_of_sweptTo h]
  simpa [Merge.unrest] using hiff

/-- Without the speedup: nothing of `retransmit_list` was looked at, or all of it. -/
theorem retxHead_iff (hnd : tx.retransmitList.Nodup) (h : m.SweptTo cfg tx ackSn gs gs pre now)
    (hnil : m.retxRest = []) :
    (m.newRetx = [] ∧ m.curRetx.head? = tx.retransmitList.head? ↔
      ∀ p ∈ (sweepOf cfg tx ackSn gs).1, p.1.1 = .wait ∧ p.2 ≠ .nacked) ∧
    (m.curRetx = [] ↔ ∀ x ∈ (sweepOf cfg tx ackSn gs).2, x.1 = .wait) ∧
    m.newRetx = kept (sweepOf cfg tx ackSn gs).1 := by
  obtain ⟨more, hD, hahead, hmore, -⟩ := sweepOf_of_sweptTo h
  rw [hmore hnil, List.append_nil] at hD
  rw [hmore hnil, hnil, List.append_nil, List.map_nil, List.nil_append] at hahead
  obtain ⟨-, hr⟩ := lists_of_sweptTo h
  rw [← hD, hnil, List.append_nil] at hr
  have hnew : m.newRetx = kept (sweepOf cfg tx ackSn gs).1 := by
    rw [hD, ← h.swept.newRetx]
    rfl
  have hsrc : ∀ {s : Src}, s ≠ .retx ↔ s = .wait := by
    intro s
    cases s <;> decide
  have hdone : ofSrc .retx ((sweepOf cfg tx ackSn gs).1.map Prod.fst) = [] ↔
      ∀ p ∈ (sweepOf cfg tx ackSn gs).1, p.1.1 = .wait := by
    rw [ofSrc_eq_nil]
    simp [hsrc]
  refine ⟨?_, ?_, hnew⟩
  · rw [hnew, kept_eq_nil]
    constructor
    · rintro ⟨h1, h2⟩
      -- the first segment is not looked at, so none is
      have hfirst : ofSrc .retx ((sweepOf cfg tx ackSn gs).1.map Prod.fst) = [] := by
        cases hd : ofSrc .retx ((sweepOf cfg tx ackSn gs).1.map Prod.fst) with
        | nil => rfl
        | cons r rs =>
            rw [hd, List.cons_append] at hr
            rw [← hr, List.head?_cons] at h2
            rw [← hr, List.nodup_cons] at hnd
            exact absurd (List.mem_append_right _ (List.mem_of_head? h2)) hnd.1
      exact fun p hp => ⟨hdone.mp hfirst p hp, (h1 p hp).1⟩
    · intro hall
      have hfirst := hdone.mpr fun p hp => (hall p hp).1
      rw [hfirst, List.nil_append] at hr
      refine ⟨fun p hp => ⟨(hall p hp).2, fun hs => ?_⟩, by rw [hr]⟩
      rw [(hall p hp).1] at hs
      cases hs
  · rw [← (ofSrc_lookOrder tx m.curWait m.curRetx).2, ← hahead, ofSrc_eq_nil]
    simp only [hsrc]

/-- The first segment of `retransmit_list` is where it was. -/
theorem heads_iff (hw : tx.waitList.Nodup) (hr : tx.retransmitList.Nodup)
    (h : m.SweptTo cfg tx ackSn gs gs pre now)
    (hfreed : ∀ p ∈ (sweepOf cfg tx ackSn gs).1, p.2 = .acked →
      ∀ n ∈ gs, ¬ n.Hits tx p.1.2) :
    m.Heads tx ↔ Harmless cfg tx ackSn gs := by
  have hretx : ((m.newRetx ++ m.retxRest = [] ∧ m.curRetx.head? = tx.retransmitList.head?) ∨
      (m.curRetx = [] ∧ (m.newRetx ++ m.retxRest).head? = tx.retransmitList.head?)) ↔
      ((∀ p ∈ (sweepOf cfg tx ackSn gs).1, p.1.1 = .wait ∧ p.2 ≠ .nacked) ∨
        (kept (sweepOf cfg tx ackSn gs).1).head? = tx.retransmitList.head? ∧
          ((∀ x ∈ (sweepOf cfg tx ackSn gs).2, x.1 = .wait) ∨
            KeptWhole (sweepOf cfg tx ackSn gs))) := by
    obtain ⟨more, hD, hahead, hmnil, hmore⟩ := sweepOf_of_sweptTo h
    by_cases hnil : m.retxRest = []
    · obtain ⟨h1, h2, h3⟩ := retxHead_iff hr h hnil
      -- behind a segment at `ACK_SN` there is one of `wait_list`
      have hno : ¬ KeptWhole (sweepOf cfg tx ackSn gs) := by
        rintro ⟨d₁, r, d₂, heq, hall⟩
        rw [hD, hmnil hnil, List.append_nil] at heq
        rw [hmnil hnil, List.map_nil, List.nil_append] at hahead
        obtain ⟨x, hx, hxw⟩ := h.waits d₁ r d₂ heq
        rw [← hahead] at hx
        have := hall x hx
        rw [hxw] at this
        cases this
      rw [hnil, List.append_nil, h1, h2, h3]
      exact or_congr Iff.rfl ⟨fun ⟨hall, hh⟩ => ⟨hh, .inl hall⟩,
        fun ⟨hh, hall⟩ => ⟨hall.resolve_right hno, hh⟩⟩
    · obtain ⟨hcw, hcr⟩ := h.lists.retxRest hnil
      obtain ⟨r, more', rfl⟩ := hmore hnil
      have hne : m.newRetx ++ m.retxRest ≠ [] := fun h0 => hnil (List.append_eq_nil_iff.mp h0).2
      have hspeed : KeptWhole (sweepOf cfg tx ackSn gs) := by
        refine ⟨_, r, more', hD, fun x hx => ?_⟩
        have hmem : x ∈ lookOrder tx m.curWait (m.curRetx ++ m.retxRest) := by
          rw [← hahead, List.map_cons, List.cons_append]
          exact List.mem_cons_of_mem _ hx
        rw [mem_lookOrder, hcw] at hmem
        rcases hmem with ⟨-, hmem⟩ | ⟨hmem, -⟩
        · cases hmem
        · exact hmem
      have hhead : (m.newRetx ++ m.retxRest).head? = (kept (sweepOf cfg tx ackSn gs).1).head? := by
        have hrs := (ofSrc_lookOrder tx m.curWait (m.curRetx ++ m.retxRest)).2
        rw [← hahead, hcr, List.nil_append] at hrs
        have hnew : m.newRetx = kept ((sweepOf cfg tx ackSn pre).1 ++ now) := h.swept.newRetx
        rw [← hrs, hD, hnew, kept, pick_append]
        simp [ofSrc, pick]
      have hnot : ¬ ∀ p ∈ (sweepOf cfg tx ackSn gs).1, p.1.1 = .wait ∧ p.2 ≠ .nacked := by
        intro hall
        have := (hall ((.retx, r), .unacked) (by rw [hD]; simp)).1
        cases this
      rw [hhead]
      exact ⟨fun hl => hl.elim (fun hl => absurd hl.1 hne) fun hl => .inr ⟨hl.2, .inr hspeed⟩,
        fun hl => hl.elim (fun hl => absurd hl hnot) fun hl => .inr ⟨hcr, hl.1⟩⟩
  constructor
  · rintro ⟨h1, h2⟩
    exact ⟨(waitHead_iff hw h).mp h1, hretx.mp h2, hfreed⟩
  · intro hh
    exact ⟨(waitHead_iff hw h).mpr hh.waitHead, hretx.mpr hh.retx⟩

/-- Behind a segment of `retransmit_list` that is not acked no segment is acked. -/
theorem not_acked_behind {lost : List Segment} (hinv : tx.Inv cfg lost) {r x : Segment}
    {rs : List Segment} (hr : (r :: rs) <:+ tx.retransmitList) (hx : x ∈ rs)
    (h : ¬ snCompareTx cfg tx (tx.sn r) ackSn < 0) :
    ¬ snCompareTx cfg tx (tx.sn x) ackSn < 0 := by
  have hrange : ∀ s ∈ r :: rs, 0 ≤ tx.sn s ∧ tx.sn s < cfg.snModulus := fun s hs =>
    hinv.snInv.sn_range s (List.mem_append_left _ (List.mem_append_right _ (hr.subset hs)))
  have hle := (List.pairwise_cons.mp (hinv.retxSorted.sublist hr.sublist)).1 x hx
  have hcmp := snCompareTx_eq hinv.snInv.txNextAck_range (hrange r List.mem_cons_self)
    (hrange x (List.mem_cons_of_mem _ hx))
  unfold snCompareTx at *
  omega

/-- Behind the speedup nothing is acked. -/
theorem acked_of_sweptTo {lost : List Segment} (hinv : tx.Inv cfg lost)
    (h : m.SweptTo cfg tx ackSn gs gs pre now) :
    acked (sweepOf cfg tx ackSn gs).1 = acked ((sweepOf cfg tx ackSn pre).1 ++ now) := by
  obtain ⟨more, hD, hahead, hmnil, hmore⟩ := sweepOf_of_sweptTo h
  have hnone : acked more = [] := by
    by_cases hnil : m.retxRest = []
    · rw [hmnil hnil]
      rfl
    · obtain ⟨r, more', rfl⟩ := hmore hnil
      obtain ⟨hcw, hcr⟩ := h.lists.retxRest hnil
      have hsplit : m.retxRest = r :: (more'.map (fun p => p.1.2) ++
          (sweepOf cfg tx ackSn gs).2.map Prod.snd) := by
        have hl := congrArg (List.map Prod.snd) hahead
        rw [hcw, hcr] at hl
        simpa [lookOrder, Function.comp_def] using hl.symm
      have hsuf := h.lists.retx
      rw [hcr, List.nil_append, hsplit] at hsuf
      have hr : ¬ snCompareTx cfg tx (tx.sn r) ackSn < 0 := by
        obtain ⟨-, n, -, hv⟩ := sweepOf_verdict cfg tx ackSn gs ((.retx, r), .unacked)
          (by rw [hD]; simp)
        exact (verdict_unacked hv.symm).2
      have hno : ∀ p ∈ more', p.2 ≠ .acked := by
        intro p hp hacked
        obtain ⟨-, n, -, hv⟩ := sweepOf_verdict cfg tx ackSn gs p (by rw [hD]; simp [hp])
        refine not_acked_behind hinv hsuf ?_ hr (verdict_acked (hv.symm.trans hacked))
        exact List.mem_append_left _ (List.mem_map_of_mem hp)
      simpa [acked, pick] using fun s x v hp => hno ((s, x), v) hp
  rw [hD, acked, pick_append]
  change _ ++ acked more = _
  rw [hnone, List.append_nil]

/-- The pieces that the merge has made of the two lists. -/
theorem pieces_of_sweptTo {lost : List Segment} (hinv : tx.Inv cfg lost)
    (h : m.SweptTo cfg tx ackSn gs gs pre now) :
    m.Pieces tx (acked (sweepOf cfg tx ackSn gs).1) := by
  refine ⟨h.lists.waitRest, fun s hs => h.lists.wait.subset hs, fun s hs =>
    h.lists.retx.subset (List.mem_append_left _ hs), ?_, ?_⟩
  · obtain ⟨more, hD, -, -, -⟩ := sweepOf_of_sweptTo h
    have hdone := @pick_perm ((sweepOf cfg tx ackSn pre).1 ++ now) fun p hp =>
      (sweepOf_verdict cfg tx ackSn gs p (by rw [hD]; exact List.mem_append_left _ hp)).1
    have hsplit := sweepOf_split cfg tx ackSn pre
    rw [h.swept.rest, Merge.unrest, ← List.append_assoc, ← List.map_append] at hsplit
    have hall := lookOrder_perm tx tx.waitList tx.retransmitList
    rw [← hsplit, List.map_append, List.map_map] at hall
    have hahead := lookOrder_perm tx m.curWait (m.curRetx ++ m.retxRest)
    rw [acked_of_sweptTo hinv h]
    have hw : m.waitFront = _ := h.swept.waitFront
    have hr : m.newRetx = _ := h.swept.newRetx
    rw [hw, hr]
    refine List.Perm.trans ?_ ((hdone.append hahead.symm).trans hall)
    grind
  · refine List.Nodup.sublist (List.Sublist.map _ ?_) hinv.parts.addr_nodup
    simp only [AmTx.segments]
    grind

/-- The merge of a PDU whose header cannot be decoded. -/
theorem sweptTo_untouched (tx : AmTx) :
    Merge.SweptTo cfg tx ackSn [] [] { tx, curWait := tx.waitList, curRetx := tx.retransmitList } [] [] := by
  refine ⟨⟨⟨⟨_, _, _, _, _, rfl⟩, fun _ => ⟨rfl, rfl, rfl⟩⟩, rfl, List.Sublist.refl _,
    List.suffix_refl _, by simp, by simp, by simp⟩, fun _ => rfl, fun hne => absurd rfl hne,
    ⟨by simp [Merge.unrest, sweepOf, Sweep.sweep], by simp, fun _ => rfl, rfl, rfl, ?_⟩, ?_⟩
  · simp [Merge.unrest, sweepOf, Sweep.sweep, acked]
  · simp [sweepOf, Sweep.sweep]

end Harmless

/-! ## The transmitter after the error -/

/-- `ACK_SN` and the NACKs that were processed before the error. -/
def decodedPart (cfg : AmConfig) (tx : AmTx) (buffer : List UInt8) : ℤ × List Nack :=
  match decodeStatus cfg buffer with
  | none => (0, [])
  | some status => (status.ackSn, status.goodNacks cfg tx)

/-- The transmitter is consistent after an error: the three lists hold the segments of before
but for those that are freed now; these are below `ACK_SN` and hit by no NACK; no freed segment is
linked; and `retx_size` is the size of `retransmit_list`. -/
def ErrState.Consistent (cfg : AmConfig) (tx : AmTx) (ackSn : ℤ) (gs : List Nack)
    (state : ErrState) : Prop :=
  ∃ waitList retransmitList acked, state.waitList = some waitList ∧
    state.retransmitList = some retransmitList ∧ state.tx.txList = tx.txList ∧
    state.tx.freed = tx.freed ++ acked ∧
    (waitList ++ retransmitList ++ acked).Perm (tx.waitList ++ tx.retransmitList) ∧
    (∀ s ∈ acked, snCompareTx cfg tx (tx.sn s) ackSn < 0 ∧ ∀ n ∈ gs, ¬ n.Hits tx s) ∧
    (∀ s ∈ state.tx.freed, ∀ x ∈ state.tx.txList ++ waitList ++ retransmitList, x.addr ≠ s.addr) ∧
    state.tx.bstatusRetxSize = totalSize cfg retransmitList

section Consistent

variable {cfg : AmConfig} {tx : AmTx} {lost : List Segment} {ackSn : ℤ} {gs pre : List Nack}
  {m : Merge} {now : List (Look × Verdict)}

theorem consistent_iff (hinv : tx.Inv cfg lost) (h : m.SweptTo cfg tx ackSn gs gs pre now)
    (hsize : m.tx.bstatusRetxSize = totalSize cfg (m.newRetx ++ m.curRetx ++ m.retxRest)) :
    m.err.Consistent cfg tx ackSn gs ↔ Harmless cfg tx ackSn gs := by
  have hpieces := pieces_of_sweptTo hinv h
  have hnd := List.Nodup.of_map _ hpieces.nodup
  obtain ⟨hndw, hndr, -⟩ := List.nodup_append.mp hnd
  have hfreed : m.tx.freed = tx.freed ++ acked (sweepOf cfg tx ackSn gs).1 := by
    rw [acked_of_sweptTo hinv h]
    exact h.swept.freed
  obtain ⟨timer, bst, size, heap, freed, htx⟩ := h.lists.frame.tx_eq
  have hw : m.tx.waitList = tx.waitList := by rw [htx]
  have hr : m.tx.retransmitList = tx.retransmitList := by rw [htx]
  have ht : m.tx.txList = tx.txList := by rw [htx]
  have hmem : ∀ s, s ∈ acked (sweepOf cfg tx ackSn gs).1 ↔
      ∃ p ∈ (sweepOf cfg tx ackSn gs).1, p.2 = .acked ∧ p.1.2 = s := by
    simp [acked, pick, and_assoc]
  constructor
  · rintro ⟨wl, rl, ak, h1, h2, -, h4, h5, h6, -, h8⟩
    have hak : ak = acked (sweepOf cfg tx ackSn gs).1 := by
      have : m.tx.freed = tx.freed ++ ak := h4
      rw [hfreed, List.append_cancel_left_eq] at this
      exact this.symm
    subst hak
    have hwhole : m.Whole cfg tx (acked (sweepOf cfg tx ackSn gs).1) :=
      ⟨wl, rl, by rw [← h1, ← hw]; rfl, by rw [← h2, ← hr]; rfl, h5, hsize.symm.trans h8⟩
    refine (heads_iff hndw hndr h ?_).mp (heads_of_whole hpieces hwhole)
    exact fun p hp hv n hn => (h6 p.1.2 ((hmem _).mpr ⟨p, hp, hv, rfl⟩)).2 n hn
  · intro hh
    obtain ⟨wl, rl, h1, h2, h3, h4⟩ :=
      @whole_of_heads cfg tx m _ hpieces ((heads_iff hndw hndr h hh.acked).mpr hh)
    refine ⟨wl, rl, _, by rw [← h1, ← hw]; rfl, by rw [← h2, ← hr]; rfl, ht, hfreed, h3, ?_, ?_,
      hsize.trans h4⟩
    · intro s hs
      obtain ⟨p, hp, hv, rfl⟩ := (hmem s).mp hs
      obtain ⟨-, n, -, hn⟩ := sweepOf_verdict cfg tx ackSn gs p hp
      exact ⟨verdict_acked (hn.symm.trans hv), hh.acked p hp hv⟩
    · -- the lists and the freed segments together are those of before
      have hperm : (tx.txList ++ (wl ++ rl ++ acked (sweepOf cfg tx ackSn gs).1) ++
          tx.freed ++ lost).Perm (tx.segments lost) := by
        unfold AmTx.segments
        grind
      have hnd := (hperm.map Segment.addr).nodup_iff.mpr hinv.parts.addr_nodup
      intro s hs x hx
      change s ∈ m.tx.freed at hs
      change x ∈ m.tx.txList ++ wl ++ rl at hx
      rw [hfreed] at hs
      rw [ht] at hx
      have hsub : ((tx.txList ++ wl ++ rl) ++
          (acked (sweepOf cfg tx ackSn gs).1 ++ tx.freed)).Sublist
          (tx.txList ++ (wl ++ rl ++ acked (sweepOf cfg tx ackSn gs).1) ++ tx.freed ++ lost) := by
        simp
      have := hnd.sublist (hsub.map Segment.addr)
      rw [List.map_append, List.nodup_append] at this
      refine this.2.2 _ (List.mem_map_of_mem hx) _ (List.mem_map_of_mem ?_)
      simp only [List.mem_append] at hs ⊢
      tauto

/-- A control PDU with a decoding error leaves the merge as it was at that moment. -/
theorem processControlPdu_err {buffer : List UInt8} {state : ErrState} (hinv : tx.Inv cfg lost)
    (herr : processControlPdu cfg tx buffer = .err state) :
    ∃ (m : Merge) (pre : List Nack) (now : List (Look × Verdict)), state = m.err ∧
      m.SweptTo cfg tx (decodedPart cfg tx buffer).1
        (decodedPart cfg tx buffer).2 (decodedPart cfg tx buffer).2 pre now ∧
      m.asTx.Parts lost ∧ (tx.Accounts cfg → m.Sums cfg) := by
  rw [processControlPdu] at herr
  rw [decodedPart]
  cases hd : decodeStatus cfg buffer with
  | none =>
      rw [hd] at herr
      injection herr with herr
      refine ⟨_, _, _, herr.symm, sweptTo_untouched tx, ?_, fun hacc => ⟨?_, hacc.txSize_eq⟩⟩
      · refine hinv.parts.of_perm ?_ rfl rfl (fun _ => ⟨rfl, rfl⟩) hinv.parts.freeCount_eq
        simp [AmTx.segments, Merge.asTx]
      · simpa [Merge.asTx] using hacc.bstatusRetxSize_eq
  | some status =>
      rw [hd] at herr
      simp only at herr
      split at herr
      · cases herr
      · injection herr with herr
        obtain ⟨pre, now, hswept⟩ := sweptTo_merge cfg tx status
        have hm := inv_merge hinv (decodeStatus_ackSn hd)
        exact ⟨_, pre, now, herr.symm, hswept, hm.parts, hm.sums⟩

end Consistent

/-- **A malformed STATUS PDU.** The transmitter is consistent after a control PDU with a decoding
error exactly when the part that was decoded does no harm. -/
theorem malformed_status (cfg : AmConfig) (tx : AmTx) (lost : List Segment) (buffer : List UInt8)
    (state : ErrState) (hinv : tx.Inv cfg lost) (hacc : tx.Accounts cfg)
    (herr : processControlPdu cfg tx buffer = .err state) :
    state.Consistent cfg tx (decodedPart cfg tx buffer).1 (decodedPart cfg tx buffer).2 ↔
      Harmless cfg tx (decodedPart cfg tx buffer).1 (decodedPart cfg tx buffer).2 := by
  obtain ⟨m, pre, now, rfl, hswept, -, hsums⟩ := processControlPdu_err hinv herr
  exact consistent_iff hinv hswept (hsums hacc).bstatusRetxSize_eq

/-- An SDU is sent in two segments, another one in one PDU, and the first one is NACKed. -/
def twoNackedOps : List Op :=
  [.recvSdu (List.replicate 20 0xaa) 7, .recvSdu [0xbb] 8, .generatePdu (List.replicate 12 0),
    .generatePdu (List.replicate 14 0), .generatePdu [0, 0, 0],
    .recvPdu [0x00, 0x01, 0x80, 0x00, 0x00]]

/-- The state after them. -/
def twoNacked : AmEntity :=
  match amRun (newAmEntity testConfig) twoNackedOps with
  | .ok (e, _) => e
  | .error _ => newAmEntity testConfig

/-- SN 0 is NACKed once more, and the next NACK is cut off: the two segments of SN 0 stay in
`retransmit_list`, and SN 1 in `wait_list`. -/
theorem malformed_status_cut :
    ∃ events state, amRun (newAmEntity testConfig) twoNackedOps = .ok (twoNacked, events) ∧
      processControlPdu twoNacked.cfg twoNacked.tx [0x00, 0x02, 0x80, 0x00, 0x08] = .err state ∧
      decodedPart twoNacked.cfg twoNacked.tx [0x00, 0x02, 0x80, 0x00, 0x08] =
        (2, [{ sn := 0, soStart := 0, soEnd := -1 }]) ∧
      state.Consistent twoNacked.cfg twoNacked.tx
        (decodedPart twoNacked.cfg twoNacked.tx [0x00, 0x02, 0x80, 0x00, 0x08]).1
        (decodedPart twoNacked.cfg twoNacked.tx [0x00, 0x02, 0x80, 0x00, 0x08]).2 := by
  have hinv := @segments_amRun testConfig twoNackedOps twoNacked _ rfl
    (Machine.along_of_check errorFreeStatus_of_check (by decide +kernel))
    (Machine.along_of_check noSpeedup_of_check (by decide +kernel))
  have hdec : decodedPart twoNacked.cfg twoNacked.tx [0x00, 0x02, 0x80, 0x00, 0x08] =
      (2, [{ sn := 0, soStart := 0, soEnd := -1 }]) := by decide +kernel
  refine ⟨_, _, rfl, rfl, hdec, (malformed_status _ _ _ _ _ hinv.1 hinv.2 rfl).mpr ?_⟩
  rw [hdec]
  refine ⟨?_, .inr ⟨?_, .inl ?_⟩, ?_⟩
  all_goals
    rw [sweepOf_eq]
    decide +kernel

/-- An SDU of one byte is sent and NACKed, and the next NACK is cut off: the segment is still what
`wait_list` points to, while its size is counted as to be retransmitted. -/
theorem malformed_status_inconsistent :
    ¬ ∀ (cfg : AmConfig) (ops : List Op) (e : AmEntity) (events : List Event)
      (buffer : List UInt8) (state : ErrState), amRun (newAmEntity cfg) ops = .ok (e, events) →
      Machine.Along amStep ErrorFreeStatus (newAmEntity cfg) ops →
      processControlPdu e.cfg e.tx buffer = .err state →
      state.Consistent e.cfg e.tx (decodedPart e.cfg e.tx buffer).1
        (decodedPart e.cfg e.tx buffer).2 := by
  intro h
  obtain ⟨wl, rl, _, -, hrl, -, -, -, -, -, hsize⟩ :=
    h testConfig [.recvSdu [0xaa] 7, .generatePdu [0, 0, 0]] _ _
      [0x00, 0x01, 0x80, 0x00, 0x08] _ rfl
      ⟨trivial, fun _ _ _ => ⟨trivial, fun _ _ _ => trivial⟩⟩ rfl
  have hnil : rl = [] := by
    injection hrl.symm
  rw [hnil] at hsize
  exact absurd hsize (by decide +kernel)

end OaiCu.NrRlc
