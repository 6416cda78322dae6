import OaiCu.NrRlc.AmErr
import OaiCu.NrRlc.AmStatusSize
import OaiCu.NrRlc.PduFields

/-!
# RLC AM: what a segment stands for

Whatever a STATUS PDU does to the lists, a segment in them is a part of its SDU, and the SDU has
an SN once a part of it was sent. This is all that `serialize_sdu` relies on.
-/

namespace OaiCu.NrRlc

/-! ## The invariant -/

/-- The segment is a part of its SDU. -/
structure AmTx.Holds (tx : AmTx) (s : Segment) : Prop where
  sdu_lt : s.sdu < tx.nextSdu
  le : s.so + s.size ≤ (tx.heap s.sdu).data.length
  first : s.isFirst = true → s.so = 0

/-- Segments are parts of SDUs, and those that were sent have an SN. A segment on its way from
one list to another is kept apart as `flight`. -/
structure AmTx.Contents (cfg : AmConfig) (tx : AmTx) (flight : List Segment) : Prop where
  txNext_range : 0 ≤ tx.txNext ∧ tx.txNext < cfg.snModulus
  size_le : ∀ i, (tx.heap i).data.length ≤ nrSduMax
  sn_lt : ∀ i, (tx.heap i).sn < cfg.snModulus
  holds : ∀ s ∈ tx.txList ++ tx.outstanding ++ flight, tx.Holds s
  sent : ∀ s ∈ tx.outstanding ++ flight, 0 ≤ tx.sn s

theorem contents_new (cfg : AmConfig) : ({} : AmTx).Contents cfg [] := by
  have := cfg.snModulus_pos
  refine ⟨⟨le_rfl, this⟩, fun _ => Nat.zero_le _, fun _ => ?_, nofun, nofun⟩
  change (-1 : ℤ) < cfg.snModulus
  omega

section Contents

variable {cfg : AmConfig} {tx tx' : AmTx} {flight flight' : List Segment}

/-- Segments may go, and of the SDUs only the counters change. -/
theorem AmTx.Contents.sub (h : tx.Contents cfg flight) (hn : tx'.txNext = tx.txNext)
    (hs : tx'.nextSdu = tx.nextSdu)
    (hheap : ∀ i, (tx'.heap i).sn = (tx.heap i).sn ∧ (tx'.heap i).data = (tx.heap i).data)
    (hl : ∀ s ∈ tx'.txList, s ∈ tx.txList ++ tx.outstanding ++ flight)
    (ho : ∀ s ∈ tx'.outstanding ++ flight', s ∈ tx.outstanding ++ flight) :
    tx'.Contents cfg flight' where
  txNext_range := hn ▸ h.txNext_range
  size_le i := (hheap i).2 ▸ h.size_le i
  sn_lt i := (hheap i).1 ▸ h.sn_lt i
  holds s hsm := by
    have hmem : s ∈ tx.txList ++ tx.outstanding ++ flight := by
      rw [List.append_assoc, List.mem_append] at hsm
      rcases hsm with hsm | hsm
      · exact hl s hsm
      · rw [List.append_assoc]
        exact List.mem_append_right _ (ho s hsm)
    have := h.holds s hmem
    exact ⟨hs ▸ this.sdu_lt, (hheap _).2 ▸ this.le, this.first⟩
  sent s hsm := by
    have := h.sent s (ho s hsm)
    unfold AmTx.sn at *
    rw [(hheap _).1]
    exact this

/-! ## Lists -/

theorem cutAfter_subset {addr : ℕ} {l front : List Segment} (h : cutAfter addr l = some front) :
    ∀ x ∈ front, x ∈ l := by
  induction l generalizing front with
  | nil => cases h
  | cons s l ih =>
      rw [cutAfter] at h
      split at h
      · injection h with h
        subst h
        simp
      · obtain ⟨front', hf, rfl⟩ := Option.map_eq_some_iff.mp h
        intro x hx
        rcases List.mem_cons.mp hx with rfl | hx
        · exact List.mem_cons_self
        · exact List.mem_cons_of_mem _ (ih hf x hx)

/-- Appending a node adds no other one. -/
theorem segmentListAppend_subset {l l' : List Segment} {endAddr e' : Option ℕ} {s : Segment}
    (h : segmentListAppend l endAddr s = .ok (l', e')) : s ∈ l' ∧ ∀ x ∈ l', x ∈ s :: l := by
  unfold segmentListAppend at h
  split at h
  · obtain ⟨rfl, -⟩ := ok_pair h
    simp
  · cases h
  · rename_i addr hl
    split at h
    · cases h
    · rename_i front hf
      obtain ⟨rfl, -⟩ := ok_pair h
      refine ⟨by simp, fun x hx => ?_⟩
      rcases List.mem_append.mp hx with hx | hx
      · exact List.mem_cons_of_mem _ (cutAfter_subset hf x hx)
      · rw [List.mem_singleton.mp hx]
        exact List.mem_cons_self

/-- "put SDU/SDU segment in the wait list" adds this segment and no other, whatever the list is
like. -/
theorem putInWaitList_subset {s : Segment} (h : putInWaitList cfg tx s = .ok tx') :
    ∃ l e, tx' = { tx with waitList := l, waitEnd := e } ∧ s ∈ l ∧
      ∀ x ∈ l, x ∈ s :: tx.waitList := by
  have happend : ∀ {tx'}, (do
      let r ← segmentListAppend tx.waitList tx.waitEnd s
      return { tx with waitList := r.1, waitEnd := r.2 } : Except Fault AmTx) = .ok tx' →
      ∃ l e, tx' = { tx with waitList := l, waitEnd := e } ∧ s ∈ l ∧
        ∀ x ∈ l, x ∈ s :: tx.waitList := by
    intro tx' h
    obtain ⟨⟨l, e⟩, happ, h⟩ := Machine.bind_ok h
    injection h with h
    exact ⟨l, e, h.symm, segmentListAppend_subset happ⟩
  unfold putInWaitList at h
  split at h
  · exact happend h
  split at h
  · cases h
  dsimp only at h
  split at h
  · exact happend h
  · have hmem : ∀ x, x ∈ segmentListAdd (snCompareTx cfg tx) tx.sn tx.waitList s ↔
        x ∈ s :: tx.waitList := fun x => (List.perm_orderedInsert _ _ _).mem_iff
    split at h
    all_goals
      injection h with h
      exact ⟨_, _, h.symm, (hmem s).mpr List.mem_cons_self, fun x => (hmem x).mp⟩

/-- `wait_end` can be appended to: it is a node of `wait_list`, or both are `NULL`. -/
def AmTx.TailUsable (tx : AmTx) : Prop :=
  match tx.waitEnd with
  | none => tx.waitList = []
  | some addr => ∃ s ∈ tx.waitList, s.addr = addr

theorem cutAfter_isSome {addr : ℕ} {l : List Segment} (h : ∃ s ∈ l, s.addr = addr) :
    ∃ front, cutAfter addr l = some front := by
  induction l with
  | nil =>
      obtain ⟨s, hs, -⟩ := h
      cases hs
  | cons x l ih =>
      rw [cutAfter]
      split
      · exact ⟨_, rfl⟩
      · rename_i hne
        obtain ⟨s, hs, ha⟩ := h
        rcases List.mem_cons.mp hs with rfl | hs
        · exact absurd ha hne
        · obtain ⟨front, hf⟩ := ih ⟨s, hs, ha⟩
          exact ⟨x :: front, by rw [hf]; rfl⟩

/-- A segment can be put in `wait_list` if the end of the list can be used, and else a bad pointer
is. -/
theorem putInWaitList_cases (cfg : AmConfig) (tx : AmTx) (s : Segment) :
    (tx.TailUsable ∧ ∃ tx', putInWaitList cfg tx s = .ok tx') ∨
      (¬ tx.TailUsable ∧ ∃ f, putInWaitList cfg tx s = .error f ∧ f ≠ .exit) := by
  unfold AmTx.TailUsable putInWaitList
  cases he : tx.waitEnd with
  | none =>
      cases hw : tx.waitList with
      | nil => exact .inl ⟨rfl, _, rfl⟩
      | cons x l => exact .inr ⟨nofun, _, rfl, by decide⟩
  | some addr =>
      dsimp only
      cases hf : tx.waitList.find? (fun s => s.addr = addr) with
      | none =>
          refine .inr ⟨?_, .freedNode, rfl, by decide⟩
          rintro ⟨x, hx, hxa⟩
          simpa [hxa] using List.find?_eq_none.mp hf x hx
      | some x =>
          have hx : ∃ s ∈ tx.waitList, s.addr = addr :=
            ⟨x, List.mem_of_find?_eq_some hf, by simpa using List.find?_some hf⟩
          have happ : ∃ res, segmentListAppend tx.waitList (some addr) s = .ok res := by
            obtain ⟨front, hfront⟩ := cutAfter_isSome hx
            cases hw : tx.waitList with
            | nil => simp [hw] at hx
            | cons y l =>
                rw [hw] at hfront
                exact ⟨(front ++ [s], some s.addr), by simp only [segmentListAppend, hfront]⟩
          obtain ⟨res, happ⟩ := happ
          refine .inl ⟨hx, ?_⟩
          dsimp only
          rw [happ]
          split
          · exact ⟨_, rfl⟩
          · split <;> exact ⟨_, rfl⟩

/-! ## `generate_pdu` -/

/-- The two parts of a segment. -/
theorem resegment_holds {s : Segment} {size addr : ℕ} (h : tx.Holds s)
    (hsize : computePduHeaderSize cfg s + 1 ≤ size) (hlt : pduSize cfg s > size) :
    tx.Holds (resegment cfg s size addr).1 ∧ tx.Holds (resegment cfg s size addr).2 := by
  unfold pduSize at hlt
  have := h.le
  refine ⟨⟨h.sdu_lt, ?_, h.first⟩, ⟨h.sdu_lt, ?_, nofun⟩⟩
  all_goals
    simp only [resegment]
    omega

/-- What remains of the segment to send fits. -/
theorem resegment_fits {s : Segment} {size addr : ℕ}
    (hsize : computePduHeaderSize cfg s + 1 ≤ size) (hlt : pduSize cfg s > size) :
    pduSize cfg (resegment cfg s size addr).1 = size := by
  have hheader : computePduHeaderSize cfg (resegment cfg s size addr).1 =
      computePduHeaderSize cfg s := rfl
  unfold pduSize at *
  rw [hheader]
  simp only [resegment]
  omega

/-- A segment on its way is cut in two. -/
theorem AmTx.Contents.cut {s s₁ s₂ : Segment} (h : tx.Contents cfg [s]) (h₁ : tx.Holds s₁)
    (h₂ : tx.Holds s₂) (hsdu₁ : s₁.sdu = s.sdu) (hsdu₂ : s₂.sdu = s.sdu) :
    (tx.addRef s).Contents cfg [s₁, s₂] := by
  have hsent : 0 ≤ (tx.heap s.sdu).sn := h.sent s (by simp)
  have hpieces : tx.Contents cfg [s₁, s₂] := by
    refine ⟨h.txNext_range, h.size_le, h.sn_lt, ?_, ?_⟩
    · intro x hx
      rw [List.mem_append] at hx
      rcases hx with hx | hx
      · exact h.holds x (List.mem_append_left _ hx)
      · rcases List.mem_pair.mp hx with rfl | rfl
        · exact h₁
        · exact h₂
    · intro x hx
      rw [List.mem_append] at hx
      rcases hx with hx | hx
      · exact h.sent x (List.mem_append_left _ hx)
      · unfold AmTx.sn
        rcases List.mem_pair.mp hx with rfl | rfl
        · rwa [hsdu₁]
        · rwa [hsdu₂]
  refine hpieces.sub rfl rfl (fun i => ?_)
    (fun _ hx => List.mem_append_left _ (List.mem_append_left _ hx)) (fun _ hx => hx)
  unfold AmTx.addRef
  by_cases hi : i = s.sdu
  · subst hi
    simp
  · simp [hi]

theorem takeRetx_contents {s : Segment} {next : List Segment} {size : ℕ}
    (h : tx.Contents cfg []) (hl : tx.retransmitList = s :: next)
    (hsize : computePduHeaderSize cfg s + 1 ≤ size) :
    (takeRetx cfg tx s next size).1.Contents cfg [(takeRetx cfg tx s next size).2] := by
  have hs : tx.Holds s := h.holds s (by simp [AmTx.outstanding, hl])
  have htaken : { tx with
      retransmitList := next
      bstatusRetxSize := tx.bstatusRetxSize - pduSize cfg s }.Contents cfg [s] := by
    refine h.sub rfl rfl (fun _ => ⟨rfl, rfl⟩) (fun x hx => by simp [hx]) ?_
    intro x hx
    simp only [AmTx.outstanding, hl, List.mem_append, List.mem_cons, List.not_mem_nil] at hx ⊢
    tauto
  unfold takeRetx
  dsimp only
  split
  · rename_i hlt
    obtain ⟨h₁, h₂⟩ := @resegment_holds _ _ _ _ tx.nextSeg hs hsize hlt
    have hcut := htaken.cut ⟨h₁.sdu_lt, h₁.le, h₁.first⟩ ⟨h₂.sdu_lt, h₂.le, h₂.first⟩ rfl rfl
    refine hcut.sub rfl rfl (fun _ => ⟨rfl, rfl⟩)
      (fun _ hx => List.mem_append_left _ (List.mem_append_left _ hx)) ?_
    intro x hx
    simp only [AmTx.outstanding, AmTx.addRef, List.mem_append, List.mem_cons,
      List.not_mem_nil] at hx ⊢
    tauto
  · exact htaken

theorem takeTx_contents {s : Segment} {next : List Segment} {size : ℕ}
    (h : tx.Contents cfg []) (hl : tx.txList = s :: next)
    (hsize : computePduHeaderSize cfg s + 1 ≤ size) :
    (takeTx cfg tx s next size).1.Contents cfg [(takeTx cfg tx s next size).2] := by
  have hheap : ∀ i,
      ((Function.update tx.heap s.sdu { tx.heap s.sdu with sn := tx.txNext } i).sn =
          if i = s.sdu then tx.txNext else (tx.heap i).sn) ∧
        (Function.update tx.heap s.sdu { tx.heap s.sdu with sn := tx.txNext } i).data =
          (tx.heap i).data := by
    intro i
    by_cases hi : i = s.sdu
    · subst hi
      simp
    · simp [hi]
  have htaken : { tx with
      txList := next
      txEnd := if next.isEmpty then none else tx.txEnd
      bstatusTxSize := tx.bstatusTxSize - pduSize cfg s
      heap := Function.update tx.heap s.sdu { tx.heap s.sdu with sn := tx.txNext } }.Contents
        cfg [s] := by
    refine ⟨h.txNext_range, fun i => (hheap i).2 ▸ h.size_le i, fun i => ?_, ?_, ?_⟩
    · rw [(hheap i).1]
      split
      · exact h.txNext_range.2
      · exact h.sn_lt i
    · intro x hx
      have hx' : x ∈ tx.txList ++ tx.outstanding ++ [] := by
        simp only [AmTx.outstanding, hl, List.mem_append, List.mem_cons, List.not_mem_nil] at hx ⊢
        tauto
      have := h.holds x hx'
      exact ⟨this.sdu_lt, (hheap x.sdu).2 ▸ this.le, this.first⟩
    · intro x hx
      unfold AmTx.sn
      rw [(hheap x.sdu).1]
      split
      · exact h.txNext_range.1
      · rename_i hne
        refine h.sent x ?_
        rcases List.mem_append.mp hx with hx | hx
        · exact List.mem_append_left _ hx
        · exact absurd (congrArg Segment.sdu (List.mem_singleton.mp hx)) hne
  have hs := htaken.holds s (by simp)
  unfold takeTx
  dsimp only
  split
  · rename_i hlt
    obtain ⟨h₁, h₂⟩ := @resegment_holds _ _ _ _ tx.nextSeg hs hsize hlt
    have hcut := htaken.cut h₁ h₂ rfl rfl
    refine hcut.sub rfl rfl (fun _ => ⟨rfl, rfl⟩) ?_ ?_
    all_goals
      intro x hx
      simp only [AmTx.outstanding, AmTx.addRef, List.mem_append, List.mem_cons,
        List.not_mem_nil] at hx ⊢
      tauto
  · exact htaken

theorem raiseTxNext_contents (h : tx.Contents cfg flight) (s : Segment) :
    (raiseTxNext cfg tx s).Contents cfg flight := by
  have hpos := cfg.snModulus_pos
  unfold raiseTxNext
  split
  · exact ⟨⟨Int.emod_nonneg _ hpos.ne', Int.emod_lt_of_pos _ hpos⟩, h.size_le, h.sn_lt,
      fun s hs => ⟨(h.holds s hs).sdu_lt, (h.holds s hs).le, (h.holds s hs).first⟩, h.sent⟩
  · exact h

/-- The segment that was on its way is in `wait_list`. -/
theorem putInWaitList_contents {s : Segment} (h : tx.Contents cfg [s])
    (hp : putInWaitList cfg tx s = .ok tx') : tx'.Contents cfg [] := by
  obtain ⟨l, e, rfl, -, hl⟩ := putInWaitList_subset hp
  refine h.sub rfl rfl (fun _ => ⟨rfl, rfl⟩)
    (fun _ hx => List.mem_append_left _ (List.mem_append_left _ hx)) ?_
  intro x hx
  have := hl x
  simp only [AmTx.outstanding, List.mem_append, List.mem_cons, List.not_mem_nil] at hx this ⊢
  tauto

/-- The call of `serialize_sdu` in `generate_pdu`: the segment was put in `wait_list` before, and
its PDU fits into the buffer. -/
structure Serializes (cfg : AmConfig) (tCurrent : ℕ) (buffer : List UInt8) (tx : AmTx)
    (s : Segment) (p : Bool) (tx' : AmTx) (pdu : List UInt8) : Prop where
  eq : serializeSdu cfg tCurrent tx s buffer p = .ok (tx', pdu)
  fits : pduSize cfg s ≤ buffer.length
  mem : s ∈ tx.waitList

/-- How the generation of a data PDU ends: `sends` tells whether there is a segment to send that
has room. -/
inductive DataOutcome (cfg : AmConfig) (tCurrent : ℕ) (tx : AmTx) (buffer : List UInt8)
    (sends : Prop) : Except Fault (AmTx × List UInt8) → Prop
  | refused (h : ¬ sends) : DataOutcome cfg tCurrent tx buffer sends (.ok (tx, []))
  | fault {f : Fault} (h : sends) (ht : ¬ tx.TailUsable) (hf : f ≠ .exit) :
      DataOutcome cfg tCurrent tx buffer sends (.error f)
  | sent {tx₁ tx' : AmTx} {s : Segment} {p : Bool} {pdu : List UInt8} (h : sends)
      (ht : tx.TailUsable) (hs : Serializes cfg tCurrent buffer tx₁ s p tx' pdu)
      (hc : tx.Contents cfg [] → tx₁.Contents cfg []) :
      DataOutcome cfg tCurrent tx buffer sends (.ok (tx', pdu))

/-- The head of `retransmit_list` has room. -/
def SendsRetx (cfg : AmConfig) (tx : AmTx) (size : ℕ) : Prop :=
  ∃ s ∈ tx.retransmitList.head?, computePduHeaderSize cfg s + 1 ≤ size

/-- The head of `tx_list` may be sent and has room. -/
def SendsTx (cfg : AmConfig) (tx : AmTx) (size : ℕ) : Prop :=
  isWindowStalling cfg tx = false ∧ ∃ s ∈ tx.txList.head?, computePduHeaderSize cfg s + 1 ≤ size

variable {tCurrent : ℕ} {buffer : List UInt8} {sends : Prop}

/-- A segment that fits is put in `wait_list` and serialized, unless the end of the list cannot be
used. -/
theorem DataOutcome.of_fits {tx₁ : AmTx} {s : Segment}
    {rest : AmTx → Except Fault (AmTx × List UInt8)} (hsends : sends)
    (hfits : pduSize cfg s ≤ buffer.length) (ht : tx₁.TailUsable ↔ tx.TailUsable)
    (hc : tx.Contents cfg [] → tx₁.Contents cfg [s])
    (hrest : ∀ tx₂, ∃ tx₃ p, rest tx₂ = serializeSdu cfg tCurrent tx₃ s buffer p ∧
      tx₃.waitList = tx₂.waitList ∧ (tx₂.Contents cfg [] → tx₃.Contents cfg [])) :
    DataOutcome cfg tCurrent tx buffer sends (putInWaitList cfg tx₁ s >>= rest) := by
  rcases putInWaitList_cases cfg tx₁ s with ⟨husable, tx₂, hp⟩ | ⟨husable, f, hp, hf⟩
  · obtain ⟨l, e, htx₂, hmem, -⟩ := putInWaitList_subset hp
    obtain ⟨tx₃, p, heq, hwait, hc₃⟩ := hrest tx₂
    obtain ⟨tx', pdu, h, -⟩ := @serializeSdu_spec cfg buffer tCurrent tx₃ s p
      ((Nat.le_add_right _ _).trans hfits)
    have hs : s ∈ tx₃.waitList := by
      rw [hwait, htx₂]
      exact hmem
    rw [hp]
    change DataOutcome cfg tCurrent tx buffer sends (rest tx₂)
    rw [heq, h]
    exact .sent hsends (ht.mp husable) ⟨h, hfits, hs⟩
      fun hcont => hc₃ (putInWaitList_contents (hc hcont) hp)
  · rw [hp]
    exact .fault hsends (fun h => husable (ht.mpr h)) hf

theorem generateRetxPdu_outcome {s : Segment} {next : List Segment}
    (hl : tx.retransmitList = s :: next) :
    DataOutcome cfg tCurrent tx buffer (SendsRetx cfg tx buffer.length)
      (generateRetxPdu cfg tCurrent tx s next buffer) := by
  have hiff : SendsRetx cfg tx buffer.length ↔
      computePduHeaderSize cfg s + 1 ≤ buffer.length := by
    simp [SendsRetx, hl]
  rw [hiff]
  unfold generateRetxPdu
  split
  · rename_i hroom
    exact .refused (not_le.mpr hroom)
  rename_i hroom
  have hfits : pduSize cfg (takeRetx cfg tx s next buffer.length).2 ≤ buffer.length := by
    unfold takeRetx
    dsimp only
    split
    · rename_i hlt
      exact (@resegment_fits _ _ _ tx.nextSeg (by omega) hlt).le
    · rename_i hle
      exact not_lt.mp hle
  have htail : (takeRetx cfg tx s next buffer.length).1.TailUsable ↔ tx.TailUsable := by
    unfold takeRetx
    dsimp only
    split <;> exact Iff.rfl
  refine .of_fits (not_lt.mp hroom) hfits htail
    (fun h => takeRetx_contents h hl (not_lt.mp hroom)) fun tx₂ => ⟨_, _, rfl, rfl, fun h => ?_⟩
  exact h.sub rfl rfl (fun _ => ⟨rfl, rfl⟩)
    (fun _ hx => List.mem_append_left _ (List.mem_append_left _ hx)) (fun _ hx => hx)

theorem generateTxPdu_outcome :
    DataOutcome cfg tCurrent tx buffer (SendsTx cfg tx buffer.length)
      (generateTxPdu cfg tCurrent tx buffer) := by
  unfold generateTxPdu SendsTx
  split
  · rename_i hstalling
    exact .refused fun h => absurd hstalling (by simp [h.1])
  rename_i hstalling
  split
  · rename_i hl
    exact .refused fun h => by simp [hl] at h
  rename_i s next hl
  split
  · rename_i hroom
    refine .refused fun h => ?_
    simp [hl] at h
    omega
  rename_i hroom
  have hfits : pduSize cfg (takeTx cfg tx s next buffer.length).2 ≤ buffer.length := by
    unfold takeTx
    dsimp only
    split
    · rename_i hlt
      exact (@resegment_fits _ _ _ tx.nextSeg (by omega) hlt).le
    · rename_i hle
      exact not_lt.mp hle
  have htake : (takeTx cfg tx s next buffer.length).1.TailUsable ↔ tx.TailUsable := by
    unfold takeTx
    dsimp only
    split <;> exact Iff.rfl
  have hraise : ∀ tx₁ s, (raiseTxNext cfg tx₁ s).TailUsable ↔ tx₁.TailUsable := by
    intro tx₁ s
    unfold raiseTxNext
    split <;> exact Iff.rfl
  refine .of_fits ⟨by simpa using hstalling, s, by simp [hl], by omega⟩ hfits
    ((hraise _ _).trans htake)
    (fun h => raiseTxNext_contents (takeTx_contents h hl (by omega)) _)
    fun tx₂ => ⟨_, _, rfl, rfl, fun h => ?_⟩
  exact h.sub rfl rfl (fun _ => ⟨rfl, rfl⟩)
    (fun _ hx => List.mem_append_left _ (List.mem_append_left _ hx)) (fun _ hx => hx)

theorem Serializes.pdu_ne {tx₁ : AmTx} {s : Segment} {p : Bool} {pdu : List UInt8}
    (h : Serializes cfg tCurrent buffer tx₁ s p tx' pdu) : pdu ≠ [] := by
  obtain ⟨tx₂, pdu₂, h₂, hlen, -⟩ := @serializeSdu_spec cfg buffer tCurrent tx₁ s p
    ((Nat.le_add_right _ _).trans h.fits)
  obtain ⟨-, rfl⟩ := ok_pair (h₂.symm.trans h.eq)
  rintro rfl
  rw [List.length_nil, computePduHeaderSize] at hlen
  omega

theorem generateDataPdu_outcome :
    DataOutcome cfg tCurrent tx buffer
      (SendsRetx cfg tx buffer.length ∨ SendsTx cfg tx buffer.length)
      (generateDataPdu cfg tCurrent tx buffer) := by
  have htx := @generateTxPdu_outcome cfg tx tCurrent buffer
  have hweak : ¬ SendsRetx cfg tx buffer.length → DataOutcome cfg tCurrent tx buffer
      (SendsRetx cfg tx buffer.length ∨ SendsTx cfg tx buffer.length)
      (generateTxPdu cfg tCurrent tx buffer) := by
    intro hno
    rwa [or_iff_right hno]
  unfold generateDataPdu
  split
  · rename_i hl
    exact hweak (by simp [SendsRetx, hl])
  · rename_i s next hl
    have hretx := @generateRetxPdu_outcome cfg tx tCurrent buffer s next hl
    generalize generateRetxPdu cfg tCurrent tx s next buffer = res at hretx
    cases hretx with
    | refused hno => exact hweak hno
    | fault h ht hf => exact .fault (.inl h) ht hf
    | sent h ht hs hc =>
        rename_i pdu
        change DataOutcome cfg tCurrent tx buffer _ (if pdu.isEmpty then _ else _)
        rw [if_neg (by simpa using hs.pdu_ne)]
        exact .sent (.inl h) ht hs hc

/-- What `include_poll` changes. -/
theorem serializeSdu_contents {s : Segment} {p : Bool} {pdu : List UInt8}
    (h : tx.Contents cfg []) (hs : serializeSdu cfg tCurrent tx s buffer p = .ok (tx', pdu)) :
    tx'.Contents cfg [] := by
  unfold serializeSdu at hs
  obtain ⟨header, -, hs⟩ := Machine.bind_ok hs
  cases p with
  | false =>
      obtain ⟨rfl, -⟩ := ok_pair hs
      exact h
  | true =>
      obtain ⟨rfl, -⟩ := ok_pair hs
      exact h.sub rfl rfl (fun _ => ⟨rfl, rfl⟩)
        (fun _ hx => List.mem_append_left _ (List.mem_append_left _ hx)) (fun _ hx => hx)

theorem generateDataPdu_contents {pdu : List UInt8} (h : tx.Contents cfg [])
    (hg : generateDataPdu cfg tCurrent tx buffer = .ok (tx', pdu)) : tx'.Contents cfg [] := by
  have hout := @generateDataPdu_outcome cfg tx tCurrent buffer
  rw [hg] at hout
  cases hout with
  | refused => exact h
  | sent _ _ hs hc => exact serializeSdu_contents (hc h) hs.eq

/-! ## The other calls -/

theorem recvSdu_contents {sduId : ℤ} (h : tx.Contents cfg [])
    (hr : recvSdu cfg tCurrent tx buffer sduId = .ok tx') : tx'.Contents cfg [] := by
  have hlog : (logRejected tCurrent tx).Contents cfg [] := by
    unfold logRejected
    split
    · exact h.sub rfl rfl (fun _ => ⟨rfl, rfl⟩)
        (fun _ hx => List.mem_append_left _ (List.mem_append_left _ hx)) (fun _ hx => hx)
    · exact h
  unfold recvSdu at hr
  split at hr
  · cases hr
  rename_i hsize
  dsimp only at hr
  generalize logRejected tCurrent tx = tx at hlog hr
  split at hr
  · injection hr with hr
    subst hr
    exact hlog.sub rfl rfl (fun _ => ⟨rfl, rfl⟩)
      (fun _ hx => List.mem_append_left _ (List.mem_append_left _ hx)) (fun _ hx => hx)
  obtain ⟨⟨txList, txEnd⟩, happ, hr⟩ := Machine.bind_ok hr
  obtain ⟨-, hsub⟩ := segmentListAppend_subset happ
  injection hr with hr
  subst hr
  have hne : ∀ s ∈ tx.txList ++ tx.outstanding ++ [], s.sdu ≠ tx.nextSdu := fun s hs =>
    (hlog.holds s hs).sdu_lt.ne
  refine ⟨hlog.txNext_range, fun i => ?_, fun i => ?_, fun s hs => ?_, fun s hs => ?_⟩
  · by_cases hi : i = tx.nextSdu
    · subst hi
      simpa [newSdu] using hsize
    · simpa [hi] using hlog.size_le i
  · by_cases hi : i = tx.nextSdu
    · subst hi
      have := cfg.snModulus_pos
      simp only [Function.update_self, newSdu]
      omega
    · simpa [hi] using hlog.sn_lt i
  · by_cases hnew : s = newSegment tx.nextSeg tx.nextSdu buffer.length
    · subst hnew
      exact ⟨Nat.lt_succ_self _, by simp [newSegment, newSdu], fun _ => rfl⟩
    · have hs' : s ∈ tx.txList ++ tx.outstanding ++ [] := by
        have := hsub s
        simp only [AmTx.outstanding, List.mem_append, List.mem_cons, List.not_mem_nil] at hs this ⊢
        tauto
      have := hlog.holds s hs'
      exact ⟨this.sdu_lt.trans (Nat.lt_succ_self _), by simpa [hne s hs'] using this.le, this.first⟩
  · have hs' : s ∈ tx.outstanding ++ [] := hs
    have := hlog.sent s hs'
    simpa [AmTx.sn, hne s (by simp only [List.mem_append] at hs' ⊢; tauto)] using this

/-- The pieces of the lists stay pieces of them. -/
theorem mergeRule_lists {ackSn : ℤ} {gs : List Nack} :
    MergeRule cfg tx ackSn gs (fun _ m => m.Lists tx) where
  frame hm := hm.frame
  poll := lists_stopPoll
  next _ := lists_next
  done _ hm _ := hm
  ended _ := lists_over

theorem finishRule_lists {ackSn : ℤ} : FinishRule cfg tx ackSn (fun m => m.Lists tx) where
  frame hm := hm.frame
  wait hm hw _ := lists_ackHead hm hw _
  retx hm hr _ := lists_ackRetx hm hr

theorem processNacks_lists (status : StatusPdu) :
    (processNacks cfg status.ackSn status.blocks none (startMerge cfg status.ackSn tx)).1.Lists
      tx :=
  processNacks_induct mergeRule_lists status.blocks (show _ = [] ++ _ from rfl) lists_startMerge

/-- Taking over the lists of the merge keeps the invariant. -/
theorem AmTx.Contents.of_frame {m : Merge} (h : tx.Contents cfg []) (hf : m.Frame tx)
    (htx : ∃ waitList waitEnd retransmitList txNextAck, tx' = { m.tx with
      waitList, waitEnd, retransmitList, txNextAck })
    (ho : ∀ s ∈ tx'.outstanding, s ∈ tx.outstanding) : tx'.Contents cfg [] := by
  obtain ⟨wl, we, rl, ack, rfl⟩ := htx
  obtain ⟨_, _, _, _, _, hm⟩ := hf.tx_eq
  refine h.sub ?_ ?_ (fun i => ⟨(hf.heap_eq i).1, (hf.heap_eq i).2.1⟩) ?_ (by simpa using ho)
  · simp only [hm]
  · simp only [hm]
  · intro x hx
    simp only [hm] at hx
    simp [hx]

theorem finishStatus_contents {ackSn : ℤ} {m : Merge} (h : tx.Contents cfg []) (hm : m.Lists tx) :
    (finishStatus cfg ackSn m).1.Contents cfg [] := by
  have hf := (finishMerge_induct (@finishRule_lists cfg tx ackSn) hm).1
  rw [finishStatus_eq]
  refine h.of_frame hf.frame ⟨_, _, _, _, rfl⟩ ?_
  intro s hs
  simp only [Merge.commit, AmTx.outstanding, hf.waitRest, List.append_nil, List.mem_append] at hs ⊢
  rcases hs with (hs | hs) | hs | hs
  · exact .inl (hf.wait.subset (List.mem_append_left _ hs))
  · exact .inl (hf.wait.subset (List.mem_append_right _ hs))
  · simpa [AmTx.outstanding] using hf.newRetx s hs
  · exact .inr (hf.retx.subset (List.mem_append_left _ hs))

theorem seenFrom_subset {m : Merge} (hm : m.Lists tx) {head : Option ℕ} {l : List Segment}
    (hl : m.seenFrom head = some l) : ∀ s ∈ l, s ∈ tx.outstanding := by
  unfold Merge.seenFrom at hl
  cases head with
  | none =>
      injection hl with hl
      subst hl
      nofun
  | some addr =>
      intro s hs
      unfold AmTx.outstanding
      rw [List.mem_append]
      simp only [Option.or_eq_some_iff] at hl
      rcases hl with hl | ⟨-, hl | ⟨-, hl⟩⟩
      · obtain ⟨⟨f, hf⟩, -⟩ := suffixFrom_some hl
        rw [hm.waitRest, List.append_nil] at hf
        exact .inl (hm.wait.subset (hf ▸ List.mem_append_right f hs))
      · obtain ⟨⟨f, hf⟩, -⟩ := suffixFrom_some hl
        have hmem : s ∈ m.newRetx ++ m.retxRest := hf ▸ List.mem_append_right f hs
        rcases List.mem_append.mp hmem with hmem | hmem
        · simpa [AmTx.outstanding] using hm.newRetx s hmem
        · exact .inr (hm.retx.subset (List.mem_append_right _ hmem))
      · obtain ⟨⟨f, hf⟩, -⟩ := suffixFrom_some hl
        have hmem : s ∈ m.curRetx := hf ▸ List.mem_append_right f hs
        exact .inr (hm.retx.subset (List.mem_append_left _ hmem))

theorem recvControlPdu_contents {events : List Event} (h : tx.Contents cfg [])
    (hr : recvControlPdu cfg tx buffer = .ok (tx', events)) : tx'.Contents cfg [] := by
  have herr : ∀ {m : Merge} {wl rl : List Segment}, m.Lists tx →
      m.err.waitList = some wl → m.err.retransmitList = some rl →
      { m.err.tx with waitList := wl, retransmitList := rl }.Contents cfg [] := by
    intro m wl rl hm hw hr
    refine h.of_frame hm.frame ⟨_, _, _, _, rfl⟩ fun s hs => ?_
    rcases List.mem_append.mp hs with hs | hs
    · exact seenFrom_subset hm hw s hs
    · exact seenFrom_subset hm hr s hs
  unfold recvControlPdu processControlPdu at hr
  cases hd : decodeStatus cfg buffer with
  | none =>
      simp only [hd] at hr
      have hstart : ({ tx, curWait := tx.waitList, curRetx := tx.retransmitList } : Merge).Lists
          tx := ⟨⟨⟨_, _, _, _, _, rfl⟩, fun _ => ⟨rfl, rfl, rfl⟩⟩, rfl, List.Sublist.refl _,
            List.suffix_refl _, by simp, by simp, nofun⟩
      split at hr
      · rename_i wl rl hw hrl
        split at hr
        · obtain ⟨rfl, -⟩ := ok_pair hr
          exact herr hstart hw hrl
        · cases hr
      · cases hr
  | some status =>
      have hm := @processNacks_lists cfg tx status
      simp only [hd] at hr
      generalize processNacks cfg status.ackSn status.blocks none (startMerge cfg status.ackSn tx) =
        res at hm hr
      obtain ⟨m, nacksDone⟩ := res
      dsimp only at hm hr
      by_cases hdone : (nacksDone || status.complete) = true
      · rw [if_pos hdone] at hr
        obtain ⟨rfl, -⟩ := ok_pair hr
        exact finishStatus_contents h hm
      · rw [if_neg hdone] at hr
        dsimp only at hr
        split at hr
        · rename_i wl rl hw hrl
          split at hr
          · obtain ⟨rfl, -⟩ := ok_pair hr
            exact herr hm hw hrl
          · cases hr
        · cases hr

theorem checkTPollRetransmit_contents {events : List Event} (h : tx.Contents cfg [])
    (hc : checkTPollRetransmit cfg tCurrent tx = .ok (tx', events)) : tx'.Contents cfg [] := by
  unfold checkTPollRetransmit at hc
  split at hc
  · dsimp only at hc
    split at hc
    · split at hc
      · cases hc
      · rename_i cur next hw
        obtain ⟨rfl, -⟩ := ok_pair hc
        refine h.sub rfl rfl (fun i => ?_)
          (fun _ hx => List.mem_append_left _ (List.mem_append_left _ hx)) (fun s hs => ?_)
        · simp only [AmTx.countRetx]
          by_cases hi : i = cur.sdu
          · subst hi
            simp
          · simp [hi]
        · simp only [AmTx.outstanding, AmTx.countRetx, List.mem_append, List.not_mem_nil,
            or_false] at hs ⊢
          rcases hs with hs | hs
          · exact .inl (hw ▸ List.mem_cons_of_mem _ hs)
          · rcases List.mem_cons.mp ((List.perm_orderedInsert _ _ _).mem_iff.mp hs) with rfl | hs
            · exact .inl (hw ▸ List.mem_cons_self)
            · exact .inr hs
    · obtain ⟨rfl, -⟩ := ok_pair hc
      exact h.sub rfl rfl (fun _ => ⟨rfl, rfl⟩)
        (fun _ hx => List.mem_append_left _ (List.mem_append_left _ hx)) (fun _ hx => hx)
  · obtain ⟨rfl, -⟩ := ok_pair hc
    exact h

theorem freeSduSegment_heap (tx : AmTx) (s : Segment) (i : ℕ) :
    ((tx.freeSduSegment s).heap i).sn = (tx.heap i).sn ∧
      ((tx.freeSduSegment s).heap i).data = (tx.heap i).data := by
  unfold AmTx.freeSduSegment
  by_cases hi : i = s.sdu
  · subst hi
    simp [Sdu.freeSegment]
  · simp [hi]

theorem discardSdu_contents (h : tx.Contents cfg []) (sduId : ℤ) :
    (discardSdu cfg tx sduId).Contents cfg [] := by
  unfold discardSdu
  dsimp only
  split
  · exact h
  · rename_i cur next hd
    split
    · exact h
    · refine h.sub rfl rfl (fun i => freeSduSegment_heap _ cur i) (fun s hs => ?_) (fun _ hx => hx)
      have hsplit := List.takeWhile_append_dropWhile
        (p := fun s => decide ((tx.heap s.sdu).upperLayerId ≠ sduId)) (l := tx.txList)
      rw [hd] at hsplit
      have hmem : s ∈ tx.txList := by
        rw [← hsplit]
        rcases List.mem_append.mp hs with hs | hs
        · exact List.mem_append_left _ hs
        · exact List.mem_append_right _ (List.mem_cons_of_mem _ hs)
      simp [hmem]

theorem foldl_free_heap (l : List Segment) (tx : AmTx) (i : ℕ) :
    ((l.foldl AmTx.freeSduSegment tx).heap i).sn = (tx.heap i).sn ∧
      ((l.foldl AmTx.freeSduSegment tx).heap i).data = (tx.heap i).data := by
  induction l generalizing tx with
  | nil => exact ⟨rfl, rfl⟩
  | cons s l ih =>
      obtain ⟨h₁, h₂⟩ := ih (tx.freeSduSegment s)
      obtain ⟨h₃, h₄⟩ := freeSduSegment_heap tx s i
      exact ⟨h₁.trans h₃, h₂.trans h₄⟩

theorem clearTx_contents (h : tx.Contents cfg []) : (clearTx tx).Contents cfg [] := by
  have hheap := foldl_free_heap (tx.txList ++ tx.waitList ++ tx.retransmitList) tx
  refine ⟨⟨le_rfl, cfg.snModulus_pos⟩, fun i => ?_, fun i => ?_, nofun, nofun⟩
  · exact (hheap i).2 ▸ h.size_le i
  · exact (hheap i).1 ▸ h.sn_lt i

end Contents

/-! ## Runs -/

section Runs

variable {e e' : AmEntity} {op : Op} {events : List Event} {cfg : AmConfig}

theorem contents_amStep (h : e.tx.Contents e.cfg []) (hs : amStep e op = .ok (e', events)) :
    e'.tx.Contents e'.cfg [] := by
  rw [(amStep_rx hs).1]
  cases op with
  | recvPdu buffer =>
      simp only [amStep, amRecvPdu] at hs
      split at hs
      · obtain ⟨rfl, -⟩ := ok_pair hs
        exact h
      · split at hs
        · obtain ⟨⟨tx, ev⟩, hc, hs⟩ := Machine.bind_ok hs
          obtain ⟨rfl, -⟩ := ok_pair hs
          exact recvControlPdu_contents h hc
        · obtain ⟨rfl, -⟩ := ok_pair hs
          exact h
  | recvSdu buffer sduId =>
      obtain ⟨tx, hr, hs⟩ := Machine.bind_ok hs
      obtain ⟨rfl, -⟩ := ok_pair hs
      exact recvSdu_contents h hr
  | generatePdu buffer =>
      obtain ⟨⟨e₁, pdu⟩, hg, hs⟩ := Machine.bind_ok hs
      obtain ⟨rfl, -⟩ := ok_pair hs
      unfold amGeneratePdu at hg
      obtain ⟨⟨rx, pdu₁⟩, -, hg⟩ := Machine.bind_ok hg
      simp only at hg
      split at hg
      · obtain ⟨⟨tx, pdu₂⟩, hd, hg⟩ := Machine.bind_ok hg
        obtain ⟨rfl, -⟩ := ok_pair hg
        exact generateDataPdu_contents h hd
      · obtain ⟨rfl, -⟩ := ok_pair hg
        exact h
  | setTime now =>
      simp only [amStep, amSetTime] at hs
      obtain ⟨⟨tx, ev⟩, hc, hs⟩ := Machine.bind_ok hs
      obtain ⟨rfl, -⟩ := ok_pair hs
      exact checkTPollRetransmit_contents h hc
  | discardSdu sduId =>
      obtain ⟨rfl, -⟩ := ok_pair hs
      exact discardSdu_contents h sduId
  | reestablishment =>
      obtain ⟨rfl, -⟩ := ok_pair hs
      exact clearTx_contents h

/-- **In every state that can be reached, segments are parts of their SDUs.** -/
theorem contents_amRun {ops : List Op} (h : amRun (newAmEntity cfg) ops = .ok (e, events)) :
    e.tx.Contents e.cfg [] :=
  Machine.run_invariant (I := fun e : AmEntity => e.tx.Contents e.cfg []) (P := fun _ _ => True)
    (fun _ _ _ _ h _ hs => contents_amStep h hs) (contents_new cfg)
    (Machine.along_of_forall (fun _ _ => trivial) ops _) h

end Runs

/-! ## What is sent is read back -/

/-- The STATUS PDU fits into the buffer. -/
theorem generateStatusPdu_ok (e : AmEntity) (buffer : List UInt8) :
    ∃ rx pdu, generateStatusPdu e.cfg e.tCurrent e.rx buffer = .ok (rx, pdu) ∧
      pdu.length ≤ buffer.length ∧
      (pdu = [] ↔ statusToReport e.cfg e.tCurrent e.rx = false ∨ buffer.length < 3) := by
  unfold generateStatusPdu
  split
  · rename_i hreport
    obtain ⟨rx, pdu, h, hlen, hle⟩ := generateStatus_size e.cfg e.tCurrent e.rx
      (Int.toNat_natCast buffer.length).symm
    refine ⟨rx, pdu, h, hle, ?_⟩
    rw [← List.length_eq_zero_iff, hlen, statusSize_eq_zero, hreport]
    simp
  · rename_i hreport
    exact ⟨e.rx, [], rfl, Nat.zero_le _, iff_of_true rfl (.inl (by simpa using hreport))⟩

/-- The PDU is the one of a segment, and `recv_pdu` reads what `serialize_sdu` was given: D/C, the
P bit, the SN, the flags, SO and the data. -/
def AmReadBack (e : AmEntity) (buffer : List UInt8) (tx' : AmTx) (pdu : List UInt8) : Prop :=
  ∃ tx s p, Serializes e.cfg e.tCurrent buffer tx s p tx' pdu ∧
    pdu.length = computePduHeaderSize e.cfg s + s.size ∧
    readDataPdu e.cfg pdu = some (1, Bool.toNat p,
      { sn := tx.sn s
        so := s.so
        isFirst := s.isFirst
        isLast := s.isLast
        data := payload (tx.heap s.sdu).data s })

/-- `generate_pdu` returns, keeps to the grant, and a data PDU that it makes is read back. -/
def AmGrantKept (e : AmEntity) (buffer : List UInt8) : Prop :=
  ∃ e' pdu, amGeneratePdu e buffer = .ok (e', pdu) ∧ pdu.length ≤ buffer.length ∧
    (pdu = [] ∨ (∃ rx, generateStatusPdu e.cfg e.tCurrent e.rx buffer = .ok (rx, pdu)) ∨
      AmReadBack e buffer e'.tx pdu)

/-- A grant of `size` bytes goes to a data PDU: there is no STATUS PDU to send, or no room for
one, and there is a segment to send that has room. -/
def SendsData (e : AmEntity) (size : ℕ) : Prop :=
  (statusToReport e.cfg e.tCurrent e.rx = false ∨ size < 3) ∧
    (SendsRetx e.cfg e.tx size ∨ SendsTx e.cfg e.tx size)

theorem Serializes.readBack {e : AmEntity} {buffer pdu : List UInt8} {tx tx' : AmTx} {s : Segment}
    {p : Bool} (h : Serializes e.cfg e.tCurrent buffer tx s p tx' pdu)
    (hc : tx.Contents e.cfg []) :
    AmReadBack e buffer tx' pdu := by
  have hmem : s ∈ tx.outstanding := List.mem_append_left _ h.mem
  have hs := hc.holds s (by simp [hmem])
  have hsn : 0 ≤ tx.sn s := hc.sent s (by simp [hmem])
  have hlt : (tx.sn s).toNat < 2 ^ e.cfg.snFieldLength := by
    have := hc.sn_lt s.sdu
    rw [AmConfig.snModulus] at this
    have hcast : ((2 ^ e.cfg.snFieldLength : ℕ) : ℤ) = 2 ^ e.cfg.snFieldLength := by push_cast; rfl
    unfold AmTx.sn at *
    omega
  have hso : s.so < 2 ^ 16 := by
    have := hs.le
    have := hc.size_le s.sdu
    unfold nrSduMax at this
    omega
  obtain ⟨tx₂, pdu₂, h₂, hlen, hread⟩ := @serializeSdu_spec e.cfg buffer e.tCurrent tx s p
    ((Nat.le_add_right _ _).trans h.fits)
  obtain ⟨-, rfl⟩ := ok_pair (h₂.symm.trans h.eq)
  refine ⟨tx, s, p, h, ?_, ?_⟩
  · have := hs.le
    rw [hlen, payload, List.length_take, List.length_drop]
    omega
  · rw [hread hlt hso hs.first, Int.toNat_of_nonneg hsn]

theorem AmReadBack.length_le {e : AmEntity} {buffer pdu : List UInt8} {tx' : AmTx}
    (h : AmReadBack e buffer tx' pdu) : pdu.length ≤ buffer.length := by
  obtain ⟨_, s, _, hs, hlen, -⟩ := h
  rw [hlen]
  exact hs.fits

theorem amGeneratePdu_eq {e : AmEntity} {buffer pdu₁ : List UInt8} {rx : AmRx}
    (h : generateStatusPdu e.cfg e.tCurrent e.rx buffer = .ok (rx, pdu₁)) :
    amGeneratePdu e buffer =
      if pdu₁.isEmpty then
        (generateDataPdu e.cfg e.tCurrent e.tx buffer).map fun r => ({ e with rx, tx := r.1 }, r.2)
      else .ok ({ e with rx }, pdu₁) := by
  unfold amGeneratePdu
  rw [h]
  cases pdu₁ with
  | cons => rfl
  | nil =>
      cases generateDataPdu e.cfg e.tCurrent e.tx buffer with
      | error => rfl
      | ok => rfl

/-- **A PDU keeps to its grant and is read back.** The buffer is never too small; what can go
wrong is the pointer to the end of `wait_list`. -/
theorem amGrantKept_iff {e : AmEntity} (h : e.tx.Contents e.cfg []) (buffer : List UInt8) :
    amGeneratePdu e buffer ≠ .error .exit ∧
      (AmGrantKept e buffer ↔ (SendsData e buffer.length → e.tx.TailUsable)) := by
  obtain ⟨rx, pdu₁, hstatus, hle₁, hempty⟩ := generateStatusPdu_ok e buffer
  have hout := @generateDataPdu_outcome e.cfg e.tx e.tCurrent buffer
  unfold AmGrantKept SendsData
  rw [amGeneratePdu_eq hstatus, ← hempty]
  split
  · rename_i hpdu₁
    rw [and_iff_right (List.isEmpty_iff.mp hpdu₁)]
    generalize generateDataPdu e.cfg e.tCurrent e.tx buffer = res at hout
    cases hout with
    | refused hno =>
        refine ⟨?_, iff_of_true ⟨_, _, rfl, Nat.zero_le _, .inl rfl⟩ fun hs => absurd hs hno⟩
        rw [Except.map]
        nofun
    | fault hs ht hf =>
        rw [Except.map]
        refine ⟨fun he => ?_, iff_of_false ?_ fun hu => ht (hu hs)⟩
        · injection he with he
          exact hf he
        · rintro ⟨_, _, he, -⟩
          cases he
    | sent hs ht hser hc =>
        have hback := hser.readBack (hc h)
        refine ⟨?_, iff_of_true ⟨_, _, rfl, hback.length_le, .inr (.inr hback)⟩ fun _ => ht⟩
        rw [Except.map]
        nofun
  · rename_i hpdu₁
    refine ⟨nofun, iff_of_true ⟨_, _, rfl, hle₁, .inr (.inl ⟨rx, hstatus⟩)⟩ fun hs => ?_⟩
    exact absurd (List.isEmpty_iff.mpr hs.1) hpdu₁

end OaiCu.NrRlc
