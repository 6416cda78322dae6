import OaiCu.NrRlc.AmControlInv
import OaiCu.NrRlc.AmTxStep

/-!
# RLC AM: the segments of the transmitter over whole runs

A STATUS PDU can only lose segments where `process_control_pdu` puts the remaining
`retransmit_list` at the end of the new one as a whole ("just a speedup"): the link is
overwritten when the lists are put together. In a run without that, the segments of every SDU
are a partition of it and the sizes are right.
-/

namespace OaiCu.NrRlc

/-! ## The speedup -/

/-- The passes for the NACK end at a segment of `l`, or at one of `wait_list` that is looked at
before one of `l`. -/
def stopsWithin (cfg : AmConfig) (tx : AmTx) (ackSn : ℤ) (n : Nack) (l : List Segment) : Prop :=
  ∃ r ∈ l, verdict cfg tx ackSn n r = .undecided ∨
    ∃ w ∈ tx.waitList, verdict cfg tx ackSn n w = .undecided ∧ waitBeforeRetx tx w r

/-- The NACK `n` finds `r` in `retransmit_list`, neither NACKed nor acked, when `wait_list` is
used up: the NACKs before `n` end before `r`, and all of `wait_list` is decided and comes
first. -/
def StatusPdu.Speedup (cfg : AmConfig) (tx : AmTx) (status : StatusPdu) : Prop :=
  ∃ pre n post pr r rest, status.goodNacks cfg tx = pre ++ n :: post ∧
    tx.retransmitList = pr ++ r :: rest ∧ verdict cfg tx status.ackSn n r = .unacked ∧
    (∀ n' ∈ pre, stopsWithin cfg tx status.ackSn n' (pr ++ [r])) ∧
    ∀ w ∈ tx.waitList, (∃ n' ∈ pre ++ [n], verdict cfg tx status.ackSn n' w ≠ .undecided) ∧
      ∃ r' ∈ pr ++ [r], waitBeforeRetx tx w r'

/-- How far the merge is in the two lists: `cw` and `cr` are behind it. -/
structure Merge.Track (cfg : AmConfig) (tx : AmTx) (ackSn : ℤ) (gs pre : List Nack) (m : Merge)
    (cw cr : List Segment) : Prop where
  wait : tx.waitList = cw ++ m.curWait
  retx : tx.retransmitList = cr ++ m.curRetx
  stops : ∀ r ∈ m.curRetx.head?, ∀ n ∈ pre, stopsWithin cfg tx ackSn n (cr ++ [r])
  before : ∀ r ∈ m.curRetx.head?, ∀ w ∈ cw, ∃ r' ∈ cr ++ [r], waitBeforeRetx tx w r'
  decided : ∀ n post, gs = pre ++ n :: post → ∀ w ∈ cw,
    ∃ n' ∈ pre ++ [n], verdict cfg tx ackSn n' w ≠ .undecided

section Speedup

variable {cfg : AmConfig} {tx : AmTx} {status : StatusPdu} {ackSn : ℤ} {gs pre post : List Nack}
  {n : Nack} {m m' : Merge} {cw cr : List Segment}

/-- The head of `wait_list` is left behind. -/
theorem track_wait (hgs : gs = pre ++ n :: post) (h : m.Track cfg tx ackSn gs pre cw cr)
    {w : Segment} {ws : List Segment} (hw : m.curWait = w :: ws) (hp : m.PicksWait tx w)
    (hv : verdict cfg tx ackSn n w ≠ .undecided) (hw' : m'.curWait = ws)
    (hr' : m'.curRetx = m.curRetx) : m'.Track cfg tx ackSn gs pre (cw ++ [w]) cr := by
  refine ⟨?_, ?_, ?_, ?_, ?_⟩
  · rw [h.wait, hw, hw']
    simp
  · rw [hr']
    exact h.retx
  · rw [hr']
    exact h.stops
  · rw [hr']
    intro r hr x hx
    rcases List.mem_append.mp hx with hx | hx
    · exact h.before r hr x hx
    · rw [List.mem_singleton.mp hx]
      exact ⟨r, by simp, hp r hr⟩
  · intro n' post' hgs' x hx
    rcases List.mem_append.mp hx with hx | hx
    · exact h.decided n' post' hgs' x hx
    · have hnn : n' = n := by
        rw [hgs, List.append_cancel_left_eq, List.cons.injEq] at hgs'
        exact hgs'.1.symm
      rw [List.mem_singleton.mp hx, hnn]
      exact ⟨n, by simp, hv⟩

/-- The head of `retransmit_list` is left behind. -/
theorem track_retx (h : m.Track cfg tx ackSn gs pre cw cr) {r : Segment} {rs : List Segment}
    (hr : m.curRetx = r :: rs) (hw' : m'.curWait = m.curWait) (hr' : m'.curRetx = rs) :
    m'.Track cfg tx ackSn gs pre cw (cr ++ [r]) := by
  have hmono : ∀ {x r' : Segment}, x ∈ cr ++ [r] → x ∈ (cr ++ [r]) ++ [r'] :=
    fun hx => List.mem_append_left _ hx
  have hhead : r ∈ m.curRetx.head? := by simp [hr]
  refine ⟨?_, ?_, ?_, ?_, h.decided⟩
  · rw [hw']
    exact h.wait
  · rw [h.retx, hr, hr']
    simp
  · intro r' _ n' hn'
    obtain ⟨x, hx, hstop⟩ := h.stops r hhead n' hn'
    exact ⟨x, hmono hx, hstop⟩
  · intro r' _ w hw
    obtain ⟨x, hx, hb⟩ := h.before r hhead w hw
    exact ⟨x, hmono hx, hb⟩

theorem track_next (hgs : gs = pre ++ n :: post) (h : m.Track cfg tx ackSn gs pre cw cr)
    (hp : Pass cfg tx ackSn n m (.processNextPdu m')) :
    ∃ cw' cr', m'.Track cfg tx ackSn gs pre cw' cr' := by
  cases hp with
  | nackWait hw hpick hv =>
      exact ⟨_, _, track_wait hgs h hw hpick (by rw [hv]; decide) rfl rfl⟩
  | ackWait hw hpick hv =>
      exact ⟨_, _, track_wait hgs h hw hpick (by rw [hv]; decide) (by simp) (by simp)⟩
  | skipWait hw hpick hv =>
      exact ⟨_, _, track_wait hgs h hw hpick (by rw [hv]; decide) rfl rfl⟩
  | keepRetx hr => exact ⟨_, _, track_retx h hr rfl rfl⟩
  | ackRetx hr => exact ⟨_, _, track_retx h hr (by simp) (by simp)⟩

theorem track_done (hgs : gs = pre ++ n :: post) (h : m.Track cfg tx ackSn gs pre cw cr)
    (hp : Pass cfg tx ackSn n m .doneNack) : m.Track cfg tx ackSn gs (pre ++ [n]) cw cr := by
  have hstop : ∀ r ∈ m.curRetx.head?, stopsWithin cfg tx ackSn n (cr ++ [r]) := by
    intro r hr
    refine ⟨r, by simp, ?_⟩
    cases hp with
    | doneWait hw hpick hv =>
        exact .inr ⟨_, by rw [h.wait, hw]; simp, hv, hpick r hr⟩
    | doneRetx hr' hpick hv =>
        rw [hr', List.head?_cons, Option.mem_some_iff] at hr
        exact .inl (hr ▸ hv)
  refine ⟨h.wait, h.retx, ?_, h.before, ?_⟩
  · intro r hr n' hn'
    rcases List.mem_append.mp hn' with hn' | hn'
    · exact h.stops r hr n' hn'
    · rw [List.mem_singleton.mp hn']
      exact hstop r hr
  · intro n' post' _ w hw
    obtain ⟨x, hx, hv⟩ := h.decided n post hgs w hw
    exact ⟨x, List.mem_append_left _ hx, hv⟩

/-- **Segments are lost through the speedup only.** -/
theorem mergeRule_track (hgs : gs = status.goodNacks cfg tx) :
    MergeRule cfg tx status.ackSn gs (fun pre m => m.Lists tx ∧
      (m.retxRest = [] → ∃ cw cr, m.Track cfg tx status.ackSn gs pre cw cr) ∧
      (m.retxRest ≠ [] → status.Speedup cfg tx)) where
  frame hm := hm.1.frame
  poll hm := ⟨lists_stopPoll hm.1, fun hr => by
    obtain ⟨cw, cr, ht⟩ := hm.2.1 hr
    exact ⟨cw, cr, ht.wait, ht.retx, ht.stops, ht.before, ht.decided⟩, hm.2.2⟩
  next hgs' hm hp := by
    have hrest : ∀ {m m' : Merge} {n : Nack}, m.Lists tx →
        Pass cfg tx status.ackSn n m (.processNextPdu m') → m.retxRest = [] ∧ m'.retxRest = [] := by
      intro m m' n hl hp
      cases hp with
      | nackWait hw => exact ⟨(hl.cons_wait hw).2.2.1, (hl.cons_wait hw).2.2.1⟩
      | ackWait hw =>
          simp only [ackWait_lists]
          exact ⟨(hl.cons_wait hw).2.2.1, (hl.cons_wait hw).2.2.1⟩
      | skipWait hw => exact ⟨(hl.cons_wait hw).2.2.1, (hl.cons_wait hw).2.2.1⟩
      | keepRetx hr => exact ⟨(hl.cons_retx hr).2.1, (hl.cons_retx hr).2.1⟩
      | ackRetx hr =>
          simp only [ackRetx_lists]
          exact ⟨(hl.cons_retx hr).2.1, (hl.cons_retx hr).2.1⟩
    obtain ⟨h1, h2⟩ := hrest hm.1 hp
    refine ⟨lists_next hm.1 hp, fun _ => ?_, fun hne => absurd h2 hne⟩
    obtain ⟨cw, cr, ht⟩ := hm.2.1 h1
    exact track_next hgs' ht hp
  done hgs' hm hp := ⟨hm.1, fun hr => by
    obtain ⟨cw, cr, ht⟩ := hm.2.1 hr
    exact ⟨cw, cr, track_done hgs' ht hp⟩, hm.2.2⟩
  ended := by
    intro pre n post m m' hgs' hm hp
    refine ⟨lists_over hm.1 hp, ?_, ?_⟩
    · intro hr
      have hover := hp.lists_over
      cases hp with
      | ended hw hr' =>
          obtain ⟨cw, cr, ht⟩ := hm.2.1 hr
          refine ⟨cw, cr, ht.wait, ht.retx, by simp [hr'], by simp [hr'], ?_⟩
          intro n' post' he
          have := congrArg List.length he
          simp at this
      | keepAllRetx hr' =>
          rw [Merge.keepAllRetx, hr'] at hr
          cases hr
    · intro hne
      cases hp with
      | ended => exact hm.2.2 hne
      | @keepAllRetx r rs hr' hw hv =>
          obtain ⟨cw, cr, ht⟩ := hm.2.1 (hm.1.cons_retx hr').2.1
          have hhead : r ∈ m.curRetx.head? := by simp [hr']
          have hcw : tx.waitList = cw := by rw [ht.wait, hw, List.append_nil]
          refine ⟨pre, n, post, cr, r, rs, hgs ▸ hgs', hr' ▸ ht.retx, hv, ht.stops r hhead, ?_⟩
          intro w hw
          rw [hcw] at hw
          exact ⟨ht.decided n post hgs' w hw, ht.before r hhead w hw⟩

theorem retxRest_of_not_speedup (h : ¬ status.Speedup cfg tx) :
    (processNacks cfg status.ackSn status.blocks none
      (startMerge cfg status.ackSn tx)).1.retxRest = [] := by
  have := @processNacks_induct cfg tx status.ackSn _ [] _ (startMerge cfg status.ackSn tx)
    (@mergeRule_track cfg tx status _ rfl) status.blocks none rfl
    ⟨lists_startMerge, fun _ => ⟨[], [], rfl, rfl, by simp, by simp, by simp⟩, fun hne =>
      absurd rfl hne⟩
  by_contra hne
  exact h (this.2.2 hne)

end Speedup

/-! ## The control PDU as a whole -/

section Control

variable {cfg : AmConfig} {tx tx' : AmTx} {lost : List Segment} {buffer : List UInt8}
  {events : List Event} {status : StatusPdu}

theorem decodeStatus_ackSn (h : decodeStatus cfg buffer = some status) :
    0 ≤ status.ackSn ∧ status.ackSn < cfg.snModulus := by
  unfold decodeStatus at h
  obtain ⟨⟨_, d₁⟩, -, h⟩ := Option.bind_eq_some_iff.mp h
  obtain ⟨⟨cpt, d₂⟩, -, h⟩ := Option.bind_eq_some_iff.mp h
  simp only at h
  split at h
  · cases h
  · obtain ⟨⟨ackSn, d₃⟩, hack, h⟩ := Option.bind_eq_some_iff.mp h
    obtain ⟨⟨e1, d₄⟩, -, h⟩ := Option.bind_eq_some_iff.mp h
    obtain ⟨⟨_, d₅⟩, -, h⟩ := Option.bind_eq_some_iff.mp h
    injection h with h
    rw [← h]
    have := Decoder.getBits_lt hack
    refine ⟨Int.natCast_nonneg _, ?_⟩
    simp only [AmConfig.snModulus]
    exact_mod_cast this

/-- The merge when all NACKs are processed. -/
def StatusPdu.merge (cfg : AmConfig) (tx : AmTx) (status : StatusPdu) : Merge :=
  (processNacks cfg status.ackSn status.blocks none (startMerge cfg status.ackSn tx)).1

/-- A control PDU without a decoding error is a STATUS PDU that was processed to the end. -/
theorem processControlPdu_done (h : processControlPdu cfg tx buffer = .done tx' events) :
    ∃ status, decodeStatus cfg buffer = some status ∧
      finishStatus cfg status.ackSn (status.merge cfg tx) = (tx', events) := by
  unfold processControlPdu at h
  split at h
  · cases h
  · rename_i status hd
    refine ⟨status, hd, ?_⟩
    simp only at h
    split at h
    · injection h with h1 h2
      exact Prod.ext h1 h2
    · cases h

theorem inv_merge (h : tx.Inv cfg lost) (hack : 0 ≤ status.ackSn ∧ status.ackSn < cfg.snModulus) :
    (status.merge cfg tx).Inv cfg tx lost status.ackSn (status.goodNacks cfg tx)
      (status.goodNacks cfg tx) :=
  @processNacks_induct cfg tx status.ackSn _ [] _ (startMerge cfg status.ackSn tx)
    (mergeRule_inv h hack (chain_goodNacks none _).1) status.blocks none rfl (inv_startMerge h)

/-- **The transmitter after a STATUS PDU**, with the segments that got lost. -/
theorem inv_control (h : tx.Inv cfg lost) (hd : decodeStatus cfg buffer = some status)
    (hf : finishStatus cfg status.ackSn (status.merge cfg tx) = (tx', events)) :
    tx'.Inv cfg ((status.merge cfg tx).retxRest ++ lost) ∧
      ((status.merge cfg tx).retxRest = [] → tx.Accounts cfg → tx'.Accounts cfg) := by
  have hack := decodeStatus_ackSn hd
  have hrule := @finishRule_inv cfg tx lost status.ackSn (status.goodNacks cfg tx) h
  -- the lost segments stay as they are
  have hrest : FinishRule cfg tx status.ackSn (fun m => m.Inv cfg tx lost status.ackSn
      (status.goodNacks cfg tx) (status.goodNacks cfg tx) ∧
        m.retxRest = (status.merge cfg tx).retxRest) :=
    ⟨fun hm => hrule.frame hm.1,
      fun hm hw hlt => ⟨hrule.wait hm.1 hw hlt, by rw [← hm.2]; simp⟩,
      fun hm hr hlt => ⟨hrule.retx hm.1 hr hlt, by rw [← hm.2]; simp⟩⟩
  obtain ⟨⟨hinv, hr⟩, -, hheadr⟩ := finishMerge_induct hrest ⟨inv_merge h hack, rfl⟩
  rw [finishStatus_eq] at hf
  injection hf with hf _
  rw [← hf]
  refine ⟨hr ▸ inv_commit h hack hinv hheadr, fun hnil hacc => ?_⟩
  exact accounts_commit hacc hinv (hr.trans hnil) _

end Control

/-! ## The calls -/

/-- If every segment to retransmit is NACKed, acked or behind the NACK, there is no speedup. -/
theorem not_speedup_of_verdict {cfg : AmConfig} {tx : AmTx} {status : StatusPdu}
    (h : ∀ n ∈ status.goodNacks cfg tx, ∀ r ∈ tx.retransmitList,
      verdict cfg tx status.ackSn n r ≠ .unacked) : ¬ status.Speedup cfg tx := by
  rintro ⟨pre, n, post, pr, r, rest, hgood, hretx, hv, -⟩
  exact h n (hgood ▸ List.mem_append_cons_self) r (hretx ▸ List.mem_append_cons_self) hv

/-- The D/C bit says control PDU. -/
def isControlPdu (buffer : List UInt8) : Prop := ∃ d, (decoderInit buffer).getBits 1 = some (0, d)

section Calls

variable {e e' : AmEntity} {op : Op} {events : List Event} {lost : List Segment}

/-- A PDU that is not a control PDU leaves the transmitter alone. -/
theorem recvPdu_tx {buffer : List UInt8} (hs : amStep e (.recvPdu buffer) = .ok (e', events)) :
    (isControlPdu buffer ∧ recvControlPdu e.cfg e.tx buffer = .ok (e'.tx, events)) ∨
      e'.tx = e.tx := by
  simp only [amStep, amRecvPdu] at hs
  split at hs
  · obtain ⟨rfl, -⟩ := ok_pair hs
    exact .inr rfl
  · rename_i dc decoder hbit
    split at hs
    · rename_i hdc
      obtain ⟨⟨tx, ev⟩, hc, hs⟩ := Machine.bind_ok hs
      obtain ⟨rfl, rfl⟩ := ok_pair hs
      exact .inl ⟨⟨decoder, hdc ▸ hbit⟩, hc⟩
    · obtain ⟨rfl, -⟩ := ok_pair hs
      exact .inr rfl

/-- What a call does to the transmitter, but for a control PDU. -/
theorem amStep_tx (h : e.tx.Inv e.cfg lost) (hs : amStep e op = .ok (e', events)) :
    e'.cfg = e.cfg ∧ ((∃ buffer, op = .recvPdu buffer ∧ isControlPdu buffer ∧
      recvControlPdu e.cfg e.tx buffer = .ok (e'.tx, events)) ∨ e.tx.Keeps e.cfg lost e'.tx) := by
  refine ⟨(amStep_rx hs).1, ?_⟩
  cases op with
  | recvPdu buffer =>
      rcases recvPdu_tx hs with ⟨hctl, hc⟩ | heq
      · exact .inl ⟨buffer, rfl, hctl, hc⟩
      · rw [heq]
        exact .inr (AmTx.Keeps.refl h)
  | recvSdu buffer sduId =>
      obtain ⟨tx, hr, hs⟩ := Machine.bind_ok hs
      obtain ⟨rfl, -⟩ := ok_pair hs
      exact .inr (keeps_recvSdu h hr)
  | generatePdu buffer =>
      obtain ⟨⟨e₁, pdu⟩, hg, hs⟩ := Machine.bind_ok hs
      obtain ⟨rfl, -⟩ := ok_pair hs
      unfold amGeneratePdu at hg
      obtain ⟨⟨rx, pdu₁⟩, -, hg⟩ := Machine.bind_ok hg
      simp only at hg
      split at hg
      · obtain ⟨⟨tx, pdu₂⟩, hd, hg⟩ := Machine.bind_ok hg
        obtain ⟨rfl, -⟩ := ok_pair hg
        exact .inr (keeps_generateDataPdu h hd)
      · obtain ⟨rfl, -⟩ := ok_pair hg
        exact .inr (AmTx.Keeps.refl h)
  | setTime now =>
      simp only [amStep, amSetTime] at hs
      obtain ⟨⟨tx, ev⟩, hc, hs⟩ := Machine.bind_ok hs
      obtain ⟨rfl, -⟩ := ok_pair hs
      exact .inr (keeps_checkTPollRetransmit h hc)
  | discardSdu sduId =>
      obtain ⟨rfl, -⟩ := ok_pair hs
      exact .inr (keeps_discardSdu h sduId)
  | reestablishment =>
      obtain ⟨rfl, -⟩ := ok_pair hs
      exact .inr (keeps_clearTx h)

/-- The decoder reports no error for the control PDU. -/
def ErrorFree (cfg : AmConfig) (tx : AmTx) (buffer : List UInt8) : Prop :=
  ∀ state, processControlPdu cfg tx buffer ≠ .err state

/-- The PDU was processed to the end. -/
def ControlResult.isDone : ControlResult → Bool
  | .done _ _ => true
  | .err _ => false

theorem errorFree_iff {cfg : AmConfig} {tx : AmTx} {buffer : List UInt8} :
    ErrorFree cfg tx buffer ↔ (processControlPdu cfg tx buffer).isDone = true := by
  unfold ErrorFree
  cases processControlPdu cfg tx buffer with
  | done tx' events => simp [ControlResult.isDone]
  | err state => simp [ControlResult.isDone]

theorem recvControlPdu_errorFree {cfg : AmConfig} {tx tx' : AmTx} {buffer : List UInt8}
    (hf : ErrorFree cfg tx buffer) (h : recvControlPdu cfg tx buffer = .ok (tx', events)) :
    processControlPdu cfg tx buffer = .done tx' events := by
  unfold recvControlPdu at h
  cases hp : processControlPdu cfg tx buffer with
  | done tx₁ ev =>
      rw [hp] at h
      obtain ⟨rfl, rfl⟩ := ok_pair h
      rfl
  | err state => exact absurd hp (hf state)

/-- All control PDUs are error-free. -/
def ErrorFreeStatus (e : AmEntity) : Op → Prop
  | .recvPdu buffer => isControlPdu buffer → ErrorFree e.cfg e.tx buffer
  | _ => True

/-- A check that all PDUs are processed to the end. -/
def errorFreeCheck (e : AmEntity) : Op → Bool
  | .recvPdu buffer => (processControlPdu e.cfg e.tx buffer).isDone
  | _ => true

theorem errorFreeStatus_of_check (e : AmEntity) (op : Op) (h : errorFreeCheck e op = true) :
    ErrorFreeStatus e op := by
  cases op with
  | recvPdu buffer => exact fun _ => errorFree_iff.mpr h
  | _ => trivial

/-- No STATUS PDU leads to the speedup. -/
def NoSpeedup (e : AmEntity) : Op → Prop
  | .recvPdu buffer => isControlPdu buffer →
      ∀ status, decodeStatus e.cfg buffer = some status → ¬ status.Speedup e.cfg e.tx
  | _ => True

/-- A check that no NACK passes over a segment to retransmit. -/
def noSpeedupCheck (e : AmEntity) : Op → Bool
  | .recvPdu buffer => (decodeStatus e.cfg buffer).all fun status =>
      decide (∀ n ∈ status.goodNacks e.cfg e.tx, ∀ r ∈ e.tx.retransmitList,
        verdict e.cfg e.tx status.ackSn n r ≠ .unacked)
  | _ => true

theorem noSpeedup_of_check (e : AmEntity) (op : Op) (h : noSpeedupCheck e op = true) :
    NoSpeedup e op := by
  cases op with
  | recvPdu buffer =>
      intro _ status hd
      rw [noSpeedupCheck, hd, Option.all_some, decide_eq_true_eq] at h
      exact not_speedup_of_verdict h
  | _ => trivial

theorem segments_amStep (h : e.tx.Inv e.cfg [] ∧ e.tx.Accounts e.cfg)
    (hf : ErrorFreeStatus e op) (hn : NoSpeedup e op) (hs : amStep e op = .ok (e', events)) :
    e'.tx.Inv e'.cfg [] ∧ e'.tx.Accounts e'.cfg := by
  obtain ⟨hcfg, ⟨buffer, rfl, hctl, hc⟩ | hk⟩ := amStep_tx h.1 hs
  · obtain ⟨status, hd, hfin⟩ := processControlPdu_done (recvControlPdu_errorFree (hf hctl) hc)
    obtain ⟨hinv, hacc⟩ := inv_control h.1 hd hfin
    have hnil : (status.merge e.cfg e.tx).retxRest = [] :=
      retxRest_of_not_speedup (hn hctl status hd)
    rw [hnil] at hinv
    rw [hcfg]
    exact ⟨hinv, hacc hnil h.2⟩
  · rw [hcfg]
    exact ⟨hk.inv, hk.accounts rfl h.2⟩

end Calls

/-! ## Whole runs -/

/-- The segments in the three lists. -/
def AmTx.live (tx : AmTx) : List Segment := tx.txList ++ tx.waitList ++ tx.retransmitList

/-- What the segments of the SDU `i` are: pairwise disjoint, together with those that were
freed all of its bytes and no more, with the flags of the first and the last one, and as many
as the counters say. -/
structure AmTx.Partition (tx : AmTx) (i : ℕ) : Prop where
  disjoint : tx.live.Pairwise fun s s' => s.sdu = i → s'.sdu = i →
    s.so + s.size ≤ s'.so ∨ s'.so + s'.size ≤ s.so
  cover : ∀ b, (∃ s ∈ tx.live ++ tx.freed, s.sdu = i ∧ s.so ≤ b ∧ b < s.so + s.size) ↔
    b < (tx.heap i).size
  isFirst_iff : ∀ s ∈ tx.live, s.sdu = i → (s.isFirst = true ↔ s.so = 0)
  isLast_iff : ∀ s ∈ tx.live, s.sdu = i → (s.isLast = true ↔ s.so + s.size = (tx.heap i).size)
  count : (sduCount tx.live i : ℤ) = (tx.heap i).refCount - (tx.heap i).freeCount

theorem AmTx.Parts.partition {tx : AmTx} (h : tx.Parts []) {i : ℕ} (hi : i < tx.nextSdu) :
    tx.Partition i := by
  have hseg : tx.segments [] = tx.live ++ tx.freed := by simp [AmTx.segments, AmTx.live]
  have hmem : ∀ {s}, s ∈ tx.live → s ∈ tx.segments [] := fun hs => by
    rw [hseg]
    exact List.mem_append_left _ hs
  refine ⟨?_, ?_, ?_, ?_, ?_⟩
  · have hnd : tx.live.Nodup := by
      have := List.Nodup.of_map _ h.addr_nodup
      rw [hseg] at this
      exact (List.nodup_append.mp this).1
    refine hnd.imp_of_mem fun {s s'} hs hs' hne hi hi' => ?_
    rcases le_total s.so s'.so with hle | hle
    · exact .inl (h.end_le_so (hmem hs) (hmem hs') (hi'.trans hi.symm) hne hle)
    · exact .inr (h.end_le_so (hmem hs') (hmem hs) (hi.trans hi'.symm) hne.symm hle)
  · intro b
    have hcov := h.cover_eq i hi b
    rw [hseg] at hcov
    constructor
    · rintro ⟨s, hs, hsi, hb⟩
      have : 0 < NrRlc.cover (tx.live ++ tx.freed) i b :=
        List.countP_pos_iff.mpr ⟨s, hs, Segment.covers_iff.mpr ⟨hsi, hb⟩⟩
      by_contra hlt
      rw [if_neg hlt] at hcov
      omega
    · intro hb
      rw [if_pos hb] at hcov
      obtain ⟨s, hs, hc⟩ := List.countP_pos_iff.mp
        (show 0 < (tx.live ++ tx.freed).countP fun s => s.covers i b by
          unfold NrRlc.cover at hcov
          omega)
      exact ⟨s, hs, (Segment.covers_iff.mp hc).1, (Segment.covers_iff.mp hc).2⟩
  · intro s hs _
    exact h.isFirst_iff s (hmem hs)
  · rintro s hs rfl
    exact h.isLast_iff s (hmem hs)
  · rw [h.refCount_eq i hi, h.freeCount_eq i hi, hseg, sduCount_append]
    push_cast
    ring

theorem segments_amRun {cfg : AmConfig} {ops : List Op} {e : AmEntity} {events : List Event}
    (hrun : amRun (newAmEntity cfg) ops = .ok (e, events))
    (hfree : Machine.Along amStep ErrorFreeStatus (newAmEntity cfg) ops)
    (hspeed : Machine.Along amStep NoSpeedup (newAmEntity cfg) ops) :
    e.tx.Inv e.cfg [] ∧ e.tx.Accounts e.cfg :=
  @Machine.run_invariant _ _ _ _ amStep (fun e op => ErrorFreeStatus e op ∧ NoSpeedup e op)
    (fun e => e.tx.Inv e.cfg [] ∧ e.tx.Accounts e.cfg)
    (fun _ _ _ _ hI hop hs => segments_amStep hI hop.1 hop.2 hs) _ _ _ _
    ⟨inv_newTx cfg, accounts_init⟩ (Machine.along_and hfree hspeed) hrun

/-- **Segments and sizes.** In a run with error-free STATUS PDUs none of which leads to the
speedup, the segments of every SDU that is not freed are a partition of it, `tx_size` is the
size of these SDUs, and the buffer status is the size of the PDUs for `tx_list` and
`retransmit_list`. -/
theorem segment_partition (cfg : AmConfig) (ops : List Op) (e : AmEntity) (events : List Event)
    (hrun : amRun (newAmEntity cfg) ops = .ok (e, events))
    (hfree : Machine.Along amStep ErrorFreeStatus (newAmEntity cfg) ops)
    (hspeed : Machine.Along amStep NoSpeedup (newAmEntity cfg) ops) :
    (∀ i < e.tx.nextSdu, (e.tx.heap i).isFreed = false → e.tx.Partition i) ∧
      e.tx.txSize = e.tx.heldSize ∧ e.tx.bstatusTxSize = totalSize e.cfg e.tx.txList ∧
      e.tx.bstatusRetxSize = totalSize e.cfg e.tx.retransmitList := by
  obtain ⟨hinv, hacc⟩ := segments_amRun hrun hfree hspeed
  exact ⟨fun i hi _ => hinv.parts.partition hi, hacc.txSize_eq, hacc.bstatusTxSize_eq,
    hacc.bstatusRetxSize_eq⟩

/-- An SDU of 20 bytes is sent in two segments, and both are NACKed. -/
def splitOps : List Op :=
  [.recvSdu (List.replicate 20 0xaa) 7, .generatePdu (List.replicate 12 0),
    .generatePdu (List.replicate 14 0), .recvPdu [0x00, 0x01, 0x80, 0x00, 0x00]]

/-- The first segment is retransmitted and NACKed again, while the second one is acked before it is
retransmitted; then 6 bytes of the first one are retransmitted. -/
def resplitOps : List Op :=
  splitOps ++ [.generatePdu (List.replicate 12 0),
    .recvPdu [0x00, 0x01, 0x80, 0x00, 0x04, 0x00, 0x00, 0x00, 0x09],
    .generatePdu (List.replicate 8 0)]

/-- Bytes 0 to 5 wait, and bytes 6 to 9 are to be retransmitted. -/
theorem segment_partition_nacked :
    ∃ e events, amRun (newAmEntity testConfig) resplitOps = .ok (e, events) ∧
      (e.tx.waitList.map (fun s => (s.so, s.size)) = [(0, 6)] ∧
        e.tx.retransmitList.map (fun s => (s.so, s.size)) = [(6, 4)]) ∧
      (∀ i < e.tx.nextSdu, (e.tx.heap i).isFreed = false → e.tx.Partition i) ∧
      e.tx.txSize = e.tx.heldSize ∧ e.tx.bstatusTxSize = totalSize e.cfg e.tx.txList ∧
      e.tx.bstatusRetxSize = totalSize e.cfg e.tx.retransmitList := by
  exact ⟨_, _, rfl, by decide +kernel, segment_partition testConfig resplitOps _ _ rfl
    (Machine.along_of_check errorFreeStatus_of_check (by decide +kernel))
    (Machine.along_of_check noSpeedup_of_check (by decide +kernel))⟩

/-- An SDU of 20 bytes is sent in two segments, both are NACKed, then the second one is NACKed
again with its SN as `ACK_SN`. The first one is neither NACKed nor acked and `wait_list` is
empty: both segments are lost. -/
theorem segments_lost :
    ¬ ∀ (cfg : AmConfig) (ops : List Op) (e : AmEntity) (events : List Event),
      amRun (newAmEntity cfg) ops = .ok (e, events) →
      Machine.Along amStep ErrorFreeStatus (newAmEntity cfg) ops →
      (∀ i < e.tx.nextSdu, (e.tx.heap i).isFreed = false → e.tx.Partition i) ∧
        e.tx.txSize = e.tx.heldSize ∧ e.tx.bstatusTxSize = totalSize e.cfg e.tx.txList ∧
        e.tx.bstatusRetxSize = totalSize e.cfg e.tx.retransmitList := by
  intro h
  have hc := ((h testConfig [.recvSdu (List.replicate 20 0xaa) 7,
      .generatePdu (List.replicate 12 0), .generatePdu (List.replicate 14 0),
      .recvPdu [0x00, 0x01, 0x80, 0x00, 0x00],
      .recvPdu [0x00, 0x00, 0x80, 0x00, 0x04, 0x00, 0x0a, 0x00, 0x13]] _ _ rfl
    (Machine.along_of_check errorFreeStatus_of_check (by decide +kernel))).1
    0 (by decide +kernel) (by decide +kernel)).count
  exact absurd hc (by decide +kernel)

end OaiCu.NrRlc
