import OaiCu.NrRlc.AmRun
import OaiCu.NrRlc.UmEntity

/-!
# The copies of `reassemble_and_deliver`, in AM and in UM

`sdu_full` is content with the first segment that is marked as the last one; the loop of
`reassemble_and_deliver` goes on over all segments of the SN. A segment stored beyond the
end of the SDU is copied as well, and if it does not follow what was copied before, the copy
starts before its data.
-/

namespace OaiCu.NrRlc

/-- A `memcpy` that is in bounds; nothing is said of other events. -/
def Event.InBounds : Event → Prop
  | .memcpy c => c.InBounds
  | _ => True

/-- The segments of `sn` that are copied follow one another without a gap. -/
def NoGap (l : List Pdu) (sn : ℤ) : Prop := missingBytesFrom sn (-1) (goodRun l sn) = false

/-- The events of `reassemble_and_deliver` are in bounds iff there is no gap. -/
theorem events_inBounds_iff (l : List Pdu) (sn : ℤ) :
    (∀ ev ∈ (reassemble l sn).events, ev.InBounds) ↔ NoGap l sn := by
  rw [NoGap, ← reassemble_inBounds_iff]
  unfold Reassembly.events
  constructor
  · intro h c hc
    exact h (.memcpy c) (List.mem_append_left _ (List.mem_map_of_mem hc))
  · intro h ev hev
    rcases List.mem_append.mp hev with hev | hev
    · obtain ⟨c, hc, rfl⟩ := List.mem_map.mp hev
      exact h c hc
    · split at hev
      · cases hev
      · rw [List.mem_singleton.mp hev]
        trivial

/-- What both entities do with a stored PDU of SN `x`. -/
theorem delivery_inBounds_iff (l : List Pdu) (x : ℤ) {events : List Event}
    (h : events = if sduFull l x then (reassemble l x).events else []) :
    (∀ ev ∈ events, ev.InBounds) ↔ (sduFull l x = true → NoGap l x) := by
  subst h
  split
  · rename_i hfull
    rw [events_inBounds_iff]
    exact ⟨fun h _ => h, fun h => h hfull⟩
  · rename_i hfull
    exact iff_of_true (by simp) fun h => absurd h hfull

/-! ## AM -/

/-- If the call completes an SDU, the stored segments of it leave no gap. -/
def AmNoGap (e : AmEntity) : Op → Prop
  | .recvPdu buffer => ∀ f, decodeDataPdu e.cfg buffer = some f → accepted e.cfg e.rx f = true →
      sduFull (storePdu e.cfg e.rx f).rxList f.sn = true →
      NoGap (storePdu e.cfg e.rx f).rxList f.sn
  | _ => True

theorem receptionActions_events (cfg : AmConfig) (tCurrent : ℕ) (rx : AmRx) (x : ℤ) :
    (receptionActions cfg tCurrent rx x).2 =
      if sduFull rx.rxList x then (reassemble rx.rxList x).events else [] := by
  have hl : (raiseNextHighest cfg rx x).rxList = rx.rxList := by
    unfold raiseNextHighest
    split <;> rfl
  simp only [receptionActions, hl]
  split
  · simp only [amReassembleAndDeliver, hl]
  · rfl

/-- What the environment sees of a PDU received by an entity that only receives. -/
theorem recvPdu_idle {e e' : AmEntity} {buffer : List UInt8} {events : List Event}
    (hidle : e.tx.Idle) (h : amStep e (.recvPdu buffer) = .ok (e', events)) :
    (decodeDataPdu e.cfg buffer = none ∧ events = []) ∨
      ∃ f, decodeDataPdu e.cfg buffer = some f ∧
        ((accepted e.cfg e.rx f = true ∧
          events = if sduFull (storePdu e.cfg e.rx f).rxList f.sn then
            (reassemble (storePdu e.cfg e.rx f).rxList f.sn).events else []) ∨
        (¬ accepted e.cfg e.rx f = true ∧ events = [])) := by
  simp only [amStep, amRecvPdu] at h
  cases hbit : (decoderInit buffer).getBits 1 with
  | none =>
      rw [hbit] at h
      exact .inl ⟨by simp [decodeDataPdu, hbit], (ok_pair h).2.symm⟩
  | some r =>
      obtain ⟨dc, d⟩ := r
      simp only [hbit] at h
      by_cases hdc : dc = 0
      · obtain ⟨tx', htx', -⟩ := @recvControlPdu_idle e.cfg e.tx hidle buffer
        rw [if_pos hdc, htx'] at h
        exact .inl ⟨by simp [decodeDataPdu, hbit, hdc], (ok_pair h).2.symm⟩
      · rw [if_neg hdc] at h
        have hev := (ok_pair h).2
        have hdec : decodeDataPdu e.cfg buffer =
            (d.getBits 1).bind fun r => decodeDataFields e.cfg r.2 := by
          simp [decodeDataPdu, hbit, hdc, Option.bind_eq_bind]
        unfold recvDataPdu at hev
        cases hp : d.getBits 1 with
        | none =>
            simp only [hp] at hev
            exact .inl ⟨by rw [hdec, hp]; rfl, hev.symm⟩
        | some r =>
            obtain ⟨p, d'⟩ := r
            simp only [hp] at hev
            cases hf : decodeDataFields e.cfg d' with
            | none =>
                simp only [hf] at hev
                exact .inl ⟨by rw [hdec, hp]; exact hf, hev.symm⟩
            | some f =>
                simp only [hf] at hev
                refine .inr ⟨f, by rw [hdec, hp]; exact hf, ?_⟩
                by_cases hacc : accepted e.cfg e.rx f = true
                · rw [if_pos hacc] at hev
                  exact .inl ⟨hacc, hev.symm.trans (receptionActions_events e.cfg e.tCurrent _ _)⟩
                · rw [if_neg hacc] at hev
                  exact .inr ⟨hacc, hev.symm⟩

theorem recvPdu_events_idle {e e' : AmEntity} {buffer : List UInt8} {events : List Event}
    (hidle : e.tx.Idle) (h : amStep e (.recvPdu buffer) = .ok (e', events)) :
    (∀ ev ∈ events, ev.InBounds) ↔ AmNoGap e (.recvPdu buffer) := by
  rcases recvPdu_idle hidle h with ⟨hnone, rfl⟩ | ⟨f, hsome, ⟨hacc, hev⟩ | ⟨hacc, rfl⟩⟩
  · refine iff_of_true (by simp) fun f hf => ?_
    rw [hnone] at hf
    cases hf
  · rw [delivery_inBounds_iff (storePdu e.cfg e.rx f).rxList f.sn hev]
    simp [AmNoGap, hsome, hacc]
  · exact iff_of_true (by simp) (by simp [AmNoGap, hsome, hacc])

theorem amStep_inBounds_iff {e e' : AmEntity} {op : RxOp} {events : List Event}
    (hidle : e.tx.Idle) (h : amStep e op.op = .ok (e', events)) :
    (∀ ev ∈ events, ev.InBounds) ↔ AmNoGap e op.op := by
  cases op with
  | recvPdu buffer => exact recvPdu_events_idle hidle h
  | setTime now =>
      have ht : checkTPollRetransmit e.cfg now.toNat e.tx = .ok (e.tx, []) := by
        simp [checkTPollRetransmit, timerExpired, hidle.timer]
      simp only [RxOp.op, amStep, amSetTime, ht] at h
      rw [← (ok_pair h).2]
      exact iff_of_true (by simp) trivial

/-! ## UM -/

/-- If the call completes an SDU, the stored segments of it leave no gap. -/
def UmNoGap (e : UmEntity) : Op → Prop
  | .recvPdu buffer => ∀ sn so isFirst isLast data,
      Um.decodePdu e.cfg buffer = some (.segment sn so isFirst isLast data) →
      Um.accepted e.cfg e.rx sn data = true →
      sduFull (Um.storePdu e.cfg e.rx sn so isFirst isLast data).rxList sn = true →
      NoGap (Um.storePdu e.cfg e.rx sn so isFirst isLast data).rxList sn
  | _ => True

theorem um_receptionActions_events (cfg : UmConfig) (tCurrent : ℕ) (rx : UmRx) (x : ℤ) :
    (Um.receptionActions cfg tCurrent rx x).2 =
      if sduFull rx.rxList x then (reassemble rx.rxList x).events else [] := by
  simp only [Um.receptionActions]
  split <;> rfl

theorem um_step_inBounds_iff {e e' : UmEntity} {op : RxOp} {events : List Event}
    (h : Um.step e op.op = .ok (e', events)) :
    (∀ ev ∈ events, ev.InBounds) ↔ UmNoGap e op.op := by
  cases op with
  | recvPdu buffer =>
      have hev : (Um.recvPdu e.cfg e.tCurrent e.rx buffer).2 = events := (ok_pair h).2
      unfold Um.recvPdu at hev
      simp only [RxOp.op, UmNoGap]
      cases hd : Um.decodePdu e.cfg buffer with
      | none =>
          simp only [hd] at hev
          rw [← hev]
          exact iff_of_true (by simp) (by simp)
      | some pdu =>
          cases pdu with
          | sdu data =>
              simp only [hd] at hev
              rw [← hev]
              exact iff_of_true (by simp [Event.InBounds]) (by simp)
          | segment sn so isFirst isLast data =>
              simp only [hd] at hev
              by_cases hacc : Um.accepted e.cfg e.rx sn data = true
              · rw [if_pos hacc] at hev
                rw [delivery_inBounds_iff _ sn
                  (hev.symm.trans (um_receptionActions_events e.cfg e.tCurrent _ _))]
                constructor
                · rintro h _ _ _ _ _ ⟨⟩ - hfull
                  exact h hfull
                · exact fun h => h sn so isFirst isLast data rfl hacc
              · rw [if_neg hacc] at hev
                rw [← hev]
                refine iff_of_true (by simp) ?_
                rintro _ _ _ _ _ ⟨⟩ h
                exact absurd h hacc
  | setTime now =>
      rw [← (ok_pair h).2]
      exact iff_of_true (by simp) trivial

/-- **The copies stay in bounds, exactly when no SDU is completed around a gap.** -/
theorem memcpy_inBounds_iff (am : AmConfig) (um : UmConfig) (ops : List RxOp) :
    (∃ e events, amRun (newAmEntity am) (ops.map RxOp.op) = .ok (e, events) ∧
      ((∀ c, Event.memcpy c ∈ events → c.InBounds) ↔
        Machine.Along amStep AmNoGap (newAmEntity am) (ops.map RxOp.op))) ∧
    (∃ e events, Um.run (newUmEntity um) (ops.map RxOp.op) = .ok (e, events) ∧
      ((∀ c, Event.memcpy c ∈ events → c.InBounds) ↔
        Machine.Along Um.step UmNoGap (newUmEntity um) (ops.map RxOp.op))) := by
  have hcopies : ∀ events : List Event, (∀ c, Event.memcpy c ∈ events → c.InBounds) ↔
      ∀ ev ∈ events, ev.InBounds := by
    intro events
    refine ⟨fun h ev hev => ?_, fun h c hc => h _ hc⟩
    cases ev with
    | memcpy c => exact h c hev
    | _ => trivial
  constructor
  · obtain ⟨e, events, hrun, -⟩ := @Machine.run_total _ _ _ _ (fun e op => amStep e (RxOp.op op))
      (fun e => e.tx.Idle) (fun e op hidle => amStep_idle hidle op) ops (newAmEntity am)
      ⟨rfl, rfl, rfl⟩
    refine ⟨e, events, by rw [amRun, Machine.run_map, hrun], ?_⟩
    rw [hcopies, Machine.along_map]
    refine @Machine.outputs_iff_along _ _ _ _ _ _ (fun e => e.tx.Idle) _
      (fun e op e' out hidle hs => ?_) _ _ _ _ ⟨rfl, rfl, rfl⟩ hrun
    obtain ⟨e₁, out₁, hs₁, hidle₁⟩ := amStep_idle hidle op
    rw [hs₁] at hs
    exact ⟨(ok_pair hs).1 ▸ hidle₁, amStep_inBounds_iff hidle (hs₁.trans hs)⟩
  · obtain ⟨e, events, hrun, -⟩ := @Machine.run_total _ _ _ _ (fun e op => Um.step e (RxOp.op op))
      (fun _ => True) (fun e op _ => by cases op <;> exact ⟨_, _, rfl, trivial⟩) ops
      (newUmEntity um) trivial
    refine ⟨e, events, by rw [Um.run, Machine.run_map, hrun], ?_⟩
    rw [hcopies, Machine.along_map]
    exact @Machine.outputs_iff_along _ _ _ _ _ _ (fun _ => True) _
      (fun e op e' out _ hs => ⟨trivial, um_step_inBounds_iff hs⟩) _ _ _ _ trivial hrun

/-- Three segments of SN 0: one byte at offset 100, the first ten bytes, and a last byte at
offset 10. The SDU of eleven bytes is full; then 90 bytes are read from 89 bytes before the
data of the first one. -/
theorem memcpy_outOfBounds :
    (¬ ∀ (cfg : AmConfig) (ops : List RxOp) e events,
      amRun (newAmEntity cfg) (ops.map RxOp.op) = .ok (e, events) →
        ∀ c, Event.memcpy c ∈ events → c.InBounds) ∧
    (¬ ∀ (cfg : UmConfig) (ops : List RxOp) e events,
      Um.run (newUmEntity cfg) (ops.map RxOp.op) = .ok (e, events) →
        ∀ c, Event.memcpy c ∈ events → c.InBounds) := by
  constructor
  · intro h
    have hc := h testConfig
      [.recvPdu [0xb0, 0, 0, 100, 1], .recvPdu [0x90, 0, 1, 2, 3, 4, 5, 6, 7, 8, 9, 10],
        .recvPdu [0xa0, 0, 0, 10, 1]] _ _ rfl ⟨11, -89, 90, 1⟩ (by decide +kernel)
    exact absurd hc (by decide)
  · intro h
    have hc := h ⟨100000, 100000, 35, 12, .inr rfl⟩
      [.recvPdu [0xc0, 0, 0, 100, 1], .recvPdu [0x40, 0, 1, 2, 3, 4, 5, 6, 7, 8, 9, 10],
        .recvPdu [0x80, 0, 0, 10, 1]] _ _ rfl ⟨11, -89, 90, 1⟩ (by decide +kernel)
    exact absurd hc (by decide)

end OaiCu.NrRlc
