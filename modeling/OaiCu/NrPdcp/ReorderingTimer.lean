import OaiCu.NrPdcp.Window

/-!
# t-Reordering and the clock

`t_current` has 64 bits, but `t_reordering_start` is an `int`: the time of the start is cut to 32
bits, with a sign. What the timer does then is compared with what a timer does that was started
at that time.
-/

namespace OaiCu.NrPdcp

open Machine

/-! ## The time of the start -/

/-- An entity with the time at which t-Reordering was started last, as long as it is not
stopped. -/
structure Timed where
  entity : PdcpEntity := {}
  since : Option ℕ := none

/-- The entity when `nr_pdcp_entity_recv_pdu` gets to its timer: the new SDU is stored, and what
can be delivered is. -/
def atTimer (e : PdcpEntity) (sdu : PdcpSdu) (size : ℕ) : PdcpEntity :=
  if sdu.count = e.rxDeliv then (deliverSdus (withSdu e sdu size) e.rxDeliv).1
  else withSdu e sdu size

/-- `startReordering` for the time of the start. -/
def sinceStart (e : PdcpEntity) (since : Option ℕ) : Option ℕ :=
  if e.tReorderingStart = 0 ∧ e.rxDeliv < e.rxNext then some e.tCurrent else since

/-- `stopReordering` for the time of the start. A timer whose start was cut to 0 counts as
stopped where one that runs is. -/
def sinceStop (e : PdcpEntity) (since : Option ℕ) : Option ℕ :=
  if e.rxDeliv ≥ e.rxReord then none else since

/-- The time of the start after a call. -/
def sinceAfter (cfg : PdcpConfig) (x : Timed) : Call → Option ℕ
  | .recvPdu buffer =>
      match storedSdu cfg x.entity buffer with
      | none => x.since
      | some sdu =>
          let e := atTimer x.entity sdu (buffer.length - cfg.headerSize)
          sinceStart (stopReordering e) (sinceStop e x.since)
  | .recvSdu _ _ => x.since
  | .setTime now =>
      let e := { x.entity with tCurrent := now.toNat }
      if Expired cfg e then sinceStart (atRestart e) none else x.since

/-- The entity as a machine, with the time of the start. -/
def timedStep (cfg : PdcpConfig) (x : Timed) (call : Call) :
    Except Empty (Timed × List Output) := do
  let (entity, out) ← pdcpStep cfg x.entity call
  return ({ entity, since := sinceAfter cfg x call }, out)

/-- Times are at least 1 and do not decrease. -/
def TimeMoves (x : Timed) : Call → Prop
  | .setTime now => 1 ≤ now.toNat ∧ x.entity.tCurrent ≤ now.toNat
  | _ => True

instance (x : Timed) (call : Call) : Decidable (TimeMoves x call) :=
  match call with
  | .setTime now => inferInstanceAs (Decidable (1 ≤ now.toNat ∧ x.entity.tCurrent ≤ now.toNat))
  | .recvPdu _ | .recvSdu _ _ => .isTrue trivial

/-- t-Reordering fires: the buffered SDUs below `rx_reord` are delivered, and those that follow
without a gap. -/
def Fires (e : PdcpEntity) (r : PdcpEntity × List Output) : Prop :=
  ∃ bound ds, Flushed e.rxReord bound e.rxList ds r.1 ∧ r.2 = sduOutputs ds

/-- A timer that was started at `s` fires at the first time beyond `s + t_reordering`, and before
that nothing happens. -/
def FiresOnTime (cfg : PdcpConfig) (x : Timed) : Call → Prop
  | .setTime now => ∀ s, x.since = some s →
      (s + cfg.tReordering < now.toNat → Fires x.entity (setTime cfg x.entity now)) ∧
        (now.toNat ≤ s + cfg.tReordering →
          setTime cfg x.entity now = ({ x.entity with tCurrent := now.toNat }, []))
  | _ => True

/-- The time `now` comes when a timer of `t` ms that was started at `s` is due as an `int`, too. A
multiple of `2^32` is cut to 0: the timer does not run. If the expiry is not negative as an `int`,
a timer that was started from `2^31` on fires at once; if it is negative, the timer fires at the
end of the 64 bits. -/
def InTime (t : ℤ) (s now : ℕ) : Prop :=
  if s % 2 ^ 32 = 0 then now ≤ s + t
  else if (s + t) % 2 ^ 32 < 2 ^ 31 then s < 2 ^ 31 ∨ s + t < now
  else now ≤ s + t ∨ 2 ^ 64 - 2 ^ 32 + (s + t) % 2 ^ 32 < now

instance (t : ℤ) (s now : ℕ) : Decidable (InTime t s now) := by
  unfold InTime
  infer_instance

/-- Every time comes when the timer that was started is due as an `int`, too. -/
def ComesInTime (cfg : PdcpConfig) (x : Timed) : Call → Prop
  | .setTime now => ∀ s, x.since = some s → InTime cfg.tReordering s now.toNat
  | _ => True

instance (cfg : PdcpConfig) (x : Timed) (call : Call) : Decidable (ComesInTime cfg x call) :=
  match call with
  | .setTime now =>
      inferInstanceAs (Decidable (∀ s ∈ x.since, InTime cfg.tReordering s now.toNat))
  | .recvPdu _ | .recvSdu _ _ => .isTrue trivial

/-! ## The comparison -/

theorem startTime_eq_zero {s : ℕ} : startTime s = 0 ↔ s % 2 ^ 32 = 0 := by
  unfold startTime Int.bmod
  dsimp only
  push_cast
  split <;> omega

/-- The sum of the two `int`s, as it is compared with `t_current`. -/
theorem expiry_eq (t : ℤ) (s : ℕ) :
    Int.bmod (startTime s + t) (2 ^ 32) % 2 ^ 64 =
      if (s + t) % 2 ^ 32 < 2 ^ 31 then (s + t) % 2 ^ 32
      else 2 ^ 64 - 2 ^ 32 + (s + t) % 2 ^ 32 := by
  unfold startTime
  rw [Int.bmod_add_bmod]
  unfold Int.bmod
  dsimp only
  push_cast
  split_ifs <;> omega

/-- A timer that was started at `s` is due as an `int` exactly if it is due, when the time is
right for both. -/
theorem due_iff_inTime {t : ℤ} {s now : ℕ} (ht : 0 ≤ t ∧ t < 2 ^ 31) (hs : s ≤ now)
    (hnow : now < 2 ^ 64) :
    ((startTime s ≠ 0 ∧ Int.bmod (startTime s + t) (2 ^ 32) % 2 ^ 64 < now) ↔ s + t < now) ↔
      InTime t s now := by
  rw [Ne, startTime_eq_zero, expiry_eq]
  unfold InTime
  by_cases hzero : s % 2 ^ 32 = 0
  · rw [if_pos hzero]
    omega
  · rw [if_neg hzero, and_iff_right hzero]
    split
    · omega
    · omega

/-! ## The calls -/

theorem storeSdu_entity (e : PdcpEntity) (sdu : PdcpSdu) (size : ℕ) :
    (storeSdu e sdu size).1 = startReordering (stopReordering (atTimer e sdu size)) := by
  rw [storeSdu_eq]
  unfold atTimer
  split
  · rfl
  · rfl

theorem atTimer_timer (e : PdcpEntity) (sdu : PdcpSdu) (size : ℕ) :
    (atTimer e sdu size).tReorderingStart = e.tReorderingStart ∧
      (atTimer e sdu size).tCurrent = e.tCurrent := by
  unfold atTimer
  split
  · exact ⟨rfl, rfl⟩
  · exact ⟨rfl, rfl⟩

/-- What is known of a timer that was started and not stopped since. -/
structure Runs (e : PdcpEntity) (s : ℕ) : Prop where
  start : e.tReorderingStart = startTime s
  since : s ≤ e.tCurrent
  gap : e.rxDeliv < e.rxReord

/-- The invariant of the runs: the buffer is in order, and the timer is what was started. -/
structure TimedInv (x : Timed) : Prop where
  buffered : Buffered x.entity
  runs : ∀ s, x.since = some s → Runs x.entity s

/-- Starting the timer. -/
theorem runs_start {e : PdcpEntity} {since : Option ℕ} (h : ∀ s, since = some s → Runs e s) {s : ℕ}
    (hs : sinceStart e since = some s) : Runs (startReordering e) s := by
  unfold sinceStart at hs
  unfold startReordering
  by_cases hstart : e.tReorderingStart = 0 ∧ e.rxDeliv < e.rxNext
  · rw [if_pos hstart] at hs ⊢
    cases hs
    exact ⟨by dsimp only, le_rfl, hstart.2⟩
  · rw [if_neg hstart] at hs ⊢
    exact h s hs

/-- Stopping it. -/
theorem runs_stop {e : PdcpEntity} {since : Option ℕ}
    (h : ∀ s, since = some s → e.tReorderingStart = startTime s ∧ s ≤ e.tCurrent) {s : ℕ}
    (hs : sinceStop e since = some s) : Runs (stopReordering e) s := by
  unfold sinceStop at hs
  unfold stopReordering
  by_cases hstop : e.rxDeliv ≥ e.rxReord
  · rw [if_pos hstop] at hs
    cases hs
  · rw [if_neg hstop] at hs
    rw [if_neg fun h => hstop h.2]
    exact ⟨(h s hs).1, (h s hs).2, not_le.mp hstop⟩

/-- The entity with the new time. -/
theorem buffered_time {e : PdcpEntity} (hb : Buffered e) (now : ℕ) :
    Buffered { e with tCurrent := now } :=
  hb.of_eq rfl rfl rfl rfl rfl

theorem buffered_recvPdu {cfg : PdcpConfig} {e : PdcpEntity} (hb : Buffered e)
    (buffer : List UInt8) : Buffered (recvPdu cfg e buffer).1 := by
  have hspec := recvPdu_spec cfg e buffer
  split at hspec
  · rw [hspec.1]
    exact hb
  · rename_i sdu hst
    obtain ⟨-, hc, hlow, hne⟩ := storedSdu_some hst
    have hlt : sdu.count < 2 ^ 32 := hc ▸ (pduCount_cases cfg hb.deliv_lt buffer).2.1
    rw [hspec.1]
    exact buffered_storeSdu _ hb ⟨hlow, hlt⟩ hne

theorem runs_recvPdu {cfg : PdcpConfig} {x : Timed} (hI : TimedInv x) (buffer : List UInt8)
    {s : ℕ} (hs : sinceAfter cfg x (.recvPdu buffer) = some s) :
    Runs (recvPdu cfg x.entity buffer).1 s := by
  have hspec := recvPdu_spec cfg x.entity buffer
  unfold sinceAfter at hs
  dsimp only at hs
  split at hspec
  · rename_i hst
    rw [hst] at hs
    rw [hspec.1]
    exact hI.runs s hs
  · rename_i sdu hst
    rw [hst] at hs
    rw [hspec.1, storeSdu_entity]
    obtain ⟨h₁, h₂⟩ := atTimer_timer x.entity sdu (buffer.length - cfg.headerSize)
    refine runs_start (fun s hs => runs_stop (fun s hs => ?_) hs) hs
    rw [h₁, h₂]
    exact ⟨(hI.runs s hs).start, (hI.runs s hs).since⟩

theorem runs_setTime {cfg : PdcpConfig} {x : Timed} (hI : TimedInv x) {now : UInt64}
    (hnow : x.entity.tCurrent ≤ now.toNat) {s : ℕ}
    (hs : sinceAfter cfg x (.setTime now) = some s) : Runs (setTime cfg x.entity now).1 s := by
  unfold sinceAfter at hs
  unfold setTime
  dsimp only at hs
  split at hs
  · rename_i hexp
    rw [checkTReordering_of_expired hexp]
    exact runs_start (fun _ h => by cases h) hs
  · rename_i hexp
    rw [checkTReordering_of_not_expired hexp]
    obtain ⟨h₁, h₂, h₃⟩ := hI.runs s hs
    exact ⟨h₁, h₂.trans hnow, h₃⟩

/-- The machine with the time of the start is the entity's. -/
theorem timedStep_ok {cfg : PdcpConfig} {x x' : Timed} {call : Call} {out : List Output}
    (h : timedStep cfg x call = .ok (x', out)) :
    pdcpStep cfg x.entity call = .ok (x'.entity, out) ∧ x'.since = sinceAfter cfg x call := by
  obtain ⟨⟨entity, out'⟩, hstep, h⟩ := bind_ok h
  cases h
  exact ⟨hstep, rfl⟩

theorem timedInv_step {cfg : PdcpConfig} {x x' : Timed} {call : Call} {out : List Output}
    (hI : TimedInv x) (htime : TimeMoves x call)
    (hs : timedStep cfg x call = .ok (x', out)) : TimedInv x' := by
  obtain ⟨hstep, hsince⟩ := timedStep_ok hs
  obtain ⟨entity, since⟩ := x'
  dsimp only at hstep hsince
  subst hsince
  cases call with
  | recvPdu buffer =>
      obtain rfl := congrArg Prod.fst (Except.ok.inj hstep)
      exact ⟨buffered_recvPdu hI.buffered buffer, fun s => runs_recvPdu hI buffer⟩
  | recvSdu buffer sduId =>
      obtain rfl := congrArg Prod.fst (Except.ok.inj hstep)
      refine ⟨hI.buffered.of_eq rfl rfl rfl rfl rfl, fun s hs => ?_⟩
      exact ⟨(hI.runs s hs).start, (hI.runs s hs).since, (hI.runs s hs).gap⟩
  | setTime now =>
      obtain rfl := congrArg Prod.fst (Except.ok.inj hstep)
      refine ⟨?_, fun s => runs_setTime hI htime.2⟩
      exact buffered_checkTReordering cfg (buffered_time hI.buffered now.toNat)

/-- Below `rx_reord` firing makes a difference. -/
theorem not_fires {e : PdcpEntity} (hb : Buffered e) (hgap : e.rxDeliv < e.rxReord) (now : ℕ) :
    ¬ Fires e ({ e with tCurrent := now }, []) := by
  rintro ⟨bound, ds, hf, hout⟩
  have hnil : ds = [] := List.map_eq_nil_iff.mp hout.symm
  subst hnil
  have hbound : bound = e.rxReord := by
    rcases hf.reached with h | ⟨s, hs, -⟩
    · exact h
    · exact absurd hs List.not_mem_nil
  have hdeliv : e.rxDeliv = e.rxReord := by
    rw [← Nat.mod_eq_of_lt hb.reord_lt, ← hbound]
    exact hf.deliv
  exact absurd hdeliv hgap.ne

/-- A call of the entity fires on time exactly if it comes in time. -/
theorem firesOnTime_iff {cfg : PdcpConfig} (ht : 0 ≤ cfg.tReordering ∧ cfg.tReordering < 2 ^ 31)
    {x : Timed} {call : Call} (hI : TimedInv x) (htime : TimeMoves x call) :
    FiresOnTime cfg x call ↔ ComesInTime cfg x call := by
  cases call with
  | recvPdu buffer => exact Iff.rfl
  | recvSdu buffer sduId => exact Iff.rfl
  | setTime now =>
      refine forall_congr' fun s => forall_congr' fun hs => ?_
      obtain ⟨hstart, hsince, hgap⟩ := hI.runs s hs
      have hdue := due_iff_inTime ht (hsince.trans htime.2) (UInt64.toNat_lt now)
      have hinf : cfg.tReordering ≠ -1 := by omega
      rw [← hdue, ← hstart, ← not_lt]
      unfold setTime
      by_cases hexp : Expired cfg { x.entity with tCurrent := now.toNat }
      · -- the timer fires, which must be right
        obtain ⟨bound, ds, hf, hout, -⟩ :=
          checkTReordering_flushed (buffered_time hI.buffered now.toNat) hexp
        have hfires : Fires x.entity (checkTReordering cfg _) := ⟨bound, ds, hf, hout⟩
        rw [iff_true_left hexp.2]
        refine ⟨fun h => ?_, fun h => ⟨fun _ => hfires, fun hno => absurd h hno⟩⟩
        by_contra hno
        rw [h.2 hno] at hfires
        exact not_fires hI.buffered hgap now.toNat hfires
      · -- nothing happens, which must be right
        rw [checkTReordering_of_not_expired hexp, iff_false_left fun h => hexp ⟨hinf, h⟩]
        refine ⟨fun h hlt => ?_, fun h => ⟨fun hlt => absurd hlt h, fun _ => rfl⟩⟩
        exact not_fires hI.buffered hgap now.toNat (h.1 hlt)

/-- In a run with times that do not decrease, t-Reordering fires on time exactly if every time
comes when the timer that was started is due as an `int`, too. -/
theorem fires_on_time (cfg : PdcpConfig)
    (ht : 0 ≤ cfg.tReordering ∧ cfg.tReordering < 2 ^ 31) (calls : List Call)
    (htime : Along (timedStep cfg) TimeMoves {} calls) :
    Along (timedStep cfg) (FiresOnTime cfg) {} calls ↔
      Along (timedStep cfg) (ComesInTime cfg) {} calls := by
  have hnew : TimedInv {} := ⟨buffered_new, fun s hs => by cases hs⟩
  refine along_iff_along_of_along (R := TimeMoves) ?_ ?_ hnew htime
  · intro x call hI hm
    exact firesOnTime_iff ht hI hm
  · intro x call x' out hI hm _ hs
    exact timedInv_step hI hm hs

/-- A timer that is started at 1000 ms. -/
theorem fires_on_time_early :
    Along (timedStep (exampleCfg true)) (FiresOnTime (exampleCfg true)) {}
      [.setTime 1000, .recvPdu [0x80, 1, 6, 0, 0, 0, 0], .setTime 1100, .setTime 1101] := by
  refine (fires_on_time (exampleCfg true) (by decide) _ ?_).mpr ?_
  · exact along_of_check (fun _ _ => of_decide_eq_true) (by decide +kernel)
  · exact along_of_check (fun _ _ => of_decide_eq_true) (by decide +kernel)

/-- The PDU with COUNT 1 arrives after 25 days. -/
def lateStart : List Call := [.setTime 2160000000, .recvPdu [0x80, 1, 6, 0, 0, 0, 0]]

/-- At 2160000000 ms the start is negative as an `int`, and so is the expiry. -/
theorem late_timer_stuck :
    Along (timedStep (exampleCfg true)) TimeMoves {} (lateStart ++ [.setTime 2160000101]) ∧
      ¬ Along (timedStep (exampleCfg true)) (FiresOnTime (exampleCfg true)) {}
        (lateStart ++ [.setTime 2160000101]) := by
  constructor
  · exact along_of_check (fun _ _ => of_decide_eq_true) (by decide +kernel)
  · rintro ⟨-, h⟩
    obtain ⟨-, h⟩ := h _ _ rfl
    obtain ⟨h, -⟩ := h _ _ rfl
    obtain ⟨bound, ds, hf, -⟩ := (h 2160000000 (by decide +kernel)).1 (by decide +kernel)
    -- the SDU stays in the list
    have hle : 2 ≤ bound := hf.start_le
    have hlt : bound < 1 := hf.above { count := 1, buffer := [7] } (by decide +kernel)
    exact absurd hlt (by omega)

end OaiCu.NrPdcp
