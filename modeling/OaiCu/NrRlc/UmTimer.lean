import Mathlib.Data.Int.Interval
import OaiCu.NrRlc.UmSize

/-!
# RLC UM: what `t_reassembly` waits for

`t_reassembly` has to run as long as something is missing before `rx_next_highest`. The condition
is written down in `reception_actions` and once more in `check_t_reassembly`, where the successor
of `rx_next_reassembly` is not reduced.
-/

namespace OaiCu.NrRlc.Um

open Machine

/-! ## The invariant -/

/-- There is something to wait for: SNs before `rx_next_highest` beyond `rx_next_reassembly`, or
bytes of `rx_next_reassembly` before its last received one. -/
def Gap (cfg : UmConfig) (rx : UmRx) : Prop :=
  snCompareRx cfg rx rx.rxNextHighest ((rx.rxNextReassembly + 1) % cfg.snModulus) > 0 ∨
    (rx.rxNextHighest = (rx.rxNextReassembly + 1) % cfg.snModulus ∧
      sduHasMissingBytes rx.rxList rx.rxNextReassembly = true)

/-- `t_reassembly` runs if there is something to wait for. -/
def TimerKept (cfg : UmConfig) (rx : UmRx) : Prop := rx.tReassemblyStart = 0 → ¬ Gap cfg rx

/-- The state variables are SNs. -/
structure SnRange (cfg : UmConfig) (rx : UmRx) : Prop where
  nextHighest : 0 ≤ rx.rxNextHighest ∧ rx.rxNextHighest < cfg.snModulus
  nextReassembly : 0 ≤ rx.rxNextReassembly ∧ rx.rxNextReassembly < cfg.snModulus
  timerTrigger : 0 ≤ rx.rxTimerTrigger ∧ rx.rxTimerTrigger < cfg.snModulus

/-- The timer is right after the call. -/
def TimerRight (e : UmEntity) (op : Op) : Prop :=
  ∀ e' out, step e op = .ok (e', out) → TimerKept e'.cfg e'.rx

/-- The clock is set: times are at least 1, and one was set before a PDU comes. -/
def ClockSet (e : UmEntity) : Op → Prop
  | .recvPdu _ => e.tCurrent ≠ 0
  | .setTime now => now ≠ 0
  | _ => True

instance (e : UmEntity) (op : Op) : Decidable (ClockSet e op) :=
  match op with
  | .recvPdu _ => inferInstanceAs (Decidable (e.tCurrent ≠ 0))
  | .setTime now => inferInstanceAs (Decidable (now ≠ 0))
  | .recvSdu _ _ | .generatePdu _ | .discardSdu _ | .reestablishment => .isTrue trivial

/-- The SN that is not delivered yet is the last one, with `rx_next_highest` right behind it, and
bytes of it are missing. -/
def WaitsForLastSn (cfg : UmConfig) (rx : UmRx) : Prop :=
  rx.rxNextHighest = 0 ∧
    (∀ sn, rx.rxTimerTrigger ≤ sn → sn < cfg.snModulus - 1 → sduDelivered rx.rxList sn = true) ∧
    sduHasMissingBytes rx.rxList (cfg.snModulus - 1) = true

/-- `t_reassembly` does not expire where it would have to be started again for the last SN. -/
def RestartsTimer (e : UmEntity) : Op → Prop
  | .setTime now => timerExpired now.toNat e.rx.tReassemblyStart e.cfg.tReassembly = true →
      ¬ WaitsForLastSn e.cfg e.rx
  | _ => True

section Timer

variable {cfg : UmConfig} {rx : UmRx} {tCurrent : ℕ}

theorem snModulus_gt_one (cfg : UmConfig) : 1 < cfg.snModulus := by
  unfold UmConfig.snModulus
  rcases cfg.snFieldLength_valid with h | h
  all_goals
    rw [h]
    norm_num

/-! ## `while (sdu_delivered(entity, sn))` -/

theorem skipDelivered_range {M : ℤ} (hM : 0 < M) {l : List Pdu} (fuel : ℕ) {sn : ℤ}
    (h : 0 ≤ sn ∧ sn < M) :
    0 ≤ skipDelivered M l fuel sn ∧ skipDelivered M l fuel sn < M := by
  induction fuel generalizing sn with
  | zero => exact h
  | succ fuel ih =>
      rw [skipDelivered]
      split
      · exact ih ⟨Int.emod_nonneg _ hM.ne', Int.emod_lt_of_pos _ hM⟩
      · exact h

/-- The loop stops at the last SN if that is not delivered and all SNs before it are, given a pass
for each of them. -/
theorem skipDelivered_eq_last {M : ℤ} {l : List Pdu} (hlast : sduDelivered l (M - 1) = false)
    (fuel : ℕ) {sn : ℤ} (h : 0 ≤ sn ∧ sn < M) :
    (skipDelivered M l fuel sn = M - 1 → ∀ s, sn ≤ s → s < M - 1 → sduDelivered l s = true) ∧
      ((∀ s, sn ≤ s → s < M - 1 → sduDelivered l s = true) → M - 1 - sn ≤ fuel →
        skipDelivered M l fuel sn = M - 1) := by
  induction fuel generalizing sn with
  | zero =>
      refine ⟨fun hs s hle hlt => ?_, fun _ hfuel => ?_⟩
      · rw [skipDelivered] at hs
        omega
      · rw [skipDelivered]
        omega
  | succ fuel ih =>
      rw [skipDelivered]
      by_cases hd : sduDelivered l sn = true
      · have hne : sn ≠ M - 1 := by
          rintro rfl
          exact absurd hd (by simp [hlast])
        have hsucc : (sn + 1) % M = sn + 1 := Int.emod_eq_of_lt (by omega) (by omega)
        obtain ⟨ih₁, ih₂⟩ := @ih (sn + 1) ⟨by omega, by omega⟩
        rw [if_pos hd, hsucc]
        refine ⟨fun hs s hle hlt => ?_, fun hall hfuel => ?_⟩
        · by_cases heq : s = sn
          · exact heq ▸ hd
          · exact ih₁ hs s (by omega) hlt
        · exact ih₂ (fun s hle hlt => hall s (by omega) hlt) (by push_cast at hfuel; omega)
      · rw [if_neg hd]
        refine ⟨fun hs s hle hlt => by omega, fun hall _ => ?_⟩
        by_contra hne
        exact hd (hall sn le_rfl (by omega))

/-- Delivered SNs are in the list, so that there are passes enough. -/
theorem delivered_le_length {M sn : ℤ} {l : List Pdu}
    (h : ∀ s, sn ≤ s → s < M - 1 → sduDelivered l s = true) : M - 1 - sn ≤ l.length := by
  have hsub : Finset.Ico sn (M - 1) ⊆ (l.map Pdu.sn).toFinset := by
    intro s hs
    obtain ⟨hle, hlt⟩ := Finset.mem_Ico.mp hs
    obtain ⟨p, hp, hps, -⟩ := exists_of_sduDelivered (h s hle hlt)
    exact List.mem_toFinset.mpr (hps ▸ List.mem_map_of_mem hp)
  have hcard := (Finset.card_le_card hsub).trans (List.toFinset_card_le _)
  rw [Int.card_Ico, List.length_map] at hcard
  omega

/-- An SN with missing bytes is not delivered. -/
theorem not_delivered_of_missing {l : List Pdu} {sn : ℤ} (h : sduHasMissingBytes l sn = true) :
    sduDelivered l sn = false := by
  unfold sduHasMissingBytes at h
  unfold sduDelivered
  split at h
  · cases h
  · split at h
    · cases h
    · rename_i hdata
      exact Bool.eq_false_of_not_eq_true hdata

/-- Discarding PDUs of other SNs. -/
theorem missing_dropWhile {l : List Pdu} {sn : ℤ} {out : Pdu → Bool}
    (h : ∀ p, out p = true → p.sn ≠ sn) :
    sduHasMissingBytes (l.dropWhile out) sn = sduHasMissingBytes l sn := by
  have hfrom : fromSn sn (l.dropWhile out) = fromSn sn l := by
    induction l with
    | nil => rfl
    | cons p l ih =>
        rw [List.dropWhile_cons]
        split
        · rename_i hp
          rw [ih, fromSn_cons_ne (h p hp)]
        · rfl
  unfold sduHasMissingBytes
  rw [hfrom]

/-! ## Starting the timer -/

theorem startTReassembly_kept (hclock : tCurrent ≠ 0) :
    TimerKept cfg
      (startTReassembly cfg tCurrent rx ((rx.rxNextReassembly + 1) % cfg.snModulus)) := by
  unfold startTReassembly
  split
  · exact fun h => absurd h hclock
  · rename_i hno
    exact fun hstart hgap => hno ⟨hstart, hgap⟩

/-- Without the reduction the timer is not started for the last SN. -/
theorem startTReassembly_kept_iff (hclock : tCurrent ≠ 0) (hr : SnRange cfg rx)
    (hstart : rx.tReassemblyStart = 0) :
    TimerKept cfg (startTReassembly cfg tCurrent rx (rx.rxNextReassembly + 1)) ↔
      ¬ (rx.rxNextHighest = 0 ∧ rx.rxNextReassembly = cfg.snModulus - 1 ∧
        sduHasMissingBytes rx.rxList (cfg.snModulus - 1) = true) := by
  have hM := snModulus_gt_one cfg
  have h₁ := hr.nextHighest
  have h₂ := hr.nextReassembly
  by_cases hlast : rx.rxNextReassembly = cfg.snModulus - 1
  · have hwrap : (rx.rxNextReassembly + 1) % cfg.snModulus = 0 := by
      rw [hlast, sub_add_cancel, Int.emod_self]
    have hfar : rx.rxNextHighest ≠ rx.rxNextReassembly + 1 := by omega
    by_cases hzero : rx.rxNextHighest = 0
    · have hself : snCompareRx cfg rx rx.rxNextHighest 0 = 0 := by
        rw [hzero, snCompareRx, sub_self]
      have hsame : startTReassembly cfg tCurrent rx (rx.rxNextReassembly + 1) = rx := by
        unfold startTReassembly
        rw [if_neg]
        rintro ⟨-, hcmp | ⟨heq, -⟩⟩
        · rw [hwrap, hself] at hcmp
          exact absurd hcmp (lt_irrefl 0)
        · exact hfar heq
      rw [hsame]
      unfold TimerKept Gap
      rw [hwrap, hself, hlast]
      simp [hzero, hstart]
    · have hsame : startTReassembly cfg tCurrent rx (rx.rxNextReassembly + 1) =
          startTReassembly cfg tCurrent rx ((rx.rxNextReassembly + 1) % cfg.snModulus) := by
        unfold startTReassembly
        simp only [hwrap, hfar, hzero, false_and, or_false]
      rw [hsame]
      exact iff_of_true (startTReassembly_kept hclock) fun h => hzero h.1
  · have hsucc : (rx.rxNextReassembly + 1) % cfg.snModulus = rx.rxNextReassembly + 1 :=
      Int.emod_eq_of_lt (by omega) (by omega)
    refine iff_of_true ?_ fun h => hlast h.2.1
    have := @startTReassembly_kept cfg rx tCurrent hclock
    rwa [hsucc] at this

/-! ## The calls -/

theorem snRange_start (hr : SnRange cfg rx) (next : ℤ) :
    SnRange cfg (startTReassembly cfg tCurrent rx next) := by
  unfold startTReassembly
  split
  · exact ⟨hr.nextHighest, hr.nextReassembly, hr.nextHighest⟩
  · exact hr

theorem snRange_moveWindow (hr : SnRange cfg rx) (x : ℤ) : SnRange cfg (moveWindow cfg rx x) := by
  have hM := snModulus_gt_one cfg
  have hmod : ∀ a : ℤ, 0 ≤ a % cfg.snModulus ∧ a % cfg.snModulus < cfg.snModulus := fun a =>
    ⟨Int.emod_nonneg a (by omega), Int.emod_lt_of_pos a (by omega)⟩
  unfold moveWindow
  split
  · dsimp only
    split
    · exact ⟨hmod _, skipDelivered_range (by omega) _ (hmod _), hr.timerTrigger⟩
    · exact ⟨hmod _, hr.nextReassembly, hr.timerTrigger⟩
  · exact hr

theorem snRange_deliverFull (hr : SnRange cfg rx) (x : ℤ) :
    SnRange cfg (deliverFull cfg rx x).1 := by
  have hM := snModulus_gt_one cfg
  unfold deliverFull reassembleAndDeliver
  dsimp only
  split
  · exact ⟨hr.nextHighest, skipDelivered_range (by omega) _ hr.nextReassembly, hr.timerTrigger⟩
  · exact ⟨hr.nextHighest, hr.nextReassembly, hr.timerTrigger⟩

/-- A PDU that is received leaves the timer right. -/
theorem receptionActions_kept (hclock : tCurrent ≠ 0) (hr : SnRange cfg rx) (x : ℤ) :
    SnRange cfg (receptionActions cfg tCurrent rx x).1 ∧
      TimerKept cfg (receptionActions cfg tCurrent rx x).1 := by
  unfold receptionActions
  have hmoved : SnRange cfg
      (if sduFull rx.rxList x then deliverFull cfg rx x else (moveWindow cfg rx x, [])).1 := by
    split
    · exact snRange_deliverFull hr x
    · exact snRange_moveWindow hr x
  generalize (if sduFull rx.rxList x then deliverFull cfg rx x else (moveWindow cfg rx x, [])) = res
    at hmoved
  obtain ⟨rx₁, events⟩ := res
  have hstop : SnRange cfg (stopTReassembly cfg rx₁) := by
    unfold stopTReassembly
    split
    · exact ⟨hmoved.nextHighest, hmoved.nextReassembly, hmoved.timerTrigger⟩
    · exact hmoved
  exact ⟨snRange_start hstop _, startTReassembly_kept hclock⟩

theorem recvPdu_kept (hclock : tCurrent ≠ 0) (hr : SnRange cfg rx) (hk : TimerKept cfg rx)
    (buffer : List UInt8) :
    SnRange cfg (recvPdu cfg tCurrent rx buffer).1 ∧
      TimerKept cfg (recvPdu cfg tCurrent rx buffer).1 := by
  unfold recvPdu
  split
  · exact ⟨hr, hk⟩
  · exact ⟨hr, hk⟩
  · split
    · refine receptionActions_kept hclock ?_ _
      exact ⟨hr.nextHighest, hr.nextReassembly, hr.timerTrigger⟩
    · exact ⟨hr, hk⟩

/-- The timer is right after a tick, unless it expires and would have to wait for the last SN. -/
theorem checkTReassembly_kept (hclock : tCurrent ≠ 0) (hr : SnRange cfg rx)
    (hk : TimerKept cfg rx) :
    SnRange cfg (checkTReassembly cfg tCurrent rx) ∧
      (TimerKept cfg (checkTReassembly cfg tCurrent rx) ↔
        (timerExpired tCurrent rx.tReassemblyStart cfg.tReassembly = true →
          ¬ WaitsForLastSn cfg rx)) := by
  have hM := snModulus_gt_one cfg
  unfold checkTReassembly
  by_cases hexp : timerExpired tCurrent rx.tReassemblyStart cfg.tReassembly = true
  · rw [if_pos hexp]
    dsimp only
    have hskip := skipDelivered_range (by omega : 0 < cfg.snModulus) (l := rx.rxList)
      rx.rxList.length hr.timerTrigger
    generalize hn : skipDelivered cfg.snModulus rx.rxList rx.rxList.length rx.rxTimerTrigger = n
      at hskip
    have hr₁ : SnRange cfg { rx with
        tReassemblyStart := 0
        rxNextReassembly := n
        rxList := rx.rxList.dropWhile fun p => decide (snCompareRx cfg
          { rx with tReassemblyStart := 0, rxNextReassembly := n } p.sn n < 0) } :=
      ⟨hr.nextHighest, hskip, hr.timerTrigger⟩
    have hkeeps : ∀ rx' : UmRx, ∀ p : Pdu, decide (snCompareRx cfg rx' p.sn n < 0) = true →
        p.sn ≠ n := by
      intro rx' p hp heq
      rw [heq, snCompareRx, sub_self] at hp
      exact absurd hp (by decide)
    refine ⟨snRange_start hr₁ _, (startTReassembly_kept_iff hclock hr₁ rfl).trans ?_⟩
    rw [forall_prop_of_true hexp, not_iff_not]
    refine and_congr_right fun hzero => ?_
    dsimp only
    constructor
    · rintro ⟨rfl, hmiss⟩
      rw [missing_dropWhile (hkeeps _)] at hmiss
      exact ⟨(skipDelivered_eq_last (not_delivered_of_missing hmiss) _ hr.timerTrigger).1 hn,
        hmiss⟩
    · rintro ⟨hall, hmiss⟩
      have hlast : n = cfg.snModulus - 1 := hn ▸
        (skipDelivered_eq_last (not_delivered_of_missing hmiss) _ hr.timerTrigger).2 hall
          (delivered_le_length hall)
      subst hlast
      rw [missing_dropWhile (hkeeps _)]
      exact ⟨rfl, hmiss⟩
  · rw [if_neg hexp]
    exact ⟨hr, iff_of_true hk fun h => absurd h hexp⟩

/-- Nothing is received yet. -/
theorem initial_kept (cfg : UmConfig) : SnRange cfg {} ∧ TimerKept cfg {} := by
  have hM := snModulus_gt_one cfg
  have hzero : (0 : ℤ) ≤ 0 ∧ 0 < cfg.snModulus := ⟨le_rfl, by omega⟩
  refine ⟨⟨hzero, hzero, hzero⟩, fun _ => ?_⟩
  have hone : (0 + 1 : ℤ) % cfg.snModulus = 1 := Int.emod_eq_of_lt zero_le_one hM
  have hcmp : snCompareRx cfg {} 0 1 ≤ 0 := by
    unfold snCompareRx modulusRx UmConfig.windowSize UmConfig.snModulus
    rcases cfg.snFieldLength_valid with h | h
    all_goals
      rw [h]
      decide
  unfold Gap
  dsimp only
  rw [hone]
  rintro (hgt | ⟨heq, -⟩)
  · exact absurd hgt (not_lt.mpr hcmp)
  · exact absurd heq zero_ne_one

end Timer

/-! ## Runs -/

/-- The state variables are SNs and the timer is right. -/
structure TimerInv (e : UmEntity) : Prop where
  range : SnRange e.cfg e.rx
  kept : TimerKept e.cfg e.rx

/-- One call: the timer is right after it exactly if it does not expire where it would have to
wait for the last SN. -/
theorem step_timer {e e' : UmEntity} {op : Op} {out : List Event} (hI : TimerInv e)
    (hclock : ClockSet e op) (h : step e op = .ok (e', out)) :
    SnRange e'.cfg e'.rx ∧ (TimerKept e'.cfg e'.rx ↔ RestartsTimer e op) := by
  cases op with
  | recvPdu buffer =>
      cases h
      obtain ⟨h1, h2⟩ := recvPdu_kept hclock hI.range hI.kept buffer
      exact ⟨h1, iff_of_true h2 trivial⟩
  | recvSdu buffer sduId =>
      obtain ⟨tx, -, h⟩ := bind_ok h
      cases h
      exact ⟨hI.range, iff_of_true hI.kept trivial⟩
  | generatePdu buffer =>
      obtain ⟨⟨tx, pdu⟩, -, h⟩ := bind_ok h
      cases h
      exact ⟨hI.range, iff_of_true hI.kept trivial⟩
  | setTime now =>
      cases h
      refine checkTReassembly_kept ?_ hI.range hI.kept
      intro hzero
      exact hclock (UInt64.toNat_inj.mp hzero)
  | discardSdu sduId =>
      cases h
      exact ⟨hI.range, iff_of_true hI.kept trivial⟩
  | reestablishment =>
      cases h
      exact ⟨(initial_kept e.cfg).1, iff_of_true (initial_kept e.cfg).2 trivial⟩

/-- In a run with the clock set, the timer is right after every call exactly if it never expires
where it would have to wait for the last SN. -/
theorem timer_right (cfg : UmConfig) (ops : List Op)
    (hclock : Along step ClockSet (newUmEntity cfg) ops) :
    Along step TimerRight (newUmEntity cfg) ops ↔
      Along step RestartsTimer (newUmEntity cfg) ops := by
  have hiff : ∀ e op, TimerInv e → ClockSet e op → (TimerRight e op ↔ RestartsTimer e op) := by
    intro e op hI hc
    cases hs : step e op with
    | ok r =>
        rw [← (step_timer hI hc hs).2]
        refine ⟨fun h => h r.1 r.2 hs, fun h e' out hs' => ?_⟩
        rw [hs] at hs'
        cases hs'
        exact h
    | error err =>
        refine iff_of_true (fun e' out hs' => ?_) ?_
        · rw [hs] at hs'
          cases hs'
        · cases op with
          | setTime now => cases hs
          | _ => trivial
  have hstep : ∀ e op e' out, TimerInv e → ClockSet e op → RestartsTimer e op →
      step e op = .ok (e', out) → TimerInv e' := by
    intro e op e' out hI hc hr hs
    obtain ⟨h1, h2⟩ := step_timer hI hc hs
    exact ⟨h1, h2.mpr hr⟩
  have hinit : TimerInv (newUmEntity cfg) := ⟨(initial_kept cfg).1, (initial_kept cfg).2⟩
  exact along_iff_along_of_along hiff hstep hinit hclock

/-- The timer expires while it waits for the SDU with SN 31. -/
theorem timer_right_started :
    Along step TimerRight (newUmEntity (exampleUm 6 (.inl rfl)))
      [.setTime 1, .recvPdu [0x5f, 1], .setTime 100, .recvPdu [0x7e, 1]] := by
  refine (timer_right _ _ ?_).mpr ?_
  · exact along_of_check (fun _ _ => of_decide_eq_true) (by decide)
  · refine ⟨fun h => absurd h (by decide), fun _ _ h => ?_⟩
    cases h
    refine ⟨trivial, fun _ _ h => ?_⟩
    cases h
    refine ⟨fun _ h => absurd h.1 (by decide), fun _ _ h => ?_⟩
    cases h
    exact ⟨trivial, fun _ _ _ => trivial⟩

/-- When the timer expires the second time, the SDU with SN 63 is the one to wait for. -/
theorem timer_stopped_at_last_sn :
    Along step ClockSet (newUmEntity (exampleUm 6 (.inl rfl)))
        [.setTime 1, .recvPdu [0x5f, 1], .setTime 100, .recvPdu [0x7e, 1],
          .recvPdu [0xbf, 0, 5, 1], .setTime 200] ∧
      ¬ Along step TimerRight (newUmEntity (exampleUm 6 (.inl rfl)))
        [.setTime 1, .recvPdu [0x5f, 1], .setTime 100, .recvPdu [0x7e, 1],
          .recvPdu [0xbf, 0, 5, 1], .setTime 200] := by
  constructor
  · exact along_of_check (fun _ _ => of_decide_eq_true) (by decide)
  · rintro ⟨-, h⟩
    obtain ⟨-, h⟩ := h _ _ rfl
    obtain ⟨-, h⟩ := h _ _ rfl
    obtain ⟨-, h⟩ := h _ _ rfl
    obtain ⟨-, h⟩ := h _ _ rfl
    obtain ⟨h, -⟩ := h _ _ rfl
    exact h _ _ rfl rfl (.inr ⟨by decide, by decide⟩)

end OaiCu.NrRlc.Um
