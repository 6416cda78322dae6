import OaiCu.Lib.CyclicTime
import OaiCu.OduSch.RaReq

/-!
# O-DU scheduler: the two ways to go on in time (`mac_sch_interface.h`, `sch_common.c`)

`ADD_DELTA_TO_TIME` carries one frame, and `schIncrSlot` any number of them; each of them starts
the SFN again by a comparison of its own.
-/

namespace OaiCu.OduSch

open CyclicTime

/-- `schIncrSlot`, with an increment of 8 bits. -/
def schIncrSlot (timingInfo : SlotTimingInfo) (incr numSlotsPerRF : ℕ) : SlotTimingInfo :=
  let slot := timingInfo.slot + incr
  if numSlotsPerRF ≤ slot then
    let sfn := timingInfo.sfn + slot / numSlotsPerRF
    { sfn := if MAX_SFN < sfn then sfn % MAX_SFN else sfn
      slot := slot % numSlotsPerRF }
  else { timingInfo with slot := slot }

namespace SlotTimingInfo

/-- The slots since the SFN was 0. -/
def count (time : SlotTimingInfo) (numSlots : ℕ) : ℕ := CyclicTime.count numSlots time.sfn time.slot

/-- `time'` is the time `incr` slots after `time`. -/
structure IsAfter (time : SlotTimingInfo) (numSlots incr : ℕ) (time' : SlotTimingInfo) : Prop where
  sfn_lt : time'.sfn < MAX_SFN
  slot_lt : time'.slot < numSlots
  count_eq : time'.count numSlots = (time.count numSlots + incr) % (MAX_SFN * numSlots)

variable {time time' time'' : SlotTimingInfo} {numSlots incr : ℕ}

/-- There is one such time. -/
theorem IsAfter.unique (h : time.IsAfter numSlots incr time')
    (h' : time.IsAfter numSlots incr time'') : time' = time'' := by
  obtain ⟨h1, h2⟩ := count_inj h.slot_lt h'.slot_lt (h.count_eq.trans h'.count_eq.symm)
  cases time'
  cases time''
  simp only [mk.injEq]
  exact ⟨h1, h2⟩

/-- It is the one with the carried frames. -/
theorem isAfter_iff (hn : 0 < numSlots) : time.IsAfter numSlots incr time' ↔
    time'.sfn = (time.sfn + (time.slot + incr) / numSlots) % MAX_SFN ∧
      time'.slot = (time.slot + incr) % numSlots := by
  have hcarry := count_carry MAX_SFN numSlots time.sfn time.slot incr hn
  have hslot := Nat.mod_lt (time.slot + incr) hn
  constructor
  · intro h
    exact count_inj h.slot_lt hslot (h.count_eq.trans hcarry.symm)
  · rintro ⟨h1, h2⟩
    refine ⟨h1 ▸ Nat.mod_lt _ (by decide), h2 ▸ hslot, ?_⟩
    rw [count, h1, h2]
    exact hcarry

end SlotTimingInfo

theorem Duplex.maxSlots_bounds (duplex : Duplex) : 10 ≤ duplex.maxSlots ∧ duplex.maxSlots ≤ 20 := by
  cases duplex <;> decide

section

variable {time : SlotTimingInfo} {incr : ℕ}

/-- **The macro is right up to the end of the next frame.** -/
theorem addDeltaToTime_isAfter_iff (duplex : Duplex) (hsfn : time.sfn < MAX_SFN)
    (hslot : time.slot < duplex.maxSlots) (hincr : incr < 2 ^ 8) :
    time.IsAfter duplex.maxSlots incr (addDeltaToTime duplex time incr) ↔
      time.slot + incr < 2 * duplex.maxSlots := by
  obtain ⟨hn, hn'⟩ := duplex.maxSlots_bounds
  rw [SlotTimingInfo.isAfter_iff (by omega), addDeltaToTime, and_iff_left rfl]
  generalize duplex.maxSlots = n at *
  have hq : (time.slot + incr) / n < 2 ↔ time.slot + incr < 2 * n := Nat.div_lt_iff_lt_mul (by omega)
  have hq1 : (time.slot + incr) / n = 0 ↔ time.slot + incr < n := Nat.div_eq_zero_iff_lt (by omega)
  have hq2 : (time.slot + incr) / n < 100 := (Nat.div_lt_iff_lt_mul (by omega)).2 (by omega)
  rw [← hq]
  generalize (time.slot + incr) / n = q at *
  simp only [MAX_SFN] at hsfn ⊢
  split_ifs <;> omega

/-- **The function is right except for a sum that is the number of the SFNs.** -/
theorem schIncrSlot_isAfter_iff {numSlots : ℕ} (hsfn : time.sfn < MAX_SFN)
    (hslot : time.slot < numSlots) :
    time.IsAfter numSlots incr (schIncrSlot time incr numSlots) ↔
      time.sfn + (time.slot + incr) / numSlots ≠ MAX_SFN := by
  rw [SlotTimingInfo.isAfter_iff (by omega), schIncrSlot]
  by_cases hle : numSlots ≤ time.slot + incr
  · rw [if_pos hle, and_iff_left rfl]
    generalize (time.slot + incr) / numSlots = q
    rcases Nat.lt_trichotomy (time.sfn + q) MAX_SFN with hlt | heq | hgt
    · exact iff_of_true ((if_neg hlt.le.not_gt).trans (Nat.mod_eq_of_lt hlt).symm) hlt.ne
    · refine iff_of_false (fun h => ?_) (not_not.2 heq)
      rw [heq, Nat.mod_self] at h
      simp only [lt_irrefl, if_false] at h
      exact absurd h (by decide)
    · exact iff_of_true (if_pos hgt) hgt.ne'
  · rw [if_neg hle, Nat.div_eq_of_lt (by omega), Nat.add_zero, Nat.mod_eq_of_lt hsfn]
    have hlt : time.slot + incr < numSlots := by omega
    exact iff_of_true ⟨rfl, (Nat.mod_eq_of_lt hlt).symm⟩ hsfn.ne

/-- Both ways give the one time that is `incr` slots later. -/
def AddersRight (duplex : Duplex) (time : SlotTimingInfo) (incr : ℕ) : Prop :=
  ∃ time', (∀ t, time.IsAfter duplex.maxSlots incr t ↔ t = time') ∧
    addDeltaToTime duplex time incr = time' ∧ schIncrSlot time incr duplex.maxSlots = time'

/-- **Both are right exactly if the sum stays in the next frame, and the SFN is not started
again.** -/
theorem adders_right_iff (duplex : Duplex) (hsfn : time.sfn < MAX_SFN)
    (hslot : time.slot < duplex.maxSlots) (hincr : incr < 2 ^ 8) :
    AddersRight duplex time incr ↔ time.slot + incr < 2 * duplex.maxSlots ∧
      (time.sfn + 1 = MAX_SFN → time.slot + incr < duplex.maxSlots) := by
  have hn : 0 < duplex.maxSlots := Nat.zero_lt_of_lt hslot
  have hboth : AddersRight duplex time incr ↔
      time.IsAfter duplex.maxSlots incr (addDeltaToTime duplex time incr) ∧
        time.IsAfter duplex.maxSlots incr (schIncrSlot time incr duplex.maxSlots) := by
    constructor
    · rintro ⟨time', hall, h1, h2⟩
      exact ⟨(hall _).2 h1, (hall _).2 h2⟩
    · rintro ⟨h1, h2⟩
      exact ⟨_, fun t => ⟨fun h => h.unique h1, fun h => h ▸ h1⟩, rfl, h2.unique h1⟩
  rw [hboth, addDeltaToTime_isAfter_iff duplex hsfn hslot hincr, schIncrSlot_isAfter_iff hsfn hslot]
  refine and_congr_right fun hlt => ?_
  have hq : (time.slot + incr) / duplex.maxSlots < 2 := (Nat.div_lt_iff_lt_mul hn).2 hlt
  have hq0 : (time.slot + incr) / duplex.maxSlots = 0 ↔ time.slot + incr < duplex.maxSlots :=
    Nat.div_eq_zero_iff_lt hn
  rw [← hq0]
  generalize (time.slot + incr) / duplex.maxSlots = q at *
  omega

/-- Eight slots are added shortly before the end of a frame. -/
theorem adders_right_next_frame : AddersRight .tdd ⟨5, 17⟩ 8 :=
  (adders_right_iff .tdd (by decide) (by decide) (by decide)).mpr (by decide)

/-- Twenty slots after the start of SFN 1022, in frames of ten: the macro is a frame behind, and
the function leaves the SFN at 1024. -/
theorem adders_wrong : addDeltaToTime .fdd ⟨1022, 0⟩ 20 = ⟨1023, 0⟩ ∧
    schIncrSlot ⟨1022, 0⟩ 20 Duplex.fdd.maxSlots = ⟨MAX_SFN, 0⟩ ∧
    ¬ AddersRight .fdd ⟨1022, 0⟩ 20 := by
  refine ⟨by decide, by decide, fun ⟨time', _, h1, h2⟩ => ?_⟩
  exact absurd (h1.trans h2.symm) (by decide)

end

/-!
## O-DU scheduler: the window of the random access response (`sch_rach.c`)

An indication opens a window whose end is computed when it comes. Whether a slot is in the window is
seen from the numbers of the slots in the cycle of the SFN, without regard to its start.
-/

/-- `SchNumerology`. -/
inductive SchNumerology
  | mu0
  | mu1
  | mu2
  | mu3
  | mu4
deriving DecidableEq, Repr

namespace SchNumerology

def toNat : SchNumerology → ℕ
  | .mu0 => 0
  | .mu1 => 1
  | .mu2 => 2
  | .mu3 => 3
  | .mu4 => 4

/-- The slots of a frame that `schInitCellCb` stores. -/
def numSlots : SchNumerology → ℕ
  | .mu0 => 10
  | .mu1 => 20
  | .mu2 => 30
  | .mu3 => 40
  | .mu4 => 50

theorem numSlots_pos (numerology : SchNumerology) : 10 ≤ numerology.numSlots := by
  cases numerology <;> decide

end SchNumerology

/-- The other fields of `RachIndInfo`. -/
structure RachInd extends RachIndInfo where
  timingInfo : SlotTimingInfo
  slotIdx : ℕ
  symbolIdx : ℕ
  freqIdx : ℕ
deriving DecidableEq, Repr

/-- What `schProcessRachInd` reads of a cell. -/
structure RachCell where
  duplex : Duplex
  numerology : SchNumerology
  raRspWindow : ℕ
  ueCrnti : ℕ → ℕ
  ueState : ℕ → SchUeState

def calculateRaRnti (symbolIdx slotIdx freqIdx : ℕ) : ℕ :=
  (1 + symbolIdx + 14 * slotIdx + 14 * 80 * freqIdx) % 2 ^ 16

namespace RachCell

/-- The window in slots, from its milliseconds. The division by the duration of a slot is exact. -/
def windowSlots (cell : RachCell) : ℕ := cell.raRspWindow * 2 ^ cell.numerology.toNat

/-- `winNumSlots`. What a number becomes that has more than 8 bits is not defined. -/
def winNumSlots (cell : RachCell) : Option ℕ :=
  if cell.windowSlots < 2 ^ 8 then some cell.windowSlots else none

/-- The request, with the end of its window. -/
def newRaReq (cell : RachCell) (rachInd : RachInd) (winNumSlots : ℕ) : SchRaReq where
  raRnti := calculateRaRnti rachInd.symbolIdx rachInd.slotIdx rachInd.freqIdx
  rachInd := rachInd.toRachIndInfo
  isCFRA := cell.ueCrnti (getUeId rachInd.crnti) = rachInd.crnti &&
    cell.ueState (getUeId rachInd.crnti) = .handinInProgress
  winStartTime := rachInd.timingInfo
  winEndTime := addDeltaToTime cell.duplex rachInd.timingInfo winNumSlots

/-- `schProcessRachInd`: the UE and its request, unless it fails; `memory` says whether the request
can be allocated. -/
def schProcessRachInd (cell : RachCell) (memory : Bool) (rachInd : RachInd) :
    Option (Option (ℕ × SchRaReq)) :=
  if getUeId rachInd.crnti = 0 ∨ memory = false then some none
  else cell.winNumSlots.map fun winNumSlots =>
    some (getUeId rachInd.crnti, cell.newRaReq rachInd winNumSlots)

/-- The slots from the indication to a time. -/
def slotsSince (cell : RachCell) (rachInd : RachInd) (time : SlotTimingInfo) : ℕ :=
  elapsed MAX_SFN cell.numerology.numSlots (rachInd.timingInfo.count cell.numerology.numSlots)
    (time.count cell.numerology.numSlots)

/-- The window is open for its slots, and closed after them. -/
def WindowRight (cell : RachCell) (rachInd : RachInd) (time : SlotTimingInfo) : Prop :=
  ∃ ueId raReq, cell.schProcessRachInd true rachInd = some (some (ueId, raReq)) ∧
    raReq.isInRaRspWindow time cell.numerology.numSlots =
      if cell.slotsSince rachInd time ≤ cell.windowSlots then .withinWindow else .windowExpired

/-- The window has a length of 8 bits, the SFN is not started again up to the time, and the end of
the window is in the frame of the indication; or the next frame exists in the cycle and one frame is
enough for the time, or the window is over anyway. -/
def WindowHolds (cell : RachCell) (rachInd : RachInd) (time : SlotTimingInfo) : Prop :=
  let numSlots := cell.numerology.numSlots
  let slot := rachInd.timingInfo.slot
  let since := cell.slotsSince rachInd time
  cell.windowSlots < 2 ^ 8 ∧ rachInd.timingInfo.count numSlots ≤ time.count numSlots ∧
    (slot + cell.windowSlots < cell.duplex.maxSlots ∨
      if rachInd.timingInfo.sfn + 1 = MAX_SFN then cell.windowSlots < since
      else since ≤ cell.windowSlots ↔
        slot + since ≤ numSlots + (slot + cell.windowSlots) % cell.duplex.maxSlots)

variable {cell : RachCell} {rachInd : RachInd} {time : SlotTimingInfo}

theorem isInRaRspWindow_eq (raReq : SchRaReq) (time : SlotTimingInfo) (numSlots : ℕ) :
    raReq.isInRaRspWindow time numSlots =
      if raReq.winStartTime.count numSlots ≤ time.count numSlots ∧
          time.count numSlots ≤ raReq.winEndTime.count numSlots then .withinWindow
      else if time.count numSlots < raReq.winStartTime.count numSlots then .windowYetToStart
      else .windowExpired := rfl

/-- The end of the window, counted as it is looked at. -/
theorem windowEnd_count (duplex : Duplex) (start : SlotTimingInfo) (numSlots w : ℕ)
    (hsfn : start.sfn < MAX_SFN) :
    (addDeltaToTime duplex start w).count numSlots =
      if start.slot + w < duplex.maxSlots then start.count numSlots + w
      else if start.sfn + 1 = MAX_SFN then (start.slot + w) % duplex.maxSlots
      else start.sfn * numSlots + numSlots + (start.slot + w) % duplex.maxSlots := by
  obtain ⟨hm, -⟩ := duplex.maxSlots_bounds
  rw [SlotTimingInfo.count, SlotTimingInfo.count, CyclicTime.count, CyclicTime.count, addDeltaToTime]
  by_cases hlt : start.slot + w < duplex.maxSlots
  · simp only [if_pos hlt, Nat.mod_eq_of_lt hlt,
      if_neg (show ¬ duplex.maxSlots - 1 < start.slot + w by omega),
      if_neg (show ¬ MAX_SFN ≤ start.sfn by omega), Nat.add_assoc]
  · simp only [if_neg hlt, if_pos (show duplex.maxSlots - 1 < start.slot + w by omega)]
    by_cases hlast : start.sfn + 1 = MAX_SFN
    · simp only [hlast, le_refl, if_true, Nat.mod_self, Nat.zero_mul, Nat.zero_add]
    · simp only [if_neg hlast, if_neg (show ¬ MAX_SFN ≤ start.sfn + 1 by omega), Nat.add_mul,
        Nat.one_mul]

/-- What is left of the comparisons in the window, on numbers: `p` is the frame of the indication,
`e` the end of the window in its own frame. -/
theorem windowStatus_iff {p n slot w d e winEnd : ℕ} {last inFrame : Prop} [Decidable last]
    [Decidable inFrame] (hlast : last → e < p)
    (hend : winEnd = if inFrame then p + slot + w else if last then e else p + n + e) :
    (if p + slot ≤ p + slot + d ∧ p + slot + d ≤ winEnd then RaRspWindowStatus.withinWindow
      else if p + slot + d < p + slot then .windowYetToStart else .windowExpired) =
        (if d ≤ w then .withinWindow else .windowExpired) ↔
      (inFrame ∨ if last then w < d else (d ≤ w ↔ slot + d ≤ n + e)) := by
  subst hend
  by_cases hin : inFrame
  · simp only [hin, if_true, true_or, iff_true]
    split_ifs <;> first | rfl | omega
  · by_cases hl : last
    · have := hlast hl
      simp only [hin, hl, if_false, if_true, false_or]
      split_ifs <;> simp <;> omega
    · simp only [hin, hl, if_false, false_or]
      split_ifs <;> simp <;> omega

/-- The request is the one that is built, if the window has a length of 8 bits. -/
theorem windowRight_iff (hue : getUeId rachInd.crnti ≠ 0) : cell.WindowRight rachInd time ↔
    cell.windowSlots < 2 ^ 8 ∧
      (cell.newRaReq rachInd cell.windowSlots).isInRaRspWindow time cell.numerology.numSlots =
        if cell.slotsSince rachInd time ≤ cell.windowSlots then .withinWindow
        else .windowExpired := by
  have hif : ¬ (getUeId rachInd.crnti = 0 ∨ true = false) := by simp [hue]
  rw [WindowRight, schProcessRachInd, if_neg hif, winNumSlots]
  by_cases hw : cell.windowSlots < 2 ^ 8
  · rw [if_pos hw, and_iff_right hw]
    constructor
    · rintro ⟨ueId, raReq, he, h⟩
      cases he
      exact h
    · exact fun h => ⟨_, _, rfl, h⟩
  · rw [if_neg hw]
    exact iff_of_false (fun ⟨_, _, he, _⟩ => by cases he) fun h => hw h.1

/-- **The window is right exactly in these cases.** -/
theorem raWindow_right_iff (hue : getUeId rachInd.crnti ≠ 0)
    (hsfn : rachInd.timingInfo.sfn < MAX_SFN)
    (hslot : rachInd.timingInfo.slot < cell.numerology.numSlots) (hsfn' : time.sfn < MAX_SFN)
    (hslot' : time.slot < cell.numerology.numSlots) :
    cell.WindowRight rachInd time ↔ cell.WindowHolds rachInd time := by
  rw [windowRight_iff hue, WindowHolds]
  refine and_congr_right fun hw => ?_
  have hn := cell.numerology.numSlots_pos
  obtain ⟨hm, hm'⟩ := cell.duplex.maxSlots_bounds
  have hc := count_lt hsfn' hslot'
  have hend := windowEnd_count cell.duplex rachInd.timingInfo cell.numerology.numSlots
    cell.windowSlots hsfn
  rcases Nat.lt_or_ge (time.count cell.numerology.numSlots)
    (rachInd.timingInfo.count cell.numerology.numSlots) with hlt | hle
  · -- the SFN has started again
    refine iff_of_false (fun h => ?_) fun h => absurd h.1 (Nat.not_le.2 hlt)
    have hyet : (cell.newRaReq rachInd cell.windowSlots).isInRaRspWindow time
        cell.numerology.numSlots = .windowYetToStart := by
      rw [isInRaRspWindow_eq]
      exact (if_neg fun h => absurd h.1 (Nat.not_le.2 hlt)).trans (if_pos hlt)
    rw [hyet] at h
    split_ifs at h
  · have hd : time.count cell.numerology.numSlots =
        rachInd.timingInfo.count cell.numerology.numSlots + cell.slotsSince rachInd time := by
      rw [slotsSince, elapsed_of_le hle hc]
      omega
    have hlast : rachInd.timingInfo.sfn + 1 = MAX_SFN →
        (rachInd.timingInfo.slot + cell.windowSlots) % cell.duplex.maxSlots <
          rachInd.timingInfo.sfn * cell.numerology.numSlots := fun he => by
      have hsfn : rachInd.timingInfo.sfn = 1023 := Nat.succ.inj he
      have hmod := Nat.mod_lt (rachInd.timingInfo.slot + cell.windowSlots)
        (by omega : 0 < cell.duplex.maxSlots)
      rw [hsfn]
      omega
    have key := @windowStatus_iff _ cell.numerology.numSlots rachInd.timingInfo.slot
      cell.windowSlots (cell.slotsSince rachInd time) _ _ _ _ _ _ hlast hend
    rw [and_iff_right hle, ← key, isInRaRspWindow_eq, hd]
    exact Iff.rfl

/-- A cell with frames of 20 slots and a window of 10 ms, as it is configured. -/
def tddRachCell : RachCell where
  duplex := .tdd
  numerology := .mu1
  raRspWindow := 10
  ueCrnti _ := 0
  ueState _ := .inactive

/-- An indication of UE 1. -/
def rachIndAt (timingInfo : SlotTimingInfo) : RachInd where
  crnti := ODU_START_CRNTI
  preambleIdx := 0
  timingAdv := 0
  timingInfo := timingInfo
  slotIdx := 0
  symbolIdx := 0
  freqIdx := 0

/-- The window goes on in the next frame: it is still open in its last slot, and closed behind it. -/
theorem raWindow_right_next_frame : tddRachCell.WindowRight (rachIndAt ⟨7, 15⟩) ⟨8, 15⟩ ∧
    tddRachCell.WindowRight (rachIndAt ⟨7, 15⟩) ⟨8, 16⟩ := by
  have hue : getUeId (rachIndAt ⟨7, 15⟩).crnti ≠ 0 := by decide +kernel
  constructor
  · refine (raWindow_right_iff hue (by decide) (by decide) (by decide) (by decide)).mpr ?_
    unfold WindowHolds
    decide
  · refine (raWindow_right_iff hue (by decide) (by decide) (by decide) (by decide)).mpr ?_
    unfold WindowHolds
    decide

/-- **A window that is opened in the last slot of SFN 1023 is closed at once**: its end is in SFN 0. -/
theorem raWindow_wrong : ¬ tddRachCell.WindowRight (rachIndAt ⟨1023, 19⟩) ⟨1023, 19⟩ := by
  rw [windowRight_iff (by decide +kernel)]
  decide

end RachCell

end OaiCu.OduSch
