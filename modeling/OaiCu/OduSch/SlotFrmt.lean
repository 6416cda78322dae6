import Mathlib.Data.BitVec

/-!
# O-DU scheduler: slots and the TDD slot formats (`sch.c`, `sch_utils.c`)
-/

namespace OaiCu.OduSch

/-- Whether the source is built with `NR_TDD`. -/
inductive Duplex
  | fdd
  | tdd
deriving DecidableEq, Repr

namespace Duplex

/-- `MAX_NUM_RB`. -/
def maxNumRb : Duplex → ℕ
  | .fdd => 106
  | .tdd => 273

/-- `MAX_SLOTS`. -/
def maxSlots : Duplex → ℕ
  | .fdd => 10
  | .tdd => 20

end Duplex

def MAX_SFN : ℕ := 1024

def MAX_SYMB_PER_SLOT : ℕ := 14

def PHY_DELTA_DL : ℕ := 1
def SCHED_DELTA : ℕ := 1

structure SlotTimingInfo where
  sfn : ℕ
  slot : ℕ
deriving DecidableEq, Repr

/-- `ADD_DELTA_TO_TIME`. -/
def addDeltaToTime (duplex : Duplex) (crntTime : SlotTimingInfo) (incr : ℕ) : SlotTimingInfo where
  sfn :=
    let sfn := if duplex.maxSlots - 1 < crntTime.slot + incr then crntTime.sfn + 1 else crntTime.sfn
    if MAX_SFN ≤ sfn then sfn % MAX_SFN else sfn
  slot := (crntTime.slot + incr) % duplex.maxSlots

/-! ## The slot formats -/

/-- `SlotConfig`. -/
inductive SlotConfig
  | dlSlot
  | ulSlot
  | flexiSlot
deriving DecidableEq, Repr

/-- The value of the enumerator. -/
def SlotConfig.toBits : SlotConfig → BitVec 32
  | .dlSlot => 0
  | .ulSlot => 1
  | .flexiSlot => 2

/-- `DlUlTxPeriodicity`. -/
inductive DlUlTxPeriodicity
  | ms0p5
  | ms0p625
  | ms1
  | ms1p25
  | ms2
  | ms2p5
  | ms5
  | ms10
deriving DecidableEq, Repr

/-- `schGetPeriodicityInMsec`. The values are microseconds. -/
def schGetPeriodicityInMsec : DlUlTxPeriodicity → ℕ
  | .ms0p5 => 500
  | .ms0p625 => 625
  | .ms1 => 1000
  | .ms1p25 => 1250
  | .ms2 => 2000
  | .ms2p5 => 2500
  | .ms5 => 5000
  | .ms10 => 10000

/-- `calculateSlotPatternLength`. The duration of a slot is 0.5 to the power of `scs`, and the
quotient is cut off to an 8-bit number. -/
def calculateSlotPatternLength (scs : ℕ) (periodicity : DlUlTxPeriodicity) : ℕ :=
  schGetPeriodicityInMsec periodicity * 2 ^ scs / 1000 % 2 ^ 8

/-- `TDDCfg`. -/
structure TDDCfg where
  tddPeriod : DlUlTxPeriodicity
  slotCfg : ℕ → ℕ → SlotConfig

/-- What `schInitTddSlotCfg` takes a slot for: it looks at the first and at the last symbol. -/
def TDDCfg.slotFrmt (tddCfg : TDDCfg) (slotIdx : ℕ) : SlotConfig :=
  if tddCfg.slotCfg slotIdx 0 = tddCfg.slotCfg slotIdx (MAX_SYMB_PER_SLOT - 1) then
    tddCfg.slotCfg slotIdx 0
  else .flexiSlot

/-- The loop of `schInitTddSlotCfg`, from the last slot to the first one. -/
def slotFrmtLoop (tddCfg : TDDCfg) : ℕ → BitVec 32 → BitVec 32
  | 0, slotFrmtBitMap => slotFrmtBitMap
  | slotIdx + 1, slotFrmtBitMap =>
    slotFrmtLoop tddCfg slotIdx ((slotFrmtBitMap <<< 2) ||| (tddCfg.slotFrmt slotIdx).toBits)

/-- `schInitTddSlotCfg`: `numSlotsInPeriodicity` and `slotFrmtBitMap`. The slot index of the loop
is a signed number of 8 bits. -/
def schInitTddSlotCfg (numerology : ℕ) (tddCfg : TDDCfg) : ℕ × BitVec 32 :=
  let numSlotsInPeriodicity := schGetPeriodicityInMsec tddCfg.tddPeriod * 2 ^ numerology / 1000 % 2 ^ 8
  (numSlotsInPeriodicity,
    if numSlotsInPeriodicity ≤ 2 ^ 7 then slotFrmtLoop tddCfg numSlotsInPeriodicity 0 else 0)

/-- `schGetSlotSymbFrmt`. A shift by 32 or more is not defined. -/
def schGetSlotSymbFrmt (slot : ℕ) (bitMap : BitVec 32) : Option (BitVec 32) :=
  let offset := slot * 2
  if offset < 32 then some ((bitMap &&& ((3 : BitVec 32) <<< offset)) >>> offset) else none

end OaiCu.OduSch
