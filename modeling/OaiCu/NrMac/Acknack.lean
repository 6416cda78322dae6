import Mathlib.Data.Nat.ModEq
import OaiCu.Lib.While
import OaiCu.NrMac.CsiReporting

/-!
# Scheduling of acknowledgements

`nr_acknack_scheduling` looks for an uplink slot in which a UE can acknowledge a PDSCH. It goes from
one uplink slot to the next as long as the distance to the PDSCH, counted within a frame, is not more
than the longest feedback time, and calls itself again if the slot found has a CSI report that the
acknowledgement cannot go with. What `nr_fill_nfapi_pucch` does is not part of the model: it only
reads the PUCCH.
-/

namespace OaiCu.NrMac

/-- get_nb_periods_per_frame, for dl_UL_TransmissionPeriodicity. -/
def getNbPeriodsPerFrame : Fin 8 → ℕ := [20, 16, 10, 8, 5, 4, 2, 1].get

/-- pattern1 of the TDD configuration: the period is a number of slots, and not all of them are
downlink slots. -/
structure TddPattern (nSlotsFrame : ℕ) where
  dlUlTransmissionPeriodicity : Fin 8
  nrofDownlinkSlots : ℕ
  dvd : getNbPeriodsPerFrame dlUlTransmissionPeriodicity ∣ nSlotsFrame
  lt : nrofDownlinkSlots < nSlotsFrame / getNbPeriodsPerFrame dlUlTransmissionPeriodicity

/-- What test_acknack_vrb_occupation stores of a PUCCH resource: of the configured one, or what
set_r_pucch_parms gives. -/
structure PucchParms where
  prbStart : ℕ
  secondHopPrb : ℕ
  nrOfSymb : ℕ
  startSymb : ℕ
  nrOfSymb_pos : 0 < nrOfSymb
  symb_le : startSymb + nrOfSymb ≤ 14

/-- A call of nr_acknack_scheduling, with the configuration that it reads. Without a list of
feedback times DCI format 1_0 is used. -/
structure AckCall where
  mu : Fin 5
  tdd : Option (TddPattern (nrSlotsPerFrame mu))
  minfbtime : ℕ
  dlDataToUlAck : Option (Fin 8 → Fin 16)
  bwpStart : ℕ
  parms : PucchParms
  frame : ℕ
  slot : Fin (nrSlotsPerFrame mu)
  rPucch : ℤ

/-- sched_pucch[0], sched_pucch[1] and vrb_map_UL. -/
structure AckState where
  pucch : SchedPucch
  csiPucch : SchedPucch
  vrbMapUl : ℕ → BitVec 16

namespace AckCall

variable (x : AckCall)

/-- n_slots_frame. -/
def n : ℕ := nrSlotsPerFrame x.mu

/-- nr_slots_period. -/
def nrSlotsPeriod : ℕ :=
  match x.tdd with
  | none => x.n
  | some p => x.n / getNbPeriodsPerFrame p.dlUlTransmissionPeriodicity

/-- first_ul_slot_period. -/
def firstUlSlotPeriod : ℕ :=
  match x.tdd with
  | none => 0
  | some p => p.nrofDownlinkSlots

/-- next_ul_slot. -/
def nextUlSlot : ℕ :=
  match x.tdd with
  | none => x.slot + x.minfbtime
  | some p => p.nrofDownlinkSlots + x.nrSlotsPeriod * (x.slot / x.nrSlotsPeriod)

/-- get_pdsch_to_harq_feedback. -/
def pdschToHarqFeedback (i : Fin 8) : ℕ :=
  match x.dlDataToUlAck with
  | none => i + 1
  | some times => times i

/-- max_fb_time. -/
def maxFbTime : ℕ := ((List.finRange 8).map x.pdschToHarqFeedback).foldl max 0

/-- The next uplink slot. -/
def advanceSlot (s : ℕ) : ℕ :=
  if (s + 1) % x.nrSlotsPeriod = 0 then (s + 1 + x.firstUlSlotPeriod) % x.n else (s + 1) % x.n

/-- The frame of the next uplink slot. -/
def advanceFrame (f s : ℕ) : ℕ := if s = x.n - 1 then (f + 1) % 1024 else f

/-- A PUCCH in the next uplink slot. -/
def advance (pucch : SchedPucch) : SchedPucch :=
  { pucch with
    frame := x.advanceFrame pucch.frame pucch.ulSlot
    ulSlot := x.advanceSlot pucch.ulSlot }

/-- A new PUCCH in the slot behind the one of a PUCCH. -/
def renew (pucch : SchedPucch) : SchedPucch :=
  x.advance { SchedPucch.zero with frame := pucch.frame, ulSlot := pucch.ulSlot }

/-- The CSI PUCCH is in the slot of the PUCCH. -/
def csiInSlot (csiPucch pucch : SchedPucch) : Bool :=
  csiPucch.csiBits > 0 && csiPucch.frame == pucch.frame && csiPucch.ulSlot == pucch.ulSlot

/-- The block that symbol `l` of a PUCCH uses. -/
def symbPrb (pucch : SchedPucch) (l : ℕ) : ℕ :=
  if l = 1 ∧ pucch.secondHopPrb ≠ 0 then pucch.secondHopPrb else pucch.prbStart

/-- Its place in vrb_map_UL. -/
def symbPlace (pucch : SchedPucch) (l : ℕ) : ℕ :=
  pucch.ulSlot * MAX_BWP_SIZE + (x.bwpStart + symbPrb pucch l)

/-- test_acknack_vrb_occupation: whether the resource is free, and the PUCCH with the resource. -/
def testAcknackVrbOccupation (csiPucch : SchedPucch) (vrbMapUl : ℕ → BitVec 16)
    (pucch : SchedPucch) : Bool × SchedPucch :=
  if csiInSlot csiPucch pucch && csiPucch.simultaneousHarqcsi &&
      csiPucch.csiBits + csiPucch.daiC < 11 then (true, pucch)
  else
    let pucch :=
      { pucch with
        secondHopPrb := x.parms.secondHopPrb
        nrOfSymb := x.parms.nrOfSymb
        startSymb := x.parms.startSymb
        prbStart := x.parms.prbStart }
    ((List.range pucch.nrOfSymb).all fun l =>
        vrbMapUl (x.symbPlace pucch l) &&& slToBitmap (pucch.startSymb + l) 1 == 0#16,
      pucch)

/-- The first feedback time that is the distance of a slot. -/
def findTiming (ulSlot : ℕ) : Option (Fin 8) :=
  let diff := if ulSlot < x.slot then ulSlot + x.n - x.slot else ulSlot - x.slot
  (List.finRange 8).find? fun i =>
    x.pdschToHarqFeedback i == diff && x.minfbtime ≤ x.pdschToHarqFeedback i

/-- The slot is within the feedback limits. -/
def Within (ulSlot : ℕ) : Prop := (x.n + ulSlot - x.slot) % x.n ≤ x.maxFbTime

instance (ulSlot : ℕ) : Decidable (x.Within ulSlot) := inferInstanceAs (Decidable (_ ≤ _))

/-- A pass of the loop over the uplink slots, with ind_found. -/
def searchBody (csiPucch : SchedPucch) (vrbMapUl : ℕ → BitVec 16) :
    SchedPucch × Option (Fin 8) → Option (SchedPucch × Option (Fin 8))
  | (_, some _) => none
  | (pucch, none) =>
      if x.Within pucch.ulSlot then
        let test := x.testAcknackVrbOccupation csiPucch vrbMapUl pucch
        match if test.1 then x.findTiming test.2.ulSlot else none with
        | some i => some (test.2, some i)
        | none => some (x.advance test.2, none)
      else none

/-- How an activation ends. -/
inductive Outcome
  | assertFatal
  | returned (ret : ℤ) (st : AckState)
  | again (st : AckState)

/-- A PUCCH with two acknowledgements is full: the next one is used, or the one behind it. -/
def prepare (st : AckState) : AckState :=
  let st := { st with pucch := { st.pucch with rPucch := x.rPucch } }
  if st.pucch.daiC = 2 then
    let pucch := x.renew st.pucch
    let csiPucch := { st.csiPucch with rPucch := -1 }
    if csiInSlot csiPucch pucch && !csiPucch.simultaneousHarqcsi then
      { st with pucch := x.advance pucch, csiPucch := .zero }
    else { st with pucch := pucch, csiPucch := csiPucch }
  else st

/-- The UE has a PUCCH already. -/
def reuse (st : AckState) : Outcome :=
  match x.findTiming st.pucch.ulSlot with
  | none => .again { st with pucch := x.renew st.pucch }
  | some i =>
      let pucch := { st.pucch with timingIndicator := i, daiC := st.pucch.daiC + 1 }
      if csiInSlot st.csiPucch pucch then
        .returned 0 { st with
          pucch := pucch
          csiPucch := { st.csiPucch with timingIndicator := i, daiC := st.csiPucch.daiC + 1 } }
      else .returned 0 { st with pucch := pucch }

/-- Where the search starts. A PUCCH of the past is not used. -/
def searchStart (pucch : SchedPucch) : Option SchedPucch :=
  if (pucch.frame = 0 ∧ pucch.ulSlot = 0) ∨
      pucch.frame * x.n + pucch.ulSlot < x.frame * x.n + x.slot then
    if pucch.srFlag.toNat + pucch.daiC ≠ 0 then none
    else
      some { pucch with
        frame := if x.nextUlSlot < x.n then x.frame else (x.frame + 1) % 1024
        ulSlot := x.nextUlSlot % x.n }
  else some pucch

/-- The marking of the resource. -/
def mark (vrbMapUl : ℕ → BitVec 16) (pucch : SchedPucch) : ℕ → BitVec 16 :=
  (List.range pucch.nrOfSymb).foldl
    (fun map l =>
      Function.update map (x.symbPlace pucch l)
        (map (x.symbPlace pucch l) ||| slToBitmap (pucch.startSymb + l) 1))
    vrbMapUl

/-- What follows the search. -/
def finish (st : AckState) (pucch : SchedPucch) : Option (Fin 8) → Outcome
  | none => .returned (-1) { st with pucch := pucch }
  | some i =>
      if csiInSlot st.csiPucch pucch then
        if !st.csiPucch.simultaneousHarqcsi || st.csiPucch.csiBits + st.csiPucch.daiC ≥ 11 then
          .again { st with pucch := x.renew pucch, csiPucch := .zero }
        else
          .returned 1 { st with
            pucch := { pucch with timingIndicator := i, daiC := pucch.daiC + 1 }
            csiPucch := { st.csiPucch with timingIndicator := i, daiC := st.csiPucch.daiC + 1 } }
      else
        let pucch :=
          { pucch with
            timingIndicator := i, daiC := pucch.daiC + 1, resourceIndicator := 0
            rPucch := x.rPucch }
        .returned 0 { st with pucch := pucch, vrbMapUl := x.mark st.vrbMapUl pucch }

/-- An activation of nr_acknack_scheduling. -/
inductive Activation : AckState → Outcome → Prop
  | csiBits {st : AckState} (h : st.pucch.csiBits ≠ 0) : Activation st .assertFatal
  | reuse {st : AckState} (h : st.pucch.csiBits = 0) (hdai : 0 < (x.prepare st).pucch.daiC) :
      Activation st (x.reuse (x.prepare st))
  | stale {st : AckState} (h : st.pucch.csiBits = 0) (hdai : (x.prepare st).pucch.daiC = 0)
      (hstart : x.searchStart (x.prepare st).pucch = none) : Activation st .assertFatal
  | search {st : AckState} {pucch : SchedPucch} {t : SchedPucch × Option (Fin 8)}
      (h : st.pucch.csiBits = 0) (hdai : (x.prepare st).pucch.daiC = 0)
      (hstart : x.searchStart (x.prepare st).pucch = some pucch)
      (hends : While.Ends (x.searchBody (x.prepare st).csiPucch (x.prepare st).vrbMapUl)
        (pucch, none) t) :
      Activation st (x.finish (x.prepare st) t.1 t.2)

/-- A call of some depth. -/
inductive Call : ℕ → AckState → Outcome → Prop
  | done {st : AckState} {o : Outcome} (h : x.Activation st o) (ho : ∀ st', o ≠ .again st') :
      Call 1 st o
  | again {d : ℕ} {st st' : AckState} {o : Outcome} (h : x.Activation st (.again st'))
      (hcall : Call d st' o) : Call (d + 1) st o

/-- Every call comes to an end, after three activations at most. -/
def Terminates : Prop := ∀ st : AckState, ∃ d ≤ 3, ∃ o, x.Call d st o

end AckCall

end OaiCu.NrMac
