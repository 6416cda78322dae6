import OaiCu.NrMac.HarqLists
import Mathlib.Data.Int.Notation

/-!
# Uplink HARQ of the gNB MAC

The uplink processes of one UE: `pf_ul` chooses a process for the slot, `nr_schedule_ulsch` sends the
grant, and `handle_nr_ul_harq` takes the CRC of the PHY. The RBs, the CCE and the size that the
searches of `pf_ul` find for the UE are given.
-/

namespace OaiCu.NrMac

/-- NR_sched_pusch_t. `ulHarqPid` is the process to use, or `none` for any new one. -/
structure SchedPusch where
  slot : ℕ
  rbSize : ℕ
  tbSize : ℕ
  ulHarqPid : Option ℕ
  deriving DecidableEq, Repr

/-- All octets are 0, and so is the pid. -/
def SchedPusch.zero : SchedPusch where
  slot := 0
  rbSize := 0
  tbSize := 0
  ulHarqPid := some 0

/-- NR_UE_ul_harq_t. -/
structure UlHarq where
  isWaiting : Bool
  ndi : Bool
  round : ℕ
  feedbackSlot : ℕ
  schedPusch : SchedPusch
  deriving DecidableEq, Repr

def UlHarq.zero : UlHarq where
  isWaiting := false
  ndi := false
  round := 0
  feedbackSlot := 0
  schedPusch := .zero

/-- What the uplink scheduler keeps of a UE: NR_UE_sched_ctrl_t and the errors of its statistics. -/
structure UlUe where
  ulHarq : HarqLists
  ulHarqProcesses : ℕ → UlHarq
  schedPusch : SchedPusch
  schedUlBytes : ℤ
  errors : ℕ

namespace UlUe

/-- add_new_nr_ue: 16 processes, all of them free. -/
def addNewNrUe : UlUe where
  ulHarq :=
    { available := (List.range 16).foldl NrList.addTail (NrList.create 16)
      feedback := NrList.create 16
      retrans := NrList.create 16 }
  ulHarqProcesses := fun _ => .zero
  schedPusch := .zero
  schedUlBytes := 0
  errors := 0

def setHarq (u : UlUe) (pid : ℕ) (harq : UlHarq) : UlUe :=
  { u with ulHarqProcesses := Function.update u.ulHarqProcesses pid harq }

def setFeedback (u : UlUe) (feedback : NrList) : UlUe :=
  { u with ulHarq := { u.ulHarq with feedback := feedback } }

def addAvailable (u : UlUe) (pid : ℕ) : UlUe :=
  { u with ulHarq := { u.ulHarq with available := u.ulHarq.available.addTail pid } }

def addRetrans (u : UlUe) (pid : ℕ) : UlUe :=
  { u with ulHarq := { u.ulHarq with retrans := u.ulHarq.retrans.addTail pid } }

/-! ## The CRC -/

/-- nfapi_nr_crc_t. The status is false if the CRC is right. -/
structure CrcPdu where
  harqId : ℕ
  tbCrcStatus : Bool

/-- abort_nr_ul_harq. -/
def abortNrUlHarq (u : UlUe) (pid : ℕ) : UlUe :=
  let harq := u.ulHarqProcesses pid
  let u := (u.setHarq pid { harq with ndi := !harq.ndi, round := 0 }).addAvailable pid
  { u with
    errors := u.errors + 1
    schedUlBytes := max 0 (u.schedUlBytes - harq.schedPusch.tbSize) }

/-- The transmission of the process has failed: it is sent again if it has a round left. -/
def nack (harqRoundMax : ℕ) (u : UlUe) (pid : ℕ) : UlUe :=
  let harq := u.ulHarqProcesses pid
  if harq.round + 1 ≥ harqRoundMax then u.abortNrUlHarq pid
  else (u.setHarq pid { harq with round := harq.round + 1 }).addRetrans pid

/-- The loop of handle_nr_ul_harq: all processes before the one of the CRC have failed. -/
def skipTo (harqRoundMax harqId : ℕ) : ℕ → UlUe → Except MacErr (Option ℕ × UlUe)
  | 0, _ => .error .endless
  | fuel + 1, u =>
      match u.ulHarq.feedback.head with
      | none => .ok (none, u)
      | some pid =>
          if harqId = pid then .ok (some pid, u)
          else do
            let feedback ← u.ulHarq.feedback.removeFront
            let u := (u.setFeedback feedback).setHarq pid
              { u.ulHarqProcesses pid with isWaiting := false }
            skipTo harqRoundMax harqId fuel (u.nack harqRoundMax pid)

/-- handle_nr_ul_harq. The field `feedback_slot` has 16 bits and gets -1. -/
def handleNrUlHarq (harqRoundMax : ℕ) (u : UlUe) (crc : CrcPdu) : Except MacErr UlUe := do
  let found ← skipTo harqRoundMax crc.harqId (u.ulHarq.feedback.len + 1) u
  match found.1 with
  | none => .ok found.2
  | some pid =>
      let feedback ← found.2.ulHarq.feedback.removeFront
      let harq := found.2.ulHarqProcesses pid
      if !harq.isWaiting then .error .notWaiting
      else
        let harq := { harq with feedbackSlot := 65535, isWaiting := false }
        let u := found.2.setFeedback feedback
        .ok (if crc.tbCrcStatus then (u.setHarq pid harq).nack harqRoundMax pid
          else (u.setHarq pid { harq with ndi := !harq.ndi, round := 0 }).addAvailable pid)

/-! ## The scheduler -/

/-- What the searches find for a retransmission that has the RBs: the number of RBs if the time
domain allocation changes, and whether there is a CCE. -/
structure RetransRoom where
  newRbSize : Option ℕ
  cce : Bool

/-- What `pf_ul` finds for the UE. It may end before it comes to the UE, and it passes over a UE whose
Msg4 is not acknowledged. -/
structure UlRoom where
  reached : Bool
  retrans : Option RetransRoom
  /-- RBs and bytes of a grant for data, for SR or for inactivity. -/
  newData : Option (ℕ × ℕ)

/-- allocate_ul_retransmission. -/
def allocateUlRetransmission (u : UlUe) (harqPid : ℕ) : Option RetransRoom → UlUe
  | none => u
  | some room =>
      let harq := u.ulHarqProcesses harqPid
      let retInfo :=
        { harq.schedPusch with rbSize := room.newRbSize.getD harq.schedPusch.rbSize }
      if !room.cce then u.setHarq harqPid { harq with schedPusch := retInfo }
      else
        let retInfo := { retInfo with slot := u.schedPusch.slot }
        { u.setHarq harqPid { harq with schedPusch := retInfo } with schedPusch := retInfo }

/-- pf_ul for one UE. -/
def pfUl (u : UlUe) (room : UlRoom) : UlUe :=
  if !room.reached then u
  else
    let pid := u.ulHarq.retrans.head
    let u := { u with schedPusch := { u.schedPusch with ulHarqPid := pid } }
    match pid, room.newData with
    | some harqPid, _ => u.allocateUlRetransmission harqPid room.retrans
    | none, none => u
    | none, some (rbSize, tbSize) =>
        { u with schedPusch := { u.schedPusch with rbSize := rbSize, tbSize := tbSize } }

/-- One slot of the scheduler for the UE. -/
structure UlSlot where
  /-- The slot is a downlink slot. -/
  dlSlot : Bool
  /-- The preprocessor runs `pf_ul`, for the slot `schedSlot`. -/
  doSched : Bool
  schedSlot : ℕ
  room : UlRoom
  ulFailure : Bool

/-- The fields of nfapi_nr_pusch_pdu_t that the process gives. -/
structure PuschPdu where
  harqProcessId : ℕ
  newDataIndicator : Bool
  rvIndex : ℕ
  tbSize : ℕ
  deriving DecidableEq, Repr

/-- The rest of the loop of nr_schedule_ulsch for the process that was taken. -/
def sendTaken (u : UlUe) (harqId : ℕ) : Except MacErr (UlUe × List PuschPdu) :=
  let curHarq := u.ulHarqProcesses harqId
  if curHarq.isWaiting then .error .isWaiting
  else
    match nrRvRoundMap[curHarq.round]? with
    | none => .error .roundIndex
    | some rvIndex =>
        let initial := curHarq.round = 0
        let u' := (u.setFeedback (u.ulHarq.feedback.addTail harqId)).setHarq harqId
          { curHarq with
            feedbackSlot := u.schedPusch.slot
            isWaiting := true
            -- what an initial transmission uses is kept for the ones that repeat it
            schedPusch := if initial then u.schedPusch else curHarq.schedPusch }
        .ok ({ u' with
            schedPusch := .zero
            schedUlBytes :=
              if initial then u.schedUlBytes + u.schedPusch.tbSize else u.schedUlBytes },
          [{ harqProcessId := harqId, newDataIndicator := curHarq.ndi, rvIndex := rvIndex
             tbSize := u.schedPusch.tbSize }])

/-- nr_schedule_ulsch for one UE, with its preprocessor. -/
def nrScheduleUlsch (u : UlUe) (s : UlSlot) : Except MacErr (UlUe × List PuschPdu) :=
  if !s.dlSlot || !s.doSched then .ok (u, [])
  else
    let u' := pfUl { u with schedPusch := { u.schedPusch with slot := s.schedSlot } } s.room
    if s.ulFailure || u'.schedPusch.rbSize = 0 then .ok (u', [])
    else do
      let taken ← u'.ulHarq.take (UlHarq.round ∘ u'.ulHarqProcesses) u'.schedPusch.ulHarqPid
      sendTaken { u' with
        ulHarq := taken.2
        schedPusch := { u'.schedPusch with ulHarqPid := some taken.1 } } taken.1

/-- The calls that move the uplink processes. -/
inductive Call
  | schedule (s : UlSlot)
  | crc (pdu : CrcPdu)

def step (harqRoundMax : ℕ) (u : UlUe) : Call → Except MacErr (UlUe × List PuschPdu)
  | .schedule s => u.nrScheduleUlsch s
  | .crc pdu => do
      let u' ← u.handleNrUlHarq harqRoundMax pdu
      .ok (u', [])

end UlUe

end OaiCu.NrMac
