import OaiCu.NrMac.HarqLists

/-!
# Downlink HARQ of the gNB MAC

The downlink processes of one UE: `pf_dl` chooses a process for the slot, `nr_schedule_ue_spec` sends
it, and the HARQ bits of the PUCCH come in through `handle_nr_uci_pucch_0_1` and
`handle_nr_uci_pucch_2_3_4`. RBs, CCE, PUCCH occasion and size that the searches of `pf_dl` find for
the UE are given.
-/

namespace OaiCu.NrMac

/-- NR_sched_pdsch_t. `dlHarqPid` is the process to use, or `none` for any new one. -/
structure SchedPdsch where
  rbSize : ℕ
  tbSize : ℕ
  dlHarqPid : Option ℕ
  pucchAllocation : ℕ
  deriving DecidableEq, Repr

/-- All octets are 0, and so is the pid. -/
def SchedPdsch.zero : SchedPdsch where
  rbSize := 0
  tbSize := 0
  dlHarqPid := some 0
  pucchAllocation := 0

/-- NR_UE_harq_t. -/
structure DlHarq where
  isWaiting : Bool
  ndi : Bool
  round : ℕ
  feedbackFrame : ℕ
  feedbackSlot : ℕ
  schedPdsch : SchedPdsch
  deriving DecidableEq, Repr

def DlHarq.zero : DlHarq where
  isWaiting := false
  ndi := false
  round := 0
  feedbackFrame := 0
  feedbackSlot := 0
  schedPdsch := .zero

/-- What the downlink scheduler keeps of a UE: NR_UE_sched_ctrl_t and the errors of its statistics. -/
structure DlUe where
  dlHarq : HarqLists
  harqProcesses : ℕ → DlHarq
  schedPdsch : SchedPdsch
  errors : ℕ

/-- nrofHARQ-ProcessesForPDSCH. -/
inductive NrofHarqProcesses
  | n2
  | n4
  | n6
  | n10
  | n12
  | n16
  deriving DecidableEq, Repr

/-- get_nrofHARQ_ProcessesForPDSCH, and 8 if the field is absent. -/
def nrofHarqProcesses : Option NrofHarqProcesses → ℕ
  | none => 8
  | some .n2 => 2
  | some .n4 => 4
  | some .n6 => 6
  | some .n10 => 10
  | some .n12 => 12
  | some .n16 => 16

namespace DlUe

def setHarq (u : DlUe) (pid : ℕ) (harq : DlHarq) : DlUe :=
  { u with harqProcesses := Function.update u.harqProcesses pid harq }

def setFeedback (u : DlUe) (feedback : NrList) : DlUe :=
  { u with dlHarq := { u.dlHarq with feedback := feedback } }

def addAvailable (u : DlUe) (pid : ℕ) : DlUe :=
  { u with dlHarq := { u.dlHarq with available := u.dlHarq.available.addTail pid } }

def addRetrans (u : DlUe) (pid : ℕ) : DlUe :=
  { u with dlHarq := { u.dlHarq with retrans := u.dlHarq.retrans.addTail pid } }

/-- create_dl_harq_list. The lists of a new UE have length 0. -/
def createDlHarqList (u : DlUe) (pdsch : Option NrofHarqProcesses) : Except MacErr DlUe :=
  let nrofHarq := nrofHarqProcesses pdsch
  let l := u.dlHarq
  let oldNrofHarq := l.available.len
  if ¬ (oldNrofHarq = l.feedback.len ∧ oldNrofHarq = l.retrans.len) then .error .lenMismatch
  else if oldNrofHarq = 0 then
    .ok { u with dlHarq :=
      { available := (List.range nrofHarq).foldl NrList.addTail (NrList.create nrofHarq)
        feedback := NrList.create nrofHarq
        retrans := NrList.create nrofHarq } }
  else if oldNrofHarq = nrofHarq then .ok u
  else if ¬ nrofHarq > oldNrofHarq then .error .resizeSmaller
  else
    .ok { u with dlHarq :=
      { available := (List.range' oldNrofHarq (nrofHarq - oldNrofHarq)).foldl NrList.addTail
          (l.available.resize nrofHarq)
        feedback := l.feedback.resize nrofHarq
        retrans := l.retrans.resize nrofHarq } }

/-- add_new_nr_ue: all octets are 0 before the lists are created. -/
def addNewNrUe (pdsch : Option NrofHarqProcesses) : Except MacErr DlUe :=
  let zero : NrList := { head := some 0, next := [], tail := some 0, len := 0 }
  createDlHarqList
    { dlHarq := { available := zero, feedback := zero, retrans := zero }
      harqProcesses := fun _ => .zero
      schedPdsch := .zero
      errors := 0 } pdsch

/-! ## HARQ bits -/

/-- handle_dl_harq. The field `feedback_slot` has 16 bits and gets -1. -/
def handleDlHarq (harqRoundMax : ℕ) (u : DlUe) (harqPid : ℕ) (success : Bool) : DlUe :=
  let harq := { u.harqProcesses harqPid with feedbackSlot := 65535, isWaiting := false }
  let again := { harq with round := 0, ndi := !harq.ndi }
  if success then (u.addAvailable harqPid).setHarq harqPid again
  else if harq.round + 1 ≥ harqRoundMax then
    { (u.addAvailable harqPid).setHarq harqPid again with errors := u.errors + 1 }
  else (u.addRetrans harqPid).setHarq harqPid { harq with round := harq.round + 1 }

/-- find_harq: processes whose feedback was expected earlier have failed, and one whose feedback is
expected later is left alone. -/
def findHarq (harqRoundMax frame slot : ℕ) : ℕ → DlUe → Except MacErr (Option ℕ × DlUe)
  | 0, _ => .error .endless
  | fuel + 1, u =>
      match u.dlHarq.feedback.head with
      | none => .ok (none, u)
      | some pid =>
          let harq := u.harqProcesses pid
          if harq.feedbackFrame ≠ frame ∨
              (harq.feedbackFrame = frame ∧ harq.feedbackSlot < slot) then do
            let feedback ← u.dlHarq.feedback.removeFront
            findHarq harqRoundMax frame slot fuel
              ((u.setFeedback feedback).handleDlHarq harqRoundMax pid false)
          else if harq.feedbackSlot > slot then .ok (none, u)
          else .ok (some pid, u)

/-- The loop over the HARQ bits, each a success or not. -/
def harqBits (harqRoundMax frame slot : ℕ) : DlUe → List Bool → Except MacErr DlUe
  | u, [] => .ok u
  | u, success :: bits => do
      let found ← findHarq harqRoundMax frame slot (u.dlHarq.feedback.len + 1) u
      match found.1 with
      | none => .ok found.2
      | some pid =>
          if !(found.2.harqProcesses pid).isWaiting then .error .notWaiting
          else do
            let feedback ← found.2.dlHarq.feedback.removeFront
            harqBits harqRoundMax frame slot
              ((found.2.setFeedback feedback).handleDlHarq harqRoundMax pid success) bits

/-- nfapi_nr_uci_pucch_pdu_format_0_1_t. -/
structure UciPucch01 where
  pduBitmap : ℕ
  /-- The field `harq_value` of each entry of `harq_list`. -/
  harqValues : List ℕ
  harqConfidenceLevel : ℕ

/-- handle_nr_uci_pucch_0_1. -/
def handleNrUciPucch01 (harqRoundMax frame slot : ℕ) (u : DlUe) (uci : UciPucch01) :
    Except MacErr DlUe :=
  if uci.pduBitmap / 2 % 2 = 1 then
    harqBits harqRoundMax frame slot u
      (uci.harqValues.map fun value => value = 0 && uci.harqConfidenceLevel = 0)
  else .ok u

/-- nfapi_nr_uci_pucch_pdu_format_2_3_4_t. -/
structure UciPucch234 where
  pduBitmap : ℕ
  harqBitLen : ℕ
  harqCrc : ℕ
  harqPayload : List ℕ

/-- The bit of the payload, as the source shifts the octet that holds it. -/
def UciPucch234.acknack (uci : UciPucch234) (harqBit : ℕ) : ℕ :=
  ((uci.harqPayload.getD (harqBit >>> 3) 0) >>> harqBit) % 2

/-- handle_nr_uci_pucch_2_3_4. Without a CSI configuration it returns at once. -/
def handleNrUciPucch234 (harqRoundMax frame slot : ℕ) (csiMeasConfig : Bool) (u : DlUe)
    (uci : UciPucch234) : Except MacErr DlUe :=
  if !csiMeasConfig then .ok u
  else if uci.pduBitmap / 2 % 2 = 1 then
    harqBits harqRoundMax frame slot u
      ((List.range uci.harqBitLen).map fun bit => uci.harqCrc ≠ 1 && uci.acknack bit ≠ 0)
  else .ok u

/-! ## The scheduler -/

/-- What the searches find for a retransmission that has the RBs: the number of RBs if the time
domain allocation changes, and the PUCCH occasion if there are a CCE and an occasion. -/
structure DlRetransRoom where
  newRbSize : Option ℕ
  pucchAllocation : Option ℕ

/-- A grant for new data. -/
structure DlData where
  rbSize : ℕ
  tbSize : ℕ
  pucchAllocation : ℕ

/-- One slot of the scheduler for the UE. -/
structure DlSlot where
  /-- The slot is a downlink slot. -/
  dlSlot : Bool
  ulFailure : Bool
  /-- The Msg4 of the UE is acknowledged, and `pf_dl` does not end before it comes to the UE. -/
  reached : Bool
  retrans : Option DlRetransRoom
  newData : Option DlData
  /-- Frame and slot of the PUCCH occasions `sched_pucch` after `pf_dl`. -/
  schedPucch : ℕ → ℕ × ℕ

/-- allocate_dl_retransmission. -/
def allocateDlRetransmission (u : DlUe) (harqPid : ℕ) : Option DlRetransRoom → DlUe
  | none => u
  | some room =>
      let harq := u.harqProcesses harqPid
      let retInfo :=
        { harq.schedPdsch with rbSize := room.newRbSize.getD harq.schedPdsch.rbSize }
      let u' := u.setHarq harqPid { harq with schedPdsch := retInfo }
      match room.pucchAllocation with
      | none => u'
      | some alloc => { u' with schedPdsch := { retInfo with pucchAllocation := alloc } }

/-- pf_dl for one UE. -/
def pfDl (u : DlUe) (s : DlSlot) : DlUe :=
  if !s.reached || s.ulFailure then u
  else
    let pid := u.dlHarq.retrans.head
    let u := { u with schedPdsch := { u.schedPdsch with dlHarqPid := pid } }
    match pid, s.newData with
    | some harqPid, _ => u.allocateDlRetransmission harqPid s.retrans
    | none, none => u
    | none, some data =>
        if u.dlHarq.available.head.isNone then u
        else
          { u with schedPdsch :=
              { u.schedPdsch with
                rbSize := data.rbSize
                tbSize := data.tbSize
                pucchAllocation := data.pucchAllocation } }

/-- The fields of the DCI and of the PDSCH that the process gives. -/
structure PdschPdu where
  harqPid : ℕ
  ndi : Bool
  rvIndex : ℕ
  tbSize : ℕ
  deriving DecidableEq, Repr

/-- The rest of the loop of nr_schedule_ue_spec for the process that was taken. -/
def sendTaken (u : DlUe) (s : DlSlot) (harqPid : ℕ) : Except MacErr (DlUe × List PdschPdu) :=
  let harq := u.harqProcesses harqPid
  if harq.isWaiting then .error .isWaiting
  else
    match nrRvRoundMap[harq.round]? with
    | none => .error .roundIndex
    | some rvIndex =>
        if harq.round ≠ 0 ∧ harq.schedPdsch.tbSize ≠ u.schedPdsch.tbSize then
          .error .tbsMismatch
        else
          let pucch := s.schedPucch u.schedPdsch.pucchAllocation
          let u' := (u.setFeedback (u.dlHarq.feedback.addTail harqPid)).setHarq harqPid
            { harq with
              feedbackFrame := pucch.1
              feedbackSlot := pucch.2
              isWaiting := true
              -- what an initial transmission uses is kept for the ones that repeat it
              schedPdsch := if harq.round = 0 then u.schedPdsch else harq.schedPdsch }
          .ok ({ u' with schedPdsch := { u.schedPdsch with rbSize := 0 } },
            [{ harqPid := harqPid, ndi := harq.ndi, rvIndex := rvIndex
               tbSize := u.schedPdsch.tbSize }])

/-- nr_schedule_ue_spec for one UE, with its preprocessor. -/
def nrScheduleUeSpec (u : DlUe) (s : DlSlot) : Except MacErr (DlUe × List PdschPdu) :=
  if !s.dlSlot then .ok (u, [])
  else
    let u' := u.pfDl s
    if s.ulFailure || u'.schedPdsch.rbSize = 0 then .ok (u', [])
    else do
      let taken ← u'.dlHarq.take (DlHarq.round ∘ u'.harqProcesses) u'.schedPdsch.dlHarqPid
      sendTaken { u' with
        dlHarq := taken.2
        schedPdsch := { u'.schedPdsch with dlHarqPid := some taken.1 } } s taken.1

/-- The calls that move the downlink processes. -/
inductive Call
  | schedule (s : DlSlot)
  | uci01 (frame slot : ℕ) (uci : UciPucch01)
  | uci234 (frame slot : ℕ) (csiMeasConfig : Bool) (uci : UciPucch234)
  | configure (pdsch : Option NrofHarqProcesses)

def step (harqRoundMax : ℕ) (u : DlUe) : Call → Except MacErr (DlUe × List PdschPdu)
  | .schedule s => u.nrScheduleUeSpec s
  | .uci01 frame slot uci => (u.handleNrUciPucch01 harqRoundMax frame slot uci).map (·, [])
  | .uci234 frame slot csi uci =>
      (u.handleNrUciPucch234 harqRoundMax frame slot csi uci).map (·, [])
  | .configure pdsch => (u.createDlHarqList pdsch).map (·, [])

end DlUe

end OaiCu.NrMac
