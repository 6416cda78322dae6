import OaiCu.OduSch.RaReq

/-!
# O-DU scheduler: the list of the pending UEs (`sch.c`, `sch_rach.c`, `sch_slot_ind.c`)

An indication sets a flag of a UE and adds the UE to `ueToBeScheduled`: BSR and SR add the id that
`MacSchAddUeConfigReq` wrote to the `SchUeCb`. Each slot serves the UE at the head, whose node is then
removed, put at the tail or left where it is. Whether the RAR, MSG4, the UL grant and the DL message can
be scheduled in a slot is an input.
-/

namespace OaiCu.OduSch

def SRB0_LCID : ℕ := 0
def MAX_DRB_LCID : ℕ := 32
def MAX_NUM_UE : ℕ := 3

/-- The arrays of the cell have an entry for the id, at the index `ueId - 1`. -/
def isUe (ueId : ℕ) : Bool := 0 < ueId && ueId ≤ MAX_NUM_UE

/-- What is pending for a UE: `raReq`, `msg4recvd`, `srRcvd`, `bsrRcvd` and its bit of
`boIndBitMap`. -/
structure UeFlags where
  raReq : Option SchRaReq
  msg4recvd : Bool
  srRcvd : Bool
  bsrRcvd : Bool
  boInd : Bool

/-- What else the indications read of a `SchUeCb`. `dlLcs` are the ids of the channels with a
`dlLcCtxt`. -/
structure UeConfig where
  ueId : ℕ
  inactive : Bool
  stopDataTransmission : Bool
  dlLcs : List ℕ
deriving DecidableEq, Repr

/-- The nodes of `ueToBeScheduled`, what is pending, and the UEs. -/
structure PendingCell where
  ueToBeScheduled : List ℕ
  ue : ℕ → UeFlags
  ueCb : ℕ → UeConfig

/-- How `schProcessRaReq` ends: with true, with the request still there, or without it. -/
inductive RaOutcome
  | scheduled
  | postponed
  | expired
deriving DecidableEq, Repr

/-- How `schProcessSrOrBsrReq` ends: with a grant, or with what it returns without one, and
whether `srRcvd` was cleared. -/
inductive UlOutcome
  | granted
  | notGranted (ret srCleared : Bool)
deriving DecidableEq, Repr

/-- How the procedures that are called in a slot end. `schProcessMsg4Req` and
`schFillBoGrantDlSchedInfo` clear their flag exactly if they return true. -/
structure SlotOutcome where
  ra : RaOutcome
  msg4 : Bool
  ul : UlOutcome
  dl : Bool
deriving DecidableEq, Repr

/-- Where the node is that was the head. -/
inductive NodePlace
  | head
  | tail
  | freed
deriving DecidableEq, Repr

/-- A node is used after it was freed, or an array at an index that it does not have. -/
inductive SlotErr
  | freedNode
  | outOfArray
deriving DecidableEq, Repr

namespace NodePlace

/-- `cmLListAdd2Tail` of `cmLListDelFrm`. -/
def toTail : NodePlace → Except SlotErr NodePlace
  | .head => .ok .tail
  | .tail => .ok .tail
  | .freed => .error .freedNode

/-- `SCH_FREE` and `deleteNodeFromLList`. -/
def remove : NodePlace → Except SlotErr NodePlace
  | .head => .ok .freed
  | .tail => .ok .freed
  | .freed => .error .freedNode

/-- The list, with the other nodes. -/
def list (place : NodePlace) (ueId : ℕ) (rest : List ℕ) : List ℕ :=
  match place with
  | .head => ueId :: rest
  | .tail => rest ++ [ueId]
  | .freed => rest

end NodePlace

namespace UeFlags

/-- Something is pending. -/
def isPending (u : UeFlags) : Bool :=
  u.raReq.isSome || u.msg4recvd || u.srRcvd || u.bsrRcvd || u.boInd

def isUlGrantPending (u : UeFlags) : Bool := u.srRcvd || u.bsrRcvd

/-- The flags after `schProcessRaReq`, if it is called. -/
def afterRa (u : UeFlags) (ra : RaOutcome) : UeFlags :=
  match u.raReq, ra with
  | none, _ => u
  | some raReq, .scheduled => { u with raReq := none, msg4recvd := u.msg4recvd && raReq.isCFRA }
  | some _, .postponed => u
  | some _, .expired => { u with raReq := none }

def afterMsg4 (u : UeFlags) (msg4 : Bool) : UeFlags :=
  { u with msg4recvd := u.msg4recvd && !msg4 }

/-- The flags after `schProcessSrOrBsrReq`, if it is called. -/
def afterUl (u : UeFlags) (ul : UlOutcome) : UeFlags :=
  if u.isUlGrantPending then
    match ul with
    | .granted => { u with srRcvd := false, bsrRcvd := false }
    | .notGranted _ srCleared => { u with srRcvd := u.srRcvd && !srCleared }
  else u

def afterDl (u : UeFlags) (dl : Bool) : UeFlags :=
  { u with boInd := u.boInd && !dl }

end UeFlags

/-- What `schProcessSrOrBsrReq` returns. -/
def UlOutcome.ret : UlOutcome → Bool
  | .granted => true
  | .notGranted ret _ => ret

namespace UeFlags

/-- The part of `schProcessSlotInd` for RAR and MSG4: the flags and the place of the node. -/
def tryRach (u : UeFlags) (tried : SlotOutcome) : UeFlags × NodePlace :=
  let isRarPending := u.raReq.isSome
  let isRarScheduled := isRarPending && tried.ra == .scheduled
  let u := u.afterRa tried.ra
  let isMsg4Pending := u.msg4recvd
  let isMsg4Scheduled := isMsg4Pending && tried.msg4
  (u.afterMsg4 tried.msg4,
    if isRarPending || isMsg4Pending then
      if isRarScheduled || isMsg4Scheduled then .freed else .tail
    else .head)

/-- The part for the UL grant and the DL message. -/
def tryData (u : UeFlags) (tried : SlotOutcome) (place : NodePlace) :
    Except SlotErr (UeFlags × NodePlace) := do
  let isUlGrantPending := u.isUlGrantPending
  let isUlGrantScheduled := isUlGrantPending && tried.ul.ret
  let isDlMsgPending := u.boInd
  let isDlMsgScheduled := isDlMsgPending && tried.dl
  let place ←
    if !isUlGrantPending && !isDlMsgPending then .ok place
    else if (isUlGrantPending && !isUlGrantScheduled) || (isDlMsgPending && !isDlMsgScheduled) then
      place.toTail
    else place.remove
  return ((u.afterUl tried.ul).afterDl tried.dl, place)

end UeFlags

namespace PendingCell

/-- All bytes of the cell are 0. -/
def init : PendingCell :=
  ⟨[], fun _ => ⟨none, false, false, false, false⟩, fun _ => ⟨0, true, false, []⟩⟩

/-- `addUeToBeScheduled`. Whether the memory for the id and for the node is there is an input. -/
def addUeToBeScheduled (cell : PendingCell) (ueIdToAdd : ℕ) (memory : Bool) : PendingCell :=
  if ueIdToAdd ∈ cell.ueToBeScheduled then cell
  else if memory then { cell with ueToBeScheduled := cell.ueToBeScheduled ++ [ueIdToAdd] }
  else cell

def setUe (cell : PendingCell) (ueId : ℕ) (u : UeFlags) : PendingCell :=
  { cell with ue := Function.update cell.ue ueId u }

theorem setUe_self (cell : PendingCell) (ueId : ℕ) (u : UeFlags) : (cell.setUe ueId u).ue ueId = u :=
  Function.update_self _ _ _

theorem setUe_of_ne (cell : PendingCell) {ueId ueId' : ℕ} (h : ueId' ≠ ueId) (u : UeFlags) :
    (cell.setUe ueId u).ue ueId' = cell.ue ueId' :=
  Function.update_of_ne h _ _

/-- `schProcessRachInd`. -/
def schProcessRachInd (cell : PendingCell) (raReq : SchRaReq) (raReqMemory memory : Bool) :
    Except SlotErr PendingCell :=
  let ueId := getUeId raReq.rachInd.crnti
  if ueId = 0 || !raReqMemory then .ok cell
  else if !isUe ueId then .error .outOfArray
  else .ok ((cell.setUe ueId { cell.ue ueId with raReq := some raReq }).addUeToBeScheduled ueId memory)

/-- `MacSchDlRlcBoInfo`. -/
def macSchDlRlcBoInfo (cell : PendingCell) (ueId lcId dataVolume : ℕ) (memory : Bool) :
    Except SlotErr PendingCell :=
  if !isUe ueId then .error .outOfArray
  else if (cell.ueCb ueId).stopDataTransmission || MAX_DRB_LCID < lcId || dataVolume = 0 then .ok cell
  else if lcId = SRB0_LCID then
    .ok ((cell.setUe ueId { cell.ue ueId with msg4recvd := true }).addUeToBeScheduled ueId memory)
  else
    let cell := cell.setUe ueId { cell.ue ueId with boInd := true }
    .ok (if lcId ∈ (cell.ueCb ueId).dlLcs then cell.addUeToBeScheduled ueId memory else cell)

/-- `MacSchBsr`. -/
def macSchBsr (cell : PendingCell) (ueId : ℕ) (memory : Bool) : Except SlotErr PendingCell :=
  if !isUe ueId then .error .outOfArray
  else if (cell.ueCb ueId).stopDataTransmission then .ok cell
  else .ok ((cell.setUe ueId { cell.ue ueId with bsrRcvd := true }).addUeToBeScheduled
    (cell.ueCb ueId).ueId memory)

/-- `MacSchSrUciInd`. -/
def macSchSrUciInd (cell : PendingCell) (ueId numSrBits : ℕ) (memory : Bool) :
    Except SlotErr PendingCell :=
  if !isUe ueId then .error .outOfArray
  else if (cell.ueCb ueId).inactive || (cell.ueCb ueId).stopDataTransmission || numSrBits = 0 then
    .ok cell
  else .ok ((cell.setUe ueId { cell.ue ueId with srRcvd := true }).addUeToBeScheduled
    (cell.ueCb ueId).ueId memory)

/-- `MacSchAddUeConfigReq`. Whether the UE is active already, whether `fillSchUeCb` fails, and what it
takes from the request are inputs. -/
def macSchAddUeConfigReq (cell : PendingCell) (ueId : ℕ) (active fails stopDataTransmission : Bool)
    (dlLcs : List ℕ) : Except SlotErr PendingCell :=
  if !isUe ueId then .error .outOfArray
  else if active then .ok cell
  else .ok { cell.setUe ueId { cell.ue ueId with srRcvd := false, bsrRcvd := false } with
    ueCb := Function.update cell.ueCb ueId ⟨ueId, fails, stopDataTransmission, dlLcs⟩ }

/-- `MacSchModUeConfigReq`, which has no effect on a UE that is not active. -/
def macSchModUeConfigReq (cell : PendingCell) (ueId : ℕ) (active fails stopDataTransmission : Bool)
    (dlLcs : List ℕ) : Except SlotErr PendingCell :=
  if !isUe ueId then .error .outOfArray
  else if !active then .ok cell
  else
    let u := cell.ue ueId
    .ok { cell.setUe ueId (if fails then u else { u with srRcvd := false, bsrRcvd := false }) with
      ueCb := Function.update cell.ueCb ueId
        { cell.ueCb ueId with stopDataTransmission := stopDataTransmission, dlLcs := dlLcs } }

/-- The part of `schProcessSlotInd` that serves the UE at the head. -/
def schProcessSlotInd (cell : PendingCell) (tried : SlotOutcome) : Except SlotErr PendingCell :=
  match cell.ueToBeScheduled with
  | [] => .ok cell
  | ueId :: rest =>
    if !isUe ueId then .error .outOfArray
    else do
      let (u, place) := (cell.ue ueId).tryRach tried
      let (u, place) ← u.tryData tried place
      return { cell.setUe ueId u with ueToBeScheduled := place.list ueId rest }

end PendingCell

/-- A call of the scheduler. The last argument of an indication says whether there is memory for a
node. -/
inductive PendingCall
  | rachInd (raReq : SchRaReq) (raReqMemory memory : Bool)
  | dlBo (ueId lcId dataVolume : ℕ) (memory : Bool)
  | bsr (ueId : ℕ) (memory : Bool)
  | sr (ueId numSrBits : ℕ) (memory : Bool)
  | addUeConfigReq (ueId : ℕ) (active fails stopDataTransmission : Bool) (dlLcs : List ℕ)
  | modUeConfigReq (ueId : ℕ) (active fails stopDataTransmission : Bool) (dlLcs : List ℕ)
  | slotInd (tried : SlotOutcome)
deriving DecidableEq, Repr

namespace PendingCall

/-- The cell after a call. -/
def next (cell : PendingCell) : PendingCall → Except SlotErr PendingCell
  | .rachInd raReq raReqMemory memory => cell.schProcessRachInd raReq raReqMemory memory
  | .dlBo ueId lcId dataVolume memory => cell.macSchDlRlcBoInfo ueId lcId dataVolume memory
  | .bsr ueId memory => cell.macSchBsr ueId memory
  | .sr ueId numSrBits memory => cell.macSchSrUciInd ueId numSrBits memory
  | .addUeConfigReq ueId active fails stopDataTransmission dlLcs =>
    cell.macSchAddUeConfigReq ueId active fails stopDataTransmission dlLcs
  | .modUeConfigReq ueId active fails stopDataTransmission dlLcs =>
    cell.macSchModUeConfigReq ueId active fails stopDataTransmission dlLcs
  | .slotInd tried => cell.schProcessSlotInd tried

def step (cell : PendingCell) (call : PendingCall) : Except SlotErr (PendingCell × List Unit) :=
  (next cell call).map (·, [])

end PendingCall

end OaiCu.OduSch
