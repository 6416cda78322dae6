import Mathlib.Data.Int.Notation
import OaiCu.Lib.Machine

/-!
# SDAP entities (`nr_sdap_entity.c`)

The entities of all UEs are one linked list, newest first. A node has the address that
`calloc` gave it; addresses are never used twice. A dereference of NULL and a read outside
the table of mapping rules are faults.
-/

namespace OaiCu.Sdap

inductive Fault
  | nullDereference
  | outOfBounds
deriving DecidableEq, Repr

def sdapMaxQfi : ℕ := 64

def sdapMapRuleEmpty : ℕ := 0

def avlblDrb : ℤ := 5

def sdapNoMappingRule : ℤ := 0

/-- `qfi2drb_t`. -/
structure Qfi2Drb where
  drbId : ℤ := 0
  hasSdap : Bool := false
deriving DecidableEq, Repr

/-- `nr_sdap_entity_t`, without its function pointers, which never change. -/
structure SdapEntity where
  addr : ℕ
  rnti : UInt16
  defaultDrb : ℤ
  pdusessionId : ℤ
  qfi2drbTable : Vector Qfi2Drb sdapMaxQfi
deriving DecidableEq, Repr

/-- `nr_sdap_ul_hdr_t`; the QFI has six bits. -/
structure UlHdr where
  qfi : Fin 64
  r : Bool
  dc : Bool
deriving DecidableEq, Repr

/-- A control PDU handed to the PDCP entity of a DRB (`nr_pdcp_submit_sdap_ctrl_pdu`). -/
structure CtrlPdu where
  rnti : UInt16
  drb : ℤ
  hdr : UlHdr
deriving DecidableEq, Repr

inductive CtrlPduMap
  | defDrb
  | ruleDrb
deriving DecidableEq, Repr

/-- `nr_sdap_qfi2drb_map_update`. -/
def qfi2drbMapUpdate (entity : SdapEntity) (qfi : UInt8) (drb : ℤ) (hasSdap : Bool) :
    SdapEntity :=
  if qfi.toNat < sdapMaxQfi ∧ qfi.toNat > sdapMapRuleEmpty ∧ drb > 0 ∧ drb ≤ avlblDrb then
    { entity with
      qfi2drbTable := entity.qfi2drbTable.setIfInBounds qfi.toNat { drbId := drb, hasSdap } }
  else entity

/-- A read of `qfi2drb_table[qfi]`. -/
def SdapEntity.rule (entity : SdapEntity) (qfi : UInt8) : Except Fault Qfi2Drb :=
  match entity.qfi2drbTable[qfi.toNat]? with
  | none => .error .outOfBounds
  | some r => .ok r

/-- `nr_sdap_qfi2drb_map`. -/
def qfi2drbMap (entity : SdapEntity) (qfi : UInt8) : Except Fault ℤ := do
  let rule ← entity.rule qfi
  if rule.drbId ≠ 0 then return rule.drbId
  else if entity.defaultDrb ≠ 0 then return entity.defaultDrb
  else return sdapMapRuleEmpty

/-- `nr_sdap_construct_ctrl_pdu`. -/
def constructCtrlPdu (qfi : UInt8) : UlHdr :=
  { qfi := Fin.ofNat 64 qfi.toNat
    r := false
    dc := false }

/-- `nr_sdap_map_ctrl_pdu`. -/
def mapCtrlPdu (entity : SdapEntity) (mapType : CtrlPduMap) (dlQfi : UInt8) :
    Except Fault ℤ :=
  match mapType with
  | .defDrb => .ok entity.defaultDrb
  | .ruleDrb => qfi2drbMap entity dlQfi

/-- `nr_sdap_submit_ctrl_pdu`: what the PDCP gets. -/
def submitCtrlPdu (rnti : UInt16) (drb : ℤ) (hdr : UlHdr) : List CtrlPdu :=
  if drb ≠ 0 then [{ rnti, drb, hdr }] else []

/-- One round of the loop of `nr_sdap_ue_qfi2drb_config`. -/
def configQfi (entity : SdapEntity) (rnti : UInt16) (drbIdentity : UInt8) (qfi : UInt8) :
    Except Fault (List CtrlPdu) := do
  let rule ← entity.rule qfi
  let toDefault ←
    (if entity.defaultDrb ≠ 0 ∧ rule.drbId = sdapNoMappingRule then do
      let drb ← mapCtrlPdu entity .defDrb qfi
      return submitCtrlPdu rnti drb (constructCtrlPdu qfi)
    else .ok [])
  let toRule ←
    (if rule.drbId ≠ drbIdentity.toNat ∧ rule.hasSdap then do
      let drb ← mapCtrlPdu entity .ruleDrb qfi
      return submitCtrlPdu rnti drb (constructCtrlPdu qfi)
    else .ok [])
  return toDefault ++ toRule

/-- `nr_sdap_ue_qfi2drb_config`: control PDUs only, the table stays as it is. -/
def ueQfi2drbConfig (entity : SdapEntity) (rnti : UInt16) (drbIdentity : UInt8) :
    List ℤ → Except Fault (List CtrlPdu)
  | [] => .ok []
  | qfi :: mappedQfi2Add => do
      let pdus ← configQfi entity rnti drbIdentity (UInt8.ofInt qfi)
      let rest ← ueQfi2drbConfig entity rnti drbIdentity mappedQfi2Add
      return pdus ++ rest

/-- The arguments of `new_nr_sdap_entity`. An `NR_QFI_t` is a `long`; it is cut to
`uint8_t` where it is used. -/
structure NewArgs where
  hasSdap : Bool
  rnti : UInt16
  pdusessionId : ℤ
  isDefaultDrb : Bool
  drbIdentity : UInt8
  mappedQfi2Add : List ℤ
deriving DecidableEq, Repr

/-- The entity that `new_nr_sdap_entity` puts in the list. -/
def createEntity (addr : ℕ) (a : NewArgs) : SdapEntity :=
  let entity : SdapEntity :=
    { addr
      rnti := a.rnti
      defaultDrb := 0
      pdusessionId := a.pdusessionId
      qfi2drbTable := Vector.replicate sdapMaxQfi {} }
  if a.isDefaultDrb then
    a.mappedQfi2Add.foldl
      (fun entity qfi => qfi2drbMapUpdate entity (UInt8.ofInt qfi) entity.defaultDrb a.hasSdap)
      { entity with defaultDrb := a.drbIdentity.toNat }
  else entity

/-- `sdap_info`, and the next address `calloc` returns. -/
structure SdapInfo where
  entityLlist : List SdapEntity := []
  nextAddr : ℕ := 0
deriving DecidableEq, Repr

/-- The loop of `nr_sdap_get_entity`: on to the first entity of the UE, or to the last of
the list. -/
def seekEntity (rnti : UInt16) : SdapEntity → List SdapEntity → SdapEntity
  | entity, [] => entity
  | entity, next :: l => if entity.rnti ≠ rnti then seekEntity rnti next l else entity

/-- `nr_sdap_get_entity`. -/
def getEntity (info : SdapInfo) (rnti : UInt16) (pdusessionId : ℤ) : Option SdapEntity :=
  match info.entityLlist with
  | [] => none
  | entity :: next =>
      let entity := seekEntity rnti entity next
      if entity.rnti = rnti ∧ entity.pdusessionId = pdusessionId then some entity else none

/-- `new_nr_sdap_entity`. -/
def newEntity (info : SdapInfo) (a : NewArgs) : Except Fault (SdapInfo × List CtrlPdu) :=
  match getEntity info a.rnti a.pdusessionId with
  | some entity => do
      let pdus ← ueQfi2drbConfig entity a.rnti a.drbIdentity a.mappedQfi2Add
      return (info, pdus)
  | none =>
      .ok ({ entityLlist := createEntity info.nextAddr a :: info.entityLlist
             nextAddr := info.nextAddr + 1 }, [])

/-- The `else` branch of `delete_nr_sdap_entity`: the list from `entityPtr` on, after the
loop and the unlinking. An entity is unlinked if it is NOT of the UE. -/
def unlinkEntity (rnti : UInt16) (entityPrev : Option SdapEntity) (entityPtr : SdapEntity) :
    List SdapEntity → Except Fault (List SdapEntity)
  | [] =>
      if entityPtr.rnti ≠ rnti then
        match entityPrev with
        | none => .error .nullDereference
        | some _ => .ok []
      else .ok [entityPtr]
  | next :: l =>
      if entityPtr.rnti ≠ rnti then do
        let l ← unlinkEntity rnti (some entityPtr) next l
        return entityPtr :: l
      else .ok (entityPtr :: next :: l)

/-- `delete_nr_sdap_entity`. -/
def deleteEntity (info : SdapInfo) (rnti : UInt16) : Except Fault SdapInfo :=
  match info.entityLlist with
  | [] => .error .nullDereference
  | entityPtr :: next =>
      if entityPtr.rnti = rnti then .ok { info with entityLlist := next }
      else do
        let l ← unlinkEntity rnti none entityPtr next
        return { info with entityLlist := l }

/-- The calls that change the store. -/
inductive Call
  | new (a : NewArgs)
  | delete (rnti : UInt16)
deriving DecidableEq, Repr

def sdapStep (info : SdapInfo) : Call → Except Fault (SdapInfo × List CtrlPdu)
  | .new a => newEntity info a
  | .delete rnti => do
      let info ← deleteEntity info rnti
      return (info, [])

/-- A run from the empty store. -/
def sdapRun (calls : List Call) : Except Fault (SdapInfo × List CtrlPdu) :=
  Machine.run sdapStep {} calls

end OaiCu.Sdap
