import Mathlib.Data.List.AList
import OaiCu.Lib.Machine

/-!
# GTP-U tunnel tables (`gtp_itf.cpp`)

One instance of GTP-U has two tables: from the UE and the bearer to the tunnel
(`ue2te_mapping`), and from the incoming TEID to the UE and the bearer (`te2ue_mapping`).
A failed assertion ends the process, and so does the use of a past-the-end iterator here.
-/

namespace OaiCu.Gtpu

inductive Fault
  | assertFatal
  | pastTheEnd
  /-- All values that `gtpv1uNewTeid` returned so far are in use: the loop goes on. -/
  | noFreeTeid
deriving DecidableEq, Repr

/-- `transport_layer_addr_t`; the length is in bits. -/
structure TransportLayerAddr where
  length : UInt8
  buffer : Vector UInt8 20
deriving DecidableEq, Repr

/-- `gtpv1u_bearer_t`. -/
structure Bearer where
  teidIncoming : UInt32 := 0
  teidOutgoing : UInt32 := 0
  outgoingIpAddr : List UInt8 := List.replicate 4 0
  outgoingIp6Addr : List UInt8 := List.replicate 16 0
  outgoingPort : UInt16 := 0
  seqNum : UInt16 := 0
  npduNum : UInt8 := 0
deriving DecidableEq, Repr

/-- `rntiData_t`; the callback is given by its address. -/
structure RntiData where
  rnti : UInt16
  incomingRbId : UInt8
  callBack : ℕ
  pdusessionId : ℤ
deriving DecidableEq, Repr

/-- `teidData_t`. -/
abbrev TeidData := AList fun _ : ℤ => Bearer

/-- The tables of `gtpEndPoint`. -/
structure EndPoint where
  ue2teMapping : AList fun _ : UInt16 => TeidData := ∅
  te2ueMapping : AList fun _ : UInt32 => RntiData := ∅

/-- The bearers of the UE; none if it is not in the table. -/
def EndPoint.bearers (inst : EndPoint) (rnti : UInt16) : TeidData :=
  (inst.ue2teMapping.lookup rnti).getD ∅

/-- The tunnel of the UE and the bearer. -/
def EndPoint.tunnel (inst : EndPoint) (rnti : UInt16) (bearerId : ℤ) : Option Bearer :=
  (inst.bearers rnti).lookup bearerId

/-- `GtpuUpdateTunnelOutgoingTeid`. -/
def updateTunnelOutgoingTeid (inst : EndPoint) (rnti : UInt16) (bearerId : UInt8)
    (newOutgoingTeid : UInt32) : EndPoint :=
  match inst.ue2teMapping.lookup rnti with
  | none => inst
  | some bearers =>
      match bearers.lookup (bearerId.toNat : ℤ) with
      | none => inst
      | some bearer =>
          { inst with
            ue2teMapping := inst.ue2teMapping.insert rnti
              (bearers.insert (bearerId.toNat : ℤ)
                { bearer with teidOutgoing := newOutgoingTeid }) }

/-- The arguments of `newGtpuCreateTunnel`, and what `gtpv1uNewTeid` returns during the call. -/
structure CreateArgs where
  rnti : UInt16
  incomingBearerId : ℤ
  outgoingBearerId : ℤ
  outgoingTeid : UInt32
  remoteAddr : TransportLayerAddr
  port : ℤ
  callBack : ℕ
  newTeids : List UInt32
deriving DecidableEq, Repr

/-- The bearer gets the address of the peer. The case of both addresses falls through to the
assertion. -/
def Bearer.setAddr (bearer : Bearer) (remoteAddr : TransportLayerAddr) : Except Fault Bearer :=
  match remoteAddr.length.toNat / 8 with
  | 4 => .ok { bearer with outgoingIpAddr := remoteAddr.buffer.toList.take 4 }
  | 16 => .ok { bearer with outgoingIp6Addr := remoteAddr.buffer.toList.take 16 }
  | _ => .error .assertFatal

/-- `newGtpuCreateTunnel`. -/
def createTunnel (inst : EndPoint) (a : CreateArgs) : Except Fault (EndPoint × UInt32) :=
  match a.newTeids.find? fun teid => (inst.te2ueMapping.lookup teid).isNone with
  | none => .error .noFreeTeid
  | some incomingTeid => do
      let data : RntiData :=
        { rnti := a.rnti
          incomingRbId := UInt8.ofInt a.incomingBearerId
          callBack := a.callBack
          pdusessionId := (UInt8.ofInt a.outgoingBearerId).toNat }
      let bearer := (inst.tunnel a.rnti a.outgoingBearerId).getD {}
      let bearer ← bearer.setAddr a.remoteAddr
      let bearer :=
        { bearer with
          teidIncoming := incomingTeid
          outgoingPort := UInt16.ofInt a.port
          teidOutgoing := a.outgoingTeid }
      let inst :=
        { inst with
          te2ueMapping := inst.te2ueMapping.insert incomingTeid data
          ue2teMapping := inst.ue2teMapping.insert a.rnti
            ((inst.bearers a.rnti).insert a.outgoingBearerId bearer) }
      return (inst, incomingTeid)

/-- One tunnel of a `gtpv1u_enb_create_tunnel_req_t`. -/
structure S1uTunnel where
  sgwS1uTeid : UInt32
  epsBearerId : UInt8
  sgwAddr : TransportLayerAddr
  newTeids : List UInt32
deriving DecidableEq, Repr

/-- `pdcp_data_req`, the callback of an S1-U tunnel. -/
def pdcpDataReq : ℕ := 1

/-- The call of `newGtpuCreateTunnel` for one tunnel of the request. -/
def S1uTunnel.args (rnti : UInt16) (dstport : ℤ) (tunnel : S1uTunnel) : CreateArgs :=
  { rnti
    incomingBearerId := tunnel.epsBearerId.toNat - 4
    outgoingBearerId := tunnel.epsBearerId.toNat
    outgoingTeid := tunnel.sgwS1uTeid
    remoteAddr := tunnel.sgwAddr
    port := dstport
    callBack := pdcpDataReq
    newTeids := tunnel.newTeids }

/-- `gtpv1u_create_s1u_tunnel`; the TEIDs are those of the response. -/
def createS1uTunnel (inst : EndPoint) (rnti : UInt16) (dstport : ℤ) :
    List S1uTunnel → Except Fault (EndPoint × List UInt32)
  | [] => .ok (inst, [])
  | tunnel :: tunnels =>
      if tunnel.epsBearerId.toNat > 4 then do
        let (inst, teid) ← createTunnel inst (tunnel.args rnti dstport)
        let (inst, teids) ← createS1uTunnel inst rnti dstport tunnels
        return (inst, teid :: teids)
      else .error .assertFatal

/-- `gtpv1u_update_s1u_tunnel`. The test is the wrong way round: the tunnels of a prior UE
that exists stay and new ones are created, and for one that does not exist the iterator
behind the last entry is used. -/
def updateS1uTunnel (inst : EndPoint) (rnti : UInt16) (dstport : ℤ) (tunnels : List S1uTunnel)
    (priorRnti : UInt16) : Except Fault EndPoint :=
  match inst.ue2teMapping.lookup priorRnti with
  | some _ => do
      let (inst, _) ← createS1uTunnel inst rnti dstport tunnels
      return inst
  | none => .error .pastTheEnd

/-- `newGtpuDeleteAllTunnels`. -/
def deleteAllTunnels (inst : EndPoint) (rnti : UInt16) : EndPoint × ℤ :=
  match inst.ue2teMapping.lookup rnti with
  | none => (inst, -1)
  | some bearers =>
      ({ te2ueMapping := bearers.entries.foldl (fun m j => m.erase j.2.teidIncoming)
          inst.te2ueMapping
         ue2teMapping := inst.ue2teMapping.erase rnti }, 0)

/-- The loop of `newGtpuDeleteTunnels`. -/
def eraseTeids (bearers : TeidData) (m : AList fun _ : UInt32 => RntiData) :
    List UInt8 → AList fun _ : UInt32 => RntiData
  | [] => m
  | pdusessionId :: ids =>
      match bearers.lookup (pdusessionId.toNat : ℤ) with
      | none => eraseTeids bearers m ids
      | some bearer => eraseTeids bearers (m.erase bearer.teidIncoming) ids

/-- `newGtpuDeleteTunnels`. -/
def deleteTunnels (inst : EndPoint) (rnti : UInt16) (pdusessionIds : List UInt8) :
    EndPoint × ℤ :=
  match inst.ue2teMapping.lookup rnti with
  | none => (inst, -1)
  | some bearers =>
      ({ te2ueMapping := eraseTeids bearers inst.te2ueMapping pdusessionIds
         ue2teMapping :=
          if bearers.entries.length = 0 then inst.ue2teMapping.erase rnti
          else inst.ue2teMapping }, 0)

inductive Call
  | create (a : CreateArgs)
  | updateOutgoingTeid (rnti : UInt16) (bearerId : UInt8) (newOutgoingTeid : UInt32)
  | updateS1u (rnti : UInt16) (dstport : ℤ) (tunnels : List S1uTunnel) (priorRnti : UInt16)
  | deleteTunnels (rnti : UInt16) (pdusessionIds : List UInt8)
  | deleteAll (rnti : UInt16)

/-- What a call returns. -/
inductive Output
  | teid (teid : UInt32)
  | ret (value : ℤ)
deriving DecidableEq, Repr

def gtpStep (inst : EndPoint) : Call → Except Fault (EndPoint × List Output)
  | .create a => do
      let (inst, teid) ← createTunnel inst a
      return (inst, [.teid teid])
  | .updateOutgoingTeid rnti bearerId newOutgoingTeid =>
      .ok (updateTunnelOutgoingTeid inst rnti bearerId newOutgoingTeid, [])
  | .updateS1u rnti dstport tunnels priorRnti => do
      let inst ← updateS1uTunnel inst rnti dstport tunnels priorRnti
      return (inst, [.ret 0])
  | .deleteTunnels rnti pdusessionIds =>
      let (inst, value) := deleteTunnels inst rnti pdusessionIds
      .ok (inst, [.ret value])
  | .deleteAll rnti =>
      let (inst, value) := deleteAllTunnels inst rnti
      .ok (inst, [.ret value])

end OaiCu.Gtpu
