import Mathlib.Data.Set.Basic
import OaiCu.Lib.Inverse
import OaiCu.Gtpu.Tunnels

/-!
# Consistency of the GTP-U tunnel tables

Both tables are for the same tunnels. Creation keeps this only for a bearer that is free and
whose number fits `uint8_t`, and `newGtpuDeleteTunnels` only if there is nothing to delete.
-/

namespace OaiCu.Gtpu

open Machine Inverse

/-- The incoming TEID of the tunnel of a UE and a bearer, by `ue2te_mapping`. -/
def teidOf (inst : EndPoint) (k : UInt16 × ℤ) : Option UInt32 :=
  (inst.tunnel k.1 k.2).map (·.teidIncoming)

/-- The UE and the bearer of an incoming TEID, by `te2ue_mapping`. -/
def ownerOf (inst : EndPoint) (teid : UInt32) : Option (UInt16 × ℤ) :=
  (inst.te2ueMapping.lookup teid).map fun d => (d.rnti, d.pdusessionId)

/-- The two tables describe the same tunnels. -/
def Consistent (inst : EndPoint) : Prop := IsInverse (teidOf inst) (ownerOf inst)

/-- What was deleted is in neither table. -/
def Gone (inst : EndPoint) : Call → Prop
  | .deleteTunnels rnti ids => ∀ id ∈ ids, inst.tunnel rnti id.toNat = none ∧
      ∀ teid, ownerOf inst teid ≠ some (rnti, (id.toNat : ℤ))
  | .deleteAll rnti => ∀ bearerId, inst.tunnel rnti bearerId = none ∧
      ∀ teid, ownerOf inst teid ≠ some (rnti, bearerId)
  | _ => True

/-- The tables are consistent after the call, and what it deleted is gone. -/
def TunnelsKept (inst : EndPoint) (call : Call) : Prop :=
  ∀ inst' out, gtpStep inst call = .ok (inst', out) → Consistent inst' ∧ Gone inst' call

/-- The calls that keep the tables consistent. -/
def Clean (inst : EndPoint) : Call → Prop
  | .create a =>
      inst.tunnel a.rnti a.outgoingBearerId = none ∧ 0 ≤ a.outgoingBearerId ∧
        a.outgoingBearerId < 256
  | .updateS1u rnti _ tunnels _ =>
      (∀ tunnel ∈ tunnels, inst.tunnel rnti tunnel.epsBearerId.toNat = none) ∧
        (tunnels.map (·.epsBearerId)).Nodup
  | .deleteTunnels rnti ids => ∀ id ∈ ids, inst.tunnel rnti id.toNat = none
  | .updateOutgoingTeid _ _ _ => True
  | .deleteAll _ => True

/-! ## Creation -/

/-- A tunnel is entered under a new TEID, which the tables are told in two ways. -/
theorem createTunnel_spec {inst inst' : EndPoint} {a : CreateArgs} {teid : UInt32}
    (h : createTunnel inst a = .ok (inst', teid)) :
    ownerOf inst teid = none ∧
      teidOf inst' = Function.update (teidOf inst) (a.rnti, a.outgoingBearerId) (some teid) ∧
      ownerOf inst' = Function.update (ownerOf inst) teid
        (some (a.rnti, ((UInt8.ofInt a.outgoingBearerId).toNat : ℤ))) := by
  rw [createTunnel] at h
  split at h
  · cases h
  · rename_i t hfind
    obtain ⟨bearer, -, h⟩ := bind_ok h
    cases h
    have hfresh : inst.te2ueMapping.lookup teid = none := by
      simpa using List.find?_some hfind
    refine ⟨by rw [ownerOf, hfresh]; rfl, ?_, ?_⟩
    · funext k
      obtain ⟨r, b⟩ := k
      by_cases hr : r = a.rnti
      · subst hr
        by_cases hb : b = a.outgoingBearerId
        · subst hb
          simp [teidOf, EndPoint.tunnel, EndPoint.bearers]
        · rw [Function.update_of_ne (by simp [hb])]
          simp [teidOf, EndPoint.tunnel, EndPoint.bearers, AList.lookup_insert_ne hb]
      · rw [Function.update_of_ne (by simp [hr])]
        simp [teidOf, EndPoint.tunnel, EndPoint.bearers, AList.lookup_insert_ne hr]
    · funext t
      by_cases ht : t = teid
      · subst ht
        simp [ownerOf]
      · rw [Function.update_of_ne ht]
        simp [ownerOf, AList.lookup_insert_ne ht]

theorem tunnel_eq_none {inst : EndPoint} {rnti : UInt16} {b : ℤ} :
    inst.tunnel rnti b = none ↔ teidOf inst (rnti, b) = none := by
  simp [teidOf]

theorem uint8_eq_iff (b : ℤ) : ((UInt8.ofInt b).toNat : ℤ) = b ↔ 0 ≤ b ∧ b < 256 := by
  have h : (UInt8.ofInt b).toNat = (b % 256).toNat := by
    rw [UInt8.ofInt, UInt8.toNat_ofNat', Nat.mod_eq_of_lt]
    · rfl
    · omega
  rw [h]
  omega

/-- A creation keeps the tables consistent exactly if the bearer is free and has a number of
eight bits. -/
theorem consistent_create {inst inst' : EndPoint} {a : CreateArgs} {teid : UInt32}
    (hc : Consistent inst) (h : createTunnel inst a = .ok (inst', teid)) :
    Consistent inst' ↔ Clean inst (.create a) := by
  obtain ⟨hfresh, h1, h2⟩ := createTunnel_spec h
  rw [Consistent, h1, h2, isInverse_update_iff hc hfresh, Clean, tunnel_eq_none, ← uint8_eq_iff]
  simp [and_comm]

/-- The tunnels of a request: the first one that overwrites a tunnel leaves its TEID behind. -/
theorem leak_createS1uTunnel {rnti : UInt16} {dstport : ℤ} : ∀ {tunnels : List S1uTunnel}
    {inst inst' : EndPoint} {teids : List UInt32}, Leak (teidOf inst) (ownerOf inst) →
    createS1uTunnel inst rnti dstport tunnels = .ok (inst', teids) →
    Leak (teidOf inst') (ownerOf inst')
  | [], inst, inst', teids, hl, h => by
      cases h
      exact hl
  | tunnel :: tunnels, inst, inst', teids, hl, h => by
      rw [createS1uTunnel] at h
      split at h
      · obtain ⟨⟨inst₁, teid⟩, h1, h⟩ := bind_ok h
        obtain ⟨⟨inst₂, teids₂⟩, h2, h⟩ := bind_ok h
        cases h
        obtain ⟨hfresh, ht, ho⟩ := createTunnel_spec h1
        refine leak_createS1uTunnel ?_ h2
        rw [ht, ho]
        exact leak_update hl hfresh
      · cases h

theorem consistent_createS1uTunnel {rnti : UInt16} {dstport : ℤ} : ∀ {tunnels : List S1uTunnel}
    {inst inst' : EndPoint} {teids : List UInt32}, Consistent inst →
    createS1uTunnel inst rnti dstport tunnels = .ok (inst', teids) →
    (Consistent inst' ↔
      (∀ tunnel ∈ tunnels, inst.tunnel rnti tunnel.epsBearerId.toNat = none) ∧
        (tunnels.map (·.epsBearerId)).Nodup)
  | [], inst, inst', teids, hc, h => by
      cases h
      simp [hc]
  | tunnel :: tunnels, inst, inst', teids, hc, h => by
      rw [createS1uTunnel] at h
      split at h
      · obtain ⟨⟨inst₁, teid⟩, h1, h⟩ := bind_ok h
        obtain ⟨⟨inst₂, teids₂⟩, h2, h⟩ := bind_ok h
        cases h
        obtain ⟨hfresh, ht, ho⟩ := createTunnel_spec h1
        have hid : Clean inst (.create (tunnel.args rnti dstport)) ↔
            inst.tunnel rnti tunnel.epsBearerId.toNat = none := by
          have := tunnel.epsBearerId.toNat_lt
          simp only [Clean, S1uTunnel.args]
          refine and_iff_left ⟨by omega, by omega⟩
        by_cases hfree : inst.tunnel rnti tunnel.epsBearerId.toNat = none
        · have hc₁ : Consistent inst₁ := (consistent_create hc h1).2 (hid.2 hfree)
          rw [consistent_createS1uTunnel hc₁ h2]
          -- after the first tunnel, its bearer is the only one taken in addition
          have htaken : ∀ b : UInt8, inst₁.tunnel rnti b.toNat = none ↔
              inst.tunnel rnti b.toNat = none ∧ b ≠ tunnel.epsBearerId := by
            intro b
            rw [tunnel_eq_none, tunnel_eq_none, ht]
            by_cases hb : b = tunnel.epsBearerId
            · subst hb
              simp [S1uTunnel.args]
            · rw [Function.update_of_ne]
              · simp [hb]
              · intro heq
                injection heq with _ heq
                simp only [S1uTunnel.args] at heq
                exact hb (UInt8.toNat_inj.1 (by exact_mod_cast heq))
          simp only [htaken, List.forall_mem_cons, List.map_cons, List.nodup_cons, List.mem_map,
            not_exists, not_and, hfree, true_and]
          grind
        · have hleak : Leak (teidOf inst₁) (ownerOf inst₁) := by
            rw [ht, ho]
            exact leak_of_used hc hfresh fun h => hfree (tunnel_eq_none.2 h)
          refine iff_of_false (not_isInverse_of_leak (leak_createS1uTunnel hleak h2)) ?_
          exact fun h => hfree (h.1 tunnel List.mem_cons_self)
      · cases h

/-! ## Deletion -/

theorem lookup_foldl_erase {l : List (Sigma fun _ : ℤ => Bearer)} :
    ∀ {m : AList fun _ : UInt32 => RntiData} {teid : UInt32},
    (l.foldl (fun m j => m.erase j.2.teidIncoming) m).lookup teid =
      if ∃ j ∈ l, j.2.teidIncoming = teid then none else m.lookup teid := by
  induction l with
  | nil => simp
  | cons j l ih =>
      intro m teid
      rw [List.foldl_cons, ih]
      by_cases hj : j.2.teidIncoming = teid
      · simp [hj]
      · rw [AList.lookup_erase_ne (Ne.symm hj)]
        simp only [List.exists_mem_cons_iff, hj, false_or]

theorem lookup_eraseTeids {bearers : TeidData} {teid : UInt32} : ∀ {ids : List UInt8}
    {m : AList fun _ : UInt32 => RntiData},
    (eraseTeids bearers m ids).lookup teid =
      if ∃ id ∈ ids, ∃ b, bearers.lookup (id.toNat : ℤ) = some b ∧ b.teidIncoming = teid then none
      else m.lookup teid
  | [], m => by simp [eraseTeids]
  | id :: ids, m => by
      rw [eraseTeids]
      split
      · rename_i h
        rw [lookup_eraseTeids]
        simp [h]
      · rename_i b h
        rw [lookup_eraseTeids]
        by_cases hb : b.teidIncoming = teid
        · simp [h, hb]
        · simp [h, hb, AList.lookup_erase_ne (Ne.symm hb)]

theorem bearers_of_lookup {inst : EndPoint} {rnti : UInt16} {bearers : TeidData}
    (h : inst.ue2teMapping.lookup rnti = some bearers) : inst.bearers rnti = bearers := by
  rw [EndPoint.bearers, h]
  rfl

theorem tunnel_of_lookup_none {inst : EndPoint} {rnti : UInt16}
    (h : inst.ue2teMapping.lookup rnti = none) (b : ℤ) : inst.tunnel rnti b = none := by
  rw [EndPoint.tunnel, EndPoint.bearers, h]
  rfl

/-- The TEIDs of the bearers of a UE. -/
theorem exists_entry_iff {inst : EndPoint} {rnti : UInt16} {bearers : TeidData}
    (h : inst.ue2teMapping.lookup rnti = some bearers) (teid : UInt32) :
    (∃ j ∈ bearers.entries, j.2.teidIncoming = teid) ↔
      ∃ k ∈ {k : UInt16 × ℤ | k.1 = rnti}, teidOf inst k = some teid := by
  have hb := bearers_of_lookup h
  constructor
  · rintro ⟨⟨b, br⟩, hj, rfl⟩
    refine ⟨(rnti, b), rfl, ?_⟩
    rw [teidOf, EndPoint.tunnel, hb, AList.mem_lookup_iff.2 hj]
    rfl
  · rintro ⟨⟨r, b⟩, rfl, hk⟩
    rw [teidOf, EndPoint.tunnel, hb, Option.map_eq_some_iff] at hk
    obtain ⟨br, hbr, rfl⟩ := hk
    exact ⟨⟨b, br⟩, AList.mem_lookup_iff.1 hbr, rfl⟩

/-- Erasing a UE takes its tunnels and no other ones. -/
theorem tunnel_erase {inst : EndPoint} {m : AList fun _ : UInt32 => RntiData} {rnti r : UInt16}
    (b : ℤ) :
    EndPoint.tunnel { te2ueMapping := m, ue2teMapping := inst.ue2teMapping.erase rnti } r b =
      if r = rnti then none else inst.tunnel r b := by
  split
  · rename_i h
    subst h
    exact tunnel_of_lookup_none (AList.lookup_erase _ _) b
  · rename_i h
    simp [EndPoint.tunnel, EndPoint.bearers, AList.lookup_erase_ne h]

theorem consistent_deleteAll {inst : EndPoint} (hc : Consistent inst) (rnti : UInt16) :
    Consistent (deleteAllTunnels inst rnti).1 ∧
      ∀ b, (deleteAllTunnels inst rnti).1.tunnel rnti b = none := by
  rw [deleteAllTunnels]
  split
  · rename_i h
    exact ⟨hc, tunnel_of_lookup_none h⟩
  · rename_i bearers h
    refine ⟨?_, fun b => by rw [tunnel_erase, if_pos rfl]⟩
    refine isInverse_erase hc (S := {k | k.1 = rnti}) ?_ ?_ ?_ ?_
    · rintro ⟨r, b⟩ (hr : r = rnti)
      exact tunnel_eq_none.1 (by rw [tunnel_erase, if_pos hr])
    · rintro ⟨r, b⟩ (hr : ¬ r = rnti)
      rw [teidOf, tunnel_erase, if_neg hr]
      rfl
    · intro teid hx
      rw [ownerOf, lookup_foldl_erase, if_pos ((exists_entry_iff h teid).2 hx)]
      rfl
    · intro teid hx
      rw [ownerOf, lookup_foldl_erase, if_neg fun hj => hx ((exists_entry_iff h teid).1 hj)]
      rfl

/-- Deleting tunnels by their sessions leaves them in `ue2te_mapping`. -/
theorem teidOf_deleteTunnels (inst : EndPoint) (rnti : UInt16) (ids : List UInt8) :
    teidOf (deleteTunnels inst rnti ids).1 = teidOf inst := by
  rw [deleteTunnels]
  split
  · rfl
  rename_i bearers h
  funext k
  obtain ⟨r, b⟩ := k
  by_cases hnil : bearers.entries.length = 0
  · simp only [teidOf, if_pos hnil, tunnel_erase]
    split
    · rename_i hr
      have hempty : bearers = ∅ := AList.ext (List.length_eq_zero_iff.1 hnil)
      rw [hr, EndPoint.tunnel, bearers_of_lookup h, hempty, AList.lookup_empty]
    · rfl
  · simp only [teidOf, if_neg hnil]
    rfl

/-- So the tables stay consistent exactly if there is none of them. -/
theorem consistent_deleteTunnels {inst : EndPoint} (hc : Consistent inst) (rnti : UInt16)
    (ids : List UInt8) :
    Consistent (deleteTunnels inst rnti ids).1 ↔ Clean inst (.deleteTunnels rnti ids) := by
  rw [Consistent, teidOf_deleteTunnels, deleteTunnels]
  split
  · rename_i h
    exact iff_of_true hc fun id _ => tunnel_of_lookup_none h id.toNat
  · rename_i bearers h
    have hb := bearers_of_lookup h
    have hiff : ∀ teid, (∃ id ∈ ids, ∃ b, bearers.lookup (id.toNat : ℤ) = some b ∧
        b.teidIncoming = teid) ↔
          ∃ k ∈ {k : UInt16 × ℤ | k.1 = rnti ∧ ∃ id ∈ ids, k.2 = (id : UInt8).toNat},
            teidOf inst k = some teid := by
      intro teid
      constructor
      · rintro ⟨id, hid, b, hl, rfl⟩
        refine ⟨(rnti, id.toNat), ⟨rfl, id, hid, rfl⟩, ?_⟩
        rw [teidOf, EndPoint.tunnel, hb, hl]
        rfl
      · rintro ⟨⟨r, x⟩, ⟨rfl, id, hid, rfl⟩, hk⟩
        rw [teidOf, EndPoint.tunnel, hb, Option.map_eq_some_iff] at hk
        obtain ⟨b, hl, ht⟩ := hk
        exact ⟨id, hid, b, hl, ht⟩
    rw [isInverse_erase_back_iff hc
      (S := {k : UInt16 × ℤ | k.1 = rnti ∧ ∃ id ∈ ids, k.2 = (id : UInt8).toNat})]
    · constructor
      · intro h id hid
        exact tunnel_eq_none.2 (h (rnti, id.toNat) ⟨rfl, id, hid, rfl⟩)
      · rintro h ⟨r, x⟩ ⟨rfl, id, hid, rfl⟩
        exact tunnel_eq_none.1 (h id hid)
    · intro teid hx
      rw [ownerOf, lookup_eraseTeids, if_pos ((hiff teid).2 hx)]
      rfl
    · intro teid hx
      rw [ownerOf, lookup_eraseTeids, if_neg fun hj => hx ((hiff teid).1 hj)]
      rfl

/-- The outgoing TEID is in no relation to the tables. -/
theorem consistent_updateOutgoing {inst : EndPoint} (hc : Consistent inst) (rnti : UInt16)
    (bearerId : UInt8) (newTeid : UInt32) :
    Consistent (updateTunnelOutgoingTeid inst rnti bearerId newTeid) := by
  rw [updateTunnelOutgoingTeid]
  split
  · exact hc
  rename_i bearers h
  split
  · exact hc
  rename_i bearer hl
  have hb := bearers_of_lookup h
  have hteid : teidOf { inst with
      ue2teMapping := inst.ue2teMapping.insert rnti (bearers.insert (bearerId.toNat : ℤ)
        { bearer with teidOutgoing := newTeid }) } = teidOf inst := by
    funext k
    obtain ⟨r, b⟩ := k
    by_cases hr : r = rnti
    · subst hr
      by_cases hbe : b = bearerId.toNat
      · subst hbe
        simp [teidOf, EndPoint.tunnel, EndPoint.bearers, h, hl]
      · simp [teidOf, EndPoint.tunnel, EndPoint.bearers, h, AList.lookup_insert_ne hbe]
    · simp [teidOf, EndPoint.tunnel, EndPoint.bearers, AList.lookup_insert_ne hr]
  rw [Consistent, hteid]
  exact hc

/-! ## Runs -/

/-- In consistent tables, what has no tunnel has no incoming TEID. -/
theorem owner_ne_of_tunnel_none {inst : EndPoint} (hc : Consistent inst) {rnti : UInt16} {b : ℤ}
    (h : inst.tunnel rnti b = none) (teid : UInt32) : ownerOf inst teid ≠ some (rnti, b) := by
  intro ho
  have := (hc (rnti, b) teid).2 ho
  rw [tunnel_eq_none.1 h] at this
  cases this

/-- A call that returns keeps the tables consistent exactly if it is clean. -/
theorem tunnelsKept_iff {inst inst' : EndPoint} {call : Call} {out : List Output}
    (hc : Consistent inst) (hs : gtpStep inst call = .ok (inst', out)) :
    TunnelsKept inst call ↔ Clean inst call := by
  have hkept : TunnelsKept inst call ↔ Consistent inst' ∧ Gone inst' call := by
    refine ⟨fun h => h inst' out hs, fun h i o hs' => ?_⟩
    rw [hs] at hs'
    cases hs'
    exact h
  rw [hkept]
  cases call with
  | create a =>
      obtain ⟨⟨inst₁, teid⟩, h1, h⟩ := bind_ok hs
      cases h
      exact (and_iff_left trivial).trans (consistent_create hc h1)
  | updateOutgoingTeid rnti bearerId newTeid =>
      cases hs
      exact iff_of_true ⟨consistent_updateOutgoing hc rnti bearerId newTeid, trivial⟩ trivial
  | updateS1u rnti dstport tunnels priorRnti =>
      obtain ⟨inst₁, h1, h⟩ := bind_ok hs
      cases h
      rw [updateS1uTunnel] at h1
      split at h1
      · obtain ⟨⟨inst₂, teids⟩, h2, h⟩ := bind_ok h1
        cases h
        exact (and_iff_left trivial).trans (consistent_createS1uTunnel hc h2)
      · cases h1
  | deleteTunnels rnti ids =>
      obtain rfl : (deleteTunnels inst rnti ids).1 = inst' :=
        congrArg Prod.fst (Except.ok.inj hs)
      rw [consistent_deleteTunnels hc]
      refine and_iff_left_of_imp fun hcl id hid => ?_
      have hnone : (deleteTunnels inst rnti ids).1.tunnel rnti id.toNat = none := by
        rw [tunnel_eq_none, teidOf_deleteTunnels, ← tunnel_eq_none]
        exact hcl id hid
      exact ⟨hnone, owner_ne_of_tunnel_none ((consistent_deleteTunnels hc rnti ids).2 hcl) hnone⟩
  | deleteAll rnti =>
      obtain rfl : (deleteAllTunnels inst rnti).1 = inst' :=
        congrArg Prod.fst (Except.ok.inj hs)
      obtain ⟨h1, h2⟩ := consistent_deleteAll hc rnti
      refine iff_of_true ⟨h1, fun b => ⟨h2 b, ?_⟩⟩ trivial
      exact owner_ne_of_tunnel_none h1 (h2 b)

/-- The tables stay consistent in a run, and what is deleted is gone, exactly if every call of
it is clean. -/
theorem tunnels_consistent (calls : List Call) (inst : EndPoint) (outs : List Output)
    (hrun : run gtpStep {} calls = .ok (inst, outs)) :
    Along gtpStep TunnelsKept {} calls ↔ Along gtpStep Clean {} calls := by
  have h0 : Consistent {} := by
    intro a b
    simp [teidOf, ownerOf, EndPoint.tunnel, EndPoint.bearers]
  refine along_iff_along_of_run (I := Consistent) ?_ ?_ h0 hrun
  · exact fun s i s' out hc hs => tunnelsKept_iff hc hs
  · exact fun s i s' out hc hcl hs => ((tunnelsKept_iff hc hs).2 hcl s' out hs).1

def exampleTunnel (rnti : UInt16) (bearerId : ℤ) (teid : UInt32) : Call :=
  .create
    { rnti
      incomingBearerId := 1
      outgoingBearerId := bearerId
      outgoingTeid := 7
      remoteAddr := { length := 32, buffer := Vector.replicate 20 10 }
      port := 2152
      callBack := pdcpDataReq
      newTeids := [teid] }

/-- Two tunnels of a UE, then all of them deleted. -/
theorem tunnels_consistent_deleted :
    Along gtpStep TunnelsKept {} [exampleTunnel 1 10 100, exampleTunnel 1 11 101, .deleteAll 1] := by
  refine (tunnels_consistent _ _ _ rfl).2 ⟨⟨rfl, by decide, by decide⟩, ?_⟩
  rintro _ _ ⟨⟩
  refine ⟨⟨rfl, by decide, by decide⟩, ?_⟩
  rintro _ _ ⟨⟩
  exact ⟨trivial, fun _ _ _ => trivial⟩

/-- A tunnel that is deleted by its session stays in `ue2te_mapping`. -/
theorem deleted_tunnel_stays :
    ¬ Along gtpStep TunnelsKept {} [exampleTunnel 1 10 100, .deleteTunnels 1 [10]] := by
  rintro ⟨-, h⟩
  obtain ⟨h, -⟩ := h _ _ rfl
  have := ((h _ _ rfl).2 10 List.mem_cons_self).1
  cases this

end OaiCu.Gtpu
