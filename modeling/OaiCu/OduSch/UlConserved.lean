import OaiCu.OduSch.UlDemand

/-!
# When the demand in the uplink is conserved

Each call before a slot refreshes the nodes of the groups with a volume. A node whose group has no
volume any more stays in its list as it is.
-/

namespace OaiCu.OduSch

/-! ## The estimate -/

namespace SchLcPrbEstimate.UlEstimated

variable {isDedicated : ℕ → Bool} {maxLc maxFreePRB : ℕ} {srRcvd srRcvd' : Bool}
  {est est' : SchLcPrbEstimate}

theorem slice (h : est.UlEstimated maxFreePRB srRcvd srRcvd' est') (b : Bool) :
    ∃ first first', ListServed first first' (est.sliceLcList b) (est'.sliceLcList b) := by
  obtain ⟨first, hded, hdef⟩ := h.lists
  cases b with
  | true => exact ⟨_, _, hded⟩
  | false => exact ⟨_, _, hdef⟩

theorem lcs (h : est.UlEstimated maxFreePRB srRcvd srRcvd' est') :
    ListServed srRcvd srRcvd' est.lcs est'.lcs := by
  obtain ⟨first, hded, hdef⟩ := h.lists
  exact hded.append hdef

theorem ok (h : est.UlEstimated maxFreePRB srRcvd srRcvd' est') (hok : est.Ok isDedicated maxLc) :
    est'.Ok isDedicated maxLc :=
  hok.of_subperm fun b => by
    obtain ⟨_, _, hb⟩ := h.slice b
    exact hb.ids.subperm

theorem demand_pos (h : est.UlEstimated maxFreePRB srRcvd srRcvd' est')
    (hok : est.Ok isDedicated maxLc) (hpos : ∀ n ∈ est.lcs, 0 < n.demand) :
    ∀ n ∈ est'.lcs, 0 < n.demand := by
  intro n' hn'
  obtain ⟨n, hn, -, hle⟩ := h.lcs.exists_old hok.lcs_nodup hn'
  exact (hpos n hn).trans_le hle

/-- Nothing is granted: there was no grant before and no room. -/
theorem of_total_eq_zero (h : est.UlEstimated maxFreePRB srRcvd srRcvd' est')
    (htotal : est'.totalAllocBO = 0) :
    (∀ n ∈ est.lcs, n.allocBO = 0) ∧ ¬est.Room maxFreePRB ∧ srRcvd' = srRcvd := by
  have hle := h.lcs.alloc
  rw [← totalAllocBO_eq, ← totalAllocBO_eq, htotal, Nat.le_zero] at hle
  have hnone := totalAllocBO_eq_zero.mp hle
  obtain ⟨hroom, -, hkeep⟩ := h.room hnone
  have hno : ¬est.Room maxFreePRB := fun hr => hroom.mpr hr htotal
  exact ⟨hnone, hno, hkeep hno⟩

end SchLcPrbEstimate.UlEstimated

namespace UlUe

variable {cfg : UlUeCfg} {ue ue' ue₁ ue₂ : UlUe} {lcg maxFreePRB : ℕ}

/-- What holds of a UE at all times. -/
structure Ok (cfg : UlUeCfg) (ue : UlUe) : Prop where
  lists : ue.ulLcPrbEst.Ok cfg.isDedicated MAX_NUM_LOGICAL_CHANNEL_GROUPS
  demand : ∀ n ∈ ue.ulLcPrbEst.lcs, 0 < n.demand

/-- The demands of the nodes are the volumes of their groups. -/
def Kept (ue : UlUe) : Prop := ∀ n ∈ ue.ulLcPrbEst.lcs, n.demand = ue.dataVol n.lcId

theorem payloadSize_ne_none : ue.payloadSize lcg ≠ none ↔ ue.dataVol lcg ≠ 0 := by
  rw [payloadSize]
  split <;> simp_all

theorem payloadSize_eq_some {size : ℕ} :
    ue.payloadSize lcg = some size ↔ ue.dataVol lcg ≠ 0 ∧ ue.dataVol lcg = size := by
  rw [payloadSize]
  split <;> simp_all

/-! ## The refresh and the estimate of a UE -/

/-- All groups with a volume were refreshed. -/
structure AllRefreshed (ue ue₁ : UlUe) : Prop where
  srRcvd : ue₁.srRcvd = ue.srRcvd
  bsrRcvd : ue₁.bsrRcvd = ue.bsrRcvd
  dataVol : ue₁.dataVol = ue.dataVol
  lists : SchLcPrbEstimate.Refreshed ue.payloadSize
    (fun lcg => lcg < MAX_NUM_LOGICAL_CHANNEL_GROUPS ∧ ue.dataVol lcg ≠ 0) ue.ulLcPrbEst
    ue₁.ulLcPrbEst

namespace AllRefreshed

theorem fresh (h : AllRefreshed ue ue₁) {n : LcInfo} (hn : n ∈ ue₁.ulLcPrbEst.lcs)
    (hlcg : n.lcId < MAX_NUM_LOGICAL_CHANNEL_GROUPS) (hvol : ue.dataVol n.lcId ≠ 0) :
    n.allocBO = 0 ∧ n.demand = ue.dataVol n.lcId := by
  obtain ⟨-, hsize, halloc, -⟩ | ⟨hno, -⟩ := (h.lists.mem n).mp hn
  · rw [LcInfo.demand, halloc, (payloadSize_eq_some.mp hsize).2]
    exact ⟨rfl, rfl⟩
  · exact absurd ⟨hlcg, hvol⟩ hno

/-- The nodes that were not refreshed are those without a volume. -/
theorem all_vol_iff (h : AllRefreshed ue ue₁) :
    (∀ n ∈ ue₁.ulLcPrbEst.lcs, ue.dataVol n.lcId ≠ 0) ↔
      ∀ n ∈ ue.ulLcPrbEst.lcs, ue.dataVol n.lcId ≠ 0 := by
  constructor
  · intro hvol n hn hzero
    exact hvol n ((h.lists.mem n).mpr (.inr ⟨fun h => h.2 hzero, hn⟩)) hzero
  · intro hvol n hn
    obtain ⟨⟨-, hne⟩, -⟩ | ⟨-, hn⟩ := (h.lists.mem n).mp hn
    · exact hne
    · exact hvol n hn

theorem no_grant_iff (h : AllRefreshed ue ue₁) (hok : ue₁.Ok cfg) :
    (∀ n ∈ ue₁.ulLcPrbEst.lcs, n.allocBO = 0) ↔
      ∀ n ∈ ue.ulLcPrbEst.lcs, ue.dataVol n.lcId = 0 → n.allocBO = 0 := by
  constructor
  · intro hnone n hn hzero
    exact hnone n ((h.lists.mem n).mpr (.inr ⟨fun h => h.2 hzero, hn⟩))
  · intro hnone n hn
    by_cases hzero : ue.dataVol n.lcId = 0
    · obtain ⟨⟨-, hne⟩, -⟩ | ⟨-, hn⟩ := (h.lists.mem n).mp hn
      · exact absurd hzero hne
      · exact hnone n hn hzero
    · exact (h.fresh hn (hok.lists.small n hn) hzero).1

end AllRefreshed

/-- What the estimate does to a UE. -/
structure Estimated (maxFreePRB : ℕ) (ue ue' : UlUe) : Prop where
  bsrRcvd : ue'.bsrRcvd = ue.bsrRcvd
  dataVol : ue'.dataVol = ue.dataVol
  lists : ue.ulLcPrbEst.UlEstimated maxFreePRB ue.srRcvd ue'.srRcvd ue'.ulLcPrbEst

theorem Estimated.ok (h : ue.Estimated maxFreePRB ue') (hok : ue.Ok cfg) : ue'.Ok cfg :=
  ⟨h.lists.ok hok.lists, h.lists.demand_pos hok.lists hok.demand⟩

/-- After a grant was found, the demands are still the volumes if and only if there was no SR and
each node had been refreshed. -/
theorem kept_iff (hall : AllRefreshed ue ue₁) (hest : ue₁.Estimated maxFreePRB ue₂)
    (hok : ue₁.Ok cfg) (htotal : ue₂.ulLcPrbEst.totalAllocBO ≠ 0) :
    ue₂.Kept ↔ ue.srRcvd = false ∧ ∀ n ∈ ue.ulLcPrbEst.lcs, ue.dataVol n.lcId ≠ 0 := by
  have hlcs := hest.lists.lcs
  rw [Kept, hest.dataVol, hall.dataVol, ← hall.all_vol_iff, ← hall.srRcvd]
  constructor
  · intro hkept
    have hvol : ∀ n ∈ ue₁.ulLcPrbEst.lcs, ue.dataVol n.lcId ≠ 0 := fun n hn => by
      obtain ⟨n', hn', hid, hle⟩ := hlcs.mono n hn
      have hpos := hok.demand n hn
      have hdemand := hkept n' hn'
      rw [hid] at hdemand
      omega
    refine ⟨?_, hvol⟩
    -- without an old grant, a channel was served, and the SR went to the first one
    have hnone : ∀ n ∈ ue₁.ulLcPrbEst.lcs, n.allocBO = 0 := fun n hn =>
      (hall.fresh hn (hok.lists.small n hn) (hvol n hn)).1
    obtain ⟨hroom, hcleared, -⟩ := hest.lists.room hnone
    by_contra hsr
    rw [Bool.not_eq_false] at hsr
    have hsr' := hcleared (hroom.mp htotal)
    obtain ⟨-, n, hn, n', hn', hid, hdemand⟩ :=
      hlcs.grow fun he => Bool.noConfusion (hsr'.symm.trans (he.trans hsr))
    rw [hkept n' hn', hid, (hall.fresh hn (hok.lists.small n hn) (hvol n hn)).2] at hdemand
    simp [UL_GRANT_SIZE] at hdemand
  · rintro ⟨hsr, hvol⟩ n' hn'
    have hsr' : ue₂.srRcvd = ue₁.srRcvd := by
      by_contra hne
      exact Bool.noConfusion (hsr.symm.trans (hlcs.grow hne).1)
    obtain ⟨n, hn, hid, hdemand⟩ := mem_of_key (hlcs.keep hsr').symm hn'
    rw [← hdemand, ← hid]
    exact (hall.fresh hn (hok.lists.small n hn) (hvol n hn)).2

end UlUe

/-! ## The end of the call -/

/-- What `updateBsrAndLcList` does with one list. -/
theorem updateBsrAndLcList_spec (ok : Bool) : ∀ (lcLL : List LcInfo) (dataVol : ℕ → ℕ),
    (lcLL.map (·.lcId)).Nodup →
    (∀ n ∈ lcLL, (updateBsrAndLcList ok lcLL dataVol).2 n.lcId =
      n.reqBO + if ok then 0 else n.allocBO) ∧
    (∀ lcg ∉ lcLL.map (·.lcId), (updateBsrAndLcList ok lcLL dataVol).2 lcg = dataVol lcg) ∧
    ((updateBsrAndLcList ok lcLL dataVol).1.map (·.lcId)).Sublist (lcLL.map (·.lcId)) ∧
    ∀ n ∈ (updateBsrAndLcList ok lcLL dataVol).1, 0 < n.demand
  | [], dataVol, _ => ⟨fun n hn => (List.not_mem_nil hn).elim, fun _ _ => rfl, .slnil,
      fun n hn => (List.not_mem_nil hn).elim⟩
  | m :: rest, dataVol, hnd => by
      obtain ⟨hnew, hnd⟩ := List.nodup_cons.mp hnd
      obtain ⟨hset, hkeep, hids, hdemand⟩ := updateBsrAndLcList_spec ok rest
        (Function.update dataVol m.lcId (m.reqBO + if ok then 0 else m.allocBO)) hnd
      rw [updateBsrAndLcList]
      refine ⟨fun n hn => ?_, fun lcg hlcg => ?_, ?_, fun n hn => ?_⟩
      · rcases List.mem_cons.mp hn with rfl | hn
        · rw [hkeep _ hnew, Function.update_self]
        · exact hset n hn
      · rw [List.map_cons, List.mem_cons, not_or] at hlcg
        rw [hkeep _ hlcg.2, Function.update_of_ne hlcg.1]
      · dsimp only
        by_cases hzero : m.reqBO + (if ok then 0 else m.allocBO) = 0
        · rw [if_pos hzero]
          exact hids.cons _
        · rw [if_neg hzero]
          exact hids.cons_cons _
      · dsimp only at hn
        by_cases hne : m.reqBO + (if ok then 0 else m.allocBO) = 0
        · rw [if_pos hne] at hn
          exact hdemand n hn
        · rw [if_neg hne] at hn
          rcases List.mem_cons.mp hn with rfl | hn
          · exact Nat.add_pos_left (Nat.pos_of_ne_zero hne) _
          · exact hdemand n hn

namespace UlUe

variable {cfg : UlUeCfg} {ue : UlUe} {lcg : ℕ}

/-- What `updateBsrAndLcList` does to a UE. -/
theorem updateBsr_spec (hok : ue.Ok cfg) (success : Bool) : (ue.updateBsr success).Ok cfg ∧
    (ue.updateBsr success).srRcvd = ue.srRcvd ∧ (ue.updateBsr success).bsrRcvd = ue.bsrRcvd ∧
    (∀ n ∈ ue.ulLcPrbEst.lcs, (ue.updateBsr success).dataVol n.lcId =
      n.reqBO + if success then 0 else n.allocBO) ∧
    ∀ lcg, (∀ n ∈ ue.ulLcPrbEst.lcs, n.lcId ≠ lcg) →
      (ue.updateBsr success).dataVol lcg = ue.dataVol lcg := by
  obtain ⟨hset, hkeep, hids, hdemand⟩ :=
    updateBsrAndLcList_spec success ue.ulLcPrbEst.dedLcList ue.dataVol (hok.lists.nodup true)
  obtain ⟨hset', hkeep', hids', hdemand'⟩ := updateBsrAndLcList_spec success ue.ulLcPrbEst.defLcList
    (updateBsrAndLcList success ue.ulLcPrbEst.dedLcList ue.dataVol).2 (hok.lists.nodup false)
  have hded := ue.ulLcPrbEst.dedLcList_setDedLcList_sublist
    (updateBsrAndLcList success ue.ulLcPrbEst.dedLcList ue.dataVol).1
  refine ⟨⟨hok.lists.of_subperm fun b => ?_, fun n' hn' => ?_⟩, rfl, rfl, fun n hn => ?_,
    fun lcg hlcg => ?_⟩
  · cases b with
    | true => exact ((hded.map _).trans hids).subperm
    | false => exact hids'.subperm
  · rcases List.mem_append.mp hn' with hn' | hn'
    · exact hdemand n' (hded.subset hn')
    · exact hdemand' n' hn'
  · rcases List.mem_append.mp hn with hn | hn
    · refine (hkeep' n.lcId fun hid => ?_).trans (hset n hn)
      obtain ⟨m, hm, hid⟩ := List.mem_map.mp hid
      have hfalse := hok.lists.slice false m hm
      rw [hid, hok.lists.slice true n hn] at hfalse
      cases hfalse
    · exact hset' n hn
  · refine (hkeep' lcg fun hid => ?_).trans (hkeep lcg fun hid => ?_)
    all_goals obtain ⟨n, hn, hid⟩ := List.mem_map.mp hid
    · exact hlcg n (List.mem_append_right _ hn) hid
    · exact hlcg n (List.mem_append_left _ hn) hid

/-- What a group was granted. -/
def grantedBO (lcg : ℕ) (ue : UlUe) : ℕ :=
  ((ue.ulLcPrbEst.lcs.filter fun n => n.lcId = lcg).map (·.allocBO)).sum

theorem grantedBO_of_mem (hok : ue.Ok cfg) {n : LcInfo} (hn : n ∈ ue.ulLcPrbEst.lcs) :
    ue.grantedBO n.lcId = n.allocBO := by
  have hfilter : (ue.ulLcPrbEst.lcs.filter fun m => m.lcId = n.lcId) = [n] := by
    refine List.perm_singleton.mp ((List.perm_ext_iff_of_nodup ?_ (List.nodup_singleton n)).mpr
      fun m => ?_)
    · exact (hok.lists.lcs_nodup.of_map _).filter _
    · rw [List.mem_filter, List.mem_singleton, decide_eq_true_eq]
      constructor
      · rintro ⟨hm, hid⟩
        exact hok.lists.eq_of_lcId hm hn hid
      · rintro rfl
        exact ⟨hn, rfl⟩
  rw [grantedBO, hfilter, List.map_cons, List.map_nil, List.sum_singleton]

theorem grantedBO_of_not_mem (h : ∀ n ∈ ue.ulLcPrbEst.lcs, n.lcId ≠ lcg) : ue.grantedBO lcg = 0 := by
  rw [grantedBO, List.filter_eq_nil_iff.mpr fun n hn => by simpa using h n hn]
  rfl

theorem updateBsr_false_iff (hok : ue.Ok cfg) :
    (ue.updateBsr false).dataVol = ue.dataVol ↔ ue.Kept := by
  obtain ⟨-, -, -, hset, hkeep⟩ := updateBsr_spec hok false
  constructor
  · intro h n hn
    rw [← h, hset n hn]
    rfl
  · intro hkept
    ext lcg
    by_cases hnode : ∃ n ∈ ue.ulLcPrbEst.lcs, n.lcId = lcg
    · obtain ⟨n, hn, rfl⟩ := hnode
      rw [hset n hn, ← hkept n hn]
      rfl
    · exact hkeep lcg fun n hn hid => hnode ⟨n, hn, hid⟩

theorem updateBsr_true_iff (hok : ue.Ok cfg) :
    (∀ lcg, (ue.updateBsr true).dataVol lcg + ue.grantedBO lcg = ue.dataVol lcg) ↔ ue.Kept := by
  obtain ⟨-, -, -, hset, hkeep⟩ := updateBsr_spec hok true
  constructor
  · intro h n hn
    rw [← h, hset n hn, grantedBO_of_mem hok hn]
    rfl
  · intro hkept lcg
    by_cases hnode : ∃ n ∈ ue.ulLcPrbEst.lcs, n.lcId = lcg
    · obtain ⟨n, hn, rfl⟩ := hnode
      rw [hset n hn, grantedBO_of_mem hok hn, ← hkept n hn]
      rfl
    · have hno : ∀ n ∈ ue.ulLcPrbEst.lcs, n.lcId ≠ lcg := fun n hn hid => hnode ⟨n, hn, hid⟩
      rw [hkeep lcg hno, grantedBO_of_not_mem hno, Nat.add_zero]

end UlUe

end OaiCu.OduSch
