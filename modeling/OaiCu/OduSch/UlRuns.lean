import OaiCu.OduSch.UlConserved

/-!
# The demand in the uplink, over runs

A UE gets buffer reports and scheduling requests, and is scheduled in slots. The cell and the memory
may be different in each slot.
-/

namespace OaiCu.OduSch

namespace UlCell

/-- The PRBs of each slot are what grants left of those of the carrier. -/
def Ok (cell : UlCell) : Prop :=
  ∀ slot, ∃ grants, (cell.ulPrb slot).Inv cell.tdd.duplex.maxNumRb grants

/-- The PRBs that are free for the PUSCH, as many as there are in a row. -/
def puschBlock (cell : UlCell) (puschTime : SlotTimingInfo) (reserved : Option Reserved) : ℕ × ℕ :=
  searchLargestFreeBlock reserved (cell.ulPrb puschTime.slot).freePrbBlockList

theorem Ok.puschBlock_le {cell : UlCell} (h : cell.Ok) (puschTime : SlotTimingInfo)
    (reserved : Option Reserved) : (cell.puschBlock puschTime reserved).1 ≤ 273 := by
  obtain ⟨grants, hinv⟩ := h puschTime.slot
  refine (searchLargestFreeBlock_le hinv.freeList).trans ?_
  cases cell.tdd.duplex <;> decide

end UlCell

namespace UlUe

variable {cfg : UlUeCfg} {cell : UlCell} {ue ue₁ ue₂ : UlUe} {maxFreePRB : ℕ}

/-! ## The size of a grant -/

/-- No channel is waiting. -/
def Idle (ue : UlUe) : Prop :=
  ue.ulLcPrbEst.lcs = [] ∧ ∀ lcg < MAX_NUM_LOGICAL_CHANNEL_GROUPS, ue.dataVol lcg = 0

/-- A channel of a slice has a node or gets one. -/
def Waits (cfg : UlUeCfg) (ue : UlUe) (isDedicated : Bool) : Prop :=
  ∃ lcg, cfg.isDedicated lcg = isDedicated ∧ ((∃ n ∈ ue.ulLcPrbEst.lcs, n.lcId = lcg) ∨
    (lcg < MAX_NUM_LOGICAL_CHANNEL_GROUPS ∧ ue.dataVol lcg ≠ 0))

/-- There are PRBs for a channel that is waiting. -/
def RoomFor (cfg : UlUeCfg) (maxFreePRB : ℕ) (ue : UlUe) : Prop :=
  maxFreePRB ≠ 0 ∧
    ((ue.Waits cfg true ∧ ∃ rsvd ∈ ue.ulLcPrbEst.rsvdDedicatedPRB, rsvd ≤ maxFreePRB) ∨
      (ue.Waits cfg false ∧ maxFreePRB ∉ ue.ulLcPrbEst.rsvdDedicatedPRB))

/-- There is memory for the nodes of the groups with a volume. -/
def CanRefresh (cfg : UlUeCfg) (lcMemory : ℕ → Bool) (ue : UlUe) : Prop :=
  ∀ lcg < MAX_NUM_LOGICAL_CHANNEL_GROUPS,
    ue.ulLcPrbEst.CanRefresh cfg.isDedicated lcMemory ue.payloadSize lcg

namespace AllRefreshed

theorem lcId_mem (h : AllRefreshed ue ue₁) (lcg : ℕ) :
    (∃ n ∈ ue₁.ulLcPrbEst.lcs, n.lcId = lcg) ↔ (∃ n ∈ ue.ulLcPrbEst.lcs, n.lcId = lcg) ∨
      (lcg < MAX_NUM_LOGICAL_CHANNEL_GROUPS ∧ ue.dataVol lcg ≠ 0) :=
  h.lists.lcId_mem (fun _ hlcg => payloadSize_ne_none.mpr hlcg.2) lcg

theorem slice_ne_nil (h : AllRefreshed ue ue₁) (hok : ue₁.Ok cfg) (b : Bool) :
    ue₁.ulLcPrbEst.sliceLcList b ≠ [] ↔ ue.Waits cfg b := by
  simp only [Waits, ← h.lcId_mem]
  constructor
  · intro hne
    obtain ⟨n, hn⟩ := List.exists_mem_of_ne_nil _ hne
    obtain ⟨hn, hb⟩ := hok.lists.mem_slice.mp hn
    exact ⟨n.lcId, hb, n, hn, rfl⟩
  · rintro ⟨lcg, hb, n, hn, rfl⟩
    exact List.ne_nil_of_mem (hok.lists.mem_slice.mpr ⟨hn, hb⟩)

theorem room_iff (h : AllRefreshed ue ue₁) (hok : ue₁.Ok cfg) :
    ue₁.ulLcPrbEst.Room maxFreePRB ↔ ue.RoomFor cfg maxFreePRB := by
  rw [SchLcPrbEstimate.Room, RoomFor, h.lists.rsvd, ← h.slice_ne_nil hok true,
    ← h.slice_ne_nil hok false]
  rfl

theorem lcs_eq_nil (h : AllRefreshed ue ue₁) : ue₁.ulLcPrbEst.lcs = [] ↔ ue.Idle := by
  rw [Idle, List.eq_nil_iff_forall_not_mem]
  constructor
  · intro hnil
    have hno : ∀ lcg, ¬∃ n ∈ ue₁.ulLcPrbEst.lcs, n.lcId = lcg := fun lcg ⟨n, hn, _⟩ => hnil n hn
    simp only [h.lcId_mem, not_or, not_and, not_exists, not_not] at hno
    exact ⟨List.eq_nil_iff_forall_not_mem.mpr fun n hn => (hno n.lcId).1 n hn rfl, fun lcg hlcg =>
      (hno lcg).2 hlcg⟩
  · rintro ⟨hnil, hvol⟩ n hn
    obtain ⟨m, hm, -⟩ | ⟨hlt, hne⟩ := (h.lcId_mem n.lcId).mp ⟨n, hn, rfl⟩
    · rw [hnil] at hm
      cases hm
    · exact hne (hvol _ hlt)

theorem lists_eq_nil (h : AllRefreshed ue ue₁) :
    ue₁.ulLcPrbEst.defLcList = [] ∧ ue₁.ulLcPrbEst.dedLcList = [] ↔ ue.Idle := by
  rw [← h.lcs_eq_nil, SchLcPrbEstimate.lcs, List.append_eq_nil_iff, and_comm]

end AllRefreshed

theorem Idle.not_roomFor (h : ue.Idle) : ¬ue.RoomFor cfg maxFreePRB := by
  have hwaits : ∀ b, ¬ue.Waits cfg b := by
    rintro b ⟨lcg, -, ⟨n, hn, -⟩ | ⟨hlt, hvol⟩⟩
    · rw [h.1] at hn
      cases hn
    · exact hvol (h.2 lcg hlt)
  rintro ⟨-, ⟨hw, -⟩ | ⟨hw, -⟩⟩
  · exact hwaits true hw
  · exact hwaits false hw

/-- The refresh of a UE, which may end early. -/
theorem updateLcs_ue {lcMemory : ℕ → Bool} {stop : ℕ} {est : SchLcPrbEstimate} (hok : ue.Ok cfg)
    (h : ue.ulLcPrbEst.updateLcs cfg.isDedicated lcMemory ue.payloadSize
      MAX_NUM_LOGICAL_CHANNEL_GROUPS 0 = some (stop, est)) :
    Ok cfg { ue with ulLcPrbEst := est } ∧ stop ≤ MAX_NUM_LOGICAL_CHANNEL_GROUPS ∧
      (stop = MAX_NUM_LOGICAL_CHANNEL_GROUPS ↔ ue.CanRefresh cfg lcMemory) ∧
      (stop = MAX_NUM_LOGICAL_CHANNEL_GROUPS → AllRefreshed ue { ue with ulLcPrbEst := est }) := by
  obtain ⟨-, hle, hok', href⟩ := SchLcPrbEstimate.updateLcs_spec h hok.lists (Nat.zero_add _).le
  have hall := @SchLcPrbEstimate.updateLcs_all_iff cfg.isDedicated lcMemory ue.payloadSize
    MAX_NUM_LOGICAL_CHANNEL_GROUPS _ 0 ue.ulLcPrbEst hok.lists (Nat.zero_add _).le
  rw [Nat.zero_add] at hall hle
  refine ⟨⟨hok', fun n hn => ?_⟩, hle, ⟨fun hstop lcg hlt => ?_, fun hcan => ?_⟩, fun hstop =>
    ⟨rfl, rfl, rfl, href.congr fun lcg => ?_⟩⟩
  · obtain ⟨⟨-, hne⟩, hsize, halloc, -⟩ | ⟨-, hn⟩ := (href.mem n).mp hn
    · obtain ⟨hvol, hreq⟩ := payloadSize_eq_some.mp hsize
      rw [LcInfo.demand, halloc, ← hreq]
      exact Nat.pos_of_ne_zero hvol
    · exact hok.demand n hn
  · exact hall.mp ⟨est, hstop ▸ h⟩ lcg (Nat.zero_le _) hlt
  · obtain ⟨est', h'⟩ := hall.mpr fun lcg _ hlt => hcan lcg hlt
    cases h.symm.trans h'
    rfl
  · rw [hstop, payloadSize_ne_none]
    simp

theorem schCalcTbSize_grant : 0 < schCalcTbSize UL_GRANT_SIZE := by decide +kernel

/-- What `schCalculateUlTbs` comes to. -/
theorem schCalculateUlTbs_cases {puschTime : SlotTimingInfo} {symbLen total startPrb : ℕ}
    {ret : Bool} (hok : ue.Ok cfg) (hcell : cell.Ok)
    (h : ue.schCalculateUlTbs cfg cell puschTime symbLen = some (ret, total, startPrb, ue₂)) :
    (∃ est, ue₂ = { ue with ulLcPrbEst := est } ∧ ue₂.Ok cfg ∧
      ((¬ue.CanRefresh cfg cell.lcMemory ∧ ret = false ∧ total = 0) ∨
      (ue.CanRefresh cfg cell.lcMemory ∧ ue.Idle ∧ est.lcs = [] ∧ ret = true ∧
        (0 < total ↔ ue.srRcvd = true)))) ∨
    (ue.CanRefresh cfg cell.lcMemory ∧ ¬ue.Idle ∧ total = ue₂.ulLcPrbEst.totalAllocBO ∧
      (ret = true ↔ 0 < total) ∧ ∃ ue₁ reserved, ue₁.Ok cfg ∧ AllRefreshed ue ue₁ ∧
      cell.occasions.reservedUl puschTime = some reserved ∧
      ue₁.Estimated (cell.puschBlock puschTime reserved).1 ue₂) := by
  simp only [schCalculateUlTbs, Option.bind_eq_bind, Option.bind_eq_some_iff, Prod.exists] at h
  obtain ⟨stop, est, hlcgs, h⟩ := h
  obtain ⟨hok₁, hle, hcan, hall⟩ := updateLcs_ue hok hlcgs
  split at h
  · rename_i hlt
    cases h
    exact .inl ⟨est, rfl, hok₁, .inl ⟨fun h => hlt.ne (hcan.mpr h), rfl, rfl⟩⟩
  rename_i hstop
  obtain rfl : stop = MAX_NUM_LOGICAL_CHANNEL_GROUPS := Nat.le_antisymm hle (Nat.le_of_not_lt hstop)
  have hall := hall rfl
  have hcan := hcan.mp rfl
  split at h
  · rename_i hnil
    have hidle := hall.lists_eq_nil.mp hnil
    refine .inl ⟨est, ?_⟩
    split at h
    · rename_i hsr
      cases h
      exact ⟨rfl, hok₁, .inr ⟨hcan, hidle, hall.lcs_eq_nil.mpr hidle, rfl,
        iff_of_true schCalcTbSize_grant hsr⟩⟩
    · rename_i hsr
      cases h
      exact ⟨rfl, hok₁, .inr ⟨hcan, hidle, hall.lcs_eq_nil.mpr hidle, rfl,
        iff_of_false (lt_irrefl 0) hsr⟩⟩
  · rename_i hne
    obtain ⟨reserved, hreserved, h⟩ := Option.bind_eq_some_iff.mp h
    obtain ⟨⟨srRcvd, est'⟩, hest, h⟩ := Option.bind_eq_some_iff.mp h
    cases h
    exact .inr ⟨hcan, mt hall.lists_eq_nil.mpr hne, rfl, by simp [Nat.pos_iff_ne_zero],
      { ue with ulLcPrbEst := est }, reserved, hok₁, hall, hreserved, rfl, rfl,
      SchLcPrbEstimate.estimatePrb_spec hok₁.demand (hcell.puschBlock_le puschTime reserved) hest⟩

end UlUe

/-! ## One call -/

namespace UlCell

variable {cfg : UlUeCfg} {currTime : SlotTimingInfo} {ueId : ℕ} {cell cell' : UlCell}
  {ue ue' ue₂ : UlUe} {c : ChosenSlots K2Entry}

/-- The UE has a PUSCH that it did not have before. -/
def Granted (ueId : ℕ) (cell cell' : UlCell) : Prop :=
  ∃ slot, cell.owners.puschUe slot = 0 ∧ cell'.owners.puschUe slot = ueId ∧
    cell'.schPuschInfo slot ≠ none

theorem not_granted (hue : ueId ≠ 0) (h : cell'.owners = cell.owners) :
    ¬Granted ueId cell cell' := by
  rintro ⟨slot, hfree, htaken, -⟩
  rw [h, hfree] at htaken
  exact hue htaken.symm

/-- The chosen slot has no PUSCH yet. -/
theorem puschUe_of_findK2
    (h : cell.tdd.findK2 cell.owners cfg.k2InfoTbl currTime = some (some c)) :
    cell.owners.puschUe c.ulTime.slot = 0 := by
  rw [TddCell.findK2] at h
  obtain ⟨ok, -, h⟩ := Option.bind_eq_some_iff.mp h
  split at h
  · obtain ⟨r, hfirst, h⟩ := Option.map_eq_some_iff.mp h
    obtain ⟨e, rfl, rfl⟩ := Option.map_eq_some_iff.mp h
    obtain ⟨e', -, he⟩ := Search.first_hit hfirst
    obtain ⟨ok', -, he⟩ := Option.map_eq_some_iff.mp he
    split at he
    · rename_i hcheck
      cases he
      simpa using (Bool.and_eq_true_iff.mp hcheck).2
    · cases he
  · cases h

/-- Where the PRBs of a PUSCH are looked up, the lookup comes to its end. -/
def PuschEnds (cfg : UlUeCfg) (cell : UlCell) (c : ChosenSlots K2Entry) (ret : Bool)
    (total startPrb : ℕ) : Prop :=
  0 < total → ret = true → cell.dciMemory = true →
    ∃ p, cell.puschPrb cfg c.ulTime total startPrb c.entry = some p

section

variable {ret : Bool} {total startPrb : ℕ}
  (hc : cell.tdd.findK2 cell.owners cfg.k2InfoTbl currTime = some (some c))
  (ht : ue.schCalculateUlTbs cfg cell c.ulTime c.entry.symbolLength =
    some (ret, total, startPrb, ue₂))
include hc ht

/-- What the call comes to after the slot was found and the size of the grant is known. -/
theorem schProcessSrOrBsrReq_cases (hue : ueId ≠ 0) (hends : PuschEnds cfg cell c ret total startPrb) :
    ∃ ret' cell' ue', cell.schProcessSrOrBsrReq cfg currTime ueId ue = some (ret', cell', ue') ∧
      ((¬(0 < total ∧ ret = true) ∧ ret' = ret ∧ cell' = cell ∧ ue' = ue₂) ∨
      (0 < total ∧ ret = true ∧
        ((cell.dciMemory = false ∧ ret' = false ∧ cell' = cell ∧ ue' = ue₂.updateBsr false) ∨
        (cell.dciMemory = true ∧ cell.puschMemory = false ∧ ret' = true ∧
          ¬Granted ueId cell cell' ∧ ue' = ue₂.updateBsr false) ∨
        (cell.dciMemory = true ∧ cell.puschMemory = true ∧ Granted ueId cell cell' ∧
          ue' = { ue₂ with srRcvd := false, bsrRcvd := false }.updateBsr true)))) := by
  simp only [schProcessSrOrBsrReq, hc, ht, Option.bind_eq_bind, Option.bind_some]
  split
  · rename_i hgrant
    cases hdci : cell.dciMemory with
    | false => exact ⟨_, _, _, rfl, .inr ⟨hgrant.1, hgrant.2, .inl ⟨rfl, rfl, rfl, rfl⟩⟩⟩
    | true =>
        obtain ⟨⟨numRb, rsp⟩, hprb⟩ := hends hgrant.1 hgrant.2 hdci
        have hprb' : (cell.setUlGrant c.dciTime.slot ⟨none, ⟨0, 0⟩⟩).puschPrb cfg c.ulTime total
            startPrb c.entry = some (numRb, rsp) := hprb
        rw [Bool.not_true, if_neg Bool.false_ne_true]
        simp only [schFillPuschAlloc, hprb', Option.bind_eq_bind, Option.bind_some, Option.pure_def]
        cases hpusch : cell.puschMemory with
        | false =>
            simp only [setUlGrant, hpusch, Bool.false_eq_true, if_false]
            exact ⟨_, _, _, rfl, .inr ⟨hgrant.1, hgrant.2, .inr (.inl
              ⟨trivial, trivial, hgrant.2, not_granted hue rfl, rfl⟩)⟩⟩
        | true =>
            simp only [setUlGrant, hpusch, if_true]
            refine ⟨_, _, _, rfl, .inr ⟨hgrant.1, hgrant.2, .inr (.inr
              ⟨trivial, trivial, ⟨c.ulTime.slot, puschUe_of_findK2 hc, ?_, ?_⟩, rfl⟩)⟩⟩
            · exact Function.update_self _ _ _
            · dsimp only
              rw [Function.update_self]
              exact Option.some_ne_none _
  · rename_i hnone
    exact ⟨_, _, _, rfl, .inl ⟨hnone, rfl, rfl, rfl⟩⟩

/-- A call that returns has looked the PRBs up. -/
theorem puschEnds_of_eq {r : Bool × UlCell × UlUe}
    (h : cell.schProcessSrOrBsrReq cfg currTime ueId ue = some r) :
    PuschEnds cfg cell c ret total startPrb := by
  intro hpos hret hdci
  simp only [schProcessSrOrBsrReq, hc, ht, Option.bind_eq_bind, Option.bind_some, hpos, hret, hdci,
    and_self, if_true, Bool.not_true, Bool.false_eq_true, if_false] at h
  obtain ⟨alloc, halloc, -⟩ := Option.bind_eq_some_iff.mp h
  obtain ⟨p, hprb, -⟩ := Option.bind_eq_some_iff.mp halloc
  exact ⟨p, hprb⟩

end

/-- There is demand for the uplink. -/
def HasDemand (ue : UlUe) : Prop :=
  ue.srRcvd = true ∨ ∃ lcg < MAX_NUM_LOGICAL_CHANNEL_GROUPS, ue.dataVol lcg ≠ 0

/-- What a call should leave behind if there is a grant: each volume is lower by what the group was
granted, and nothing is pending. -/
def GrantRight (cfg : UlUeCfg) (currTime : SlotTimingInfo) (cell : UlCell) (ue ue' : UlUe) : Prop :=
  ue'.srRcvd = false ∧ ue'.bsrRcvd = false ∧ ∀ c ret total startPrb ue₂,
    cell.tdd.findK2 cell.owners cfg.k2InfoTbl currTime = some (some c) →
    ue.schCalculateUlTbs cfg cell c.ulTime c.entry.symbolLength =
      some (ret, total, startPrb, ue₂) →
    ∀ lcg, ue'.dataVol lcg + ue₂.grantedBO lcg = ue.dataVol lcg

/-- What a call should leave behind if there is no grant: what it found. -/
structure NoGrantRight (cell cell' : UlCell) (ue ue' : UlUe) (ret : Bool) : Prop where
  srRcvd : ue'.srRcvd = ue.srRcvd
  bsrRcvd : ue'.bsrRcvd = ue.bsrRcvd
  dataVol : ue'.dataVol = ue.dataVol
  ret : HasDemand ue → ret = false
  ulGrant : cell'.ulGrant = cell.ulGrant

/-- The call returns and conserves the demand. -/
def CallRight (cfg : UlUeCfg) (currTime : SlotTimingInfo) (ueId : ℕ) (cell : UlCell) (ue : UlUe) :
    Prop :=
  ∃ ret cell' ue', cell.schProcessSrOrBsrReq cfg currTime ueId ue = some (ret, cell', ue') ∧
    (Granted ueId cell cell' → GrantRight cfg currTime cell ue ue') ∧
    (¬Granted ueId cell cell' → NoGrantRight cell cell' ue ue' ret)

/-- No volume, SR or memory is in the way, if there is memory for the nodes. -/
def DemandSafe (cfg : UlUeCfg) (cell : UlCell) (c : ChosenSlots K2Entry) (ue : UlUe) : Prop :=
  ue.CanRefresh cfg cell.lcMemory →
    (ue.Idle → ue.srRcvd = true → cell.dciMemory = true → cell.puschMemory = true) ∧
    ∀ reserved, cell.occasions.reservedUl c.ulTime = some reserved →
      (∀ n ∈ ue.ulLcPrbEst.lcs, ue.dataVol n.lcId = 0 → n.allocBO = 0) ∧
      (ue.RoomFor cfg (cell.puschBlock c.ulTime reserved).1 →
        ue.srRcvd = false ∧ (∀ n ∈ ue.ulLcPrbEst.lcs, ue.dataVol n.lcId ≠ 0) ∧
          (cell.dciMemory = true → cell.puschMemory = true))

/-- The search for the slots, the sizes and the lookup of the PRBs are defined, and the demand is
safe in the slots that were found. -/
def CallSafe (cfg : UlUeCfg) (currTime : SlotTimingInfo) (cell : UlCell) (ue : UlUe) : Prop :=
  ∃ r, cell.tdd.findK2 cell.owners cfg.k2InfoTbl currTime = some r ∧ ∀ c ∈ r,
    ∃ ret total startPrb ue₂,
      ue.schCalculateUlTbs cfg cell c.ulTime c.entry.symbolLength =
        some (ret, total, startPrb, ue₂) ∧
      PuschEnds cfg cell c ret total startPrb ∧ DemandSafe cfg cell c ue

theorem callRight_iff_of_eq {ret : Bool}
    (h : cell.schProcessSrOrBsrReq cfg currTime ueId ue = some (ret, cell', ue')) :
    CallRight cfg currTime ueId cell ue ↔
      (Granted ueId cell cell' → GrantRight cfg currTime cell ue ue') ∧
      (¬Granted ueId cell cell' → NoGrantRight cell cell' ue ue' ret) := by
  constructor
  · rintro ⟨ret₁, cell₁, ue₁, h₁, hright⟩
    cases h.symm.trans h₁
    exact hright
  · exact fun hright => ⟨ret, cell', ue', h, hright⟩

section

variable {ret : Bool} {total startPrb : ℕ}

/-- The estimate left the demand as it was, and there is no grant. -/
theorem right_of_no_grant (hue : ueId ≠ 0)
    (hc : cell.tdd.findK2 cell.owners cfg.k2InfoTbl currTime = some (some c))
    (ht : ue.schCalculateUlTbs cfg cell c.ulTime c.entry.symbolLength =
      some (ret, total, startPrb, ue₂))
    (hnone : ¬(0 < total ∧ ret = true)) (hsr : ue₂.srRcvd = ue.srRcvd)
    (hbsr : ue₂.bsrRcvd = ue.bsrRcvd) (hvol : ue₂.dataVol = ue.dataVol)
    (hret : HasDemand ue → ret = false) : CallRight cfg currTime ueId cell ue := by
  obtain ⟨ret', cell', ue', hcall, ⟨-, rfl, rfl, rfl⟩ | ⟨hpos, htrue, -⟩⟩ :=
    schProcessSrOrBsrReq_cases hc ht hue fun hpos hret _ => absurd ⟨hpos, hret⟩ hnone
  · rw [callRight_iff_of_eq hcall]
    exact ⟨fun h => absurd h (not_granted hue rfl), fun _ => ⟨hsr, hbsr, hvol, hret, rfl⟩⟩
  · exact absurd ⟨hpos, htrue⟩ hnone

/-- The estimate found something to grant. -/
theorem right_iff_of_grant (hue : ueId ≠ 0)
    (hc : cell.tdd.findK2 cell.owners cfg.k2InfoTbl currTime = some (some c))
    (ht : ue.schCalculateUlTbs cfg cell c.ulTime c.entry.symbolLength =
      some (ret, total, startPrb, ue₂))
    (hends : PuschEnds cfg cell c ret total startPrb) (hgrant : 0 < total ∧ ret = true)
    (hok : ue₂.Ok cfg) (hbsr : ue₂.bsrRcvd = ue.bsrRcvd) (hvol : ue₂.dataVol = ue.dataVol)
    (hkept : ue₂.Kept → HasDemand ue ∧ (cell.dciMemory = false → ue₂.srRcvd = ue.srRcvd)) :
    CallRight cfg currTime ueId cell ue ↔
      ue₂.Kept ∧ (cell.dciMemory = true → cell.puschMemory = true) := by
  obtain ⟨-, hsr', hbsr', -⟩ := UlUe.updateBsr_spec hok false
  have hfalse := UlUe.updateBsr_false_iff hok
  have htrue := UlUe.updateBsr_true_iff hok
  rw [hvol] at hfalse htrue
  obtain ⟨ret', cell', ue', hcall, ⟨hnone, -⟩ | ⟨-, -, hcases⟩⟩ :=
    schProcessSrOrBsrReq_cases hc ht hue hends
  · exact absurd hgrant hnone
  rw [callRight_iff_of_eq hcall]
  obtain ⟨hdci, rfl, rfl, rfl⟩ | ⟨hdci, hpusch, rfl, hno, rfl⟩ | ⟨hdci, hpusch, hyes, rfl⟩ := hcases
  · rw [and_iff_left (fun h => Bool.noConfusion (hdci.symm.trans h)), ← hfalse]
    constructor
    · exact fun h => (h.2 (not_granted hue rfl)).dataVol
    · intro h
      have hsr := (hkept (hfalse.mp h)).2 hdci
      exact ⟨fun hg => absurd hg (not_granted hue rfl), fun _ =>
        ⟨hsr'.trans hsr, hbsr'.trans hbsr, h, fun _ => rfl, rfl⟩⟩
  · refine iff_of_false (fun h => ?_) fun h => Bool.noConfusion (hpusch.symm.trans (h.2 hdci))
    have hleft := h.2 hno
    have hdemand := (hkept (hfalse.mp hleft.dataVol)).1
    exact Bool.noConfusion (hleft.ret hdemand)
  · rw [and_iff_left fun _ => hpusch, ← htrue]
    constructor
    · intro h
      exact (h.1 hyes).2.2 c ret total startPrb ue₂ hc ht
    · intro h
      refine ⟨fun _ => ⟨rfl, rfl, fun c' ret' total' startPrb' ue₂' hc' ht' => ?_⟩,
        fun hno => absurd hyes hno⟩
      cases hc.symm.trans hc'
      cases ht.symm.trans ht'
      exact h

end

section

variable (hcan : ue.CanRefresh cfg cell.lcMemory)
include hcan

theorem demandSafe_iff_of_idle (hidle : ue.Idle) : DemandSafe cfg cell c ue ↔
    (ue.srRcvd = true → cell.dciMemory = true → cell.puschMemory = true) := by
  constructor
  · exact fun h => (h hcan).1 hidle
  · intro h _
    refine ⟨fun _ => h, fun reserved _ => ⟨fun n hn => ?_, fun hroom => ?_⟩⟩
    · rw [hidle.1] at hn
      cases hn
    · exact absurd hroom hidle.not_roomFor

theorem demandSafe_iff_of_busy (hidle : ¬ue.Idle) {reserved : Option Reserved}
    (hreserved : cell.occasions.reservedUl c.ulTime = some reserved) :
    DemandSafe cfg cell c ue ↔ (∀ n ∈ ue.ulLcPrbEst.lcs, ue.dataVol n.lcId = 0 → n.allocBO = 0) ∧
      (ue.RoomFor cfg (cell.puschBlock c.ulTime reserved).1 →
        ue.srRcvd = false ∧ (∀ n ∈ ue.ulLcPrbEst.lcs, ue.dataVol n.lcId ≠ 0) ∧
          (cell.dciMemory = true → cell.puschMemory = true)) := by
  constructor
  · exact fun h => (h hcan).2 reserved hreserved
  · intro h _
    refine ⟨fun hidle' => absurd hidle' hidle, fun reserved' hreserved' => ?_⟩
    cases hreserved.symm.trans hreserved'
    exact h

end

section

variable {ret : Bool} {total startPrb : ℕ}

/-- Without a channel in the lists only the SR asks for a grant. -/
theorem callRight_iff_of_idle (hue : ueId ≠ 0)
    (hc : cell.tdd.findK2 cell.owners cfg.k2InfoTbl currTime = some (some c))
    (ht : ue.schCalculateUlTbs cfg cell c.ulTime c.entry.symbolLength =
      some (ret, total, startPrb, ue₂))
    (hends : PuschEnds cfg cell c ret total startPrb) (hidle : ue.Idle) (hok : ue₂.Ok cfg)
    {est : SchLcPrbEstimate} (hue₂ : ue₂ = { ue with ulLcPrbEst := est }) (hnil : est.lcs = []) (hret : ret = true)
    (htotal : 0 < total ↔ ue.srRcvd = true) : CallRight cfg currTime ueId cell ue ↔
      (ue.srRcvd = true → cell.dciMemory = true → cell.puschMemory = true) := by
  subst hue₂
  have hkept : UlUe.Kept { ue with ulLcPrbEst := est } := fun n hn => by
    rw [hnil] at hn
    cases hn
  cases hsr : ue.srRcvd with
  | true =>
      rw [right_iff_of_grant hue hc ht hends ⟨htotal.mpr hsr, hret⟩ hok rfl rfl
        fun _ => ⟨.inl hsr, fun _ => rfl⟩, and_iff_right hkept]
      exact ⟨fun h _ => h, fun h => h rfl⟩
  | false =>
      refine iff_of_true ?_ fun h => by cases h
      refine right_of_no_grant hue hc ht (fun h => ?_) rfl rfl rfl ?_
      · rw [htotal.mp h.1] at hsr
        cases hsr
      · rintro (hsr' | ⟨lcg, hlt, hvol⟩)
        · exact Bool.noConfusion (hsr.symm.trans hsr')
        · exact absurd (hidle.2 lcg hlt) hvol

/-- A refreshed UE with channels in its lists. -/
theorem callRight_iff_of_busy (hue : ueId ≠ 0)
    (hc : cell.tdd.findK2 cell.owners cfg.k2InfoTbl currTime = some (some c))
    (ht : ue.schCalculateUlTbs cfg cell c.ulTime c.entry.symbolLength =
      some (ret, ue₂.ulLcPrbEst.totalAllocBO, startPrb, ue₂))
    (hends : PuschEnds cfg cell c ret ue₂.ulLcPrbEst.totalAllocBO startPrb)
    (hret : ret = true ↔ 0 < ue₂.ulLcPrbEst.totalAllocBO) (hidle : ¬ue.Idle)
    {ue₁ : UlUe} {maxFreePRB : ℕ} (hok : ue₁.Ok cfg) (hall : UlUe.AllRefreshed ue ue₁)
    (hest : ue₁.Estimated maxFreePRB ue₂) : CallRight cfg currTime ueId cell ue ↔
      (∀ n ∈ ue.ulLcPrbEst.lcs, ue.dataVol n.lcId = 0 → n.allocBO = 0) ∧
      (ue.RoomFor cfg maxFreePRB → ue.srRcvd = false ∧
        (∀ n ∈ ue.ulLcPrbEst.lcs, ue.dataVol n.lcId ≠ 0) ∧ (cell.dciMemory = true → cell.puschMemory = true)) := by
  have hbsr := hest.bsrRcvd.trans hall.bsrRcvd
  have hvol := hest.dataVol.trans hall.dataVol
  rw [← hall.no_grant_iff hok, ← hall.room_iff hok]
  by_cases htotal : ue₂.ulLcPrbEst.totalAllocBO = 0
  · obtain ⟨hnone, hroom, hsr⟩ := hest.lists.of_total_eq_zero htotal
    have hfalse : ret = false := by
      rw [← Bool.not_eq_true, hret, htotal]
      exact lt_irrefl 0
    refine iff_of_true ?_ ⟨hnone, fun h => absurd h hroom⟩
    exact right_of_no_grant hue hc ht (fun h => Bool.noConfusion (hfalse.symm.trans h.2))
      (hsr.trans hall.srRcvd) hbsr hvol fun _ => hfalse
  · have hpos := Nat.pos_of_ne_zero htotal
    have hkept := UlUe.kept_iff hall hest hok htotal
    rw [right_iff_of_grant hue hc ht hends ⟨hpos, hret.mpr hpos⟩ (hest.ok hok) hbsr hvol, hkept]
    · constructor
      · rintro ⟨⟨hsr, hvols⟩, hmem⟩
        refine ⟨(hall.no_grant_iff hok).mpr fun n hn hzero => ?_, fun _ => ⟨hsr, hvols, hmem⟩⟩
        exact absurd hzero (hvols n hn)
      · rintro ⟨hnone, hroom⟩
        obtain ⟨hsr, hvols, hmem⟩ := hroom ((hest.lists.room hnone).1.mp htotal)
        exact ⟨⟨hsr, hvols⟩, hmem⟩
    · intro hk
      obtain ⟨hsr, hvols⟩ := hkept.mp hk
      constructor
      · obtain ⟨n, hn⟩ := List.exists_mem_of_ne_nil _ (mt hall.lcs_eq_nil.mp hidle)
        exact .inr ⟨n.lcId, hok.lists.small n hn, hall.all_vol_iff.mpr hvols n hn⟩
      · intro _
        by_contra hne
        rw [← hall.srRcvd] at hne hsr
        exact Bool.noConfusion (hsr.symm.trans (hest.lists.lcs.grow hne).1)

end

/-- In the slots that were found. -/
theorem callRight_iff_of_found (hue : ueId ≠ 0) (hok : ue.Ok cfg) (hcell : cell.Ok)
    {ret : Bool} {total startPrb : ℕ}
    (hc : cell.tdd.findK2 cell.owners cfg.k2InfoTbl currTime = some (some c))
    (ht : ue.schCalculateUlTbs cfg cell c.ulTime c.entry.symbolLength =
      some (ret, total, startPrb, ue₂))
    (hends : PuschEnds cfg cell c ret total startPrb) :
    CallRight cfg currTime ueId cell ue ↔ DemandSafe cfg cell c ue := by
  obtain ⟨est, hue₂, hok₂, ⟨hno, rfl, rfl⟩ | ⟨hcan, hidle, hnil, rfl, htotal⟩⟩ |
    ⟨hcan, hidle, rfl, hret, ue₁, reserved, hok₁, hall, hreserved, hest⟩ :=
    UlUe.schCalculateUlTbs_cases hok hcell ht
  · subst hue₂
    exact iff_of_true (right_of_no_grant hue hc ht (by simp) rfl rfl rfl fun _ => rfl)
      fun hcan => absurd hcan hno
  · rw [demandSafe_iff_of_idle hcan hidle]
    exact callRight_iff_of_idle hue hc ht hends hidle hok₂ hue₂ hnil rfl htotal
  · rw [demandSafe_iff_of_busy hcan hidle hreserved]
    exact callRight_iff_of_busy hue hc ht hends hret hidle hok₁ hall hest

/-- A call conserves the demand if and only if it is safe. -/
theorem callRight_iff (hue : ueId ≠ 0) (hok : ue.Ok cfg) (hcell : cell.Ok) :
    CallRight cfg currTime ueId cell ue ↔ CallSafe cfg currTime cell ue := by
  constructor
  · intro hright
    have ⟨ret', cell', ue', hcall, _⟩ := hright
    have hcall' := hcall
    simp only [schProcessSrOrBsrReq, Option.bind_eq_bind, Option.bind_eq_some_iff] at hcall'
    obtain ⟨r, hr, hcall'⟩ := hcall'
    refine ⟨r, hr, ?_⟩
    rintro c ⟨⟩
    obtain ⟨⟨ret, total, startPrb, ue₂⟩, ht, -⟩ := Option.bind_eq_some_iff.mp hcall'
    have hends := puschEnds_of_eq hr ht hcall
    exact ⟨ret, total, startPrb, ue₂, ht, hends,
      (callRight_iff_of_found hue hok hcell hr ht hends).mp hright⟩
  · rintro ⟨r, hr, h⟩
    cases r with
    | none =>
        have hcall : cell.schProcessSrOrBsrReq cfg currTime ueId ue = some (false, cell, ue) := by
          rw [schProcessSrOrBsrReq, hr]
          rfl
        rw [callRight_iff_of_eq hcall]
        exact ⟨fun h => absurd h (not_granted hue rfl), fun _ => ⟨rfl, rfl, rfl, fun _ => rfl, rfl⟩⟩
    | some c =>
        obtain ⟨ret, total, startPrb, ue₂, ht, hends, hsafe⟩ := h c rfl
        exact (callRight_iff_of_found hue hok hcell hr ht hends).mpr hsafe

/-- The lists stay right, whatever comes of the call. -/
theorem schProcessSrOrBsrReq_ok (hue : ueId ≠ 0) (hok : ue.Ok cfg) (hcell : cell.Ok) {ret : Bool}
    (h : cell.schProcessSrOrBsrReq cfg currTime ueId ue = some (ret, cell', ue')) : ue'.Ok cfg := by
  have hcall := h
  simp only [schProcessSrOrBsrReq, Option.bind_eq_bind, Option.bind_eq_some_iff] at h
  obtain ⟨r, hc, h⟩ := h
  cases r with
  | none =>
      cases h
      exact hok
  | some c =>
      obtain ⟨⟨ret', total, startPrb, ue₂⟩, ht, -⟩ := Option.bind_eq_some_iff.mp h
      have hok₂ : ue₂.Ok cfg := by
        obtain ⟨-, -, hok₂, -⟩ | ⟨-, -, -, -, ue₁, reserved, hok₁, -, -, hest⟩ :=
          UlUe.schCalculateUlTbs_cases hok hcell ht
        · exact hok₂
        · exact hest.ok hok₁
      obtain ⟨_, _, _, hcall', hcases⟩ := schProcessSrOrBsrReq_cases hc ht hue
        (puschEnds_of_eq hc ht hcall)
      cases hcall.symm.trans hcall'
      obtain ⟨-, -, -, rfl⟩ | ⟨-, -, ⟨-, -, -, rfl⟩ | ⟨-, -, -, -, rfl⟩ | ⟨-, -, -, rfl⟩⟩ := hcases
      · exact hok₂
      · exact (UlUe.updateBsr_spec hok₂ false).1
      · exact (UlUe.updateBsr_spec hok₂ false).1
      · have hok' : UlUe.Ok cfg { ue₂ with srRcvd := false, bsrRcvd := false } :=
          ⟨hok₂.lists, hok₂.demand⟩
        exact (UlUe.updateBsr_spec hok' true).1

end UlCell

/-! ## Runs -/

/-- What happens to a UE. -/
inductive UlCall
  | bsr (dataVolInfo : List (ℕ × ℕ))
  | sr
  | slot (currTime : SlotTimingInfo) (cell : UlCell) (hcell : cell.Ok)

/-- `MacSchBsr`: the volumes of the groups in the report. -/
def UlUe.macSchBsr (dataVolInfo : List (ℕ × ℕ)) (ue : UlUe) : UlUe :=
  { ue with
    bsrRcvd := true
    dataVol := dataVolInfo.foldl (fun dataVol e => Function.update dataVol e.1 e.2) ue.dataVol }

/-- A UE after its configuration, with the PRBs of its dedicated slice if it has one. -/
def UlUe.init (rsvdDedicatedPRB : Option ℕ) : UlUe where
  srRcvd := false
  bsrRcvd := false
  dataVol := fun _ => 0
  ulLcPrbEst := .init rsvdDedicatedPRB

namespace UlCall

variable {cfg : UlUeCfg} {ueId : ℕ}

/-- A report about a group that does not exist and a slot that is not defined fail. -/
def step (cfg : UlUeCfg) (ueId : ℕ) (ue : UlUe) : UlCall → Except Unit (UlUe × List Bool)
  | .bsr dataVolInfo =>
    if ∀ e ∈ dataVolInfo, e.1 < MAX_NUM_LOGICAL_CHANNEL_GROUPS then
      .ok (ue.macSchBsr dataVolInfo, [])
    else .error ()
  | .sr => .ok ({ ue with srRcvd := true }, [])
  | .slot currTime cell _ =>
    match cell.schProcessSrOrBsrReq cfg currTime ueId ue with
    | none => .error ()
    | some (ret, _, ue) => .ok (ue, [ret])

/-- A slot conserves the demand. -/
def Right (cfg : UlUeCfg) (ueId : ℕ) (ue : UlUe) : UlCall → Prop
  | .slot currTime cell _ => cell.CallRight cfg currTime ueId ue
  | _ => True

def Safe (cfg : UlUeCfg) (ue : UlUe) : UlCall → Prop
  | .slot currTime cell _ => cell.CallSafe cfg currTime ue
  | _ => True

theorem init_ok (cfg : UlUeCfg) (rsvdDedicatedPRB : Option ℕ) :
    (UlUe.init rsvdDedicatedPRB).Ok cfg := by
  refine ⟨.init _ _ rsvdDedicatedPRB, fun n hn => ?_⟩
  rw [UlUe.init, SchLcPrbEstimate.lcs_init] at hn
  cases hn

theorem step_ok (hue : ueId ≠ 0) {ue ue' : UlUe} {call : UlCall} {out : List Bool}
    (hok : ue.Ok cfg) (h : step cfg ueId ue call = .ok (ue', out)) : ue'.Ok cfg := by
  cases call with
  | bsr dataVolInfo =>
      rw [step] at h
      split at h
      · cases h
        exact ⟨hok.lists, hok.demand⟩
      · cases h
  | sr =>
      cases h
      exact ⟨hok.lists, hok.demand⟩
  | slot currTime cell hcell =>
      rw [step] at h
      split at h
      · cases h
      · rename_i hcall
        cases h
        exact cell.schProcessSrOrBsrReq_ok hue hok hcell hcall

/-- **The demand in the uplink is conserved in every slot of a run if and only if each slot is
safe.** -/
theorem ulDemand_iff (cfg : UlUeCfg) (hue : ueId ≠ 0) (rsvdDedicatedPRB : Option ℕ)
    (calls : List UlCall) :
    Machine.Along (step cfg ueId) (Right cfg ueId) (UlUe.init rsvdDedicatedPRB) calls ↔
      Machine.Along (step cfg ueId) (Safe cfg) (UlUe.init rsvdDedicatedPRB) calls := by
  refine Machine.along_iff_along (fun ue call hok => ?_)
    (fun ue call ue' out hok _ hs => step_ok hue hok hs) (init_ok cfg rsvdDedicatedPRB)
  cases call with
  | bsr dataVolInfo => exact Iff.rfl
  | sr => exact Iff.rfl
  | slot currTime cell hcell => exact UlCell.callRight_iff hue hok hcell

end UlCall

/-- A UE without a dedicated slice. -/
def exampleUlCfg : UlUeCfg where
  crnti := 100
  isDedicated := fun _ => false
  mcsIndex := 4
  k2InfoTbl := fun _ => [⟨0, 4, 0, 14⟩]

theorem exampleCell_duplex : exampleCell.duplex = .fdd := rfl

/-- Nothing is scheduled yet, and there is memory for everything. -/
def exampleUlCell : UlCell where
  tdd := ⟨.fdd, 0, ⟨.ms10, fun _ _ => .dlSlot⟩⟩
  occasions := exampleCell
  duplex_eq := exampleCell_duplex
  owners := ⟨fun _ => 0, fun _ => 0, fun _ => 0, fun _ => 0⟩
  ulPrb := fun _ => schInitSlot .fdd
  schPuschInfo := fun _ => none
  ulGrant := fun _ => none
  lcMemory := fun _ => true
  dciMemory := true
  puschMemory := true

theorem exampleUlCell_ok : exampleUlCell.Ok := fun _ => ⟨[], inv_init .fdd⟩

theorem exampleUlSlots_found : exampleUlCell.tdd.findK2 exampleUlCell.owners
    exampleUlCfg.k2InfoTbl ⟨0, 1⟩ = some (some ⟨⟨0, 3⟩, ⟨0, 3⟩, ⟨0, 7⟩, ⟨0, 4, 0, 14⟩⟩) := by
  decide +kernel

/-- Reports of two groups, and a slot that has the PRBs for both. -/
theorem bsr_right : Machine.Along (UlCall.step exampleUlCfg 1) (UlCall.Right exampleUlCfg 1)
    (UlUe.init none)
    [.bsr [(1, 100)], .bsr [(2, 300)], .slot ⟨0, 1⟩ exampleUlCell exampleUlCell_ok] := by
  refine (UlCall.ulDemand_iff exampleUlCfg Nat.one_ne_zero none _).mpr
    ⟨trivial, fun ue₁ out₁ hs₁ => ⟨trivial, fun ue₂ out₂ hs₂ => ?_⟩⟩
  cases hs₁
  cases hs₂
  refine ⟨⟨_, exampleUlSlots_found, ?_⟩, fun _ _ _ => trivial⟩
  rintro _ ⟨⟩
  have htbs : ((((UlUe.init none).macSchBsr [(1, 100)]).macSchBsr [(2, 300)]).schCalculateUlTbs
      exampleUlCfg exampleUlCell ⟨0, 7⟩ 14).map (fun r => (r.1, r.2.1, r.2.2.1)) =
        some (true, 400, 0) := by
    decide +kernel
  obtain ⟨⟨ret, total, startPrb, ue₃⟩, ht, he⟩ := Option.map_eq_some_iff.mp htbs
  cases he
  refine ⟨true, 400, 0, ue₃, ht, fun _ _ _ => ?_, fun _ => ⟨fun _ _ _ => rfl, fun reserved _ =>
    ⟨fun n hn => ?_, fun _ => ⟨rfl, fun n hn => ?_, fun _ => rfl⟩⟩⟩⟩
  · have hprb : (exampleUlCell.puschPrb exampleUlCfg ⟨0, 7⟩ 400 0 ⟨0, 4, 0, 14⟩).isSome = true := by
      decide +kernel
    exact Option.isSome_iff_exists.mp hprb
  all_goals cases hn

/-- A UE with a volume of 100 bytes in one group, and an SR. -/
def srAndBsr : UlUe := { (UlUe.init none).macSchBsr [(1, 100)] with srRcvd := true }

/-- **A grant for an SR and a BSR is larger than what the volume loses.** -/
theorem srAndBsr_wrong : ¬Machine.Along (UlCall.step exampleUlCfg 1) (UlCall.Right exampleUlCfg 1)
    (UlUe.init none)
    [.bsr [(1, 100)], .sr, .slot ⟨0, 1⟩ exampleUlCell exampleUlCell_ok] := by
  intro h
  have hright : exampleUlCell.CallRight exampleUlCfg ⟨0, 1⟩ 1 srAndBsr :=
    ((h.2 _ _ rfl).2 _ _ rfl).1
  have hcall : (exampleUlCell.schProcessSrOrBsrReq exampleUlCfg ⟨0, 1⟩ 1 srAndBsr).map
      (fun r => (r.2.1.owners.puschUe 7, (r.2.1.schPuschInfo 7).isSome,
        r.2.2.dataVol 1)) = some (1, true, 0) := by
    decide +kernel
  have htbs : (srAndBsr.schCalculateUlTbs exampleUlCfg exampleUlCell ⟨0, 7⟩ 14).map
      (fun r => r.2.2.2.grantedBO 1) = some 324 := by
    decide +kernel
  obtain ⟨⟨ret, cell', ue'⟩, hret, he⟩ := Option.map_eq_some_iff.mp hcall
  simp only [Prod.mk.injEq] at he
  obtain ⟨howner, hpusch, hvol⟩ := he
  obtain ⟨⟨ret₂, total, startPrb, ue₂⟩, ht, hgranted⟩ := Option.map_eq_some_iff.mp htbs
  obtain ⟨_, _, _, hret', hgrant, -⟩ := hright
  cases hret.symm.trans hret'
  have hdemand := (hgrant ⟨7, rfl, howner, Option.isSome_iff_ne_none.mp hpusch⟩).2.2 _ _ _ _ _
    exampleUlSlots_found ht 1
  rw [hvol, show ue₂.grantedBO 1 = 324 from hgranted] at hdemand
  exact absurd hdemand (by decide)

end OaiCu.OduSch
