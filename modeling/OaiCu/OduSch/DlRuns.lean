import OaiCu.OduSch.DlConserved
import OaiCu.OduSch.PendingUes

/-!
# The demand in the downlink, over runs

The RLC indicates the occupancies of its buffers, and the UE is scheduled in slots. A slot should
lower the demand of each channel by the bytes in the entry that it keeps, and only by them.
-/

namespace OaiCu.OduSch

/-- The bytes that are scheduled for a channel. -/
def bytesOf (lcId : ℕ) (lcSchInfo : List LcSchInfo) : ℕ :=
  ((lcSchInfo.filter fun info => info.lcId = lcId).map (·.schBytes)).sum

@[simp] theorem bytesOf_nil (lcId : ℕ) : bytesOf lcId [] = 0 := rfl

theorem bytesOf_append (lcId : ℕ) (l l' : List LcSchInfo) :
    bytesOf lcId (l ++ l') = bytesOf lcId l + bytesOf lcId l' := by
  rw [bytesOf, List.filter_append, List.map_append, List.sum_append]
  rfl

theorem bytesOf_map (lcId : ℕ) (l : List LcInfo) :
    bytesOf lcId (l.map fun n => ⟨n.lcId, n.allocBO⟩) = allocOf lcId l := by
  rw [bytesOf, allocOf, List.filter_map, List.map_map]
  rfl

namespace DlUe

variable {cfg : DlUeCfg} {ue ue' : DlUe} {lcId : ℕ}

/-- The outstanding demand of a channel. -/
def demand (lcId : ℕ) (ue : DlUe) : ℕ :=
  (ue.payloadSize lcId).getD (reqOf lcId ue.dlLcPrbEst.lcs)

/-- What holds of a UE at all times. -/
structure Ok (cfg : DlUeCfg) (ue : DlUe) : Prop where
  lists : ue.dlLcPrbEst.Ok cfg.isDedicated MAX_NUM_LC
  small : ∀ n ∈ ue.dlLcPrbEst.lcs, n.reqBO < 2 ^ 32
  bo : ∀ lcId, MAX_NUM_LC ≤ lcId → ue.bo lcId = 0

theorem payloadSize_eq_none : ue.payloadSize lcId = none ↔ ue.bo lcId = 0 := by
  rw [payloadSize]
  split <;> simp_all

theorem payloadSize_lt {size : ℕ} (h : ue.payloadSize lcId = some size) : size < 2 ^ 32 := by
  rw [payloadSize] at h
  split at h
  · cases h
  · rw [← Option.some.inj h]
    exact Nat.mod_lt _ (by omega)

theorem demand_of_bo (h : ue.bo lcId = 0) : ue.demand lcId = reqOf lcId ue.dlLcPrbEst.lcs := by
  rw [demand, payloadSize_eq_none.mpr h, Option.getD_none]

/-- The lists have the same node of a channel, or none. -/
theorem reqOf_congr {l l' : List LcInfo} (hnd : (l.map (·.lcId)).Nodup)
    (hnd' : (l'.map (·.lcId)).Nodup) (h : ∀ n, n.lcId = lcId → (n ∈ l' ↔ n ∈ l)) :
    reqOf lcId l' = reqOf lcId l := by
  by_cases hnode : ∃ n ∈ l, n.lcId = lcId
  · obtain ⟨n, hn, rfl⟩ := hnode
    rw [reqOf_of_mem hnd hn, reqOf_of_mem hnd' ((h n rfl).mpr hn)]
  · have hno : ∀ n ∈ l, n.lcId ≠ lcId := fun n hn hid => hnode ⟨n, hn, hid⟩
    rw [reqOf_of_not_mem hno, reqOf_of_not_mem fun n hn hid => hno n ((h n hid).mp hn) hid]

/-- The UE after the loop over its channels. -/
def afterUpdate (stop : ℕ) (est : SchLcPrbEstimate) (ue : DlUe) : DlUe :=
  { ue with bo := fun lcId => if lcId < stop then 0 else ue.bo lcId, dlLcPrbEst := est }

/-- The loop over the channels moves the occupancies to the lists. -/
theorem afterUpdate_spec {lcMemory : ℕ → Bool} {stop : ℕ} {est : SchLcPrbEstimate} (hok : ue.Ok cfg)
    (h : ue.dlLcPrbEst.updateLcs cfg.isDedicated lcMemory ue.payloadSize MAX_NUM_LC 0 =
      some (stop, est)) : (ue.afterUpdate stop est).Ok cfg ∧ stop ≤ MAX_NUM_LC ∧
      ∀ lcId, (ue.afterUpdate stop est).demand lcId = ue.demand lcId := by
  obtain ⟨-, hle, hok', href⟩ := SchLcPrbEstimate.updateLcs_spec h hok.lists (Nat.zero_add _).le
  rw [Nat.zero_add] at hle
  refine ⟨⟨hok', fun n hn => ?_, fun lcId hge => ?_⟩, hle, fun lcId => ?_⟩
  · obtain ⟨-, hsize, -⟩ | ⟨-, hn⟩ := (href.mem n).mp hn
    · exact payloadSize_lt hsize
    · exact hok.small n hn
  · rw [afterUpdate]
    dsimp only
    rw [hok.bo lcId hge, ite_self]
  by_cases hlt : lcId < stop
  · have hzero : (ue.afterUpdate stop est).bo lcId = 0 := if_pos hlt
    rw [demand_of_bo hzero, demand]
    cases hsize : ue.payloadSize lcId with
    | none =>
        change reqOf lcId est.lcs = reqOf lcId ue.dlLcPrbEst.lcs
        refine reqOf_congr hok.lists.lcs_nodup hok'.lcs_nodup fun n hid => ?_
        rw [href.mem, hid, hsize]
        simp
    | some size =>
        have hnew : (⟨lcId, size, 0, 0⟩ : LcInfo) ∈ est.lcs := (href.mem _).mpr
          (.inl ⟨⟨⟨Nat.zero_le _, hlt⟩, hsize ▸ Option.some_ne_none size⟩, hsize, rfl, rfl⟩)
        exact reqOf_of_mem hok'.lcs_nodup hnew
  · have hsame : (ue.afterUpdate stop est).payloadSize lcId = ue.payloadSize lcId := by
      have hbo : (ue.afterUpdate stop est).bo lcId = ue.bo lcId := if_neg hlt
      rw [payloadSize, payloadSize, hbo]
    have hreq : reqOf lcId est.lcs = reqOf lcId ue.dlLcPrbEst.lcs :=
      reqOf_congr hok.lists.lcs_nodup hok'.lcs_nodup fun n hid => by
        rw [href.mem, hid]
        simp [hlt]
    rw [demand, demand, hsame]
    exact congrArg _ hreq

end DlUe

namespace DlCell

variable {cfg : DlUeCfg} {cell cell' : DlCell} {slot : ℕ}

/-- The entries that are kept for the UE in a slot. -/
def entries (cell : DlCell) (slot : ℕ) : List DlMsgSchInfo :=
  ((cell.dlMsgAlloc slot).map (·.dlMsgSchedInfo)).getD []

/-- What the entries report that a slot gained. -/
def keptInfo (slot : ℕ) (cell cell' : DlCell) : List LcSchInfo :=
  ((cell'.entries slot).drop (cell.entries slot).length).flatMap (·.lcSchInfo)

theorem keptInfo_of_eq (h : cell'.entries slot = cell.entries slot) :
    keptInfo slot cell cell' = [] := by
  rw [keptInfo, h, List.drop_length]
  rfl

theorem keptInfo_of_append (entry : DlMsgSchInfo)
    (h : cell'.entries slot = cell.entries slot ++ [entry]) :
    keptInfo slot cell cell' = entry.lcSchInfo := by
  rw [keptInfo, h, List.drop_left]
  exact List.append_nil _

theorem messages_entries : (cell.messages cfg slot).dlMsgSchedInfo = cell.entries slot := by
  rw [messages, entries]
  cases cell.dlMsgAlloc slot <;> rfl

theorem entries_setDlMsgAlloc (alloc : DlMsgAlloc) :
    (cell.setDlMsgAlloc slot (some alloc)).entries slot = alloc.dlMsgSchedInfo := by
  rw [entries, setDlMsgAlloc]
  dsimp only
  rw [Function.update_self]
  rfl

theorem entries_setDlMsgAlloc_of_ne {slot' : ℕ} (h : slot' ≠ slot) (alloc : Option DlMsgAlloc) :
    (cell.setDlMsgAlloc slot alloc).entries slot' = cell.entries slot' := by
  rw [entries, setDlMsgAlloc]
  dsimp only
  rw [Function.update_of_ne h]
  rfl

theorem entries_dropMessage : (cell.dropMessage cfg slot).entries slot = cell.entries slot := by
  rw [dropMessage]
  split
  · rename_i hnil
    rw [messages_entries] at hnil
    rw [hnil, entries, setDlMsgAlloc]
    dsimp only
    rw [Function.update_self]
    rfl
  · rfl

theorem entries_keepMessage (entry : DlMsgSchInfo) :
    (cell.keepMessage cfg slot entry).entries slot = cell.entries slot ++ [entry] := by
  rw [keepMessage, entries_setDlMsgAlloc, messages_entries]

theorem entries_keepMessage_of_ne {slot' : ℕ} (h : slot' ≠ slot) (entry : DlMsgSchInfo) :
    (cell.keepMessage cfg slot entry).entries slot' = cell.entries slot' :=
  entries_setDlMsgAlloc_of_ne h _

/-- There is memory for the message in the slot of its PDSCH. -/
def CanStore (dciSlot pdschSlot : ℕ) (cell : DlCell) : Prop :=
  dciSlot = pdschSlot ∨ cell.dlMsgAlloc pdschSlot ≠ none ∨ cell.dlMsgMemory = true

instance (dciSlot pdschSlot : ℕ) (cell : DlCell) : Decidable (cell.CanStore dciSlot pdschSlot) :=
  inferInstanceAs (Decidable (_ ∨ _ ∨ _))

theorem storeMessage_spec (cfg : DlUeCfg) (cell : DlCell) (dciSlot pdschSlot : ℕ)
    (entry : DlMsgSchInfo) :
    ((cell.storeMessage cfg dciSlot pdschSlot entry).1 = true ↔ cell.CanStore dciSlot pdschSlot) ∧
    (cell.CanStore dciSlot pdschSlot → keptInfo dciSlot cell
      (cell.storeMessage cfg dciSlot pdschSlot entry).2 = entry.lcSchInfo) ∧
    (¬cell.CanStore dciSlot pdschSlot → keptInfo dciSlot cell
      (cell.storeMessage cfg dciSlot pdschSlot entry).2 = []) := by
  rw [storeMessage]
  split
  · rename_i hsame
    have hcan : cell.CanStore dciSlot pdschSlot := .inl hsame
    refine ⟨iff_of_true rfl hcan, fun _ => ?_, fun h => absurd hcan h⟩
    exact keptInfo_of_append { entry with pduPres := .both } (entries_keepMessage _)
  rename_i hne
  split
  · rename_i hfull
    have hno : ¬cell.CanStore dciSlot pdschSlot := by
      rintro (hsame | hold | hmem)
      · exact hne hsame
      · exact hold hfull.1
      · rw [hmem] at hfull
        exact Bool.noConfusion hfull.2
    exact ⟨iff_of_false Bool.noConfusion hno, fun h => absurd h hno,
      fun _ => keptInfo_of_eq entries_dropMessage⟩
  · rename_i hfull
    have hcan : cell.CanStore dciSlot pdschSlot := by
      refine .inr ?_
      by_contra hno
      rw [not_or, not_not, Bool.not_eq_true] at hno
      exact hfull ⟨hno.1, by rw [hno.2]; rfl⟩
    refine ⟨iff_of_true rfl hcan, fun _ => ?_, fun h => absurd hcan h⟩
    refine keptInfo_of_append { entry with pduPres := .pdcchPdu, pdschSlot := pdschSlot } ?_
    rw [entries_keepMessage, entries_keepMessage_of_ne hne]

/-- The estimated bytes can be scheduled: there are some, and PRBs and memory for them. -/
def canSchedule (cfg : DlUeCfg) (c : ChosenSlots K0Entry) (startPrb bytes : ℕ) (cell : DlCell) :
    Option Bool :=
  if bytes % 2 ^ 32 = 0 then some false
  else (cfg.schDlRsrcAllocDlMsg cell c.dlTime c.entry (bytes % 2 ^ 32) startPrb).map
    fun (_, _, rsp) => rsp.ok && decide (cell.CanStore c.dciTime.slot c.dlTime.slot)

theorem scheduleMessage_spec {ueId startPrb : ℕ} {c : ChosenSlots K0Entry}
    {lcSchInfo : List LcSchInfo} {scheduled : Bool}
    (h : scheduleMessage cfg ueId c startPrb lcSchInfo cell = some (scheduled, cell')) :
    cell.canSchedule cfg c startPrb (lcSchInfo.map (·.schBytes)).sum = some scheduled ∧
      keptInfo c.dciTime.slot cell cell' = if scheduled then lcSchInfo else [] := by
  rw [scheduleMessage] at h
  rw [canSchedule]
  split at h
  · rename_i hzero
    cases h
    rw [if_pos hzero]
    exact ⟨rfl, keptInfo_of_eq rfl⟩
  rename_i hne
  rw [if_neg hne]
  simp only [Option.bind_eq_bind, Option.bind_eq_some_iff, Prod.exists] at h
  obtain ⟨tbSize, pdsch, rsp, halloc, h⟩ := h
  rw [halloc, Option.map_some]
  split at h
  · rename_i hrsp
    obtain ⟨hstored, hkept, hlost⟩ := storeMessage_spec cfg
      { cell with dlPrb := Function.update cell.dlPrb c.dlTime.slot rsp.prbAlloc } c.dciTime.slot
      c.dlTime.slot ⟨lcSchInfo, tbSize, pdsch, .none, 0⟩
    rcases hr : storeMessage
      { cell with dlPrb := Function.update cell.dlPrb c.dlTime.slot rsp.prbAlloc } cfg c.dciTime.slot
      c.dlTime.slot ⟨lcSchInfo, tbSize, pdsch, .none, 0⟩ with ⟨stored, cell₂⟩
    rw [hr] at h hstored hkept hlost
    dsimp only
    rw [hrsp, Bool.true_and]
    by_cases hcan : cell.CanStore c.dciTime.slot c.dlTime.slot
    · obtain rfl : stored = true := hstored.mpr hcan
      cases h
      exact ⟨congrArg some (decide_eq_true hcan), hkept hcan⟩
    · obtain rfl : stored = false := Bool.eq_false_iff.mpr fun h => hcan (hstored.mp h)
      cases h
      exact ⟨congrArg some (decide_eq_false hcan), hlost hcan⟩
  · rename_i hrsp
    cases h
    rw [Bool.not_eq_true] at hrsp
    dsimp only
    rw [hrsp, Bool.false_and]
    refine ⟨rfl, keptInfo_of_eq ?_⟩
    exact entries_dropMessage

/-! ## One call -/

variable {currTime : SlotTimingInfo} {ueId : ℕ} {ue ue' : DlUe} {c : ChosenSlots K0Entry}

/-- What the sizes of the PDSCH depend on. -/
def pdschTbs (cfg : DlUeCfg) (c : ChosenSlots K0Entry) : TbCfg :=
  ⟨cfg.mcsIndex, (cfg.pdschTimeDom c.entry.k0Index).2⟩

/-- The PRBs that are free for the PDSCH, as many as there are in a row. -/
def pdschBlock (cell : DlCell) (c : ChosenSlots K0Entry) (reserved : Option Reserved) : ℕ × ℕ :=
  searchLargestFreeBlock reserved (cell.dlPrb c.dlTime.slot).freePrbBlockList

/-- What the lists come to be. -/
def estimated (cfg : DlUeCfg) (cell : DlCell) (c : ChosenSlots K0Entry) (reserved : Option Reserved)
    (est : SchLcPrbEstimate) : Option SchLcPrbEstimate :=
  (est.estimatePrb (dlTake (pdschTbs cfg c)) (cell.pdschBlock c reserved).1 true).map Prod.snd

/-- There is memory for the messages in the slot of the DCI. -/
def HasMessages (cell : DlCell) (c : ChosenSlots K0Entry) : Prop :=
  cell.dlMsgAlloc c.dciTime.slot ≠ none ∨ cell.dciSlotMemory = true

theorem hasMessages_iff : cell.HasMessages c ↔
    ¬(cell.dlMsgAlloc c.dciTime.slot = none ∧ (!cell.dciSlotMemory) = true) := by
  rw [HasMessages, Bool.not_eq_true', not_and_or, Bool.not_eq_false]

/-- The call returns, and lowers the demand of each channel by what was kept for it. -/
def CallRight (cfg : DlUeCfg) (currTime : SlotTimingInfo) (ueId : ℕ) (cell : DlCell) (ue : DlUe) :
    Prop :=
  ∃ ret cell' ue', schFillBoGrantDlSchedInfo cfg currTime ueId cell ue = some (ret, cell', ue') ∧
    ∀ lcId, ue'.demand lcId + bytesOf lcId (keptInfo (cell.tdd.dciTime currTime).slot cell cell') =
      ue.demand lcId

/-- The lists can be estimated, and the lookup of the PRBs comes to its end. If the estimate can be
scheduled, then no channel has a grant from an earlier slot and the header fits. If it cannot be
scheduled, then nothing was estimated but the header. -/
def EstimateSafe (cfg : DlUeCfg) (cell : DlCell) (c : ChosenSlots K0Entry) (est : SchLcPrbEstimate) :
    Prop :=
  ∃ reserved est' scheduled, cell.occasions.reservedDl c.dlTime = some reserved ∧
    estimated cfg cell c reserved est = some est' ∧
    cell.canSchedule cfg c (cell.pdschBlock c reserved).2 (est'.lcs.map (·.allocBO)).sum =
      some scheduled ∧
    (scheduled = true → (∀ n ∈ est.lcs, n.allocBO = 0) ∧
      ∀ p ∈ est.firstServed (cell.pdschBlock c reserved).1,
        HeaderFits (pdschTbs cfg c) p.1.reqBO p.2) ∧
    (scheduled = false → ∀ p ∈ est.firstServed (cell.pdschBlock c reserved).1,
      firstSize (pdschTbs cfg c) p.1.reqBO p.2 = TX_PAYLOAD_HDR_LEN)

/-- The search for the slots and the loop over the channels are defined, and what they lead to is
safe to estimate. -/
def CallSafe (cfg : DlUeCfg) (currTime : SlotTimingInfo) (cell : DlCell) (ue : DlUe) : Prop :=
  ∃ r, cell.tdd.findValidK0K1Value cell.owners cfg.k0K1InfoTbl currTime = some r ∧
    ∀ c ∈ r, cell.HasMessages c →
      ∃ stop est, ue.dlLcPrbEst.updateLcs cfg.isDedicated cell.lcMemory ue.payloadSize MAX_NUM_LC 0 =
          some (stop, est) ∧
        (stop = MAX_NUM_LC → est.lcs ≠ [] → EstimateSafe cfg cell c est)

/-- The DCI of a message is that of the current slot. -/
theorem dciTime_of_find
    (h : cell.tdd.findValidK0K1Value cell.owners cfg.k0K1InfoTbl currTime = some (some c)) :
    c.dciTime = cell.tdd.dciTime currTime := by
  rw [TddCell.findValidK0K1Value] at h
  obtain ⟨ok, -, h⟩ := Option.bind_eq_some_iff.mp h
  split at h
  · obtain ⟨r, -, h⟩ := Option.map_eq_some_iff.mp h
    obtain ⟨e, rfl, rfl⟩ := Option.map_eq_some_iff.mp h
    rfl
  · cases h

theorem canStore_messages (dciSlot pdschSlot : ℕ) :
    (cell.setDlMsgAlloc dciSlot (some (cell.messages cfg dciSlot))).CanStore dciSlot pdschSlot ↔
      cell.CanStore dciSlot pdschSlot := by
  by_cases hsame : dciSlot = pdschSlot
  · exact iff_of_true (.inl hsame) (.inl hsame)
  · rw [CanStore, CanStore, setDlMsgAlloc]
    dsimp only
    rw [Function.update_of_ne fun h => hsame h.symm]

theorem entries_messages : (cell.setDlMsgAlloc slot (some (cell.messages cfg slot))).entries slot =
    cell.entries slot := by
  rw [entries_setDlMsgAlloc, messages_entries]

theorem canSchedule_messages (startPrb bytes : ℕ) :
    (cell.setDlMsgAlloc c.dciTime.slot (some (cell.messages cfg c.dciTime.slot))).canSchedule cfg c
      startPrb bytes = cell.canSchedule cfg c startPrb bytes := by
  simp only [canSchedule, canStore_messages]
  rfl

/-- The UE after the estimate and the report. -/
def afterEstimate (est est' : SchLcPrbEstimate) (boInd : Bool) (ue : DlUe) : DlUe :=
  { ue.afterUpdate MAX_NUM_LC est with dlLcPrbEst := est'.boRpt.2, boInd := boInd }

section

variable {est est' : SchLcPrbEstimate} {reserved : Option Reserved}

theorem estimated_spec (hok : (ue.afterUpdate MAX_NUM_LC est).Ok cfg)
    (h : estimated cfg cell c reserved est = some est') :
    est.DlEstimated (pdschTbs cfg c) (cell.pdschBlock c reserved).1 est' := by
  obtain ⟨⟨first, est₁⟩, hest, rfl⟩ := Option.map_eq_some_iff.mp h
  exact SchLcPrbEstimate.estimatePrb_dl hok.small hest

theorem bo_afterUpdate (hok : ue.Ok cfg) (lcId : ℕ) : (ue.afterUpdate MAX_NUM_LC est).bo lcId = 0 := by
  rw [DlUe.afterUpdate]
  dsimp only
  split
  · rfl
  · exact hok.bo lcId (by omega)

theorem demand_afterEstimate (hok : ue.Ok cfg) (boInd : Bool) (lcId : ℕ) :
    (afterEstimate est est' boInd ue).demand lcId = reqOf lcId est'.lcs := by
  have hbo : (afterEstimate est est' boInd ue).bo lcId = 0 := @bo_afterUpdate _ _ est hok lcId
  rw [DlUe.demand_of_bo hbo]
  change reqOf lcId est'.boRpt.2.lcs = _
  rw [SchLcPrbEstimate.boRpt_lcs, reqOf_filter]

theorem afterEstimate_ok (hok : (ue.afterUpdate MAX_NUM_LC est).Ok cfg)
    (h : estimated cfg cell c reserved est = some est') (boInd : Bool) :
    (afterEstimate est est' boInd ue).Ok cfg := by
  have hest := estimated_spec hok h
  refine ⟨hok.lists.of_subperm fun b => ?_, fun n hn => ?_, hok.bo⟩
  · refine List.Subperm.trans ?_ (hest.ids b)
    change ((est'.boRpt.2.sliceLcList b).map _).Subperm _
    rw [SchLcPrbEstimate.boRpt_slice]
    exact (List.filter_sublist.map _).subperm
  · change n ∈ est'.boRpt.2.lcs at hn
    rw [SchLcPrbEstimate.boRpt_lcs] at hn
    exact hest.small hok.small n (List.mem_of_mem_filter hn)

theorem boRpt_bytes (est : SchLcPrbEstimate) :
    (est.boRpt.1.map (·.schBytes)).sum = (est.lcs.map (·.allocBO)).sum := by
  rw [SchLcPrbEstimate.boRpt_fst, List.map_map]
  rfl

end

/-- What the call comes to. -/
theorem schFillBoGrantDlSchedInfo_cases {ret : Bool} (hok : ue.Ok cfg)
    (h : schFillBoGrantDlSchedInfo cfg currTime ueId cell ue = some (ret, cell', ue')) :
    ((∃ r, cell.tdd.findValidK0K1Value cell.owners cfg.k0K1InfoTbl currTime = some r ∧
      ∀ c ∈ r, ¬cell.HasMessages c) ∧ cell' = cell ∧ ue' = ue) ∨
    ∃ c stop est, cell.tdd.findValidK0K1Value cell.owners cfg.k0K1InfoTbl currTime = some (some c) ∧
      cell.HasMessages c ∧
      ue.dlLcPrbEst.updateLcs cfg.isDedicated cell.lcMemory ue.payloadSize MAX_NUM_LC 0 =
        some (stop, est) ∧
      (((stop < MAX_NUM_LC ∨ est.lcs = []) ∧
        keptInfo c.dciTime.slot cell cell' = [] ∧
        ∃ boInd, ue' = { ue.afterUpdate stop est with boInd := boInd }) ∨
      (stop = MAX_NUM_LC ∧ est.lcs ≠ [] ∧ ∃ reserved est₁ scheduled boInd,
        cell.occasions.reservedDl c.dlTime = some reserved ∧
        estimated cfg cell c reserved est = some est₁ ∧
        cell.canSchedule cfg c (cell.pdschBlock c reserved).2 (est₁.lcs.map (·.allocBO)).sum =
          some scheduled ∧
        keptInfo c.dciTime.slot cell cell' = (if scheduled then est₁.boRpt.1 else []) ∧
        ue' = afterEstimate est est₁ boInd ue)) := by
  simp only [schFillBoGrantDlSchedInfo, Option.bind_eq_bind, Option.bind_eq_some_iff] at h
  obtain ⟨r, hr, h⟩ := h
  cases r with
  | none =>
      cases h
      refine .inl ⟨⟨none, hr, fun c hc => ?_⟩, rfl, rfl⟩
      cases hc
  | some c =>
    dsimp only at h
    split at h
    · rename_i hfull
      cases h
      refine .inl ⟨⟨some c, hr, fun c' hc' hmsgs => ?_⟩, rfl, rfl⟩
      cases hc'
      exact hasMessages_iff.mp hmsgs hfull
    rename_i hfull
    have hmsgs : cell.HasMessages c := hasMessages_iff.mpr hfull
    obtain ⟨⟨stop, est⟩, hupd, h⟩ := Option.bind_eq_some_iff.mp h
    obtain ⟨-, hle, -⟩ := DlUe.afterUpdate_spec hok hupd
    refine .inr ⟨c, stop, est, hr, hmsgs, hupd, ?_⟩
    dsimp only at h
    split at h
    · rename_i hlt
      cases h
      exact .inl ⟨.inl hlt, keptInfo_of_eq (entries_dropMessage.trans entries_messages), ue.boInd, rfl⟩
    rename_i hstop
    obtain rfl : stop = MAX_NUM_LC := Nat.le_antisymm hle (Nat.le_of_not_lt hstop)
    split at h
    · rename_i hnil
      cases h
      refine .inl ⟨.inr ?_, keptInfo_of_eq (entries_dropMessage.trans entries_messages), false, rfl⟩
      rw [SchLcPrbEstimate.lcs, hnil.1, hnil.2]
      rfl
    · rename_i hne
      obtain ⟨reserved, hreserved, h⟩ := Option.bind_eq_some_iff.mp h
      obtain ⟨⟨first, est₁⟩, hest, h⟩ := Option.bind_eq_some_iff.mp h
      obtain ⟨⟨scheduled, cell₂⟩, hmsg, h⟩ := Option.bind_eq_some_iff.mp h
      cases h
      obtain ⟨hcan, hkept⟩ := scheduleMessage_spec hmsg
      rw [boRpt_bytes, canSchedule_messages] at hcan
      rw [keptInfo, entries_messages] at hkept
      refine .inr ⟨rfl, fun hnil => hne ?_, reserved, est₁, scheduled,
        if scheduled then false else ue.boInd, hreserved, ?_, hcan, hkept, rfl⟩
      · exact (List.append_eq_nil_iff.mp hnil).symm
      · exact Option.map_eq_some_iff.mpr ⟨_, hest, rfl⟩

theorem scheduleMessage_defined {startPrb : ℕ} {lcSchInfo : List LcSchInfo}
    (h : cell.canSchedule cfg c startPrb (lcSchInfo.map (·.schBytes)).sum ≠ none) :
    scheduleMessage cfg ueId c startPrb lcSchInfo cell ≠ none := by
  rw [canSchedule] at h
  rw [scheduleMessage]
  split
  · exact Option.some_ne_none _
  · rename_i hne
    rw [if_neg hne, ne_eq, Option.map_eq_none_iff] at h
    obtain ⟨⟨tbSize, pdsch, rsp⟩, halloc⟩ := Option.ne_none_iff_exists'.mp h
    rw [halloc]
    simp only [Option.bind_eq_bind, Option.bind_some]
    split <;> exact Option.some_ne_none _

/-- A safe call returns. -/
theorem schFillBoGrantDlSchedInfo_defined (ueId : ℕ) (hok : ue.Ok cfg)
    (h : CallSafe cfg currTime cell ue) :
    ∃ r, schFillBoGrantDlSchedInfo cfg currTime ueId cell ue = some r := by
  obtain ⟨r, hr, h⟩ := h
  simp only [schFillBoGrantDlSchedInfo, hr, Option.bind_eq_bind, Option.bind_some]
  cases r with
  | none => exact ⟨_, rfl⟩
  | some c =>
    dsimp only
    split
    · exact ⟨_, rfl⟩
    rename_i hfull
    obtain ⟨stop, est, hupd, h⟩ := h c rfl (hasMessages_iff.mpr hfull)
    generalize hcell : cell.setDlMsgAlloc c.dciTime.slot (some (cell.messages cfg c.dciTime.slot)) =
      cell₁
    have hupd₁ : ue.dlLcPrbEst.updateLcs cfg.isDedicated cell₁.lcMemory ue.payloadSize MAX_NUM_LC 0 =
        some (stop, est) := hcell ▸ hupd
    simp only [hupd₁, Option.bind_some]
    split
    · exact ⟨_, rfl⟩
    rename_i hstop
    split
    · exact ⟨_, rfl⟩
    rename_i hne
    obtain ⟨-, hle, -⟩ := DlUe.afterUpdate_spec hok hupd
    obtain ⟨reserved, est', scheduled, hreserved, hest, hcan, -⟩ := h
      (Nat.le_antisymm hle (Nat.le_of_not_lt hstop)) fun hnil => hne
        (List.append_eq_nil_iff.mp hnil).symm
    obtain ⟨⟨first, est₁⟩, hlists, rfl⟩ := Option.map_eq_some_iff.mp hest
    have hreserved₁ : cell₁.occasions.reservedDl c.dlTime = some reserved := hcell ▸ hreserved
    have hblock : (cell₁.dlPrb c.dlTime.slot).freePrbBlockList =
        (cell.dlPrb c.dlTime.slot).freePrbBlockList := hcell ▸ rfl
    simp only [hreserved₁, Option.bind_some, hblock]
    change ∃ r, (est.estimatePrb (dlTake (pdschTbs cfg c)) (cell.pdschBlock c reserved).1 true).bind
      _ = some r
    rw [hlists, Option.bind_some]
    obtain ⟨r, hmsg⟩ := Option.ne_none_iff_exists'.mp (@scheduleMessage_defined cfg cell₁ ueId c
      (cell.pdschBlock c reserved).2 est₁.boRpt.1 (by
        rw [boRpt_bytes, ← hcell, canSchedule_messages, hcan]
        exact Option.some_ne_none _))
    change ∃ r, (scheduleMessage cfg ueId c (cell.pdschBlock c reserved).2 est₁.boRpt.1 cell₁).bind
      _ = some r
    rw [hmsg]
    exact ⟨_, rfl⟩

section

variable {ret : Bool} (hok : ue.Ok cfg)
  (hcall : schFillBoGrantDlSchedInfo cfg currTime ueId cell ue = some (ret, cell', ue'))

include hok hcall in
/-- A call that returns lowers the demands by what is kept if and only if it is safe. -/
theorem demand_iff : (∀ lcId, ue'.demand lcId +
      bytesOf lcId (keptInfo (cell.tdd.dciTime currTime).slot cell cell') = ue.demand lcId) ↔
    CallSafe cfg currTime cell ue := by
  obtain ⟨⟨r, hr, hno⟩, rfl, rfl⟩ | ⟨c, stop, est, hc, hmsgs, hupd, hcases⟩ :=
    schFillBoGrantDlSchedInfo_cases hok hcall
  · refine iff_of_true (fun lcId => ?_) ⟨r, hr, fun c hc hmsgs => absurd hmsgs (hno c hc)⟩
    rw [keptInfo_of_eq rfl, bytesOf_nil, Nat.add_zero]
  rw [← dciTime_of_find hc]
  have hsafe : CallSafe cfg currTime cell ue ↔
      (stop = MAX_NUM_LC → est.lcs ≠ [] → EstimateSafe cfg cell c est) := by
    constructor
    · rintro ⟨r, hr, h⟩
      cases hc.symm.trans hr
      obtain ⟨stop', est', hupd', h⟩ := h c rfl hmsgs
      cases hupd.symm.trans hupd'
      exact h
    · intro h
      refine ⟨some c, hc, ?_⟩
      rintro _ ⟨⟩ -
      exact ⟨stop, est, hupd, h⟩
  obtain ⟨hok₁, -, hdemand⟩ := DlUe.afterUpdate_spec hok hupd
  rw [hsafe]
  obtain ⟨hend, hkept, boInd, rfl⟩ | ⟨rfl, hne, reserved, est', scheduled, boInd, hreserved, hest,
    hcan, hkept, rfl⟩ := hcases
  · refine iff_of_true (fun lcId => ?_) fun hstop hne => ?_
    · rw [hkept, bytesOf_nil, Nat.add_zero]
      exact hdemand lcId
    · exact absurd hend (not_or.mpr ⟨hstop.not_lt, hne⟩)
  have hspec := estimated_spec hok₁ hest
  have hbefore : ∀ lcId, ue.demand lcId = reqOf lcId est.lcs := fun lcId =>
    (hdemand lcId).symm.trans (DlUe.demand_of_bo (bo_afterUpdate hok lcId))
  have hsafe' : (MAX_NUM_LC = MAX_NUM_LC → est.lcs ≠ [] → EstimateSafe cfg cell c est) ↔
      (scheduled = true → (∀ n ∈ est.lcs, n.allocBO = 0) ∧
        ∀ p ∈ est.firstServed (cell.pdschBlock c reserved).1,
          HeaderFits (pdschTbs cfg c) p.1.reqBO p.2) ∧
      (scheduled = false → ∀ p ∈ est.firstServed (cell.pdschBlock c reserved).1,
        firstSize (pdschTbs cfg c) p.1.reqBO p.2 = TX_PAYLOAD_HDR_LEN) := by
    constructor
    · intro h
      obtain ⟨reserved', est₁, scheduled', hreserved', hest', hcan', h⟩ := h rfl hne
      cases hreserved.symm.trans hreserved'
      cases hest.symm.trans hest'
      cases hcan.symm.trans hcan'
      exact h
    · exact fun h _ _ => ⟨reserved, est', scheduled, hreserved, hest, hcan, h⟩
  rw [hsafe', ← hspec.granted_iff, ← hspec.unchanged_iff hok₁.lists, hkept]
  simp only [demand_afterEstimate hok, hbefore]
  cases scheduled with
  | true =>
      rw [if_pos rfl, SchLcPrbEstimate.boRpt_fst]
      simp only [bytesOf_map]
      simp
  | false =>
      simp

end

/-- **A call lowers the demands by what is kept if and only if it is safe.** -/
theorem callRight_iff (hok : ue.Ok cfg) :
    CallRight cfg currTime ueId cell ue ↔ CallSafe cfg currTime cell ue := by
  constructor
  · rintro ⟨ret, cell', ue', hcall, hright⟩
    exact (demand_iff hok hcall).mp hright
  · intro hsafe
    obtain ⟨⟨ret, cell', ue'⟩, hcall⟩ := schFillBoGrantDlSchedInfo_defined ueId hok hsafe
    exact ⟨ret, cell', ue', hcall, (demand_iff hok hcall).mpr hsafe⟩

/-- The UE stays right, whatever comes of the call. -/
theorem schFillBoGrantDlSchedInfo_ok {ret : Bool} (hok : ue.Ok cfg)
    (h : schFillBoGrantDlSchedInfo cfg currTime ueId cell ue = some (ret, cell', ue')) :
    ue'.Ok cfg := by
  obtain ⟨-, -, rfl⟩ | ⟨c, stop, est, -, -, hupd, hcases⟩ := schFillBoGrantDlSchedInfo_cases hok h
  · exact hok
  obtain ⟨hok₁, -, -⟩ := DlUe.afterUpdate_spec hok hupd
  obtain ⟨-, -, boInd, rfl⟩ | ⟨rfl, -, reserved, est', scheduled, boInd, -, hest, -, -, rfl⟩ := hcases
  · exact ⟨hok₁.lists, hok₁.small, hok₁.bo⟩
  · exact afterEstimate_ok hok₁ hest boInd

end DlCell

/-! ## Runs -/

/-- `MacSchDlRlcBoInfo` for a UE whose data transmission is not stopped. An empty buffer deletes the
node of the channel. The buffer of SRB0 is that of MSG4. -/
def DlUe.macSchDlRlcBoInfo (cfg : DlUeCfg) (lcId dataVolume : ℕ) (ue : DlUe) : Option DlUe :=
  if MAX_NUM_LC ≤ lcId then some ue
  else if dataVolume = 0 then
    if cfg.isDedicated lcId then
      ue.dlLcPrbEst.dedLcInfo.map fun ded =>
        { ue with dlLcPrbEst := ue.dlLcPrbEst.setDedLcList (deleteLc lcId ded.dedLcList) }
    else some { ue with dlLcPrbEst :=
      { ue.dlLcPrbEst with defLcList := deleteLc lcId ue.dlLcPrbEst.defLcList } }
  else if lcId = SRB0_LCID then some ue
  else if cfg.isConfigured lcId then
    some { ue with bo := Function.update ue.bo lcId dataVolume, boInd := true }
  else some { ue with boInd := true }

/-- A UE after its configuration, with the PRBs of its dedicated slice if it has one. -/
def DlUe.init (rsvdDedicatedPRB : Option ℕ) : DlUe where
  bo := fun _ => 0
  dlLcPrbEst := .init rsvdDedicatedPRB
  boInd := false

theorem DlUe.init_ok (cfg : DlUeCfg) (rsvdDedicatedPRB : Option ℕ) :
    (DlUe.init rsvdDedicatedPRB).Ok cfg := by
  refine ⟨.init _ _ rsvdDedicatedPRB, fun n hn => ?_, fun _ _ => rfl⟩
  rw [DlUe.init, SchLcPrbEstimate.lcs_init] at hn
  cases hn

/-- The lists may lose nodes. -/
theorem DlUe.Ok.of_sublist {cfg : DlUeCfg} {ue : DlUe} (hok : ue.Ok cfg) {est : SchLcPrbEstimate}
    (h : ∀ b, (est.sliceLcList b).Sublist (ue.dlLcPrbEst.sliceLcList b)) :
    DlUe.Ok cfg { ue with dlLcPrbEst := est } := by
  refine ⟨hok.lists.of_subperm fun b => ((h b).map _).subperm, fun n hn => ?_, hok.bo⟩
  obtain ⟨b, hn⟩ := SchLcPrbEstimate.mem_lcs.mp hn
  exact hok.small n (SchLcPrbEstimate.mem_lcs.mpr ⟨b, (h b).subset hn⟩)

theorem DlUe.macSchDlRlcBoInfo_ok {cfg : DlUeCfg} {ue ue' : DlUe} {lcId dataVolume : ℕ}
    (hok : ue.Ok cfg) (h : ue.macSchDlRlcBoInfo cfg lcId dataVolume = some ue') : ue'.Ok cfg := by
  rw [macSchDlRlcBoInfo] at h
  split at h
  · cases h
    exact hok
  rename_i hlc
  split at h
  · split at h
    · obtain ⟨ded, hinfo, rfl⟩ := Option.map_eq_some_iff.mp h
      refine hok.of_sublist fun b => ?_
      cases b with
      | false => exact List.Sublist.refl _
      | true =>
          have hnew := SchLcPrbEstimate.dedLcList_setDedLcList hinfo (deleteLc lcId ded.dedLcList)
          have hold := SchLcPrbEstimate.dedLcList_eq hinfo
          change List.Sublist (SchLcPrbEstimate.dedLcList _) (SchLcPrbEstimate.dedLcList _)
          rw [hnew, hold]
          exact List.eraseP_sublist
    · cases h
      refine hok.of_sublist fun b => ?_
      cases b with
      | false => exact List.eraseP_sublist
      | true => exact List.Sublist.refl _
  split at h
  · cases h
    exact hok
  split at h
  · cases h
    refine ⟨hok.lists, hok.small, fun lcId' hge => ?_⟩
    exact (Function.update_of_ne (by omega) _ _).trans (hok.bo lcId' hge)
  · cases h
    exact ⟨hok.lists, hok.small, hok.bo⟩

/-- What happens to a UE. -/
inductive DlCall
  | boInfo (lcId dataVolume : ℕ)
  | slot (currTime : SlotTimingInfo) (cell : DlCell)

namespace DlCall

variable {cfg : DlUeCfg} {ueId : ℕ}

/-- The output of a slot is what is reported in the entry that is kept. -/
def step (cfg : DlUeCfg) (ueId : ℕ) (ue : DlUe) : DlCall → Except Unit (DlUe × List LcSchInfo)
  | .boInfo lcId dataVolume =>
    match ue.macSchDlRlcBoInfo cfg lcId dataVolume with
    | none => .error ()
    | some ue => .ok (ue, [])
  | .slot currTime cell =>
    match DlCell.schFillBoGrantDlSchedInfo cfg currTime ueId cell ue with
    | none => .error ()
    | some (_, cell', ue) => .ok (ue, DlCell.keptInfo (cell.tdd.dciTime currTime).slot cell cell')

def Right (cfg : DlUeCfg) (ueId : ℕ) (ue : DlUe) : DlCall → Prop
  | .slot currTime cell => DlCell.CallRight cfg currTime ueId cell ue
  | .boInfo _ _ => True

def Safe (cfg : DlUeCfg) (ue : DlUe) : DlCall → Prop
  | .slot currTime cell => DlCell.CallSafe cfg currTime cell ue
  | .boInfo _ _ => True

def IsSlot : DlCall → Prop
  | .slot _ _ => True
  | .boInfo _ _ => False

theorem step_ok {ue ue' : DlUe} {call : DlCall} {out : List LcSchInfo} (hok : ue.Ok cfg)
    (h : step cfg ueId ue call = .ok (ue', out)) : ue'.Ok cfg := by
  cases call with
  | boInfo lcId dataVolume =>
      rw [step] at h
      split at h
      · cases h
      · rename_i hbo
        cases h
        exact DlUe.macSchDlRlcBoInfo_ok hok hbo
  | slot currTime cell =>
      rw [step] at h
      split at h
      · cases h
      · rename_i hcall
        cases h
        exact DlCell.schFillBoGrantDlSchedInfo_ok hok hcall

theorem callRight_iff {ue : DlUe} (hok : ue.Ok cfg) (call : DlCall) :
    Right cfg ueId ue call ↔ Safe cfg ue call := by
  cases call with
  | boInfo lcId dataVolume => exact Iff.rfl
  | slot currTime cell => exact DlCell.callRight_iff hok

/-- The demand at the beginning is what was scheduled and what is left. -/
theorem demand_of_slots : ∀ {slots : List DlCall} {ue ue' : DlUe} {outs : List LcSchInfo},
    (∀ call ∈ slots, call.IsSlot) → Machine.Along (step cfg ueId) (Right cfg ueId) ue slots →
    Machine.run (step cfg ueId) ue slots = .ok (ue', outs) →
    ∀ lcId, ue'.demand lcId + bytesOf lcId outs = ue.demand lcId
  | [], ue, ue', outs, _, _, hrun, lcId => by
      cases hrun
      rfl
  | call :: slots, ue, ue', outs, hslots, hright, hrun, lcId => by
      obtain ⟨ue₁, out, outs', hs, hrest, rfl⟩ := Machine.run_cons hrun
      have hlater := demand_of_slots (fun c hc => hslots c (List.mem_cons_of_mem _ hc))
        (hright.2 ue₁ out hs) hrest lcId
      have hfirst : ue₁.demand lcId + bytesOf lcId out = ue.demand lcId := by
        cases call with
        | boInfo _ _ => exact absurd (hslots _ List.mem_cons_self) id
        | slot currTime cell =>
            rw [step] at hs
            split at hs
            · cases hs
            · rename_i hcall
              cases hs
              obtain ⟨ret, cell', ue₁, hcall', hdemand⟩ := hright.1
              cases hcall.symm.trans hcall'
              exact hdemand lcId
      rw [bytesOf_append]
      omega

end DlCall

/-- A UE without a dedicated slice. -/
def exampleDlCfg : DlUeCfg where
  crnti := 100
  isConfigured := fun _ => true
  isDedicated := fun _ => false
  mcsIndex := 4
  k0K1InfoTbl := fun _ => [⟨0, 1, [4]⟩]
  pdschTimeDom := fun _ => (2, 12)

/-- Nothing is scheduled yet, and there is memory for everything. -/
def exampleDlCell : DlCell where
  tdd := ⟨.fdd, 0, ⟨.ms10, fun _ _ => .dlSlot⟩⟩
  occasions := exampleCell
  owners := ⟨fun _ => 0, fun _ => 0, fun _ => 0, fun _ => 0⟩
  dlPrb := fun _ => schInitSlot .fdd
  dlMsgAlloc := fun _ => none
  schPucchInfo := fun _ => none
  lcMemory := fun _ => true
  dciSlotMemory := true
  dlMsgMemory := true

/-- The slots for its messages from the first slot on. -/
def exampleDlSlots : ChosenSlots K0Entry := ⟨⟨0, 3⟩, ⟨0, 4⟩, ⟨0, 8⟩, ⟨0, 1, [4]⟩⟩

theorem exampleDlSlots_found : exampleDlCell.tdd.findValidK0K1Value exampleDlCell.owners
    exampleDlCfg.k0K1InfoTbl ⟨0, 1⟩ = some (some exampleDlSlots) := by
  decide +kernel

/-- A UE with indications. -/
def exampleDlUe (bo : ℕ → ℕ) : DlUe := { DlUe.init none with bo := bo, boInd := true }

/-- Indications for two channels, and a slot. -/
def exampleDlCalls : List DlCall := [.boInfo 4 100, .boInfo 5 60, .slot ⟨0, 1⟩ exampleDlCell]

end OaiCu.OduSch
