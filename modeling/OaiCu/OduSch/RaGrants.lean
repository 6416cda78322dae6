import OaiCu.OduSch.RaReq
import OaiCu.OduSch.Reserved

/-!
# What a request for random access reserves

A call that returns true has to leave PRBs for MSG3 that were free before, and the RAR and the
information on the PUSCH have to tell them. A call that returns false has to leave the slots as
they were.
-/

namespace OaiCu.OduSch

/-! ## PRBs at an unknown place -/

/-- A free block has as many PRBs besides the reserved ones. -/
def SchPrbAlloc.Fits (prbAlloc : SchPrbAlloc) (reserved : Option Reserved) (numPrb : ℕ) : Prop :=
  ∃ b ∈ prbAlloc.freePrbBlockList, b.place reserved numPrb ≠ none

instance (prbAlloc : SchPrbAlloc) (reserved : Option Reserved) (numPrb : ℕ) :
    Decidable (prbAlloc.Fits reserved numPrb) :=
  inferInstanceAs (Decidable (∃ b ∈ prbAlloc.freePrbBlockList, _))

section

variable {duplex : Duplex} {reserved : Option Reserved} {numPrb : ℕ} {req : PrbReq}
  {prbAlloc : SchPrbAlloc} {grants : List PrbGrant} {rsp : PrbRsp}

/-- The search ends in a block if and only if a block has room. -/
theorem placeFree_found_iff : ∀ freePrbBlockList : List FreePrbBlock,
    (∃ front b rest, (placeFree reserved numPrb freePrbBlockList).1 = .found front b rest) ↔
      ∃ b ∈ freePrbBlockList, b.place reserved numPrb ≠ none
  | [] => by
      refine iff_of_false ?_ (by simp)
      rintro ⟨front, b, rest, h⟩
      cases h
  | b :: rest => by
      rw [placeFree, List.exists_mem_cons_iff, ← placeFree_found_iff rest]
      cases hp : b.place reserved numPrb with
      | some startPrb => exact iff_of_true ⟨_, _, _, rfl⟩ (.inl (Option.some_ne_none _))
      | none =>
          dsimp only
          rw [ne_self_iff_false, false_or]
          cases (placeFree reserved numPrb rest).1 with
          | found front b' rest' => exact iff_of_true ⟨_, _, _, rfl⟩ ⟨_, _, _, rfl⟩
          | unavailable =>
              constructor
              · rintro ⟨_, _, _, h⟩
                cases h
              · rintro ⟨_, _, _, h⟩
                cases h
          | loops =>
              constructor
              · rintro ⟨_, _, _, h⟩
                cases h
              · rintro ⟨_, _, _, h⟩
                cases h

/-- An allocation at an unknown place takes free PRBs if a block has room for them. -/
theorem SchPrbAlloc.Inv.unknown_fits (h : prbAlloc.Inv duplex.maxNumRb grants)
    (hpos : 0 < req.numPrb) (hstart : req.startPrb = duplex.maxNumRb)
    (hfits : prbAlloc.Fits reserved req.numPrb) :
    ∃ startPrb prbAlloc', allocatePrb duplex (some reserved) req prbAlloc =
        some ⟨true, startPrb, prbAlloc'⟩ ∧ startPrb + req.numPrb ≤ duplex.maxNumRb ∧
      prbAlloc'.Inv duplex.maxNumRb (grants ++ [⟨req, startPrb⟩]) := by
  obtain ⟨front, b, rest, hs⟩ := placeFree_found_iff _ |>.mpr hfits
  have hplace := (@placeFree_fits duplex.maxNumRb req.numPrb reserved hpos _ h.freeList).1
  rw [hs] at hplace
  obtain ⟨prbAlloc', htake, hinv⟩ := h.grant hpos hplace
  refine ⟨_, prbAlloc', ?_, ?_, hinv⟩
  · rw [allocatePrb, if_pos hstart]
    dsimp only [Option.bind_eq_bind, Option.bind_some]
    rw [hs, htake]
  · obtain ⟨hlist, -, h2⟩ := hplace
    have hlt := h.freeList.lt b (hlist ▸ List.mem_append_right _ List.mem_cons_self)
    omega

/-- Without room nothing is changed, and the place stays unknown. -/
theorem allocatePrb_full (hstart : req.startPrb = duplex.maxNumRb)
    (hfull : ¬ prbAlloc.Fits reserved req.numPrb) :
    allocatePrb duplex (some reserved) req prbAlloc = some ⟨false, duplex.maxNumRb, prbAlloc⟩ := by
  rw [allocatePrb, if_pos hstart]
  dsimp only [Option.bind_eq_bind, Option.bind_some]
  cases hs : (placeFree reserved req.numPrb prbAlloc.freePrbBlockList).1 with
  | loops => exact absurd hs (placeFree_ne_loops _ _ _)
  | unavailable => rw [takePrb, hstart]
  | found front b rest => exact absurd ((placeFree_found_iff _).mp ⟨front, b, rest, hs⟩) hfull

end

/-- The PRBs are marked for the symbols, were not marked before, and nothing else is marked. -/
structure SchPrbAlloc.Marks (before after : SchPrbAlloc) (startSymb numSymb startPrb numPrb : ℕ) :
    Prop where
  free : ∀ symbol p, startPrb ≤ p → p < startPrb + numPrb →
    prbBit (before.prbBitMap symbol) p = false
  bit : ∀ symbol p, prbBit (after.prbBitMap symbol) p = true ↔
    prbBit (before.prbBitMap symbol) p = true ∨
      ((startSymb ≤ symbol ∧ symbol < startSymb + numSymb) ∧
        startPrb ≤ p ∧ p < startPrb + numPrb)

/-- What a grant marks. -/
theorem SchPrbAlloc.Inv.marks {numRb startPrb : ℕ} {before after : SchPrbAlloc}
    {grants : List PrbGrant} {req : PrbReq} (h : before.Inv numRb grants)
    (h' : after.Inv numRb (grants ++ [⟨req, startPrb⟩])) :
    before.Marks after req.startSymbol req.symbolLength startPrb req.numPrb := by
  refine ⟨fun symbol p h1 h2 => ?_, fun symbol p => ?_⟩
  · rw [← Bool.not_eq_true, h.bit]
    rintro ⟨g, hg, -, hhas⟩
    have hdisj := (List.pairwise_append.mp h'.disjoint).2.2 g hg _ (List.mem_singleton.mpr rfl)
    exact hdisj p ⟨hhas, h1, h2⟩
  · rw [h'.bit, h.bit]
    simp only [List.mem_append, List.mem_singleton, or_and_right, exists_or, exists_eq_left]
    exact Iff.rfl

/-- Something is marked if there are symbols and PRBs. -/
theorem SchPrbAlloc.Marks.ne {before after : SchPrbAlloc} {startSymb numSymb startPrb numPrb : ℕ}
    (h : before.Marks after startSymb numSymb startPrb numPrb) (hs : 0 < numSymb)
    (hp : 0 < numPrb) : after ≠ before := by
  rintro rfl
  have hset := (h.bit startSymb startPrb).mpr (.inr ⟨⟨le_rfl, by omega⟩, le_rfl, by omega⟩)
  rw [h.free startSymb startPrb le_rfl (by omega)] at hset
  cases hset

/-! ## What has to hold after a call -/

/-- The PRBs of all slots are consistent. -/
structure RaCell.Ok (numRb : ℕ) (s : RaCell) : Prop where
  dl : ∀ slot, ∃ grants, (s.dlPrb slot).Inv numRb grants
  ul : ∀ slot, ∃ grants, (s.ulPrb slot).Inv numRb grants

section

variable {numRb : ℕ} {s s' : RaCell} {a : SchPrbAlloc}

theorem RaCell.Ok.of_eq (h : s.Ok numRb) (hdl : s'.dlPrb = s.dlPrb) (hul : s'.ulPrb = s.ulPrb) :
    s'.Ok numRb :=
  ⟨hdl ▸ h.dl, hul ▸ h.ul⟩

theorem RaCell.Ok.setDl (h : s.Ok numRb) (slot : ℕ) (ha : ∃ grants, a.Inv numRb grants) :
    RaCell.Ok numRb { s with dlPrb := Function.update s.dlPrb slot a } := by
  refine ⟨fun slot' => ?_, h.ul⟩
  dsimp only
  by_cases he : slot' = slot
  · rw [he, Function.update_self]
    exact ha
  · rw [Function.update_of_ne he]
    exact h.dl slot'

theorem RaCell.Ok.setUl (h : s.Ok numRb) (slot : ℕ) (ha : ∃ grants, a.Inv numRb grants) :
    RaCell.Ok numRb { s with ulPrb := Function.update s.ulPrb slot a } := by
  refine ⟨h.dl, fun slot' => ?_⟩
  dsimp only
  by_cases he : slot' = slot
  · rw [he, Function.update_self]
    exact ha
  · rw [Function.update_of_ne he]
    exact h.ul slot'

end

/-- MSG3 has the PRBs that the RAR and the information on the PUSCH tell. -/
structure Msg3Announced (numRb : ℕ) (s s' : RaCell) (ueId : ℕ)
    (c : ChosenSlots (K0Entry × K2Entry)) (rarInfo : RarInfo) (info : SchPuschInfo) : Prop where
  dciSlot : (s'.rarAlloc c.dciTime.slot ueId).map (·.rarInfo) = some rarInfo
  rarSlot : (s'.rarAlloc c.dlTime.slot ueId).map (·.rarInfo) = some rarInfo
  pusch : s'.schPuschInfo c.ulTime.slot = some info
  startPrb : rarInfo.ulGrant.startPrb = info.startPrb
  numPrb : rarInfo.ulGrant.numPrb = info.numPrb
  k2Index : rarInfo.ulGrant.k2Index = c.entry.2.k2Index
  startSymb : info.startSymb = c.entry.2.startSymbol
  numSymb : info.numSymb = c.entry.2.symbolLength
  numPrb_pos : 0 < info.numPrb
  inCarrier : info.startPrb + info.numPrb ≤ numRb
  marks : (s.ulPrb c.ulTime.slot).Marks (s'.ulPrb c.ulTime.slot) info.startSymb info.numSymb
    info.startPrb info.numPrb

/-- What has to hold after a call that returns true. -/
structure RaGranted (numRb : ℕ) (s s' : RaCell) (ueId : ℕ)
    (c : ChosenSlots (K0Entry × K2Entry)) : Prop where
  announced : ∃ rarInfo info, Msg3Announced numRb s s' ueId c rarInfo info
  puschFree : s.owners.puschUe c.ulTime.slot = 0
  pdcchUe : s'.owners.pdcchUe c.dciTime.slot = ueId
  pdschUe : s'.owners.pdschUe c.dlTime.slot = ueId
  puschUe : s'.owners.puschUe c.ulTime.slot = ueId

/-- No PRB, no owner of a slot and no pointer to a RAR was changed. -/
structure SlotsUnchanged (s s' : RaCell) : Prop where
  dlPrb : s'.dlPrb = s.dlPrb
  ulPrb : s'.ulPrb = s.ulPrb
  owners : s'.owners = s.owners
  rarAlloc : s'.rarAlloc = s.rarAlloc

/-- What has to hold after a call for a contention-based request. -/
def RaReqRight (cell : RaCfg) (memory : RaMemory) (currTime : SlotTimingInfo) (ueId : ℕ)
    (s : RaCell) (raReq : SchRaReq) : Prop :=
  ∀ granted s', cell.schProcessRaReq memory currTime ueId s = some (granted, s') →
    (granted = true → ∃ c, cell.findMsg3 s currTime ueId = some (some c) ∧
      RaGranted cell.tdd.duplex.maxNumRb s s' ueId c) ∧
    (granted = false → SlotsUnchanged s s' ∧ (s'.raReq ueId = some raReq ∨
      raReq.isInRaRspWindow (cell.tdd.dciTime currTime) cell.numSlots = .windowExpired))

/-- What the slots that were found have to offer. -/
def SlotsOffer (cell : RaCfg) (memory : RaMemory) (s : RaCell) (ueId : ℕ)
    (c : ChosenSlots (K0Entry × K2Entry)) : Prop :=
  ∀ req ∈ cell.rarPrbReq c.entry.1, ∀ reserved ∈ cell.occasions.reservedDl c.dlTime,
    if (s.dlPrb c.dlTime.slot).Fits reserved req.numPrb then
      ∀ req' ∈ cell.msg3PrbReq c.entry.2, ∀ reserved' ∈ cell.occasions.reservedUl c.ulTime,
        (s.ulPrb c.ulTime.slot).Fits reserved' req'.numPrb ∧ memory.schPuschInfo = true ∧
          (c.dciTime.slot = c.dlTime.slot ∨ memory.rarSlotAlloc = true)
    else s.rarAlloc c.dciTime.slot ueId = none

/-- The condition under which a call does what it has to do. -/
def RaReqSafe (cell : RaCfg) (memory : RaMemory) (currTime : SlotTimingInfo) (ueId : ℕ)
    (s : RaCell) (raReq : SchRaReq) : Prop :=
  raReq.isInRaRspWindow (cell.tdd.dciTime currTime) cell.numSlots = .withinWindow →
    memory.dciSlotAlloc = true → ∀ c, cell.findMsg3 s currTime ueId = some (some c) →
      SlotsOffer cell memory s ueId c

namespace RaCfg

variable {cell : RaCfg} {memory : RaMemory} {currTime : SlotTimingInfo} {ueId : ℕ} {s s' : RaCell}
  {raReq : SchRaReq} {granted : Bool} {c : ChosenSlots (K0Entry × K2Entry)}

/-! ## The slots that are found -/

/-- The slots were free. -/
theorem findMsg3_hit (h : cell.findMsg3 s currTime ueId = some (some c)) :
    c.dciTime = cell.tdd.dciTime currTime ∧ cell.tdd.dlSlotOk c.dciTime.slot = some true ∧
      s.owners.pdcchUe c.dciTime.slot = 0 ∧ s.owners.puschUe c.ulTime.slot = 0 := by
  obtain ⟨msg3Delta, -, h⟩ := Option.bind_eq_some_iff.mp h
  obtain ⟨msg3MinSchTime, -, h⟩ := Option.bind_eq_some_iff.mp h
  obtain ⟨ok, hok, h⟩ := Option.bind_eq_some_iff.mp h
  split at h
  · rename_i hfree
    obtain ⟨r, hr, h⟩ := Option.map_eq_some_iff.mp h
    obtain ⟨⟨e, e'⟩, rfl, rfl⟩ := Option.map_eq_some_iff.mp h
    rw [Bool.and_eq_true, decide_eq_true_iff] at hfree
    obtain ⟨-, -, -, hinner⟩ := Search.firstPair_hit hr
    obtain ⟨-, -, htaken⟩ := Search.firstFree_hit hinner
    exact ⟨rfl, hfree.1 ▸ hok, hfree.2, of_not_not (of_decide_eq_false htaken)⟩
  · cases h

theorem schProcessRaReq_found (hreq : s.raReq ueId = some raReq) (hcb : raReq.isCFRA = false)
    (hwin : raReq.isInRaRspWindow (cell.tdd.dciTime currTime) cell.numSlots = .withinWindow)
    (hc : cell.findMsg3 s currTime ueId = some (some c)) :
    cell.schProcessRaReq memory currTime ueId s = cell.scheduleMsg3 memory s raReq ueId c := by
  obtain ⟨htime, hok, hfree, -⟩ := findMsg3_hit hc
  rw [htime] at hok hfree
  rw [schProcessRaReq, hreq]
  simp only [Option.bind_eq_bind, Option.bind_some, hok, hfree, hwin, hcb, hc, decide_true,
    Bool.and_true, if_true, Bool.false_eq_true, if_false]

/-- Without slots nothing is done, except that an expired request is dropped. -/
theorem schProcessRaReq_other (hreq : s.raReq ueId = some raReq) (hcb : raReq.isCFRA = false)
    (hother : raReq.isInRaRspWindow (cell.tdd.dciTime currTime) cell.numSlots = .withinWindow →
      ∀ c, cell.findMsg3 s currTime ueId ≠ some (some c))
    (h : cell.schProcessRaReq memory currTime ueId s = some (granted, s')) :
    granted = false ∧ SlotsUnchanged s s' ∧ (s'.raReq ueId = some raReq ∨
      raReq.isInRaRspWindow (cell.tdd.dciTime currTime) cell.numSlots = .windowExpired) := by
  obtain ⟨raReq', hreq', h⟩ := Option.bind_eq_some_iff.mp h
  obtain rfl := Option.some.inj (hreq.symm.trans hreq')
  obtain ⟨ok, hok, h⟩ := Option.bind_eq_some_iff.mp h
  split at h
  · split at h
    · rename_i hwin
      rw [hcb, if_neg Bool.false_ne_true] at h
      obtain ⟨r, hr, h⟩ := Option.bind_eq_some_iff.mp h
      cases r with
      | some c => exact absurd hr (hother hwin c)
      | none =>
          cases h
          exact ⟨rfl, ⟨rfl, rfl, rfl, rfl⟩, .inl hreq⟩
    · rename_i hwin
      cases h
      exact ⟨rfl, ⟨rfl, rfl, rfl, rfl⟩, .inr hwin⟩
    · cases h
      exact ⟨rfl, ⟨rfl, rfl, rfl, rfl⟩, .inl hreq⟩
  · cases h
    exact ⟨rfl, ⟨rfl, rfl, rfl, rfl⟩, .inl hreq⟩

/-! ## The slots that are used -/

theorem rarPrbReq_pos {e : K0Entry} {req : PrbReq} (h : cell.rarPrbReq e = some req) :
    0 < req.numPrb ∧ 0 < req.symbolLength ∧ req.startPrb = cell.tdd.duplex.maxNumRb := by
  simp only [rarPrbReq, Option.bind_eq_bind, Option.bind_eq_some_iff] at h
  obtain ⟨numPrb, hn, h⟩ := h
  obtain rfl := Option.some.inj h
  refine ⟨schCalcNumPrb_pos (by decide) hn, ?_, rfl⟩
  exact Nat.lt_of_lt_of_le (by decide : 0 < NUM_DMRS_SYMBOLS) (Nat.le_add_right _ _)

theorem msg3PrbReq_pos {e : K2Entry} {req : PrbReq} (h : cell.msg3PrbReq e = some req) :
    0 < req.numPrb ∧ req.startPrb = cell.tdd.duplex.maxNumRb ∧ req.startSymbol = e.startSymbol ∧
      req.symbolLength = e.symbolLength := by
  simp only [msg3PrbReq, Option.bind_eq_bind, Option.bind_eq_some_iff] at h
  obtain ⟨numRb, -, h⟩ := h
  obtain rfl := Option.some.inj h
  exact ⟨Nat.succ_pos _, rfl, rfl, rfl⟩

/-- The RAR is stored for both slots, or for none. -/
theorem storeRar_spec (memory : Bool) (s : RaCell) (dciSlot rarSlot ueId : ℕ) (rar : RarAlloc) :
    ∃ r, storeRar memory s dciSlot rarSlot ueId rar =
        (decide (dciSlot = rarSlot ∨ memory = true), { s with rarAlloc := r }) ∧
      (dciSlot = rarSlot ∨ memory = true → (r dciSlot ueId).map (·.rarInfo) = some rar.rarInfo ∧
        (r rarSlot ueId).map (·.rarInfo) = some rar.rarInfo) := by
  rw [storeRar]
  by_cases he : dciSlot = rarSlot
  · subst he
    rw [if_pos rfl, decide_eq_true (.inl rfl)]
    refine ⟨_, rfl, fun _ => ?_⟩
    simp only [Function.update_self, Option.map_some, and_self]
  · rw [if_neg he]
    cases memory with
    | false =>
        rw [if_neg Bool.false_ne_true, decide_eq_false (by simp [he])]
        exact ⟨_, rfl, fun hor => absurd hor (by simp [he])⟩
    | true =>
        rw [if_pos rfl, decide_eq_true (.inr rfl)]
        refine ⟨_, rfl, fun _ => ?_⟩
        simp only [RaCell.setRarAlloc, Function.update_self,
          Function.update_of_ne (Ne.symm he), Option.map_some, and_self]

/-- The end of a request changes no PRBs and no RAR. -/
theorem finishRaReq_keeps (s : RaCell) (raReq : SchRaReq) (ueId : ℕ) (owners : SlotOwners) :
    (finishRaReq s raReq ueId owners).owners = owners ∧
      (finishRaReq s raReq ueId owners).dlPrb = s.dlPrb ∧
      (finishRaReq s raReq ueId owners).ulPrb = s.ulPrb ∧
      (finishRaReq s raReq ueId owners).rarAlloc = s.rarAlloc ∧
      (finishRaReq s raReq ueId owners).schPuschInfo = s.schPuschInfo := by
  rw [finishRaReq, RaCell.createSchRaCb]
  split
  · split <;> exact ⟨rfl, rfl, rfl, rfl, rfl⟩
  · exact ⟨rfl, rfl, rfl, rfl, rfl⟩

section

variable {req req' : PrbReq} {reserved reserved' : Option Reserved} {rsp rsp' : PrbRsp}

theorem schFillRar_eq (hreq : cell.rarPrbReq c.entry.1 = some req)
    (hres : cell.occasions.reservedDl c.dlTime = some reserved)
    (hrsp : allocatePrb cell.tdd.duplex (some reserved) req (s.dlPrb c.dlTime.slot) = some rsp) :
    cell.schFillRar s c.dlTime c.entry.1 = some (⟨(cell.pdschTimeDom c.entry.1.k0Index).1,
      (cell.pdschTimeDom c.entry.1.k0Index).2, rsp.startPrb, req.numPrb⟩, rsp) := by
  rw [← cell.duplex_eq, ← hres] at hrsp
  rw [schFillRar, hreq]
  simp only [Option.bind_eq_bind, Option.bind_some, allocatePrbDl, hrsp]
  rfl

theorem schAllocMsg3Pusch_eq {puschMemory : Bool} {crnti : ℕ}
    (hreq : cell.msg3PrbReq c.entry.2 = some req')
    (hres : cell.occasions.reservedUl c.ulTime = some reserved')
    (hrsp : allocatePrb cell.tdd.duplex (some reserved') req' (s.ulPrb c.ulTime.slot) = some rsp') :
    ∃ info, info = (if puschMemory then some ⟨crnti, rsp'.startPrb, req'.numPrb,
        c.entry.2.startSymbol, c.entry.2.symbolLength, DEFAULT_MCS⟩ else none) ∧
      cell.schAllocMsg3Pusch puschMemory s crnti c.entry.2 c.ulTime = some (info, { s with
        ulPrb := Function.update s.ulPrb c.ulTime.slot rsp'.prbAlloc
        schPuschInfo := Function.update s.schPuschInfo c.ulTime.slot info }) := by
  rw [← cell.duplex_eq, ← hres] at hrsp
  refine ⟨_, rfl, ?_⟩
  rw [schAllocMsg3Pusch, hreq]
  simp only [Option.bind_eq_bind, Option.bind_some, allocatePrbUl, hrsp]
  rfl

/-- Without PRBs for the RAR, the pointer to it is cleared. -/
theorem scheduleMsg3_full (hmem : memory.dciSlotAlloc = true)
    (hreq : cell.rarPrbReq c.entry.1 = some req)
    (hres : cell.occasions.reservedDl c.dlTime = some reserved)
    (hfull : ¬ (s.dlPrb c.dlTime.slot).Fits reserved req.numPrb) :
    cell.scheduleMsg3 memory s raReq ueId c =
      some (false, s.setRarAlloc c.dciTime.slot ueId none) := by
  have hfill := schFillRar_eq hreq hres (allocatePrb_full (rarPrbReq_pos hreq).2.2 hfull)
  rw [scheduleMsg3, if_pos hmem, hfill]
  simp only [Option.bind_eq_bind, Option.bind_some, Bool.false_eq_true, if_false,
    Function.update_eq_self]
  rfl

/-- With PRBs for the RAR, the PRBs of both slots are taken. -/
theorem scheduleMsg3_fits (hmem : memory.dciSlotAlloc = true)
    (hreq : cell.rarPrbReq c.entry.1 = some req)
    (hres : cell.occasions.reservedDl c.dlTime = some reserved)
    (hrsp : allocatePrb cell.tdd.duplex (some reserved) req (s.dlPrb c.dlTime.slot) = some rsp)
    (hok : rsp.ok = true) (hreq' : cell.msg3PrbReq c.entry.2 = some req')
    (hres' : cell.occasions.reservedUl c.ulTime = some reserved')
    (hrsp' : allocatePrb cell.tdd.duplex (some reserved') req' (s.ulPrb c.ulTime.slot) = some rsp') :
    ∃ s' info rarInfo, cell.scheduleMsg3 memory s raReq ueId c =
        some (decide (c.dciTime.slot = c.dlTime.slot ∨ memory.rarSlotAlloc = true), s') ∧
      info = (if memory.schPuschInfo then some ⟨raReq.rachInd.crnti, rsp'.startPrb, req'.numPrb,
        c.entry.2.startSymbol, c.entry.2.symbolLength, DEFAULT_MCS⟩ else none) ∧
      rarInfo = RaCfg.rarInfo raReq (cell.ulGrant c.entry.2 info) ∧
      s'.dlPrb c.dlTime.slot = rsp.prbAlloc ∧ s'.ulPrb c.ulTime.slot = rsp'.prbAlloc ∧
      s'.schPuschInfo c.ulTime.slot = info ∧
      (c.dciTime.slot = c.dlTime.slot ∨ memory.rarSlotAlloc = true →
        (s'.rarAlloc c.dciTime.slot ueId).map (·.rarInfo) = some rarInfo ∧
        (s'.rarAlloc c.dlTime.slot ueId).map (·.rarInfo) = some rarInfo ∧
        s'.owners.pdcchUe c.dciTime.slot = ueId ∧ s'.owners.pdschUe c.dlTime.slot = ueId ∧
        s'.owners.puschUe c.ulTime.slot = ueId) := by
  have hfill := schFillRar_eq hreq hres hrsp
  obtain ⟨info, hinfo, halloc⟩ := @schAllocMsg3Pusch_eq cell
    { s with dlPrb := Function.update s.dlPrb c.dlTime.slot rsp.prbAlloc } c _ _ _
    memory.schPuschInfo raReq.rachInd.crnti hreq' hres' hrsp'
  rw [scheduleMsg3, if_pos hmem, hfill]
  simp only [Option.bind_eq_bind, Option.bind_some, hok, if_true, halloc]
  obtain ⟨r, hstore, hr⟩ := storeRar_spec memory.rarSlotAlloc
    { s with
      dlPrb := Function.update s.dlPrb c.dlTime.slot rsp.prbAlloc
      ulPrb := Function.update s.ulPrb c.ulTime.slot rsp'.prbAlloc
      schPuschInfo := Function.update s.schPuschInfo c.ulTime.slot info }
    c.dciTime.slot c.dlTime.slot ueId ⟨.none, 0, RaCfg.rarInfo raReq (cell.ulGrant c.entry.2 info),
      ⟨(cell.pdschTimeDom c.entry.1.k0Index).1, (cell.pdschTimeDom c.entry.1.k0Index).2,
        rsp.startPrb, req.numPrb⟩⟩
  rw [hstore]
  by_cases hstored : c.dciTime.slot = c.dlTime.slot ∨ memory.rarSlotAlloc = true
  · simp only [decide_eq_true hstored, if_true]
    refine ⟨_, info, _, rfl, hinfo, rfl, ?_⟩
    obtain ⟨howners, hdl, hul, hrar, hpusch⟩ := finishRaReq_keeps
      { s with
        dlPrb := Function.update s.dlPrb c.dlTime.slot rsp.prbAlloc
        ulPrb := Function.update s.ulPrb c.ulTime.slot rsp'.prbAlloc
        schPuschInfo := Function.update s.schPuschInfo c.ulTime.slot info
        rarAlloc := r } raReq ueId { s.owners with
          pdcchUe := Function.update s.owners.pdcchUe c.dciTime.slot ueId
          pdschUe := Function.update s.owners.pdschUe c.dlTime.slot ueId
          puschUe := Function.update s.owners.puschUe c.ulTime.slot ueId }
    rw [howners, hdl, hul, hrar, hpusch]
    simp only [Function.update_self, true_and, and_true]
    exact fun _ => hr hstored
  · simp only [decide_eq_false hstored, Bool.false_eq_true, if_false]
    refine ⟨_, info, _, rfl, hinfo, rfl, ?_⟩
    simp only [Function.update_self, true_and]
    exact fun hor => absurd hor hstored

end

/-! ## The calls that do what they have to do -/

/-- An allocation at an unknown place that returns has looked up what is reserved. -/
theorem allocatePrb_reserved {duplex : Duplex} {reserved : Option (Option Reserved)} {req : PrbReq}
    {prbAlloc : SchPrbAlloc} {rsp : PrbRsp} (hstart : req.startPrb = duplex.maxNumRb)
    (h : allocatePrb duplex reserved req prbAlloc = some rsp) : ∃ r, reserved = some r := by
  rw [allocatePrb, if_pos hstart] at h
  obtain ⟨r, hr, -⟩ := Option.bind_eq_some_iff.mp h
  exact ⟨r, hr⟩

theorem schFillRar_some {rarTime : SlotTimingInfo} {e : K0Entry} {pdsch : PdschAlloc} {rsp : PrbRsp}
    (h : cell.schFillRar s rarTime e = some (pdsch, rsp)) : ∃ req, cell.rarPrbReq e = some req ∧
      allocatePrb cell.tdd.duplex (cell.occasions.reservedDl rarTime) req (s.dlPrb rarTime.slot) =
        some rsp := by
  simp only [schFillRar, Option.bind_eq_bind, Option.bind_eq_some_iff] at h
  obtain ⟨req, hreq, rsp', hrsp, h⟩ := h
  cases h
  rw [allocatePrbDl, cell.duplex_eq] at hrsp
  exact ⟨req, hreq, hrsp⟩

theorem schAllocMsg3Pusch_some {puschMemory : Bool} {crnti : ℕ} {e : K2Entry}
    {msg3SlotTime : SlotTimingInfo} {info : Option SchPuschInfo}
    (h : cell.schAllocMsg3Pusch puschMemory s crnti e msg3SlotTime = some (info, s')) :
    ∃ req rsp, cell.msg3PrbReq e = some req ∧
      allocatePrb cell.tdd.duplex (cell.occasions.reservedUl msg3SlotTime) req
        (s.ulPrb msg3SlotTime.slot) = some rsp ∧
      s'.dlPrb = s.dlPrb ∧ s'.ulPrb = Function.update s.ulPrb msg3SlotTime.slot rsp.prbAlloc := by
  simp only [schAllocMsg3Pusch, Option.bind_eq_bind, Option.bind_eq_some_iff] at h
  obtain ⟨req, hreq, rsp, hrsp, h⟩ := h
  cases h
  rw [allocatePrbUl, cell.duplex_eq] at hrsp
  exact ⟨req, rsp, hreq, hrsp, rfl, rfl⟩

/-- A call that returns has looked up what it asks for and what is reserved. -/
theorem scheduleMsg3_some (hs : s.Ok cell.tdd.duplex.maxNumRb) (hmem : memory.dciSlotAlloc = true)
    (h : cell.scheduleMsg3 memory s raReq ueId c = some (granted, s')) :
    ∃ req reserved, cell.rarPrbReq c.entry.1 = some req ∧
      cell.occasions.reservedDl c.dlTime = some reserved ∧
      ((s.dlPrb c.dlTime.slot).Fits reserved req.numPrb → ∃ req' reserved',
        cell.msg3PrbReq c.entry.2 = some req' ∧
        cell.occasions.reservedUl c.ulTime = some reserved') := by
  rw [scheduleMsg3, if_pos hmem] at h
  obtain ⟨⟨pdsch, rsp⟩, hfill, h⟩ := Option.bind_eq_some_iff.mp h
  obtain ⟨req, hreq, hrsp⟩ := schFillRar_some hfill
  obtain ⟨hpos, -, hstart⟩ := rarPrbReq_pos hreq
  obtain ⟨reserved, hres⟩ := allocatePrb_reserved hstart hrsp
  refine ⟨req, reserved, hreq, hres, fun hfits => ?_⟩
  obtain ⟨grants, hinv⟩ := hs.dl c.dlTime.slot
  obtain ⟨startPrb, prbAlloc', htake, -⟩ := hinv.unknown_fits hpos hstart hfits
  obtain rfl := Option.some.inj ((hres ▸ hrsp).symm.trans htake)
  dsimp only at h
  rw [if_pos rfl] at h
  obtain ⟨⟨info, s₁⟩, halloc, -⟩ := Option.bind_eq_some_iff.mp h
  obtain ⟨req', rsp', hreq', hrsp', -, -⟩ := schAllocMsg3Pusch_some halloc
  obtain ⟨reserved', hres'⟩ := allocatePrb_reserved (msg3PrbReq_pos hreq').2.1 hrsp'
  exact ⟨req', reserved', hreq', hres'⟩

/-- One call in the slots that were found. -/
theorem scheduleMsg3_right_iff (hs : s.Ok cell.tdd.duplex.maxNumRb)
    (hreq : s.raReq ueId = some raReq) (hmem : memory.dciSlotAlloc = true)
    (hfree : s.owners.puschUe c.ulTime.slot = 0) :
    (∀ granted s', cell.scheduleMsg3 memory s raReq ueId c = some (granted, s') →
      (granted = true → RaGranted cell.tdd.duplex.maxNumRb s s' ueId c) ∧
      (granted = false → SlotsUnchanged s s' ∧ s'.raReq ueId = some raReq)) ↔
    SlotsOffer cell memory s ueId c := by
  obtain ⟨grants, hdl⟩ := hs.dl c.dlTime.slot
  obtain ⟨grants', hul⟩ := hs.ul c.ulTime.slot
  constructor
  · intro hall req hr reserved hres
    obtain ⟨hpos, hsymb, hstart⟩ := rarPrbReq_pos hr
    by_cases hfits : (s.dlPrb c.dlTime.slot).Fits reserved req.numPrb
    · rw [if_pos hfits]
      intro req' hr' reserved' hres'
      obtain ⟨hpos', hstart', -, -⟩ := msg3PrbReq_pos hr'
      obtain ⟨startPrb, prbAlloc', htake, -, hinv⟩ := hdl.unknown_fits hpos hstart hfits
      have htake' : ∃ rsp', allocatePrb cell.tdd.duplex (some reserved') req'
          (s.ulPrb c.ulTime.slot) = some rsp' ∧
          (¬ (s.ulPrb c.ulTime.slot).Fits reserved' req'.numPrb →
            rsp'.startPrb = cell.tdd.duplex.maxNumRb) := by
        by_cases hfits' : (s.ulPrb c.ulTime.slot).Fits reserved' req'.numPrb
        · obtain ⟨startPrb', prbAlloc'', htake', -, -⟩ := hul.unknown_fits hpos' hstart' hfits'
          exact ⟨_, htake', fun hn => absurd hfits' hn⟩
        · exact ⟨_, allocatePrb_full hstart' hfits', fun _ => rfl⟩
      obtain ⟨rsp', htake', hfull⟩ := htake'
      obtain ⟨s₁, info, rarInfo, hcall, hinfo, -, hdlPrb, -, hpuschInfo, -⟩ :=
        @scheduleMsg3_fits cell memory ueId s raReq c _ _ _ _ _ _ hmem hr hres htake rfl hr' hres' htake'
      obtain ⟨htrue, hfalse⟩ := hall _ _ hcall
      by_cases hstored : c.dciTime.slot = c.dlTime.slot ∨ memory.rarSlotAlloc = true
      · obtain ⟨rarInfo', info', hann⟩ := (htrue (decide_eq_true hstored)).announced
        have hpusch := hann.pusch
        rw [hpuschInfo, hinfo] at hpusch
        split at hpusch
        · rename_i hmem'
          refine ⟨by_contra fun hn => ?_, hmem', hstored⟩
          have hin := hann.inCarrier
          have hpos := hann.numPrb_pos
          rw [← Option.some.inj hpusch] at hin hpos
          dsimp only at hin hpos
          rw [hfull hn] at hin
          omega
        · cases hpusch
      -- the PRBs of the RAR stay taken
      · obtain ⟨hslots, -⟩ := hfalse (decide_eq_false hstored)
        rw [hslots.dlPrb] at hdlPrb
        exact absurd hdlPrb.symm ((hdl.marks hinv).ne hsymb hpos)
    · rw [if_neg hfits]
      obtain ⟨hslots, -⟩ := (hall _ _ (scheduleMsg3_full hmem hr hres hfits)).2 rfl
      rw [← hslots.rarAlloc]
      simp only [RaCell.setRarAlloc, Function.update_self]
  · intro hoffer granted s' hret
    obtain ⟨req, reserved, hr, hres, hmore⟩ := scheduleMsg3_some hs hmem hret
    obtain ⟨hpos, -, hstart⟩ := rarPrbReq_pos hr
    have hoffer' := hoffer req hr reserved hres
    by_cases hfits : (s.dlPrb c.dlTime.slot).Fits reserved req.numPrb
    · rw [if_pos hfits] at hoffer'
      obtain ⟨req', reserved', hr', hres'⟩ := hmore hfits
      obtain ⟨hfits', hpusch, hstored⟩ := hoffer' req' hr' reserved' hres'
      obtain ⟨hpos', hstart', hsymb', hlen'⟩ := msg3PrbReq_pos hr'
      obtain ⟨startPrb, prbAlloc', htake, -, -⟩ := hdl.unknown_fits hpos hstart hfits
      obtain ⟨startPrb', prbAlloc'', htake', hle, hinv⟩ := hul.unknown_fits hpos' hstart' hfits'
      obtain ⟨s₁, info, rarInfo, hcall, hinfo, hrar, -, hulPrb, hpuschInfo, hset⟩ :=
        @scheduleMsg3_fits cell memory ueId s raReq c _ _ _ _ _ _ hmem hr hres htake rfl hr' hres' htake'
      obtain ⟨hdci, hrarSlot, hpdcch, hpdsch, hpuschUe⟩ := hset hstored
      cases Option.some.inj (hcall.symm.trans hret)
      rw [hpusch, if_pos rfl] at hinfo
      subst hinfo hrar
      refine ⟨fun _ => ⟨⟨_, _, hdci, hrarSlot, hpuschInfo, rfl, rfl, rfl, rfl, rfl, hpos', hle, ?_⟩,
        hfree, hpdcch, hpdsch, hpuschUe⟩, fun hfalse => ?_⟩
      · rw [hulPrb]
        dsimp only
        rw [← hsymb', ← hlen']
        exact hul.marks hinv
      · rw [decide_eq_true hstored] at hfalse
        cases hfalse
    · rw [if_neg hfits] at hoffer'
      cases Option.some.inj ((scheduleMsg3_full hmem hr hres hfits).symm.trans hret)
      refine ⟨Bool.noConfusion, fun _ => ⟨⟨rfl, rfl, rfl, ?_⟩, hreq⟩⟩
      rw [RaCell.setRarAlloc, ← hoffer', Function.update_eq_self, Function.update_eq_self]

/-- An allocation at an unknown place keeps the PRBs of a slot consistent. -/
theorem keeps_inv {duplex : Duplex} {reserved : Option (Option Reserved)} {req : PrbReq}
    {prbAlloc : SchPrbAlloc} {rsp : PrbRsp} (hpos : 0 < req.numPrb)
    (hstart : req.startPrb = duplex.maxNumRb) (h : ∃ grants, prbAlloc.Inv duplex.maxNumRb grants)
    (hrsp : allocatePrb duplex reserved req prbAlloc = some rsp) :
    ∃ grants, rsp.prbAlloc.Inv duplex.maxNumRb grants := by
  obtain ⟨grants, hinv⟩ := h
  obtain ⟨r, rfl⟩ := allocatePrb_reserved hstart hrsp
  by_cases hfits : prbAlloc.Fits r req.numPrb
  · obtain ⟨startPrb, prbAlloc', htake, -, hinv'⟩ := hinv.unknown_fits hpos hstart hfits
    obtain rfl := Option.some.inj (htake.symm.trans hrsp)
    exact ⟨_, hinv'⟩
  · obtain rfl := Option.some.inj ((allocatePrb_full hstart hfits).symm.trans hrsp)
    exact ⟨grants, hinv⟩

theorem storeRar_ok {rarMemory : Bool} {dciSlot rarSlot : ℕ} {rar : RarAlloc} {numRb : ℕ}
    (hs : s.Ok numRb) : (storeRar rarMemory s dciSlot rarSlot ueId rar).2.Ok numRb := by
  obtain ⟨r, h, -⟩ := storeRar_spec rarMemory s dciSlot rarSlot ueId rar
  rw [h]
  exact hs.of_eq rfl rfl

theorem finish_ok {p : Bool × RaCell} {owners : SlotOwners} {numRb : ℕ} (hs : p.2.Ok numRb)
    (h : (if p.1 then (true, finishRaReq p.2 raReq ueId owners) else (false, p.2)) =
      (granted, s')) : s'.Ok numRb := by
  obtain ⟨-, hdl, hul, -, -⟩ := finishRaReq_keeps p.2 raReq ueId owners
  split at h
  · cases h
    exact hs.of_eq hdl hul
  · cases h
    exact hs

theorem scheduleMsg3_ok (hs : s.Ok cell.tdd.duplex.maxNumRb)
    (h : cell.scheduleMsg3 memory s raReq ueId c = some (granted, s')) :
    s'.Ok cell.tdd.duplex.maxNumRb := by
  rw [scheduleMsg3] at h
  split at h
  · obtain ⟨⟨pdsch, rsp⟩, hfill, h⟩ := Option.bind_eq_some_iff.mp h
    obtain ⟨req, hreq, hrsp⟩ := schFillRar_some hfill
    obtain ⟨hpos, -, hstart⟩ := rarPrbReq_pos hreq
    have hs₁ := hs.setDl c.dlTime.slot (keeps_inv hpos hstart (hs.dl _) hrsp)
    dsimp only at h
    split at h
    · obtain ⟨⟨info, s₂⟩, halloc, h⟩ := Option.bind_eq_some_iff.mp h
      obtain ⟨req', rsp', hreq', hrsp', hdl, hul⟩ := schAllocMsg3Pusch_some halloc
      obtain ⟨hpos', hstart', -, -⟩ := msg3PrbReq_pos hreq'
      have hs₂ := hs₁.setUl c.ulTime.slot (keeps_inv hpos' hstart' (hs₁.ul _) hrsp')
      refine finish_ok (storeRar_ok (hs₂.of_eq ?_ ?_)) (Option.some.inj h)
      · exact hdl
      · exact hul
    · cases h
      exact hs₁.of_eq rfl rfl
  · cases h
    exact hs

theorem schedulePucch_ok {c : ChosenSlots K0Entry} (hs : s.Ok cell.tdd.duplex.maxNumRb)
    (h : cell.schedulePucch memory s raReq ueId c = some (granted, s')) :
    s'.Ok cell.tdd.duplex.maxNumRb := by
  rw [schedulePucch] at h
  split at h
  · obtain ⟨⟨pdsch, rsp⟩, hfill, h⟩ := Option.bind_eq_some_iff.mp h
    obtain ⟨req, hreq, hrsp⟩ := schFillRar_some hfill
    obtain ⟨hpos, -, hstart⟩ := rarPrbReq_pos hreq
    have hs₁ := hs.setDl c.dlTime.slot (keeps_inv hpos hstart (hs.dl _) hrsp)
    dsimp only at h
    split at h
    · refine finish_ok (storeRar_ok (hs₁.of_eq ?_ ?_)) (Option.some.inj h) <;> rfl
    · cases h
      exact hs₁.of_eq rfl rfl
  · cases h
    exact hs

/-- **Every call keeps the PRBs of all slots consistent.** -/
theorem schProcessRaReq_ok (hs : s.Ok cell.tdd.duplex.maxNumRb)
    (h : cell.schProcessRaReq memory currTime ueId s = some (granted, s')) :
    s'.Ok cell.tdd.duplex.maxNumRb := by
  obtain ⟨raReq, -, h⟩ := Option.bind_eq_some_iff.mp h
  obtain ⟨ok, -, h⟩ := Option.bind_eq_some_iff.mp h
  split at h
  · split at h
    · split at h
      · obtain ⟨r, -, h⟩ := Option.bind_eq_some_iff.mp h
        cases r with
        | none =>
            cases h
            exact hs
        | some c => exact schedulePucch_ok hs h
      · obtain ⟨r, -, h⟩ := Option.bind_eq_some_iff.mp h
        cases r with
        | none =>
            cases h
            exact hs
        | some c => exact scheduleMsg3_ok hs h
    · cases h
      exact hs.of_eq rfl rfl
    · cases h
      exact hs
  · cases h
    exact hs

/-- What happens to a cell: a request is stored for a UE, a slot is initialized for the next frame, or
a request is processed. -/
inductive RaOp
  | rachInd (ueId : ℕ) (raReq : SchRaReq)
  | initDlSlot (slot : ℕ)
  | initUlSlot (slot : ℕ)
  | raReq (memory : RaMemory) (currTime : SlotTimingInfo) (ueId : ℕ)

/-- An initialized slot is that of no UE and has no pointers. -/
def raStep (cell : RaCfg) (s : RaCell) : RaOp → Option RaCell
  | .rachInd ueId raReq => some { s with raReq := Function.update s.raReq ueId (some raReq) }
  | .initDlSlot slot => some { s with
      owners := { s.owners with
        pdcchUe := Function.update s.owners.pdcchUe slot 0
        pdschUe := Function.update s.owners.pdschUe slot 0 }
      dlPrb := Function.update s.dlPrb slot (schInitSlot cell.tdd.duplex)
      rarAlloc := Function.update s.rarAlloc slot fun _ => none }
  | .initUlSlot slot => some { s with
      owners := { s.owners with
        pucchUe := Function.update s.owners.pucchUe slot 0
        puschUe := Function.update s.owners.puschUe slot 0 }
      ulPrb := Function.update s.ulPrb slot (schInitSlot cell.tdd.duplex)
      schPuschInfo := Function.update s.schPuschInfo slot none
      schPucchInfo := Function.update s.schPucchInfo slot none }
  | .raReq memory currTime ueId => (cell.schProcessRaReq memory currTime ueId s).map Prod.snd

theorem raStep_ok {op : RaOp} (hs : s.Ok cell.tdd.duplex.maxNumRb)
    (h : cell.raStep s op = some s') : s'.Ok cell.tdd.duplex.maxNumRb := by
  cases op with
  | rachInd ueId raReq =>
      cases h
      exact hs.of_eq rfl rfl
  | initDlSlot slot =>
      cases h
      exact (hs.setDl slot ⟨[], inv_init _⟩).of_eq rfl rfl
  | initUlSlot slot =>
      cases h
      exact (hs.setUl slot ⟨[], inv_init _⟩).of_eq rfl rfl
  | raReq memory currTime ueId =>
      obtain ⟨⟨granted, s₁⟩, hcall, rfl⟩ := Option.map_eq_some_iff.mp h
      exact schProcessRaReq_ok hs hcall

/-- **In every run the free list and the bitmaps of every slot stay consistent**, and no PRB of a slot
is granted twice for RARs and MSG3s, whatever requests come, succeed and fail. -/
theorem raRun_ok (cell : RaCfg) (ops : List RaOp) (s s' : RaCell)
    (hs : s.Ok cell.tdd.duplex.maxNumRb) (hrun : ops.foldlM cell.raStep s = some s') :
    s'.Ok cell.tdd.duplex.maxNumRb := by
  induction ops generalizing s with
  | nil =>
      cases hrun
      exact hs
  | cons op ops ih =>
      rw [List.foldlM_cons] at hrun
      obtain ⟨s₁, hop, hrun⟩ := Option.bind_eq_some_iff.mp hrun
      exact ih s₁ (raStep_ok hs hop) hrun

end RaCfg

/-! ## One request -/

/-- The cell of 20 MHz with one row for the RAR and one for MSG3. -/
def exampleRaCfg : RaCfg where
  tdd := ⟨.fdd, 0, ⟨.ms10, fun _ _ => .dlSlot⟩⟩
  occasions := exampleCell
  numSlots := 10
  k0K1InfoTbl := fun _ _ => [⟨0, 0, []⟩]
  msg3K2InfoTbl := fun _ => [⟨0, 4, 0, 14⟩]
  pdschTimeDom := fun _ => (3, 11)
  ulBwpNumPrb := 106
  duplex_eq := rfl
  slotFrmt_eq := by decide

def exampleRaReq : SchRaReq := ⟨15, ⟨100, 1, 0⟩, false, ⟨0, 0⟩, ⟨1, 0⟩⟩

/-- The request of UE 1 is stored, and nothing is scheduled yet. -/
def exampleRaCell : RaCell where
  owners := ⟨fun _ => 0, fun _ => 0, fun _ => 0, fun _ => 0⟩
  dlPrb := fun _ => schInitSlot .fdd
  ulPrb := fun _ => schInitSlot .fdd
  rarAlloc := fun _ _ => none
  schPuschInfo := fun _ => none
  schPucchInfo := fun _ => none
  raReq := Function.update (fun _ => none) 1 (some exampleRaReq)
  raCb := fun _ => ⟨0, false⟩
  ueState := fun _ => .inactive
  numActvUe := 0
  actvUe := fun _ => false

theorem exampleRaCell_ok : exampleRaCell.Ok Duplex.fdd.maxNumRb :=
  RaCfg.raRun_ok exampleRaCfg [.rachInd 1 exampleRaReq] { exampleRaCell with raReq := fun _ => none }
    exampleRaCell ⟨fun _ => ⟨[], inv_init .fdd⟩, fun _ => ⟨[], inv_init .fdd⟩⟩ rfl

theorem exampleRaCell_findMsg3 : exampleRaCfg.findMsg3 exampleRaCell ⟨0, 1⟩ 1 =
    some (some ⟨⟨0, 3⟩, ⟨0, 3⟩, ⟨0, 9⟩, ⟨0, 0, []⟩, ⟨0, 4, 0, 14⟩⟩) := by
  decide +kernel

end OaiCu.OduSch
