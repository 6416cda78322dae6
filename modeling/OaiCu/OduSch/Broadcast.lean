import OaiCu.OduSch.Reserved

/-!
# The broadcast after the dedicated allocations (`sch_common.c`)

The PRBs of the broadcast are still free when it is due. The search has to come to them, though:
`isPrbAvailable` stays for ever at a free block that is too small.
-/

namespace OaiCu.OduSch

def SCH_SSB_NUM_SYMB : ℕ := 4
def NUM_PDSCH_SYMBOL : ℕ := 11

def findDmrsStartSymbol (dlDmrsSymbBitMap : ℕ) : ℕ :=
  ((List.range MAX_SYMB_PER_SLOT).find? fun position => dlDmrsSymbBitMap.testBit position).getD
    MAX_SYMB_PER_SLOT

namespace OccasionCfg

/-- What `schBroadcastSsbAlloc` asks for. The first symbol is the entry of `ssbStartSymbArr`. -/
def ssbReq (cell : OccasionCfg) (ssbStartSymb : ℕ) : PrbReq where
  startSymbol := ssbStartSymb
  symbolLength := SCH_SSB_NUM_SYMB
  startPrb := cell.ssbOffsetPointA
  numPrb := SCH_SSB_NUM_PRB

def schBroadcastSsbAlloc (cell : OccasionCfg) (ssbStartSymb : ℕ) (slotTime : SlotTimingInfo)
    (prbAlloc : SchPrbAlloc) : Option PrbRsp :=
  allocatePrbDl cell slotTime (cell.ssbReq ssbStartSymb) prbAlloc

/-- The PDSCH that `fillSchSib1Cfg` sets: the bitmap of the DMRS symbols and the first symbol. -/
def sib1DmrsSymbPos : ℕ := 4
def sib1StartSymb : ℕ := 3

/-- What `schBroadcastSib1Alloc` asks for: the symbols of the DMRS and of the PDSCH. -/
def sib1Req (cell : OccasionCfg) : PrbReq where
  startSymbol :=
    if findDmrsStartSymbol sib1DmrsSymbPos = MAX_SYMB_PER_SLOT then sib1StartSymb
    else findDmrsStartSymbol sib1DmrsSymbPos
  symbolLength :=
    if findDmrsStartSymbol sib1DmrsSymbPos = MAX_SYMB_PER_SLOT then NUM_PDSCH_SYMBOL
    else NUM_DMRS_SYMBOLS + NUM_PDSCH_SYMBOL
  startPrb := cell.sib1StartPrb
  numPrb := cell.sib1NumPrb

def schBroadcastSib1Alloc (cell : OccasionCfg) (slotTime : SlotTimingInfo)
    (prbAlloc : SchPrbAlloc) : Option PrbRsp :=
  allocatePrbDl cell slotTime cell.sib1Req prbAlloc

/-- The broadcast of `schProcessSlotInd`: whether the SSB and SIB1 could be allocated, as far as
the slot has an occasion for them. -/
def broadcast (cell : OccasionCfg) (ssbStartSymb : ℕ) (slotTime : SlotTimingInfo)
    (prbAlloc : SchPrbAlloc) : Option (Bool × SchPrbAlloc) := do
  let ssbTrans ← cell.schCheckSsbOcc slotTime
  let (ssbOk, prbAlloc) ← if ssbTrans = .noTransmission then some (true, prbAlloc)
    else (cell.schBroadcastSsbAlloc ssbStartSymb slotTime prbAlloc).map fun rsp =>
      (rsp.ok, rsp.prbAlloc)
  let sib1Trans ← cell.schCheckSib1Occ slotTime
  let (sib1Ok, prbAlloc) ← if sib1Trans = .noTransmission then some (true, prbAlloc)
    else (cell.schBroadcastSib1Alloc slotTime prbAlloc).map fun rsp => (rsp.ok, rsp.prbAlloc)
  return (ssbOk && sib1Ok, prbAlloc)

/-- What is reserved in a slot: the first PRB and how many. -/
def reservedPrbs (cell : OccasionCfg) (direction : Direction) (slotTime : SlotTimingInfo) :
    Option (Option (ℕ × ℕ)) :=
  match direction with
  | .dl => do
    let ssbOccasion ← cell.schCheckSsbOcc slotTime
    let sib1Occasion ← cell.schCheckSib1Occ slotTime
    return if ssbOccasion ≠ .noTransmission then
        if sib1Occasion ≠ .noTransmission then
          some (cell.ssbOffsetPointA, SCH_SSB_NUM_PRB + cell.sib1NumPrb)
        else some (cell.ssbOffsetPointA, SCH_SSB_NUM_PRB)
      else if sib1Occasion ≠ .noTransmission then some (cell.sib1StartPrb, cell.sib1NumPrb)
      else none
  | .ul => do
    let isPrachOccasion ← cell.schCheckPrachOcc slotTime
    return if isPrachOccasion then some (cell.msg1FreqStart, cell.schCalcPrachNumRb) else none

/-- The slot has an occasion, and the reserved PRBs are in the carrier. -/
structure Occasion (cell : OccasionCfg) (direction : Direction) (slotTime : SlotTimingInfo)
    (startPrb numPrb : ℕ) : Prop where
  reserved : cell.reservedPrbs direction slotTime = some (some (startPrb, numPrb))
  numPrb_pos : 0 < numPrb
  le : startPrb + numPrb ≤ cell.duplex.maxNumRb
  sib1NumPrb_pos : 0 < cell.sib1NumPrb

/-- No free block above the reserved PRBs is smaller than what is broadcast. -/
def BroadcastReaches (cell : OccasionCfg) (slotTime : SlotTimingInfo) (startPrb : ℕ)
    (prbAlloc : SchPrbAlloc) : Prop :=
  ∀ b ∈ prbAlloc.freePrbBlockList, startPrb < b.startPrb →
    (cell.schCheckSsbOcc slotTime ≠ some .noTransmission → SCH_SSB_NUM_PRB ≤ b.numFreePrb) ∧
    (cell.schCheckSib1Occ slotTime ≠ some .noTransmission → cell.sib1NumPrb ≤ b.numFreePrb)

end OccasionCfg

theorem Reserved.ofNumPrb_eq {startPrb numPrb : ℕ} (hpos : 0 < numPrb)
    (hle : startPrb + numPrb ≤ 2 ^ 16) :
    Reserved.ofNumPrb startPrb numPrb = ⟨startPrb, startPrb + numPrb - 1⟩ := by
  rw [ofNumPrb, Reserved.mk.injEq]
  exact ⟨rfl, by omega⟩

theorem Duplex.maxNumRb_lt (duplex : Duplex) : duplex.maxNumRb < 2 ^ 16 := by
  cases duplex <;> decide

section

variable {numRb startPrb numPrb : ℕ} {front rest : List FreePrbBlock} {b : FreePrbBlock}

/-- PRBs that are taken leave the upper part of the block as the first one. -/
theorem removeAllocatedPrb_cons (hcount : b.numFreePrb = b.endPrb - b.startPrb + 1)
    (h1 : b.startPrb ≤ startPrb) (h2 : startPrb + numPrb ≤ b.endPrb) (hpos : 0 < numPrb) :
    ∃ lower, removeAllocatedPrb b startPrb numPrb =
      .ofRange (startPrb + numPrb) b.endPrb :: lower := by
  have hend : startPrb + numPrb - 1 + 1 = startPrb + numPrb := by omega
  rw [removeAllocatedPrb, if_neg (by omega), hend]
  split
  · exact ⟨_, rfl⟩
  · rw [if_neg (by omega)]
    exact ⟨_, rfl⟩

/-- The search for the PRBs right above those that were taken meets the same blocks. -/
theorem reaches_take (h : FreeListOk numRb (front ++ b :: rest)) (h1 : b.startPrb ≤ startPrb)
    (h2 : startPrb + numPrb ≤ b.endPrb) (hpos : 0 < numPrb) {req : PrbReq}
    (hreq : req.startPrb = startPrb + numPrb) :
    req.Reaches (front ++ (removeAllocatedPrb b startPrb numPrb ++ rest)) ↔
      ∀ b' ∈ front ++ b :: rest, startPrb < b'.startPrb → req.numPrb ≤ b'.numFreePrb := by
  obtain ⟨hok, -⟩ := h.take h1 hpos (by omega)
  have hcount := h.numFreePrb b (List.mem_append_right _ List.mem_cons_self)
  obtain ⟨lower, he⟩ := removeAllocatedPrb_cons hcount h1 h2 hpos
  rw [he, List.cons_append] at hok ⊢
  have hin : b.has startPrb = true := FreePrbBlock.has_iff.mpr ⟨h1, by omega⟩
  have hin' : (FreePrbBlock.ofRange (startPrb + numPrb) b.endPrb).has req.startPrb = true :=
    FreePrbBlock.has_iff.mpr ⟨hreq.ge, hreq.trans_le h2⟩
  constructor
  · intro hall b' hb' hlt
    have hmem := List.mem_append_left (FreePrbBlock.ofRange (startPrb + numPrb) b.endPrb ::
      (lower ++ rest)) ((h.mem_front hb' hin).mpr hlt)
    exact hall b' hmem ((hok.mem_front hmem hin').mp ((h.mem_front hb' hin).mpr hlt))
  · intro hall b' hb' hlt
    have hfront := (hok.mem_front hb' hin').mpr hlt
    have hmem := List.mem_append_left (b :: rest) hfront
    exact hall b' hmem ((h.mem_front hmem hin).mp hfront)

end

section

variable {cell : OccasionCfg} {slotTime : SlotTimingInfo} {ssbStartSymb startPrb numPrb : ℕ}
  {prbAlloc : SchPrbAlloc} {r : Reserved}

/-- An allocation in a downlink slot for PRBs that are still reserved. -/
theorem allocatePrbDl_reserved (hk : prbAlloc.Keeps cell.duplex.maxNumRb r) {req : PrbReq}
    (hpos : 0 < req.numPrb) (h1 : r.startPrb ≤ req.startPrb)
    (h2 : req.startPrb + req.numPrb ≤ r.endPrb + 1) :
    ∃ grants front b rest, prbAlloc.Inv cell.duplex.maxNumRb grants ∧
      prbAlloc.freePrbBlockList = front ++ b :: rest ∧
      b.startPrb ≤ r.startPrb ∧ r.endPrb ≤ b.endPrb ∧
      (req.Reaches prbAlloc.freePrbBlockList → ∃ prbAlloc',
        allocatePrbDl cell slotTime req prbAlloc = some ⟨true, req.startPrb, prbAlloc'⟩ ∧
        prbAlloc'.Inv cell.duplex.maxNumRb (grants ++ [⟨req, req.startPrb⟩]) ∧
        prbAlloc'.freePrbBlockList =
          front ++ (removeAllocatedPrb b req.startPrb req.numPrb ++ rest)) ∧
      (¬ req.Reaches prbAlloc.freePrbBlockList → allocatePrbDl cell slotTime req prbAlloc = none) := by
  obtain ⟨grants, hinv⟩ := hk.inv
  obtain ⟨front, b, rest, hlist, hlo, hhi, hyes, hno⟩ :=
    @allocatePrb_known cell.duplex (cell.reservedDl slotTime) req prbAlloc grants hinv hpos
      fun p hp hp' => hk.free p ⟨h1.trans hp, by omega⟩
  have hmem : b ∈ prbAlloc.freePrbBlockList := by
    rw [hlist]
    exact List.mem_append_right _ List.mem_cons_self
  have hwhole := hinv.freeList.whole (by omega : r.startPrb ≤ r.endPrb) hk.free hmem
  refine ⟨grants, front, b, rest, hinv, hlist, ?_, ?_, hyes, hno⟩
  · rcases hwhole with h | h <;> omega
  · rcases hwhole with h | h <;> omega

/-- The occasions of a downlink slot where something is reserved. -/
theorem OccasionCfg.Occasion.dl (ho : cell.Occasion .dl slotTime startPrb numPrb) :
    ∃ ssbTrans sib1Trans, cell.schCheckSsbOcc slotTime = some ssbTrans ∧
      cell.schCheckSib1Occ slotTime = some sib1Trans ∧
      ((ssbTrans ≠ .noTransmission ∧ sib1Trans = .noTransmission ∧
        startPrb = cell.ssbOffsetPointA ∧ numPrb = SCH_SSB_NUM_PRB) ∨
      (ssbTrans = .noTransmission ∧ sib1Trans ≠ .noTransmission ∧
        startPrb = cell.sib1StartPrb ∧ numPrb = cell.sib1NumPrb) ∨
      (ssbTrans ≠ .noTransmission ∧ sib1Trans ≠ .noTransmission ∧
        startPrb = cell.ssbOffsetPointA ∧ numPrb = SCH_SSB_NUM_PRB + cell.sib1NumPrb)) := by
  have hres := ho.reserved
  rw [reservedPrbs] at hres
  cases h1 : cell.schCheckSsbOcc slotTime with
  | none =>
      rw [h1] at hres
      cases hres
  | some ssbTrans =>
      cases h2 : cell.schCheckSib1Occ slotTime with
      | none =>
          rw [h1, h2] at hres
          cases hres
      | some sib1Trans =>
          rw [h1, h2] at hres
          refine ⟨ssbTrans, sib1Trans, rfl, rfl, ?_⟩
          cases ssbTrans <;> cases sib1Trans <;> cases hres <;> simp

/-- SIB1 is allocated in what the SSB leaves of the reserved PRBs. -/
theorem sib1_after_ssb (hsib1 : 0 < cell.sib1NumPrb)
    (hk : prbAlloc.Keeps cell.duplex.maxNumRb
      ⟨cell.ssbOffsetPointA, cell.ssbOffsetPointA + (SCH_SSB_NUM_PRB + cell.sib1NumPrb) - 1⟩) :
    ((cell.ssbReq ssbStartSymb).Reaches prbAlloc.freePrbBlockList → ∃ prbAlloc₁,
      cell.schBroadcastSsbAlloc ssbStartSymb slotTime prbAlloc =
        some ⟨true, cell.ssbOffsetPointA, prbAlloc₁⟩ ∧
      ((∀ b ∈ prbAlloc.freePrbBlockList, cell.ssbOffsetPointA < b.startPrb →
          cell.sib1NumPrb ≤ b.numFreePrb) →
        ∃ prbAlloc₂, cell.schBroadcastSib1Alloc slotTime prbAlloc₁ =
          some ⟨true, cell.sib1StartPrb, prbAlloc₂⟩) ∧
      (¬ (∀ b ∈ prbAlloc.freePrbBlockList, cell.ssbOffsetPointA < b.startPrb →
          cell.sib1NumPrb ≤ b.numFreePrb) →
        cell.schBroadcastSib1Alloc slotTime prbAlloc₁ = none)) ∧
    (¬ (cell.ssbReq ssbStartSymb).Reaches prbAlloc.freePrbBlockList →
      cell.schBroadcastSsbAlloc ssbStartSymb slotTime prbAlloc = none) := by
  have hpos : 0 < SCH_SSB_NUM_PRB := Nat.succ_pos 20
  have hstart : cell.sib1StartPrb = cell.ssbOffsetPointA + SCH_SSB_NUM_PRB := rfl
  obtain ⟨grants, front, b, rest, hinv, hlist, hlo, hhi, hyes, hno⟩ :=
    @allocatePrbDl_reserved cell slotTime prbAlloc _ hk (cell.ssbReq ssbStartSymb) hpos le_rfl (by
      show cell.ssbOffsetPointA + SCH_SSB_NUM_PRB ≤ _
      dsimp only
      omega)
  refine ⟨fun hreach => ?_, hno⟩
  obtain ⟨prbAlloc₁, he, hinv₁, hlist₁⟩ := hyes hreach
  refine ⟨prbAlloc₁, he, ?_⟩
  have hok := hinv.freeList
  rw [hlist] at hok
  have hiff := @reaches_take cell.duplex.maxNumRb cell.ssbOffsetPointA SCH_SSB_NUM_PRB front rest b
    hok hlo (by dsimp only at hhi; omega) hpos cell.sib1Req rfl
  rw [← hlist] at hiff
  have hfree : ∀ p, cell.sib1StartPrb ≤ p → p < cell.sib1StartPrb + cell.sib1NumPrb →
      IsFree prbAlloc₁.freePrbBlockList p := by
    intro p hp hp'
    have hp₀ := hk.free p ⟨by dsimp only; omega, by dsimp only; omega⟩
    have hlt := hp₀.lt hinv.freeList
    rw [hinv₁.isFree p hlt]
    rintro g hg hhas
    rcases List.mem_append.mp hg with hg | hg
    · exact (hinv.isFree p hlt).mp hp₀ g hg hhas
    · obtain rfl := List.mem_singleton.mp hg
      have h2 : p < cell.ssbOffsetPointA + SCH_SSB_NUM_PRB := hhas.2
      omega
  obtain ⟨_, _, _, -, -, -, hyes', hno'⟩ := @allocatePrb_known cell.duplex
    (cell.reservedDl slotTime) cell.sib1Req prbAlloc₁ _ hinv₁ hsib1 hfree
  rw [hlist₁] at hyes' hno'
  constructor
  · intro hall
    obtain ⟨prbAlloc₂, he', -⟩ := hyes' (hiff.mpr hall)
    exact ⟨prbAlloc₂, he'⟩
  · exact fun hall => hno' (mt hiff.mp hall)

/-- **The broadcast is allocated if the search comes to its PRBs.** -/
theorem broadcast_iff (ho : cell.Occasion .dl slotTime startPrb numPrb)
    (hk : prbAlloc.Keeps cell.duplex.maxNumRb (.ofNumPrb startPrb numPrb)) :
    (∃ prbAlloc', cell.broadcast ssbStartSymb slotTime prbAlloc = some (true, prbAlloc')) ↔
      cell.BroadcastReaches slotTime startPrb prbAlloc := by
  have hlt := cell.duplex.maxNumRb_lt
  have hle := ho.le
  have hnum := ho.numPrb_pos
  have hsend : ∀ {trans : PduTxOccsaion}, trans ≠ .noTransmission →
      some trans ≠ some PduTxOccsaion.noTransmission := fun hne he => hne (Option.some.inj he)
  rw [Reserved.ofNumPrb_eq hnum (by omega)] at hk
  obtain ⟨ssbTrans, sib1Trans, h1, h2, hcase⟩ := ho.dl
  rw [OccasionCfg.broadcast, OccasionCfg.BroadcastReaches, h1, h2]
  simp only [Option.bind_eq_bind, Option.bind_some]
  rcases hcase with ⟨hs, rfl, rfl, rfl⟩ | ⟨rfl, hs, rfl, rfl⟩ | ⟨hs, hs', rfl, rfl⟩
  -- the SSB alone
  · obtain ⟨_, _, _, _, -, -, -, -, hyes, hno⟩ := @allocatePrbDl_reserved cell slotTime prbAlloc _ hk
      (cell.ssbReq ssbStartSymb) hnum le_rfl (by dsimp only [OccasionCfg.ssbReq]; omega)
    simp only [hsend hs, ne_eq, not_false_eq_true, true_imp_iff, not_true_eq_false,
      false_imp_iff, and_true, hs, if_false, if_true, OccasionCfg.schBroadcastSsbAlloc]
    by_cases hreach : (cell.ssbReq ssbStartSymb).Reaches prbAlloc.freePrbBlockList
    · obtain ⟨prbAlloc', he, -⟩ := hyes hreach
      rw [he]
      exact iff_of_true ⟨prbAlloc', rfl⟩ hreach
    · rw [hno hreach]
      exact iff_of_false (fun ⟨_, h⟩ => by cases h) hreach
  -- SIB1 alone
  · obtain ⟨_, _, _, _, -, -, -, -, hyes, hno⟩ := @allocatePrbDl_reserved cell slotTime prbAlloc _ hk
      cell.sib1Req hnum le_rfl (by dsimp only [OccasionCfg.sib1Req]; omega)
    simp only [hsend hs, ne_eq, not_false_eq_true, true_imp_iff, not_true_eq_false,
      false_imp_iff, true_and, hs, if_false, if_true, OccasionCfg.schBroadcastSib1Alloc]
    by_cases hreach : cell.sib1Req.Reaches prbAlloc.freePrbBlockList
    · obtain ⟨prbAlloc', he, -⟩ := hyes hreach
      rw [he]
      exact iff_of_true ⟨prbAlloc', rfl⟩ hreach
    · rw [hno hreach]
      exact iff_of_false (fun ⟨_, h⟩ => by cases h) hreach
  -- the SSB, and SIB1 in what is left of the block
  · obtain ⟨hyes, hno⟩ := @sib1_after_ssb cell slotTime ssbStartSymb prbAlloc ho.sib1NumPrb_pos hk
    simp only [hsend hs, hsend hs', ne_eq, not_false_eq_true, true_imp_iff, hs, hs', if_false,
      imp_and, forall_and]
    by_cases hreach : (cell.ssbReq ssbStartSymb).Reaches prbAlloc.freePrbBlockList
    · obtain ⟨prbAlloc₁, he, hyes', hno'⟩ := hyes hreach
      rw [he]
      simp only [Option.map_some, Option.bind_some]
      by_cases hreach' : ∀ b ∈ prbAlloc.freePrbBlockList, cell.ssbOffsetPointA < b.startPrb →
          cell.sib1NumPrb ≤ b.numFreePrb
      · obtain ⟨prbAlloc₂, he'⟩ := hyes' hreach'
        rw [he']
        exact iff_of_true ⟨prbAlloc₂, rfl⟩ ⟨hreach, hreach'⟩
      · rw [hno' hreach']
        exact iff_of_false (fun ⟨_, h⟩ => by cases h) fun h => hreach' h.2
    · rw [hno hreach]
      exact iff_of_false (fun ⟨_, h⟩ => by cases h) fun h => hreach h.1

end

/-- What holds of a slot after dedicated allocations that granted `grants`: they left the reserved
PRBs alone, the search finds a largest run of PRBs that are neither taken nor reserved, and in a
downlink slot the broadcast is allocated. -/
structure ReservedKept (direction : Direction) (cell : OccasionCfg) (slotTime : SlotTimingInfo)
    (ssbStartSymb : ℕ) (r : Reserved) (prbAlloc : SchPrbAlloc) (grants : List PrbGrant) :
    Prop where
  avoids : ∀ g ∈ grants, ∀ p, r.has p → ¬ g.has p
  search_free : ∀ p, (searchLargestFreeBlock (some r) prbAlloc.freePrbBlockList).2 ≤ p →
    p < (searchLargestFreeBlock (some r) prbAlloc.freePrbBlockList).2 +
      (searchLargestFreeBlock (some r) prbAlloc.freePrbBlockList).1 →
    IsFree prbAlloc.freePrbBlockList p ∧ ¬ r.has p
  search_largest : ∀ lo n,
    (∀ p, lo ≤ p → p < lo + n → IsFree prbAlloc.freePrbBlockList p ∧ ¬ r.has p) →
    n ≤ (searchLargestFreeBlock (some r) prbAlloc.freePrbBlockList).1
  broadcast : direction = .dl →
    ∃ prbAlloc', cell.broadcast ssbStartSymb slotTime prbAlloc = some (true, prbAlloc')

theorem SchPrbAlloc.Keeps.init {duplex : Duplex} {r : Reserved}
    (hr : r.InCarrier duplex.maxNumRb) : (schInitSlot duplex).Keeps duplex.maxNumRb r := by
  refine ⟨⟨[], inv_init duplex⟩, fun p hp => ?_⟩
  exact ((inv_init duplex).isFree p (hp.2.trans_lt hr.lt)).mpr fun _ hg => by cases hg

section

variable {direction : Direction} {cell : OccasionCfg} {slotTime : SlotTimingInfo}
  {ssbStartSymb startPrb numPrb : ℕ} {calls : List PrbCall}

theorem OccasionCfg.Occasion.inCarrier (ho : cell.Occasion direction slotTime startPrb numPrb) :
    (Reserved.ofNumPrb startPrb numPrb).InCarrier cell.duplex.maxNumRb := by
  have hlt := cell.duplex.maxNumRb_lt
  have hle := ho.le
  have hpos := ho.numPrb_pos
  rw [Reserved.ofNumPrb_eq hpos (by omega)]
  exact ⟨by dsimp only; omega, by dsimp only; omega⟩

/-- Dedicated allocations keep the reserved PRBs free. -/
theorem keeps_of_run {r : Reserved} {duplex : Duplex} (hr : r.InCarrier duplex.maxNumRb)
    {prbAlloc : SchPrbAlloc} {grants : List PrbGrant}
    (hcalls : Machine.Along (PrbCall.step direction)
      (fun s call => call.Dedicated direction duplex r s) (schInitSlot duplex) calls)
    (hrun : Machine.run (PrbCall.step direction) (schInitSlot duplex) calls =
      .ok (prbAlloc, grants)) :
    prbAlloc.Inv duplex.maxNumRb grants ∧ prbAlloc.Keeps duplex.maxNumRb r :=
  @Machine.history_invariant _ _ _ _ _ (fun s call => call.Dedicated direction duplex r s)
    (fun _ s gs => s.Inv duplex.maxNumRb gs ∧ s.Keeps duplex.maxNumRb r) _
    ⟨inv_init duplex, .init hr⟩
    (fun _ _ _ _ _ _ _ hinv hded hstep => ⟨hinv.1.step (hded.valid hinv.2 hr) hstep,
      (hded.step hinv.2 hr).2 _ _ hstep⟩) calls _ _ hcalls hrun

/-- **The reserved PRBs are kept, and the broadcast is allocated as long as no search meets a
free block that is too small.** -/
theorem reserved_kept_iff (ho : cell.Occasion direction slotTime startPrb numPrb)
    (hcalls : Machine.Along (PrbCall.step direction)
      (fun s call => call.Dedicated direction cell.duplex (.ofNumPrb startPrb numPrb) s)
      (schInitSlot cell.duplex) calls) :
    (∃ prbAlloc grants, Machine.run (PrbCall.step direction) (schInitSlot cell.duplex) calls =
        .ok (prbAlloc, grants) ∧
      ReservedKept direction cell slotTime ssbStartSymb (.ofNumPrb startPrb numPrb) prbAlloc
        grants) ↔
    Machine.Along (PrbCall.step direction) (fun s call => call.Reaches cell.duplex s)
        (schInitSlot cell.duplex) calls ∧
      ∀ prbAlloc grants, Machine.run (PrbCall.step direction) (schInitSlot cell.duplex) calls =
        .ok (prbAlloc, grants) → direction = .dl →
        cell.BroadcastReaches slotTime startPrb prbAlloc := by
  have hr := ho.inCarrier
  have hreturns := Machine.run_ok_iff_along
    (fun s call hk (hd : call.Dedicated direction cell.duplex _ s) => (hd.step hk hr).1)
    (fun s call s' out hk hd hstep => (hd.step hk hr).2 s' out hstep) calls
    (SchPrbAlloc.Keeps.init hr) hcalls
  constructor
  · rintro ⟨prbAlloc, grants, hrun, hkept⟩
    refine ⟨hreturns.mp ⟨prbAlloc, grants, hrun⟩, fun prbAlloc' grants' hrun' hdl => ?_⟩
    obtain rfl : prbAlloc = prbAlloc' := congrArg Prod.fst (Except.ok.inj (hrun.symm.trans hrun'))
    obtain ⟨-, hk⟩ := keeps_of_run hr hcalls hrun
    obtain rfl := hdl
    exact (broadcast_iff ho hk).mp (hkept.broadcast rfl)
  · rintro ⟨halong, hreach⟩
    obtain ⟨prbAlloc, grants, hrun⟩ := hreturns.mpr halong
    obtain ⟨hinv, hk⟩ := keeps_of_run hr hcalls hrun
    obtain ⟨hfound, hlargest⟩ := searchLargestFreeBlock_spec hinv.freeList hr.le hk.free
    refine ⟨prbAlloc, grants, hrun, fun g hg p hp => ?_, fun p hp hp' => ?_, hlargest, fun hdl => ?_⟩
    · exact (hinv.isFree p (hp.2.trans_lt hr.lt)).mp (hk.free p hp) g hg
    · rcases hfound with hzero | ⟨b, hb, h1, h2, h3⟩
      · omega
      · refine ⟨isFree_iff.mpr ⟨b, hb, h1.trans hp, by omega⟩, fun hres => ?_⟩
        have h4 := hres.1
        have h5 := hres.2
        omega
    · obtain rfl := hdl
      exact (broadcast_iff ho hk).mpr (hreach prbAlloc grants hrun rfl)

end

/-- One dedicated call in the slot of the SSB and of SIB1. -/
def dedicatedCall (startPrb numPrb : ℕ) : PrbCall :=
  ⟨exampleCell, ⟨0, 0⟩, ⟨2, 12, startPrb, numPrb⟩⟩

theorem exampleCell_occasion : exampleCell.Occasion .dl ⟨0, 0⟩ 24 31 :=
  ⟨by decide, by decide, by decide, by decide⟩

/-- Four PRBs at the end of the carrier leave the broadcast its block. -/
theorem dedicatedCall_kept : ∃ prbAlloc grants,
    Machine.run (PrbCall.step .dl) (schInitSlot exampleCell.duplex) [dedicatedCall 106 4] =
        .ok (prbAlloc, grants) ∧
      ReservedKept .dl exampleCell ⟨0, 0⟩ 2 (.ofNumPrb 24 31) prbAlloc grants := by
  refine (reserved_kept_iff exampleCell_occasion ?_).mpr ⟨?_, fun prbAlloc grants hrun _ => ?_⟩
  · exact ⟨⟨rfl, by decide, Nat.succ_pos 3, .inl rfl, by decide⟩, fun _ _ _ => trivial⟩
  · exact ⟨.inl rfl, fun _ _ _ => trivial⟩
  · obtain ⟨prbAlloc', grants', hrun', hcheck⟩ := run_of_checkRun
      (show checkRun [dedicatedCall 106 4]
        (fun s => decide (∀ b ∈ s.freePrbBlockList, b.startPrb ≤ 24)) = true by decide +kernel)
    obtain rfl : prbAlloc = prbAlloc' := congrArg Prod.fst (Except.ok.inj (hrun.symm.trans hrun'))
    exact fun b hb hlt => absurd (of_decide_eq_true hcheck b hb) (Nat.not_le_of_lt hlt)

/-- **Forty PRBs above the reserved ones leave a block of eleven, where the search for the SSB
stays for ever.** -/
theorem dedicatedCall_not_kept : exampleCell.Occasion .dl ⟨0, 0⟩ 24 31 ∧
    Machine.Along (PrbCall.step .dl)
      (fun s call => call.Dedicated .dl exampleCell.duplex (.ofNumPrb 24 31) s)
      (schInitSlot exampleCell.duplex) [dedicatedCall 55 40] ∧
    ¬ ∃ prbAlloc grants, Machine.run (PrbCall.step .dl) (schInitSlot exampleCell.duplex)
        [dedicatedCall 55 40] = .ok (prbAlloc, grants) ∧
      ReservedKept .dl exampleCell ⟨0, 0⟩ 2 (.ofNumPrb 24 31) prbAlloc grants := by
  refine ⟨exampleCell_occasion, ⟨⟨rfl, by decide, Nat.succ_pos 39, ?_, by decide⟩,
    fun _ _ _ => trivial⟩, ?_⟩
  · exact .inr (by decide)
  · rintro ⟨prbAlloc, grants, hrun, hkept⟩
    obtain ⟨prbAlloc', grants', hrun', hcheck⟩ := run_of_checkRun
      (show checkRun [dedicatedCall 55 40]
        (fun s => (exampleCell.broadcast 2 ⟨0, 0⟩ s).isNone) = true by decide +kernel)
    obtain rfl : prbAlloc = prbAlloc' := congrArg Prod.fst (Except.ok.inj (hrun.symm.trans hrun'))
    obtain ⟨prbAlloc₁, he⟩ := hkept.broadcast rfl
    rw [he] at hcheck
    cases hcheck

end OaiCu.OduSch
