import OaiCu.OduSch.Prb
import OaiCu.Lib.Search

/-!
# The slots that the scheduler chooses (`sch_slot_ind.c`, `sch_rach.c`, `sch_common.c`)

With TDD a slot is used for the PDCCH and the PDSCH if its format is that of a downlink slot, and
for the PUCCH and the PUSCH if it is not. The formats of the pattern are packed into 32 bits. Some
callers look a slot up as it is, others reduce it to the pattern first.
-/

namespace OaiCu.OduSch

open Search

/-- The fields of `SchCellCb` for the slot formats. -/
structure TddCell where
  duplex : Duplex
  scs : ℕ
  tddCfg : TDDCfg

/-- Which UE uses a slot, or 0. -/
structure SlotOwners where
  pdcchUe : ℕ → ℕ
  pdschUe : ℕ → ℕ
  pucchUe : ℕ → ℕ
  puschUe : ℕ → ℕ

/-- An entry of `k0k1TimingInfo` for a slot, with the values for its indexes. -/
structure K0Entry where
  k0Index : ℕ
  k0 : ℕ
  k1 : List ℕ
deriving DecidableEq, Repr

/-- An entry of `k2TimingInfo` for a slot, with the row of `timeDomRsrcAllocList`. -/
structure K2Entry where
  k2Index : ℕ
  k2 : ℕ
  startSymbol : ℕ
  symbolLength : ℕ
deriving DecidableEq, Repr

/-- Where something is scheduled: its DCI, and the two transmissions that the DCI leads to. -/
structure ChosenSlots (α : Type*) where
  dciTime : SlotTimingInfo
  dlTime : SlotTimingInfo
  ulTime : SlotTimingInfo
  entry : α
deriving DecidableEq, Repr

namespace TddCell

def slotFrmtBitMap (cell : TddCell) : BitVec 32 := (schInitTddSlotCfg cell.scs cell.tddCfg).2

def totalCfgSlot (cell : TddCell) : ℕ := calculateSlotPatternLength cell.scs cell.tddCfg.tddPeriod

/-- The check for a downlink slot, which is only there with TDD. -/
def dlSlotOk (cell : TddCell) (slot : ℕ) : Option Bool :=
  match cell.duplex with
  | .fdd => some true
  | .tdd => (schGetSlotSymbFrmt slot cell.slotFrmtBitMap).map (· == SlotConfig.dlSlot.toBits)

/-- The check that a slot is not a downlink slot, which is only there with TDD. -/
def ulSlotOk (cell : TddCell) (slot : ℕ) : Option Bool :=
  match cell.duplex with
  | .fdd => some true
  | .tdd => (schGetSlotSymbFrmt slot cell.slotFrmtBitMap).map (· != SlotConfig.dlSlot.toBits)

/-- The same for a slot that is reduced to the pattern first. -/
def ulPatternSlotOk (cell : TddCell) (slot : ℕ) : Option Bool :=
  match cell.duplex with
  | .fdd => some true
  | .tdd => do cell.ulSlotOk (← remainder slot cell.totalCfgSlot)

def after (cell : TddCell) (time : SlotTimingInfo) (incr : ℕ) : SlotTimingInfo :=
  addDeltaToTime cell.duplex time incr

/-- The time of a DCI that is scheduled now. -/
def dciTime (cell : TddCell) (currTime : SlotTimingInfo) : SlotTimingInfo :=
  cell.after currTime (PHY_DELTA_DL + SCHED_DELTA)

/-- `findValidK0K1Value`. -/
def findValidK0K1Value (cell : TddCell) (owners : SlotOwners) (k0K1InfoTbl : ℕ → List K0Entry)
    (currTime : SlotTimingInfo) : Option (Option (ChosenSlots K0Entry)) :=
  let pdcchTime := cell.dciTime currTime
  (cell.dlSlotOk pdcchTime.slot).bind fun ok =>
    if ok && owners.pdcchUe pdcchTime.slot = 0 then
      (firstPair (fun e => cell.dlSlotOk (cell.after pdcchTime e.k0).slot)
        (fun e => owners.pdschUe (cell.after pdcchTime e.k0).slot ≠ 0) (·.k1)
        (fun e k1 => cell.ulSlotOk (cell.after (cell.after pdcchTime e.k0) k1).slot)
        (fun e k1 => owners.pucchUe (cell.after (cell.after pdcchTime e.k0) k1).slot ≠ 0)
        (k0K1InfoTbl pdcchTime.slot)).map <| Option.map fun (e, k1) =>
          ⟨pdcchTime, cell.after pdcchTime e.k0, cell.after (cell.after pdcchTime e.k0) k1, e⟩
    else some none

/-- The slots of `schProcessSrOrBsrReq`, where the DCI leads to a PUSCH alone. -/
def findK2 (cell : TddCell) (owners : SlotOwners) (k2InfoTbl : ℕ → List K2Entry)
    (currTime : SlotTimingInfo) : Option (Option (ChosenSlots K2Entry)) :=
  let dciTime := cell.dciTime currTime
  (cell.dlSlotOk dciTime.slot).bind fun ok =>
    if ok then
      (firstFree (fun e => cell.ulSlotOk (cell.after dciTime e.k2).slot)
        (fun e => owners.puschUe (cell.after dciTime e.k2).slot ≠ 0)
        (k2InfoTbl dciTime.slot)).map <| Option.map fun e =>
          ⟨dciTime, dciTime, cell.after dciTime e.k2, e⟩
    else some none

/-- The slots of `schProcessRaReq` inside of the response window, for a contention-free request. -/
def findRarK1 (cell : TddCell) (owners : SlotOwners) (k0K1InfoTbl : ℕ → List K0Entry)
    (currTime : SlotTimingInfo) : Option (Option (ChosenSlots K0Entry)) :=
  let dciTime := cell.dciTime currTime
  (cell.dlSlotOk dciTime.slot).bind fun ok =>
    if ok && owners.pdcchUe dciTime.slot = 0 then
      (firstPair (fun _ => some true)
        (fun e => owners.pdschUe (cell.after dciTime e.k0).slot ≠ 0) (·.k1)
        (fun e k1 => cell.ulSlotOk (cell.after (cell.after dciTime e.k0) k1).slot)
        (fun e k1 => owners.pucchUe (cell.after (cell.after dciTime e.k0) k1).slot ≠ 0)
        (k0K1InfoTbl dciTime.slot)).map <| Option.map fun (e, k1) =>
          ⟨dciTime, cell.after dciTime e.k0, cell.after (cell.after dciTime e.k0) k1, e⟩
    else some none

/-- The delay of MSG3 after the RAR, a number of 8 bits. -/
def msg3K2 (msg3Delta : ℕ) (e : K2Entry) : ℕ := (e.k2 + msg3Delta) % 2 ^ 8

/-- The slots of `schProcessRaReq` inside of the response window, for a contention-based
request. -/
def findRarK2 (cell : TddCell) (owners : SlotOwners) (k0K1InfoTbl : ℕ → List K0Entry)
    (msg3K2InfoTbl : ℕ → List K2Entry) (msg3Delta msg3MinSchTime : ℕ) (currTime : SlotTimingInfo) :
    Option (Option (ChosenSlots (K0Entry × K2Entry))) :=
  let dciTime := cell.dciTime currTime
  (cell.dlSlotOk dciTime.slot).bind fun ok =>
    if ok && owners.pdcchUe dciTime.slot = 0 then
      (firstPair (fun _ => some true)
        (fun e => owners.pdschUe (cell.after dciTime e.k0).slot ≠ 0)
        (fun e => msg3K2InfoTbl (cell.after dciTime e.k0).slot)
        (fun e e' =>
          if msg3MinSchTime ≤ msg3K2 msg3Delta e' then
            cell.ulPatternSlotOk (cell.after (cell.after dciTime e.k0) (msg3K2 msg3Delta e')).slot
          else some false)
        (fun e e' => owners.puschUe
          (cell.after (cell.after dciTime e.k0) (msg3K2 msg3Delta e')).slot ≠ 0)
        (k0K1InfoTbl dciTime.slot)).map <| Option.map fun (e, e') =>
          ⟨dciTime, cell.after dciTime e.k0,
            cell.after (cell.after dciTime e.k0) (msg3K2 msg3Delta e'), (e, e')⟩
    else some none

end TddCell

/-!
## The direction of the slots that are chosen

What the look-up of a slot returns is right if the argument is below 16, and is either a slot of
the pattern whose first and last symbol tell its class, or behind the pattern in place of a
downlink slot.
-/

/-- What a slot is configured for: all symbols downlink, all uplink, or else. -/
def TDDCfg.slotClass (tddCfg : TDDCfg) (slotIdx : ℕ) : SlotConfig :=
  if ∀ symbIdx < MAX_SYMB_PER_SLOT, tddCfg.slotCfg slotIdx symbIdx = .dlSlot then .dlSlot
  else if ∀ symbIdx < MAX_SYMB_PER_SLOT, tddCfg.slotCfg slotIdx symbIdx = .ulSlot then .ulSlot
  else .flexiSlot

/-! ## The packed formats -/

section

variable {bitMap : BitVec 32} {slot : ℕ}

theorem schGetSlotSymbFrmt_eq (h : slot < 16) (bitMap : BitVec 32) :
    schGetSlotSymbFrmt slot bitMap = some ((bitMap &&& (3 : BitVec 32) <<< (slot * 2)) >>> (slot * 2)) :=
  if_pos (by omega)

theorem schGetSlotSymbFrmt_eq_none (h : 16 ≤ slot) (bitMap : BitVec 32) :
    schGetSlotSymbFrmt slot bitMap = none :=
  if_neg (by omega)

/-- The two bits of a slot. -/
theorem getLsbD_frmt (h : slot < 16) (bitMap : BitVec 32) (i : ℕ) :
    ((bitMap &&& (3 : BitVec 32) <<< (slot * 2)) >>> (slot * 2)).getLsbD i =
      (decide (i < 2) && bitMap.getLsbD (slot * 2 + i)) := by
  have h3 : (3 : BitVec 32).getLsbD i = decide (i < 2) := by
    rw [show (3 : BitVec 32) = BitVec.ofNat 32 (2 ^ 2 - 1) from rfl, BitVec.getLsbD_ofNat,
      Nat.testBit_two_pow_sub_one]
    by_cases hi : i < 2
    · rw [decide_eq_true hi, decide_eq_true (by omega : i < 32), Bool.true_and]
    · rw [decide_eq_false hi, Bool.and_false]
  rw [BitVec.getLsbD_ushiftRight, BitVec.getLsbD_and, BitVec.getLsbD_shiftLeft,
    decide_eq_false (by omega : ¬ slot * 2 + i < slot * 2), Bool.not_false, Bool.and_true,
    Nat.add_sub_cancel_left, h3]
  by_cases hi : i < 2
  · rw [decide_eq_true hi, decide_eq_true (by omega : slot * 2 + i < 32), Bool.true_and,
      Bool.true_and, Bool.and_true]
  · rw [decide_eq_false hi, Bool.and_false, Bool.and_false, Bool.false_and]

theorem toBits_getLsbD (frmt : SlotConfig) {i : ℕ} (h : 2 ≤ i) : frmt.toBits.getLsbD i = false := by
  have hlt : frmt.toBits.toNat < 2 ^ 2 := by cases frmt <;> decide
  rw [← BitVec.testBit_toNat]
  exact Nat.testBit_lt_two_pow (hlt.trans_le (Nat.pow_le_pow_right (by omega) h))

theorem frmt_push_zero (bitMap : BitVec 32) (frmt : SlotConfig) :
    schGetSlotSymbFrmt 0 ((bitMap <<< 2) ||| frmt.toBits) = some frmt.toBits := by
  rw [schGetSlotSymbFrmt_eq (by omega)]
  refine congrArg some (BitVec.eq_of_getLsbD_eq fun i _ => ?_)
  rw [getLsbD_frmt (by omega), BitVec.getLsbD_or, BitVec.getLsbD_shiftLeft, Nat.zero_mul,
    Nat.zero_add]
  by_cases hi : i < 2
  · rw [decide_eq_true hi, Bool.not_true, Bool.and_false, Bool.false_and, Bool.false_or,
      Bool.true_and]
  · rw [toBits_getLsbD frmt (Nat.le_of_not_lt hi), decide_eq_false hi, Bool.false_and]

theorem frmt_push_succ (h : slot + 1 < 16) (bitMap : BitVec 32) (frmt : SlotConfig) :
    schGetSlotSymbFrmt (slot + 1) ((bitMap <<< 2) ||| frmt.toBits) =
      schGetSlotSymbFrmt slot bitMap := by
  rw [schGetSlotSymbFrmt_eq h, schGetSlotSymbFrmt_eq (by omega)]
  refine congrArg some (BitVec.eq_of_getLsbD_eq fun i _ => ?_)
  rw [getLsbD_frmt h, getLsbD_frmt (by omega), BitVec.getLsbD_or, BitVec.getLsbD_shiftLeft,
    toBits_getLsbD frmt (by omega), Bool.or_false,
    decide_eq_false (by omega : ¬ (slot + 1) * 2 + i < 2),
    (by omega : (slot + 1) * 2 + i - 2 = slot * 2 + i), Bool.not_false, Bool.and_true]
  by_cases hi : i < 2
  · rw [decide_eq_true (by omega : (slot + 1) * 2 + i < 32), Bool.true_and]
  · rw [decide_eq_false hi, Bool.false_and, Bool.false_and]

/-- The formats that the loop packs, in front of those that are there already. -/
theorem slotFrmtLoop_frmt (tddCfg : TDDCfg) : ∀ (n slot : ℕ) (bitMap : BitVec 32), slot < 16 →
    schGetSlotSymbFrmt slot (slotFrmtLoop tddCfg n bitMap) =
      if slot < n then some (tddCfg.slotFrmt slot).toBits
      else schGetSlotSymbFrmt (slot - n) bitMap
  | 0, slot, bitMap, _ => rfl
  | n + 1, slot, bitMap, h => by
      rw [slotFrmtLoop, slotFrmtLoop_frmt tddCfg n slot _ h]
      rcases Nat.lt_trichotomy slot n with hlt | rfl | hgt
      · rw [if_pos hlt, if_pos (Nat.lt_succ_of_lt hlt)]
      · rw [if_neg (Nat.lt_irrefl _), if_pos (Nat.lt_succ_self _), Nat.sub_self, frmt_push_zero]
      · obtain ⟨k, rfl⟩ : ∃ k, slot = n + 1 + k := ⟨slot - (n + 1), by omega⟩
        rw [if_neg (by omega), if_neg (by omega), (by omega : n + 1 + k - n = k + 1),
          Nat.add_sub_cancel_left, frmt_push_succ (by omega)]

end

/-- What a look-up reads: behind the pattern, a downlink slot. -/
def TddCell.reads (cell : TddCell) (arg : ℕ) : SlotConfig :=
  if arg < cell.totalCfgSlot then cell.tddCfg.slotFrmt arg else .dlSlot

theorem schGetSlotSymbFrmt_slotFrmtBitMap {cell : TddCell} (hle : cell.totalCfgSlot ≤ 2 ^ 7)
    {arg : ℕ} (h : arg < 16) :
    schGetSlotSymbFrmt arg cell.slotFrmtBitMap = some (cell.reads arg).toBits := by
  have hmap : cell.slotFrmtBitMap = slotFrmtLoop cell.tddCfg cell.totalCfgSlot 0 := if_pos hle
  rw [hmap, slotFrmtLoop_frmt _ _ _ _ h, TddCell.reads]
  split
  · rfl
  · rw [schGetSlotSymbFrmt_eq (by omega), BitVec.ofNat_eq_ofNat, BitVec.zero_and,
      BitVec.zero_ushiftRight]
    rfl

theorem toBits_injective {frmt frmt' : SlotConfig} : frmt.toBits = frmt'.toBits ↔ frmt = frmt' := by
  cases frmt <;> cases frmt' <;> decide

/-! ## The arguments of the callers -/

/-- How a caller forms the argument from a slot. `findValidK0K1Value`, `schProcessSrOrBsrReq` and,
but for MSG3, `schProcessRaReq` pass the slot; `schProcessRaReq` reduces the slot of MSG3 to the
pattern, and `schCheckPrachOcc` that of an occasion. -/
inductive FrmtCaller
  | plain
  | msg3
  | prachOcc
deriving DecidableEq, Repr

def FrmtCaller.arg (caller : FrmtCaller) (cell : TddCell) (slot : ℕ) : ℕ :=
  match caller with
  | .plain => slot
  | .msg3 => slot % cell.totalCfgSlot
  | .prachOcc => slot % (schInitTddSlotCfg cell.scs cell.tddCfg).1

/-- The look-up for a slot returns the class of its slot of the pattern. -/
def FrmtRight (cell : TddCell) (caller : FrmtCaller) (slot : ℕ) : Prop :=
  schGetSlotSymbFrmt (caller.arg cell slot) cell.slotFrmtBitMap =
    some (cell.tddCfg.slotClass (slot % cell.totalCfgSlot)).toBits

/-- The argument is in the 32 bits, and what is read there is right. -/
structure FrmtReadable (cell : TddCell) (caller : FrmtCaller) (slot : ℕ) : Prop where
  lt : caller.arg cell slot < 16
  reads : cell.reads (caller.arg cell slot) = cell.tddCfg.slotClass (slot % cell.totalCfgSlot)

theorem frmtRight_iff {cell : TddCell} (hle : cell.totalCfgSlot ≤ 2 ^ 7) (caller : FrmtCaller)
    (slot : ℕ) : FrmtRight cell caller slot ↔ FrmtReadable cell caller slot := by
  rw [FrmtRight]
  by_cases h : caller.arg cell slot < 16
  · rw [schGetSlotSymbFrmt_slotFrmtBitMap hle h, Option.some.injEq, toBits_injective]
    exact ⟨fun hr => ⟨h, hr⟩, fun hr => hr.reads⟩
  · rw [schGetSlotSymbFrmt_eq_none (Nat.le_of_not_lt h)]
    exact iff_of_false (fun he => by cases he) fun hr => h hr.lt

/-! ## The slots that are chosen -/

namespace TddCell

/-- The slot belongs to a downlink slot of the pattern. -/
def IsDl (cell : TddCell) (slot : ℕ) : Prop :=
  cell.tddCfg.slotClass (slot % cell.totalCfgSlot) = .dlSlot

variable {cell : TddCell}

theorem dlSlotOk_iff (htdd : cell.duplex = .tdd) (hle : cell.totalCfgSlot ≤ 2 ^ 7) {slot : ℕ}
    {Q : Prop} : (∃ ok, cell.dlSlotOk slot = some ok ∧ (ok = true → Q)) ↔
      slot < 16 ∧ (cell.reads slot = .dlSlot → Q) := by
  rw [dlSlotOk, htdd]
  dsimp only
  by_cases h : slot < 16
  · simp only [schGetSlotSymbFrmt_slotFrmtBitMap hle h, Option.map_some, Option.some.injEq,
      exists_eq_left', beq_iff_eq, toBits_injective, h, true_and]
  · simp only [schGetSlotSymbFrmt_eq_none (Nat.le_of_not_lt h), Option.map_none, h, false_and,
      reduceCtorEq, exists_const]

theorem ulSlotOk_iff (htdd : cell.duplex = .tdd) (hle : cell.totalCfgSlot ≤ 2 ^ 7) {slot : ℕ}
    {Q : Prop} : (∃ ok, cell.ulSlotOk slot = some ok ∧ (ok = true → Q)) ↔
      slot < 16 ∧ (cell.reads slot ≠ .dlSlot → Q) := by
  rw [ulSlotOk, htdd]
  dsimp only
  by_cases h : slot < 16
  · simp only [schGetSlotSymbFrmt_slotFrmtBitMap hle h, Option.map_some, Option.some.injEq,
      exists_eq_left', bne_iff_ne, ne_eq, toBits_injective, h, true_and]
  · simp only [schGetSlotSymbFrmt_eq_none (Nat.le_of_not_lt h), Option.map_none, h, false_and,
      reduceCtorEq, exists_const]

theorem ulPatternSlotOk_eq (htdd : cell.duplex = .tdd) (hpos : 0 < cell.totalCfgSlot)
    (slot : ℕ) : cell.ulPatternSlotOk slot = cell.ulSlotOk (slot % cell.totalCfgSlot) := by
  rw [ulPatternSlotOk, htdd, remainder, if_neg hpos.ne']
  rfl

end TddCell

/-- The DCI and the transmission that follows it are in downlink slots, the answer is not. -/
structure ChosenSlots.Right {α : Type*} (cell : TddCell) (chosen : ChosenSlots α) : Prop where
  dci : cell.IsDl chosen.dciTime.slot
  dl : cell.IsDl chosen.dlTime.slot
  ul : ¬ cell.IsDl chosen.ulTime.slot

/-- The same for the slots alone. -/
def TddCell.Allowed (cell : TddCell) (dciSlot dlSlot ulSlot : ℕ) : Prop :=
  cell.IsDl dciSlot ∧ cell.IsDl dlSlot ∧ ¬ cell.IsDl ulSlot

theorem ChosenSlots.slotsRight_iff {α : Type*} {cell : TddCell} {chosen : ChosenSlots α} :
    chosen.Right cell ↔
      cell.Allowed chosen.dciTime.slot chosen.dlTime.slot chosen.ulTime.slot :=
  ⟨fun h => ⟨h.dci, h.dl, h.ul⟩, fun h => ⟨h.1, h.2.1, h.2.2⟩⟩

/-- Owners of a downlink and of an uplink slot, as the places that are taken. -/
def SlotOwners.ofTaken (dl ul : ℕ → Bool) : SlotOwners where
  pdcchUe := fun _ => 0
  pdschUe := fun slot => (dl slot).toNat
  pucchUe := fun slot => (ul slot).toNat
  puschUe := fun slot => (ul slot).toNat

theorem decide_toNat_ne_zero (b : Bool) : decide (b.toNat ≠ 0) = b := by
  cases b <;> rfl

/-- A search that starts if the PDCCH is free is right for all owners if it is for all places that
may be taken. -/
theorem forall_owners_iff {γ δ : Type*} {search : (ℕ → Bool) → (ℕ → Bool) → Option (Option γ)}
    {ul : SlotOwners → ℕ → ℕ} (hul : ∀ t t' p, ul (.ofTaken t t') p = (t' p).toNat) {ok : Bool}
    {slot : ℕ} {g : γ → δ} {R : δ → Prop} :
    (∀ owners : SlotOwners, ∃ r, (if ok && decide (owners.pdcchUe slot = 0) then
        (search (fun p => owners.pdschUe p ≠ 0) (fun p => ul owners p ≠ 0)).map (Option.map g)
        else some none) = some r ∧ ∀ c, r = some c → R c) ↔
    (ok = true → ∀ t t', ∃ r, search t t' = some r ∧ ∀ x, r = some x → R (g x)) := by
  constructor
  · intro h hok t t'
    obtain ⟨r, hr, hall⟩ := h (.ofTaken t t')
    have hfree : (SlotOwners.ofTaken t t').pdcchUe slot = 0 := rfl
    rw [hok, hfree, decide_eq_true rfl, Bool.and_self, if_pos rfl] at hr
    have hsearch : search (fun p => decide ((SlotOwners.ofTaken t t').pdschUe p ≠ 0))
        (fun p => decide (ul (SlotOwners.ofTaken t t') p ≠ 0)) = search t t' := by
      congr <;> funext p
      · exact decide_toNat_ne_zero _
      · rw [hul]
        exact decide_toNat_ne_zero _
    rw [hsearch] at hr
    obtain ⟨r', hr', rfl⟩ := Option.map_eq_some_iff.mp hr
    refine ⟨r', hr', ?_⟩
    rintro x rfl
    exact hall (g x) rfl
  · intro h owners
    by_cases hstart : (ok && decide (owners.pdcchUe slot = 0)) = true
    · rw [if_pos hstart]
      obtain ⟨r, hr, hall⟩ := h ((Bool.and_eq_true _ _).mp hstart).1
        (fun p => owners.pdschUe p ≠ 0) (fun p => ul owners p ≠ 0)
      rw [hr]
      refine ⟨r.map g, rfl, fun c hc => ?_⟩
      obtain ⟨x, rfl, rfl⟩ := Option.map_eq_some_iff.mp hc
      exact hall x rfl
    · rw [if_neg hstart]
      exact ⟨none, rfl, fun _ hc => by cases hc⟩

/-- A search in two levels that starts if the PDCCH is free. What it chooses is right, whatever the
owners are, if and only if the checks are defined wherever it may come, and allow right slots
only. -/
theorem forall_owners_pair_iff {α β δ : Type*} {dci : Option Bool} {slot : ℕ}
    {check : α → Option Bool} {inner : α → List β} {check' : α → β → Option Bool}
    {place : α → ℕ} {place' : α → β → ℕ} {as : List α} {ul : SlotOwners → ℕ → ℕ}
    {g : α × β → δ} {R : δ → Prop} {Good : α → β → Prop}
    (hul : ∀ t t' p, ul (.ofTaken t t') p = (t' p).toNat)
    (hR : ∀ a b, R (g (a, b)) ↔ Good a b)
    (hgood : ∀ a b a' b', place a = place a' → place' a b = place' a' b' →
      (Good a b ↔ Good a' b')) :
    (∀ owners : SlotOwners, ∃ r, (dci.bind fun ok =>
        if ok && decide (owners.pdcchUe slot = 0) then
          (firstPair check (fun a => owners.pdschUe (place a) ≠ 0) inner check'
            (fun a b => ul owners (place' a b) ≠ 0) as).map (Option.map g)
        else some none) = some r ∧ ∀ c, r = some c → R c) ↔
    ∃ ok, dci = some ok ∧ (ok = true → ∀ a ∈ as, ∃ ok, check a = some ok ∧ (ok = true →
      ∀ b ∈ inner a, ∃ ok, check' a b = some ok ∧ (ok = true → Good a b))) := by
  cases dci with
  | none =>
      refine iff_of_false (fun h => ?_) fun ⟨_, h, _⟩ => by cases h
      obtain ⟨_, h, -⟩ := h (.ofTaken (fun _ => false) fun _ => false)
      cases h
  | some ok =>
      simp only [Option.bind_some, Option.some.injEq, exists_eq_left']
      refine (@forall_owners_iff _ _ (fun t t' => firstPair check (t ∘ place) inner check'
        (fun a => t' ∘ place' a) as) ul hul ok slot g R).trans (imp_congr_right fun _ => ?_)
      rw [← forall_firstPair_iff hgood]
      refine forall_congr' fun t => forall_congr' fun t' => exists_congr fun r =>
        and_congr_right fun _ => ?_
      rw [Prod.forall]
      exact forall_congr' fun a => forall_congr' fun b => imp_congr_right fun _ => hR a b

namespace TddCell

variable {cell : TddCell}

/-- Wherever the search for a PDSCH and a PUCCH may come, the slot is in the 32 bits; and if what
is read there lets it choose the slots, they are right. -/
def K0K1Readable (cell : TddCell) (k0K1InfoTbl : ℕ → List K0Entry) (currTime : SlotTimingInfo) :
    Prop :=
  let dciTime := cell.dciTime currTime
  dciTime.slot < 16 ∧ (cell.reads dciTime.slot = .dlSlot → ∀ e ∈ k0K1InfoTbl dciTime.slot,
    let dlTime := cell.after dciTime e.k0
    dlTime.slot < 16 ∧ (cell.reads dlTime.slot = .dlSlot → ∀ k1 ∈ e.k1,
      let ulTime := cell.after dlTime k1
      ulTime.slot < 16 ∧ (cell.reads ulTime.slot ≠ .dlSlot →
        cell.Allowed dciTime.slot dlTime.slot ulTime.slot)))

/-- The same for the RAR of a contention-free request, where the slot of the PDSCH is not looked
up. -/
def RarK1Readable (cell : TddCell) (k0K1InfoTbl : ℕ → List K0Entry) (currTime : SlotTimingInfo) :
    Prop :=
  let dciTime := cell.dciTime currTime
  dciTime.slot < 16 ∧ (cell.reads dciTime.slot = .dlSlot → ∀ e ∈ k0K1InfoTbl dciTime.slot,
    let dlTime := cell.after dciTime e.k0
    ∀ k1 ∈ e.k1,
      let ulTime := cell.after dlTime k1
      ulTime.slot < 16 ∧ (cell.reads ulTime.slot ≠ .dlSlot →
        cell.Allowed dciTime.slot dlTime.slot ulTime.slot))

/-- The same for the RAR of a contention-based request, where the slot of MSG3 is reduced to the
pattern. -/
def RarK2Readable (cell : TddCell) (k0K1InfoTbl : ℕ → List K0Entry)
    (msg3K2InfoTbl : ℕ → List K2Entry) (msg3Delta msg3MinSchTime : ℕ)
    (currTime : SlotTimingInfo) : Prop :=
  let dciTime := cell.dciTime currTime
  dciTime.slot < 16 ∧ (cell.reads dciTime.slot = .dlSlot → ∀ e ∈ k0K1InfoTbl dciTime.slot,
    let dlTime := cell.after dciTime e.k0
    ∀ e' ∈ msg3K2InfoTbl dlTime.slot, msg3MinSchTime ≤ msg3K2 msg3Delta e' →
      let ulTime := cell.after dlTime (msg3K2 msg3Delta e')
      ulTime.slot % cell.totalCfgSlot < 16 ∧
        (cell.reads (ulTime.slot % cell.totalCfgSlot) ≠ .dlSlot →
          cell.Allowed dciTime.slot dlTime.slot ulTime.slot))

/-- The same for the search for a PUSCH. -/
def K2Readable (cell : TddCell) (k2InfoTbl : ℕ → List K2Entry) (currTime : SlotTimingInfo) : Prop :=
  let dciTime := cell.dciTime currTime
  dciTime.slot < 16 ∧ (cell.reads dciTime.slot = .dlSlot → ∀ e ∈ k2InfoTbl dciTime.slot,
    let ulTime := cell.after dciTime e.k2
    ulTime.slot < 16 ∧ (cell.reads ulTime.slot ≠ .dlSlot →
      cell.Allowed dciTime.slot dciTime.slot ulTime.slot))

/-- A search ends, and chooses right slots only, whichever slots are owned. -/
def ChoosesRight {α : Type*} (cell : TddCell)
    (find : SlotOwners → Option (Option (ChosenSlots α))) : Prop :=
  ∀ owners, ∃ r, find owners = some r ∧ ∀ c, r = some c → c.Right cell

/-- The search for a PDSCH and a PUCCH. -/
theorem findValidK0K1Value_iff (htdd : cell.duplex = .tdd) (hle : cell.totalCfgSlot ≤ 2 ^ 7)
    (k0K1InfoTbl : ℕ → List K0Entry) (currTime : SlotTimingInfo) :
    cell.ChoosesRight (fun owners => cell.findValidK0K1Value owners k0K1InfoTbl currTime) ↔
      cell.K0K1Readable k0K1InfoTbl currTime := by
  simp only [ChoosesRight, K0K1Readable, ← dlSlotOk_iff htdd hle, ← ulSlotOk_iff htdd hle,
    findValidK0K1Value]
  exact forall_owners_pair_iff (fun _ _ _ => rfl) (fun _ _ => ChosenSlots.slotsRight_iff)
    fun e k1 e' k1' h h' => by rw [h, h']

/-- The search for the RAR of a contention-free request, where the PDSCH has no check. -/
theorem findRarK1_iff (htdd : cell.duplex = .tdd) (hle : cell.totalCfgSlot ≤ 2 ^ 7)
    (k0K1InfoTbl : ℕ → List K0Entry) (currTime : SlotTimingInfo) :
    cell.ChoosesRight (fun owners => cell.findRarK1 owners k0K1InfoTbl currTime) ↔
      cell.RarK1Readable k0K1InfoTbl currTime := by
  simp only [ChoosesRight, RarK1Readable, ← dlSlotOk_iff htdd hle, ← ulSlotOk_iff htdd hle,
    findRarK1]
  refine (@forall_owners_pair_iff _ _ _ _ _ _ _ _ _ _ _ _ _ _
    (fun e k1 => cell.Allowed (cell.dciTime currTime).slot
      (cell.after (cell.dciTime currTime) e.k0).slot
      (cell.after (cell.after (cell.dciTime currTime) e.k0) k1).slot)
    (fun _ _ _ => rfl) (fun _ _ => ChosenSlots.slotsRight_iff)
    fun e k1 e' k1' h h' => by rw [h, h']).trans ?_
  simp only [Option.some.injEq, exists_eq_left', true_imp_iff]

/-- The search for the RAR of a contention-based request. MSG3 is looked up in the pattern. -/
theorem findRarK2_iff (htdd : cell.duplex = .tdd) (hpos : 0 < cell.totalCfgSlot)
    (hle : cell.totalCfgSlot ≤ 2 ^ 7) (k0K1InfoTbl : ℕ → List K0Entry)
    (msg3K2InfoTbl : ℕ → List K2Entry) (msg3Delta msg3MinSchTime : ℕ)
    (currTime : SlotTimingInfo) :
    cell.ChoosesRight (fun owners => cell.findRarK2 owners k0K1InfoTbl msg3K2InfoTbl msg3Delta
        msg3MinSchTime currTime) ↔
      cell.RarK2Readable k0K1InfoTbl msg3K2InfoTbl msg3Delta msg3MinSchTime currTime := by
  simp only [ChoosesRight, RarK2Readable, ← dlSlotOk_iff htdd hle, ← ulSlotOk_iff htdd hle,
    findRarK2, ulPatternSlotOk_eq htdd hpos]
  refine (@forall_owners_pair_iff _ _ _ _ _ _ _ _ _ _ _ SlotOwners.puschUe _ _
    (fun e e' => cell.Allowed (cell.dciTime currTime).slot
      (cell.after (cell.dciTime currTime) e.k0).slot
      (cell.after (cell.after (cell.dciTime currTime) e.k0) (msg3K2 msg3Delta e')).slot)
    (fun _ _ _ => rfl) (fun _ _ => ChosenSlots.slotsRight_iff)
    fun e k1 e' k1' h h' => by rw [h, h']).trans ?_
  simp only [Option.some.injEq, exists_eq_left', true_imp_iff]
  -- an entry that is too early is passed over
  refine exists_congr fun ok => and_congr_right fun _ => imp_congr_right fun _ =>
    forall_congr' fun e => imp_congr_right fun _ => forall_congr' fun e' =>
    imp_congr_right fun _ => ?_
  by_cases hmin : msg3MinSchTime ≤ msg3K2 msg3Delta e'
  · simp only [hmin, if_true, true_imp_iff]
  · simp [hmin]

/-- The search for a PUSCH. -/
theorem findK2_iff (htdd : cell.duplex = .tdd) (hle : cell.totalCfgSlot ≤ 2 ^ 7)
    (k2InfoTbl : ℕ → List K2Entry) (currTime : SlotTimingInfo) :
    cell.ChoosesRight (fun owners => cell.findK2 owners k2InfoTbl currTime) ↔
      cell.K2Readable k2InfoTbl currTime := by
  simp only [ChoosesRight, K2Readable, ← dlSlotOk_iff htdd hle, ← ulSlotOk_iff htdd hle, findK2]
  cases cell.dlSlotOk (cell.dciTime currTime).slot with
  | none =>
      refine iff_of_false (fun h => ?_) fun ⟨_, h, _⟩ => by cases h
      obtain ⟨_, h, -⟩ := h (.ofTaken (fun _ => false) fun _ => false)
      cases h
  | some ok =>
      simp only [Option.bind_some, Option.some.injEq, exists_eq_left']
      cases ok with
      | false =>
          refine iff_of_true (fun _ => ⟨none, rfl, fun _ hc => by cases hc⟩) fun h => by cases h
      | true =>
          simp only [if_true, true_imp_iff]
          rw [← @forall_firstFree_iff _ _ _
            (fun e : K2Entry => (cell.after (cell.dciTime currTime) e.k2).slot)
            (fun e => cell.Allowed (cell.dciTime currTime).slot (cell.dciTime currTime).slot
              (cell.after (cell.dciTime currTime) e.k2).slot) fun e e' h => by rw [h]]
          constructor
          · intro h owned
            obtain ⟨r, hr, hall⟩ := h (.ofTaken (fun _ => false) owned)
            obtain ⟨r', hr', rfl⟩ := Option.map_eq_some_iff.mp hr
            refine ⟨r', ?_, ?_⟩
            · rw [← hr']
              congr 1
              funext e
              exact (decide_toNat_ne_zero _).symm
            · rintro e rfl
              exact ChosenSlots.slotsRight_iff.mp (hall _ rfl)
          · intro h owners
            obtain ⟨r, hr, hall⟩ := h fun p => owners.puschUe p ≠ 0
            rw [show (fun e : K2Entry => decide (owners.puschUe
              (cell.after (cell.dciTime currTime) e.k2).slot ≠ 0)) = (fun p => decide
              (owners.puschUe p ≠ 0)) ∘ fun e => (cell.after (cell.dciTime currTime) e.k2).slot
              from rfl, hr]
            refine ⟨_, rfl, fun c hc => ?_⟩
            obtain ⟨e, rfl, rfl⟩ := Option.map_eq_some_iff.mp hc
            exact ChosenSlots.slotsRight_iff.mpr (hall e rfl)

end TddCell

/-- **The formats are right exactly for the slots that can be read, and so are the slots that the
searches choose.** -/
theorem tdd_direction_iff {cell : TddCell} (htdd : cell.duplex = .tdd)
    (hpos : 0 < cell.totalCfgSlot) (hle : cell.totalCfgSlot ≤ cell.duplex.maxSlots) :
    (∀ caller slot, FrmtRight cell caller slot ↔ FrmtReadable cell caller slot) ∧
    (∀ k0K1InfoTbl currTime,
      cell.ChoosesRight (fun owners => cell.findValidK0K1Value owners k0K1InfoTbl currTime) ↔
        cell.K0K1Readable k0K1InfoTbl currTime) ∧
    (∀ k0K1InfoTbl currTime,
      cell.ChoosesRight (fun owners => cell.findRarK1 owners k0K1InfoTbl currTime) ↔
        cell.RarK1Readable k0K1InfoTbl currTime) ∧
    (∀ k0K1InfoTbl msg3K2InfoTbl msg3Delta msg3MinSchTime currTime,
      cell.ChoosesRight (fun owners => cell.findRarK2 owners k0K1InfoTbl msg3K2InfoTbl msg3Delta
          msg3MinSchTime currTime) ↔
        cell.RarK2Readable k0K1InfoTbl msg3K2InfoTbl msg3Delta msg3MinSchTime currTime) ∧
    (∀ k2InfoTbl currTime,
      cell.ChoosesRight (fun owners => cell.findK2 owners k2InfoTbl currTime) ↔
        cell.K2Readable k2InfoTbl currTime) := by
  have hle' : cell.totalCfgSlot ≤ 2 ^ 7 := by
    rw [htdd] at hle
    exact hle.trans (by decide)
  exact ⟨frmtRight_iff hle', cell.findValidK0K1Value_iff htdd hle',
    cell.findRarK1_iff htdd hle', cell.findRarK2_iff htdd hpos hle', cell.findK2_iff htdd hle'⟩

/-- Three downlink slots, a mixed one with four uplink symbols, and an uplink slot. -/
def exampleTdd : TddCell where
  duplex := .tdd
  scs := 1
  tddCfg := ⟨.ms2p5, fun slot symbol =>
    if slot < 3 then .dlSlot
    else if slot = 3 then if symbol < 6 then .dlSlot else if symbol < 10 then .flexiSlot else .ulSlot
    else .ulSlot⟩

/-- MSG3 is looked up in the pattern, so that slot 9 is an uplink slot for it. From slot 15 on the
feedback is in the next frame, where the mixed slot and the uplink slot are read. -/
theorem exampleTdd_right : FrmtRight exampleTdd .msg3 9 ∧
    exampleTdd.ChoosesRight fun owners => exampleTdd.findValidK0K1Value owners
      (fun slot => if slot = 15 then [⟨0, 0, [8, 9]⟩] else []) ⟨0, 13⟩ := by
  have hiff := @tdd_direction_iff exampleTdd rfl (by decide) (by decide)
  refine ⟨(hiff.1 .msg3 9).mpr ⟨by decide, by decide⟩, (hiff.2.1 _ _).mpr ?_⟩
  unfold TddCell.K0K1Readable TddCell.Allowed TddCell.IsDl
  decide

/-- **Slot 8 is a mixed slot, but the look-up of 8 says downlink**, and a PDSCH is put there, which has
uplink symbols if it has the last six. -/
theorem exampleTdd_wrong : exampleTdd.totalCfgSlot = 5 ∧ ¬ FrmtRight exampleTdd .plain 8 ∧
    ∃ owners c,
    exampleTdd.findValidK0K1Value owners (fun slot => if slot = 5 then [⟨0, 3, [15]⟩] else [])
      ⟨0, 3⟩ = some (some c) ∧ c.dlTime = ⟨0, 8⟩ ∧
    exampleTdd.tddCfg.slotClass (8 % 5) = .flexiSlot ∧
    ∀ symbol < 14, 10 ≤ symbol → exampleTdd.tddCfg.slotCfg (8 % 5) symbol = .ulSlot := by
  refine ⟨by decide, ?_, .ofTaken (fun _ => false) (fun _ => false),
    ⟨⟨0, 5⟩, ⟨0, 8⟩, ⟨1, 3⟩, ⟨0, 3, [15]⟩⟩, ?_, rfl, by decide, by decide⟩
  · rw [FrmtRight]
    decide
  · decide

end OaiCu.OduSch
