import OaiCu.OduSch.TimingTables
import OaiCu.Lib.Latch

/-!
# What is in the tables of k0, k1 and k2

`BuildK0K1Table` comes to combinations of a slot, a k0 and a k1 one after the other, and
`ulSlotPresent` is a latch on them: a mixed slot with an uplink symbol sets it, and from then on
every mixed slot is taken. Uplink symbols in the way of the PDSCH are not seen. The table of the k2
has neither slip, since its flag is set anew for each mixed slot.
-/

namespace OaiCu.OduSch

namespace TddCell

/-- The format of a slot. -/
def frmtAt (cell : TddCell) (slot : ℕ) : SlotConfig :=
  cell.tddCfg.slotFrmt (slot % cell.totalCfgSlot)

/-- The slot is for the downlink, or a mixed one without an uplink symbol in the allocation. -/
def DlFor (cell : TddCell) (alloc : PdschTimeDomAlloc) (slot : ℕ) : Prop :=
  cell.frmtAt slot = .dlSlot ∨ (cell.frmtAt slot = .flexiSlot ∧
    ∀ symbol, alloc.startSymbol ≤ symbol → symbol < alloc.startSymbol + alloc.symbolLength →
      cell.patternSymbol slot symbol ≠ .ulSlot)

/-- A mixed slot with an uplink symbol. -/
def MixedUl (cell : TddCell) (slot : ℕ) : Prop :=
  cell.frmtAt slot = .flexiSlot ∧
    ∃ symbol < MAX_SYMB_PER_SLOT, cell.patternSymbol slot symbol = .ulSlot

/-- The slot is for the uplink, or a mixed one with an uplink symbol. -/
def UlFor (cell : TddCell) (slot : ℕ) : Prop := cell.frmtAt slot = .ulSlot ∨ cell.MixedUl slot

/-- The slot is for the uplink, or a mixed one with uplink symbols only in the allocation. -/
def PuschFor (cell : TddCell) (alloc : PuschTimeDomAlloc) (slot : ℕ) : Prop :=
  cell.frmtAt slot = .ulSlot ∨ (cell.frmtAt slot = .flexiSlot ∧
    ∀ symbol, alloc.startSymbol ≤ symbol → symbol < alloc.startSymbol + alloc.symbolLength →
      cell.patternSymbol slot symbol = .ulSlot)

variable {cell : TddCell}

theorem patternFrmt_eq (hpos : 0 < cell.totalCfgSlot) (hle : cell.totalCfgSlot ≤ 16) (slot : ℕ) :
    cell.patternFrmt slot = some (cell.frmtAt slot).toBits := by
  have hlt := Nat.mod_lt slot hpos
  rw [patternFrmt, remainder, if_neg hpos.ne', Option.bind_eq_bind, Option.bind_some,
    schGetSlotSymbFrmt_slotFrmtBitMap (hle.trans (by decide)) (by omega), reads, if_pos hlt]
  rfl

theorem ulSymbolIn_iff {slot : ℕ} : cell.ulSymbolIn slot = true ↔
    ∃ symbol < MAX_SYMB_PER_SLOT, cell.patternSymbol slot symbol = .ulSlot := by
  rw [ulSymbolIn, List.any_eq_true]
  simp only [List.mem_range, decide_eq_true_eq]

/-! ## The combinations -/

/-- A combination that the loops come to. -/
structure Visit where
  slotIdx : ℕ
  k0Index : ℕ
  alloc : PdschTimeDomAlloc
  k1Index : ℕ
  k1 : ℕ

namespace Visit

/-- The slots of the PDSCH and of the feedback. -/
def pdschSlot (v : Visit) : ℕ := v.slotIdx + v.alloc.k0Val

def ulSlot (v : Visit) : ℕ := v.pdschSlot + v.k1

def key (v : Visit) : ℕ × ℕ × ℕ := (v.slotIdx, v.k0Index, v.k1Index)

end Visit

/-- What the loop over the k1 comes to, with the first of them at `n`. -/
def k1Visits (slotIdx k0Index : ℕ) (alloc : PdschTimeDomAlloc) (ulAckTbl : List ℕ) (n : ℕ) :
    List Visit :=
  (ulAckTbl.zipIdx n).filterMap fun (k1, k1Index) =>
    if MIN_NUM_K1_IDX < k1 then some ⟨slotIdx, k0Index, alloc, k1Index, k1⟩ else none

theorem k1Visits_cons {slotIdx k0Index : ℕ} {alloc : PdschTimeDomAlloc} {k1 : ℕ}
    {ulAckTbl : List ℕ} {n : ℕ} (h : MIN_NUM_K1_IDX < k1) :
    ∃ v : Visit, k1Visits slotIdx k0Index alloc (k1 :: ulAckTbl) n =
        v :: k1Visits slotIdx k0Index alloc ulAckTbl (n + 1) ∧
      v.ulSlot = slotIdx + alloc.k0Val + k1 ∧ v.key = (slotIdx, k0Index, n) := by
  refine ⟨⟨slotIdx, k0Index, alloc, n, k1⟩, ?_, rfl, rfl⟩
  simp only [k1Visits, List.zipIdx_cons, List.filterMap_cons, if_pos h]

theorem k1Visits_skip {slotIdx k0Index : ℕ} {alloc : PdschTimeDomAlloc} {k1 : ℕ}
    {ulAckTbl : List ℕ} {n : ℕ} (h : ¬ MIN_NUM_K1_IDX < k1) :
    k1Visits slotIdx k0Index alloc (k1 :: ulAckTbl) n =
      k1Visits slotIdx k0Index alloc ulAckTbl (n + 1) := by
  simp only [k1Visits, List.zipIdx_cons, List.filterMap_cons, if_neg h]

/-- What the loop over the allocations comes to, and the loop over the slots. -/
def k0Visits (cell : TddCell) (ulAckTbl : List ℕ) (slotIdx : ℕ) (allocs : List PdschTimeDomAlloc)
    (n : ℕ) : List Visit :=
  (allocs.zipIdx n).flatMap fun (alloc, k0Index) =>
    if cell.frmtAt (slotIdx + alloc.k0Val) = .ulSlot then []
    else k1Visits slotIdx k0Index alloc ulAckTbl 0

def slotVisits (cell : TddCell) (cfg : K0K1Cfg) (slotIdx : ℕ) : List Visit :=
  if cell.frmtAt slotIdx = .dlSlot then cell.k0Visits cfg.ulAckTbl slotIdx cfg.allocs 0 else []

/-- What all loops come to, in this order. -/
def visits (cell : TddCell) (numSlots : ℕ) (cfg : K0K1Cfg) : List Visit :=
  (List.range numSlots).flatMap (cell.slotVisits cfg)

/-- How a combination fares. -/
def ulTests (cell : TddCell) : Latch.Tests Visit where
  sets v := cell.frmtAt v.ulSlot = .flexiSlot && cell.ulSymbolIn v.ulSlot
  sure v := cell.frmtAt v.ulSlot = .ulSlot
  maybe v := cell.frmtAt v.ulSlot ≠ .dlSlot

/-- The entries in the rows of a slot. -/
def rowKeys (slotIdx : ℕ) (rows : K0K1TimingInfo) : List (ℕ × ℕ × ℕ) :=
  rows.flatMap fun (k0Index, k1Indexes) => k1Indexes.map fun k1Index => (slotIdx, k0Index, k1Index)

section Loops

variable (hpos : 0 < cell.totalCfgSlot) (hle : cell.totalCfgSlot ≤ 16)
include hpos hle

theorem k1Loop_eq (slotIdx k0Index : ℕ) (alloc : PdschTimeDomAlloc) (ulAckTbl : List ℕ) (n : ℕ)
    (latch : Bool) :
    ∃ k1Indexes, cell.k1Loop (slotIdx + alloc.k0Val) ulAckTbl n latch =
        some (k1Indexes, latch || (k1Visits slotIdx k0Index alloc ulAckTbl n).any cell.ulTests.sets) ∧
      k1Indexes.map (fun k1Index => (slotIdx, k0Index, k1Index)) =
        (cell.ulTests.pass latch (k1Visits slotIdx k0Index alloc ulAckTbl n)).map Visit.key := by
  induction ulAckTbl generalizing n latch with
  | nil => exact ⟨[], by simp [k1Loop, k1Visits], rfl⟩
  | cons k1 ulAckTbl ih =>
      by_cases hk1 : MIN_NUM_K1_IDX < k1
      · obtain ⟨v, hvisits, hslot, hkey⟩ := @k1Visits_cons slotIdx k0Index alloc k1 ulAckTbl n hk1
        obtain ⟨k1Indexes, he, hkeys⟩ := ih (n + 1) (latch || cell.ulTests.sets v)
        rw [k1Loop, if_pos hk1, patternFrmt_eq hpos hle, hvisits, List.any_cons, Latch.Tests.pass,
          ← Bool.or_assoc]
        simp only [Option.bind_eq_bind, Option.bind_some, toBits_injective, ← hslot]
        by_cases hdl : cell.frmtAt v.ulSlot = .dlSlot
        · have hsets : cell.ulTests.sets v = false := by simp [ulTests, hdl]
          have hpass : (cell.ulTests.sure v || (latch || cell.ulTests.sets v) &&
              cell.ulTests.maybe v) = false := by simp [ulTests, hdl]
          rw [hpass, if_pos hdl]
          rw [hsets, Bool.or_false] at he hkeys ⊢
          exact ⟨k1Indexes, he, hkeys⟩
        · have hsets : (latch || (decide (cell.frmtAt v.ulSlot = .flexiSlot) &&
              cell.ulSymbolIn v.ulSlot)) = (latch || cell.ulTests.sets v) := rfl
          have hpass : (cell.ulTests.sure v || (latch || cell.ulTests.sets v) &&
              cell.ulTests.maybe v) = ((latch || cell.ulTests.sets v) ||
                decide (cell.frmtAt v.ulSlot = .ulSlot)) := by
            simp [ulTests, hdl, Bool.or_comm]
          rw [if_neg hdl, hsets, he, hpass]
          refine ⟨_, rfl, ?_⟩
          simp only
          split
          · rw [List.map_cons, List.map_cons, hkeys, hkey]
          · exact hkeys
      · rw [k1Loop, if_neg hk1, k1Visits_skip hk1]
        exact ih (n + 1) latch

theorem k0Loop_eq (ulAckTbl : List ℕ) (slotIdx : ℕ) (allocs : List PdschTimeDomAlloc) (n : ℕ)
    (latch : Bool) :
    ∃ rows, cell.k0Loop ulAckTbl slotIdx allocs n latch =
        some (rows, latch || (cell.k0Visits ulAckTbl slotIdx allocs n).any cell.ulTests.sets) ∧
      rowKeys slotIdx rows =
        (cell.ulTests.pass latch (cell.k0Visits ulAckTbl slotIdx allocs n)).map Visit.key := by
  induction allocs generalizing n latch with
  | nil => exact ⟨[], by simp [k0Loop, k0Visits], rfl⟩
  | cons alloc allocs ih =>
      rw [k0Loop, patternFrmt_eq hpos hle, k0Visits, List.zipIdx_cons, List.flatMap_cons,
        Option.bind_eq_bind, Option.bind_some]
      by_cases hul : cell.frmtAt (slotIdx + alloc.k0Val) = .ulSlot
      · simp only [hul, if_true, List.nil_append]
        exact ih (n + 1) latch
      · obtain ⟨k1Indexes, he1, hkeys1⟩ :=
          cell.k1Loop_eq hpos hle slotIdx n alloc ulAckTbl 0 latch
        obtain ⟨rows, he, hkeys⟩ := ih (n + 1)
          (latch || (k1Visits slotIdx n alloc ulAckTbl 0).any cell.ulTests.sets)
        rw [if_neg (toBits_injective.not.2 hul), he1]
        simp only [Option.bind_eq_bind, Option.bind_some, he, if_neg hul]
        refine ⟨_, by rw [List.any_append, Bool.or_assoc]; rfl, ?_⟩
        rw [Latch.Tests.pass_append, List.map_append, ← hkeys1]
        split
        · rename_i hnil
          rw [hnil]
          exact hkeys
        · rw [rowKeys, List.flatMap_cons]
          exact congrArg _ hkeys

/-- The entries of a table for the slots from `slotIdx` on. -/
theorem slotLoop_eq (cfg : K0K1Cfg) (n slotIdx : ℕ) (latch : Bool) :
    ∃ table, cell.k0K1SlotLoop cfg n slotIdx latch = some table ∧ table.length = n ∧
      (table.zipIdx slotIdx).flatMap (fun (rows, slotIdx) => rowKeys slotIdx rows) =
        (cell.ulTests.pass latch
          ((List.range' slotIdx n).flatMap (cell.slotVisits cfg))).map Visit.key := by
  have htake : cfg.allocs.take MAX_NUM_K0_IDX = cfg.allocs := List.take_of_length_le cfg.allocs_le
  induction n generalizing slotIdx latch with
  | zero => exact ⟨[], rfl, rfl, rfl⟩
  | succ n ih =>
      rw [k0K1SlotLoop, patternFrmt_eq hpos hle, List.range'_succ, List.flatMap_cons, slotVisits,
        htake, Option.bind_eq_bind, Option.bind_some]
      simp only [toBits_injective]
      cases hfrmt : cell.frmtAt slotIdx with
      | dlSlot =>
          obtain ⟨rows, he1, hkeys1⟩ :=
            cell.k0Loop_eq hpos hle cfg.ulAckTbl slotIdx cfg.allocs 0 latch
          obtain ⟨table, he, hlength, hkeys⟩ := ih (slotIdx + 1)
            (latch || (cell.k0Visits cfg.ulAckTbl slotIdx cfg.allocs 0).any cell.ulTests.sets)
          rw [if_neg (by simp), he1]
          simp only [Option.bind_eq_bind, Option.bind_some, he, if_true]
          refine ⟨rows :: table, rfl, congrArg Nat.succ hlength, ?_⟩
          rw [List.zipIdx_cons, List.flatMap_cons, Latch.Tests.pass_append, List.map_append,
            ← hkeys1, ← hkeys]
      | ulSlot =>
          obtain ⟨table, he, hlength, hkeys⟩ := ih (slotIdx + 1) latch
          rw [if_pos (.inl rfl), he]
          exact ⟨[] :: table, rfl, congrArg Nat.succ hlength, hkeys⟩
      | flexiSlot =>
          obtain ⟨table, he, hlength, hkeys⟩ := ih (slotIdx + 1) latch
          rw [if_pos (.inr rfl), he]
          exact ⟨[] :: table, rfl, congrArg Nat.succ hlength, hkeys⟩

end Loops

/-! ## The table of k0 and k1 -/

/-- The entry is in the table. -/
def K0K1Stored (table : List K0K1TimingInfo) (slotIdx k0Index k1Index : ℕ) : Prop :=
  ∃ rows, table[slotIdx]? = some rows ∧ ∃ k1Indexes, (k0Index, k1Indexes) ∈ rows ∧
    k1Index ∈ k1Indexes

/-- The entry leads from a downlink slot over a slot for the PDSCH to one for the feedback. -/
def K0K1Entry (cell : TddCell) (cfg : K0K1Cfg) (slotIdx k0Index k1Index : ℕ) : Prop :=
  ∃ alloc k1, cfg.allocs[k0Index]? = some alloc ∧ cfg.ulAckTbl[k1Index]? = some k1 ∧
    MIN_NUM_K1_IDX < k1 ∧ cell.frmtAt slotIdx = .dlSlot ∧
    cell.DlFor alloc (slotIdx + alloc.k0Val) ∧ cell.UlFor (slotIdx + alloc.k0Val + k1)

/-- The table is filled, with just these entries. -/
def K0K1Right (cell : TddCell) (numSlots : ℕ) (cfg : K0K1Cfg) : Prop :=
  ∃ table, cell.buildK0K1Table numSlots cfg = some table ∧
    ∀ slotIdx < numSlots, ∀ k0Index k1Index,
      K0K1Stored table slotIdx k0Index k1Index ↔ cell.K0K1Entry cfg slotIdx k0Index k1Index

/-- A feedback with uplink symbols is only reached over a slot for the PDSCH, and no mixed slot
without uplink symbols is reached for the feedback after one with them. -/
structure K0K1Holds (cell : TddCell) (numSlots : ℕ) (cfg : K0K1Cfg) : Prop where
  pdsch : ∀ v ∈ cell.visits numSlots cfg, cell.UlFor v.ulSlot → cell.DlFor v.alloc v.pdschSlot
  latch : (cell.visits numSlots cfg).Pairwise fun v w => cell.MixedUl v.ulSlot →
    cell.frmtAt w.ulSlot = .flexiSlot → cell.MixedUl w.ulSlot

theorem mem_k1Visits {slotIdx k0Index : ℕ} {alloc : PdschTimeDomAlloc} {ulAckTbl : List ℕ}
    {v : Visit} : v ∈ k1Visits slotIdx k0Index alloc ulAckTbl 0 ↔
      v.slotIdx = slotIdx ∧ v.k0Index = k0Index ∧ v.alloc = alloc ∧
        ulAckTbl[v.k1Index]? = some v.k1 ∧ MIN_NUM_K1_IDX < v.k1 := by
  rw [k1Visits, List.mem_filterMap]
  constructor
  · rintro ⟨⟨k1, k1Index⟩, hmem, hv⟩
    simp only [Option.ite_none_right_eq_some, Option.some.injEq] at hv
    obtain ⟨hk1, rfl⟩ := hv
    exact ⟨rfl, rfl, rfl, List.mem_zipIdx_iff_getElem?.1 hmem, hk1⟩
  · rintro ⟨rfl, rfl, rfl, hmem, hk1⟩
    exact ⟨(v.k1, v.k1Index), List.mem_zipIdx_iff_getElem?.2 hmem, if_pos hk1⟩

theorem mem_slotVisits {cfg : K0K1Cfg} {slotIdx : ℕ} {v : Visit} :
    v ∈ cell.slotVisits cfg slotIdx ↔ v.slotIdx = slotIdx ∧ cell.frmtAt v.slotIdx = .dlSlot ∧
      cfg.allocs[v.k0Index]? = some v.alloc ∧ cell.frmtAt v.pdschSlot ≠ .ulSlot ∧
      cfg.ulAckTbl[v.k1Index]? = some v.k1 ∧ MIN_NUM_K1_IDX < v.k1 := by
  rw [slotVisits]
  constructor
  · intro hv
    split_ifs at hv with hdl
    · obtain ⟨⟨alloc, k0Index⟩, hmem, hv⟩ := List.mem_flatMap.1 hv
      simp only at hv
      split_ifs at hv with hul
      · cases hv
      · obtain ⟨rfl, rfl, rfl, h⟩ := mem_k1Visits.1 hv
        exact ⟨rfl, hdl, List.mem_zipIdx_iff_getElem?.1 hmem, hul, h⟩
    · cases hv
  · rintro ⟨rfl, hdl, halloc, hul, h⟩
    rw [if_pos hdl]
    refine List.mem_flatMap.2 ⟨(v.alloc, v.k0Index), List.mem_zipIdx_iff_getElem?.2 halloc, ?_⟩
    simp only
    rw [if_neg (show cell.frmtAt (v.slotIdx + v.alloc.k0Val) ≠ _ from hul)]
    exact mem_k1Visits.2 ⟨rfl, rfl, rfl, h⟩

theorem mem_visits {numSlots : ℕ} {cfg : K0K1Cfg} {v : Visit} : v ∈ cell.visits numSlots cfg ↔
    v.slotIdx < numSlots ∧ cell.frmtAt v.slotIdx = .dlSlot ∧
      cfg.allocs[v.k0Index]? = some v.alloc ∧ cell.frmtAt v.pdschSlot ≠ .ulSlot ∧
      cfg.ulAckTbl[v.k1Index]? = some v.k1 ∧ MIN_NUM_K1_IDX < v.k1 := by
  rw [visits, List.mem_flatMap]
  constructor
  · rintro ⟨slotIdx, hlt, hv⟩
    obtain ⟨rfl, h⟩ := mem_slotVisits.1 hv
    exact ⟨List.mem_range.1 hlt, h⟩
  · rintro ⟨hlt, h⟩
    exact ⟨v.slotIdx, List.mem_range.2 hlt, mem_slotVisits.2 ⟨rfl, h⟩⟩

/-- A combination is known from its indexes. -/
theorem visit_eq_of_key {numSlots : ℕ} {cfg : K0K1Cfg} {v w : Visit}
    (hv : v ∈ cell.visits numSlots cfg) (hw : w ∈ cell.visits numSlots cfg) (h : v.key = w.key) :
    v = w := by
  obtain ⟨-, -, hv1, -, hv2, -⟩ := mem_visits.1 hv
  obtain ⟨-, -, hw1, -, hw2, -⟩ := mem_visits.1 hw
  obtain ⟨s, i, alloc, j, k1⟩ := v
  obtain ⟨s', i', alloc', j', k1'⟩ := w
  simp only [Visit.key, Prod.mk.injEq] at h
  obtain ⟨rfl, rfl, rfl⟩ := h
  cases hv1.symm.trans hw1
  cases hv2.symm.trans hw2
  rfl

theorem nodup_zipIdx {α : Type*} (l : List α) (n : ℕ) :
    (l.zipIdx n).Pairwise fun x y => x.2 ≠ y.2 := by
  have h : ((l.zipIdx n).map Prod.snd).Nodup := by
    rw [List.zipIdx_map_snd]
    exact List.nodup_range'
  exact List.pairwise_map.1 h

theorem nodup_visits (numSlots : ℕ) (cfg : K0K1Cfg) : (cell.visits numSlots cfg).Nodup := by
  have hk1 : ∀ s i alloc, (k1Visits s i alloc cfg.ulAckTbl 0).Nodup := fun s i alloc => by
    refine List.Pairwise.filterMap _ (fun x y hne v hv w hw => ?_) (nodup_zipIdx cfg.ulAckTbl 0)
    simp only [Option.ite_none_right_eq_some, Option.some.injEq] at hv hw
    obtain ⟨-, rfl⟩ := hv
    obtain ⟨-, rfl⟩ := hw
    simp [hne]
  have hk0 : ∀ s, (cell.k0Visits cfg.ulAckTbl s cfg.allocs 0).Nodup := fun s => by
    refine List.pairwise_flatMap.2 ⟨fun x _ => ?_, (nodup_zipIdx cfg.allocs 0).imp ?_⟩
    · simp only
      split
      · exact List.nodup_nil
      · exact hk1 _ _ _
    · rintro x y hne v hv w hw rfl
      simp only at hv hw
      split_ifs at hv hw
      · cases hv
      · cases hv
      · cases hw
      · exact hne ((mem_k1Visits.1 hv).2.1.symm.trans (mem_k1Visits.1 hw).2.1)
  refine List.pairwise_flatMap.2 ⟨fun s _ => ?_, List.nodup_range.imp ?_⟩
  · rw [slotVisits]
    split
    · exact hk0 s
    · exact List.nodup_nil
  · rintro s s' hne v hv w hw rfl
    exact hne ((mem_slotVisits.1 hv).1.symm.trans (mem_slotVisits.1 hw).1)

/-- The entries of the table are the combinations that pass. -/
theorem stored_iff (hpos : 0 < cell.totalCfgSlot) (hle : cell.totalCfgSlot ≤ 16) (numSlots : ℕ)
    (cfg : K0K1Cfg) :
    ∃ table, cell.buildK0K1Table numSlots cfg = some table ∧ ∀ slotIdx k0Index k1Index,
      K0K1Stored table slotIdx k0Index k1Index ↔
        ∃ v ∈ cell.ulTests.pass false (cell.visits numSlots cfg),
          v.key = (slotIdx, k0Index, k1Index) := by
  obtain ⟨table, he, -, hkeys⟩ := cell.slotLoop_eq hpos hle cfg numSlots 0 false
  refine ⟨table, he, fun slotIdx k0Index k1Index => ?_⟩
  have hmem : (slotIdx, k0Index, k1Index) ∈
      (table.zipIdx 0).flatMap (fun (rows, slotIdx) => rowKeys slotIdx rows) ↔
        K0K1Stored table slotIdx k0Index k1Index := by
    simp only [List.mem_flatMap, rowKeys, List.mem_map, K0K1Stored, Prod.exists, Prod.mk.injEq,
      List.mem_zipIdx_iff_getElem?]
    constructor
    · rintro ⟨rows, _, hrows, _, k1Indexes, hrow, _, hk1, rfl, rfl, rfl⟩
      exact ⟨rows, hrows, k1Indexes, hrow, hk1⟩
    · rintro ⟨rows, hrows, k1Indexes, hrow, hk1⟩
      exact ⟨rows, _, hrows, _, k1Indexes, hrow, _, hk1, rfl, rfl, rfl⟩
  rw [← hmem, hkeys, ← List.range_eq_range', List.mem_map]
  rfl

theorem ulTests_good_iff {v : Visit} : cell.ulTests.Good v ↔ cell.UlFor v.ulSlot := by
  simp only [Latch.Tests.Good, ulTests, UlFor, MixedUl, Bool.and_eq_true, decide_eq_true_eq,
    ulSymbolIn_iff]
  refine or_congr_right ⟨And.left, fun h => ⟨h, ?_⟩⟩
  rw [h.1]
  exact SlotConfig.noConfusion

theorem ulTests_sets_iff {v : Visit} : cell.ulTests.sets v = true ↔ cell.MixedUl v.ulSlot := by
  simp only [ulTests, MixedUl, Bool.and_eq_true, decide_eq_true_eq, ulSymbolIn_iff]

theorem ulTests_stale_iff {v : Visit} : cell.ulTests.Stale v ↔
    cell.frmtAt v.ulSlot = .flexiSlot ∧ ¬ cell.MixedUl v.ulSlot := by
  rw [Latch.Tests.Stale, ulTests_good_iff, UlFor, ulTests]
  simp only [decide_eq_true_eq]
  cases hf : cell.frmtAt v.ulSlot <;> simp [MixedUl, hf]

/-- **The table of k0 and k1 is right exactly in these cases.** -/
theorem k0K1_right_iff (hpos : 0 < cell.totalCfgSlot) (hle : cell.totalCfgSlot ≤ 16)
    (numSlots : ℕ) (cfg : K0K1Cfg) :
    cell.K0K1Right numSlots cfg ↔ cell.K0K1Holds numSlots cfg := by
  obtain ⟨table, he, hstored⟩ := stored_iff hpos hle numSlots cfg
  have hentry : ∀ {slotIdx k0Index k1Index}, slotIdx < numSlots →
      (cell.K0K1Entry cfg slotIdx k0Index k1Index ↔ ∃ v ∈ cell.visits numSlots cfg,
        v.key = (slotIdx, k0Index, k1Index) ∧ cell.DlFor v.alloc v.pdschSlot ∧
          cell.UlFor v.ulSlot) := by
    intro slotIdx k0Index k1Index hlt
    constructor
    · rintro ⟨alloc, k1, h1, h2, h3, h4, h5, h6⟩
      refine ⟨⟨slotIdx, k0Index, alloc, k1Index, k1⟩, mem_visits.2 ⟨hlt, h4, h1, ?_, h2, h3⟩, rfl,
        h5, h6⟩
      change cell.frmtAt (slotIdx + alloc.k0Val) ≠ _
      rcases h5 with h5 | ⟨h5, -⟩ <;> rw [h5] <;> exact SlotConfig.noConfusion
    · rintro ⟨v, hv, hkey, h5, h6⟩
      obtain ⟨-, h4, h1, -, h2, h3⟩ := mem_visits.1 hv
      simp only [Visit.key, Prod.mk.injEq] at hkey
      obtain ⟨rfl, rfl, rfl⟩ := hkey
      exact ⟨v.alloc, v.k1, h1, h2, h3, h4, h5, h6⟩
  have hright : cell.K0K1Right numSlots cfg ↔ ∀ v ∈ cell.visits numSlots cfg,
      v ∈ cell.ulTests.pass false (cell.visits numSlots cfg) ↔
        cell.DlFor v.alloc v.pdschSlot ∧ cell.UlFor v.ulSlot := by
    constructor
    · rintro ⟨table', he', hall⟩ v hv
      cases he.symm.trans he'
      have h := hall v.slotIdx (mem_visits.1 hv).1 v.k0Index v.k1Index
      rw [hstored, hentry (mem_visits.1 hv).1] at h
      constructor
      · intro hp
        obtain ⟨w, hw, hkey, hgood⟩ := h.1 ⟨v, hp, rfl⟩
        exact visit_eq_of_key hw hv hkey ▸ hgood
      · intro hgood
        obtain ⟨w, hw, hkey⟩ := h.2 ⟨v, hv, rfl, hgood⟩
        exact visit_eq_of_key (Latch.Tests.pass_sublist.subset hw) hv hkey ▸ hw
    · intro hall
      refine ⟨table, he, fun slotIdx hlt k0Index k1Index => ?_⟩
      rw [hstored, hentry hlt]
      constructor
      · rintro ⟨v, hp, hkey⟩
        have hv := Latch.Tests.pass_sublist.subset hp
        exact ⟨v, hv, hkey, (hall v hv).1 hp⟩
      · rintro ⟨v, hv, hkey, hgood⟩
        exact ⟨v, (hall v hv).2 hgood, hkey⟩
  have hlatch := @Latch.Tests.forall_mem_pass_iff _ cell.ulTests false _
    (cell.nodup_visits numSlots cfg)
  simp only [ulTests_good_iff, ulTests_sets_iff, ulTests_stale_iff, Bool.false_eq_true,
    false_imp_iff, true_and] at hlatch
  have hpair : (cell.visits numSlots cfg).Pairwise (fun v w => cell.MixedUl v.ulSlot →
      ¬ (cell.frmtAt w.ulSlot = .flexiSlot ∧ ¬ cell.MixedUl w.ulSlot)) ↔
      (cell.visits numSlots cfg).Pairwise fun v w => cell.MixedUl v.ulSlot →
        cell.frmtAt w.ulSlot = .flexiSlot → cell.MixedUl w.ulSlot := by
    simp only [not_and_not_right]
  rw [hright]
  constructor
  · intro hall
    have hpdsch : ∀ v ∈ cell.visits numSlots cfg, cell.UlFor v.ulSlot →
        cell.DlFor v.alloc v.pdschSlot := fun v hv hul =>
      ((hall v hv).1 (Latch.Tests.mem_pass_of_good hv (ulTests_good_iff.2 hul))).1
    refine ⟨hpdsch, hpair.1 (hlatch.1 fun v hv => ?_)⟩
    rw [hall v hv, and_iff_right_of_imp (hpdsch v hv)]
  · rintro ⟨hpdsch, h⟩ v hv
    rw [hlatch.2 (hpair.2 h) v hv, and_iff_right_of_imp (hpdsch v hv)]

/-! ## The table of k2 -/

/-- The flag is not read as it was found: a slot of the pattern is for the downlink, for the uplink
or mixed, and for a mixed one it is set anew. -/
theorem k2Check_eq (hpos : 0 < cell.totalCfgSlot) (hle : cell.totalCfgSlot ≤ 16)
    (alloc : PuschTimeDomAlloc) (slot : ℕ) (dlSymbolPresent : Bool) :
    ∃ store dlSymbolPresent', cell.k2Check alloc slot dlSymbolPresent =
      some (store, dlSymbolPresent') ∧ (store = true ↔ cell.PuschFor alloc slot) := by
  rw [k2Check, patternFrmt_eq hpos hle, Option.bind_eq_bind, Option.bind_some, PuschFor]
  simp only [toBits_injective]
  cases hfrmt : cell.frmtAt slot with
  | dlSlot => exact ⟨_, _, rfl, by simp⟩
  | ulSlot => exact ⟨_, _, rfl, by simp⟩
  | flexiSlot =>
      refine ⟨_, _, rfl, ?_⟩
      have hany : (!cell.dlSymbolIn slot alloc.startSymbol alloc.symbolLength) = true ↔
          ∀ symbol, alloc.startSymbol ≤ symbol →
            symbol < alloc.startSymbol + alloc.symbolLength →
              cell.patternSymbol slot symbol = .ulSlot := by
        rw [dlSymbolIn, Bool.not_eq_true', List.any_eq_false]
        simp only [List.mem_range'_1, decide_eq_true_eq, and_imp]
        refine forall_congr' fun symbol => forall₂_congr fun _ _ => ?_
        cases cell.patternSymbol slot symbol <;> simp
      simp [hany]

/-- The rows of the allocations for which `p` holds, with the first of them at `n`. -/
def rowsWith (p : PuschTimeDomAlloc → Prop) (allocs : List PuschTimeDomAlloc) (n k2Index : ℕ) :
    Prop :=
  ∃ alloc, (alloc, k2Index) ∈ allocs.zipIdx n ∧ p alloc

theorem rowsWith_cons {p : PuschTimeDomAlloc → Prop} {alloc : PuschTimeDomAlloc}
    {allocs : List PuschTimeDomAlloc} {n k2Index : ℕ} : rowsWith p (alloc :: allocs) n k2Index ↔
      (k2Index = n ∧ p alloc) ∨ rowsWith p allocs (n + 1) k2Index := by
  simp only [rowsWith, List.zipIdx_cons, List.mem_cons, Prod.mk.injEq, or_and_right, exists_or,
    and_assoc, exists_eq_left]

/-- What is put in front of the rows of the other allocations. -/
theorem mem_rows_cons {p : PuschTimeDomAlloc → Prop} {alloc : PuschTimeDomAlloc}
    {allocs : List PuschTimeDomAlloc} {n k2Index : ℕ} {store : Bool} {rows : List ℕ}
    (hstore : store = true ↔ p alloc) (hrows : k2Index ∈ rows ↔ rowsWith p allocs (n + 1) k2Index) :
    k2Index ∈ (if store then n :: rows else rows) ↔ rowsWith p (alloc :: allocs) n k2Index := by
  rw [rowsWith_cons, ← hrows, ← hstore]
  cases store
  · simp
  · simp

section Loops

variable (hpos : 0 < cell.totalCfgSlot) (hle : cell.totalCfgSlot ≤ 16)
include hpos hle

theorem k2Loop_eq {cfg : K2Cfg} {msg3Delta : ℕ}
    (hdelta : puschDeltaTable[cfg.numerology]? = some msg3Delta) (slotIdx : ℕ)
    (allocs : List PuschTimeDomAlloc) (n : ℕ) (dlSymbolPresent : Bool) :
    ∃ k2Indexes msg3K2Indexes dlSymbolPresent',
      cell.k2Loop cfg slotIdx allocs n dlSymbolPresent =
        some (k2Indexes, msg3K2Indexes, dlSymbolPresent') ∧
      (∀ k2Index, k2Index ∈ k2Indexes ↔
        rowsWith (fun alloc => cell.PuschFor alloc (slotIdx + alloc.k2Val cell.scs)) allocs n
          k2Index) ∧
      ∀ k2Index, k2Index ∈ msg3K2Indexes ↔
        rowsWith (fun alloc => cfg.msg3 = true ∧
          cell.PuschFor alloc (slotIdx + alloc.k2Val cell.scs + msg3Delta)) allocs n k2Index := by
  induction allocs generalizing n dlSymbolPresent with
  | nil => exact ⟨[], [], _, rfl, by simp [rowsWith], by simp [rowsWith]⟩
  | cons alloc allocs ih =>
      obtain ⟨store, flag, he, hstore⟩ :=
        k2Check_eq hpos hle alloc (slotIdx + alloc.k2Val cell.scs) dlSymbolPresent
      obtain ⟨store3, flag3, he3, hstore3⟩ : ∃ store3 flag3, (if cfg.msg3 then
            cell.k2Check alloc (slotIdx + alloc.k2Val cell.scs + msg3Delta) flag
          else some (false, flag)) = some (store3, flag3) ∧ (store3 = true ↔ cfg.msg3 = true ∧
            cell.PuschFor alloc (slotIdx + alloc.k2Val cell.scs + msg3Delta)) := by
        obtain ⟨store3, flag3, he3, hstore3⟩ :=
          k2Check_eq hpos hle alloc (slotIdx + alloc.k2Val cell.scs + msg3Delta) flag
        split
        · rename_i hmsg3
          exact ⟨store3, flag3, he3, hstore3.trans (and_iff_right hmsg3).symm⟩
        · rename_i hmsg3
          exact ⟨false, flag, rfl, by simp [hmsg3]⟩
      obtain ⟨rows, rows3, flag', hrec, hrows, hrows3⟩ := ih (n + 1) flag3
      rw [k2Loop]
      simp only [he, hdelta, Option.bind_eq_bind, Option.bind_some]
      refine ⟨_, _, flag', ?_, fun k2Index => mem_rows_cons hstore (hrows k2Index),
        fun k2Index => mem_rows_cons hstore3 (hrows3 k2Index)⟩
      by_cases hmsg3 : cfg.msg3 = true
      · rw [if_pos hmsg3] at he3 ⊢
        rw [he3, Option.bind_some, hrec]
        rfl
      · rw [if_neg hmsg3] at he3 ⊢
        cases he3
        rw [hrec]
        rfl

/-- What is stored for the slots from `slotIdx` on. -/
theorem k2SlotLoop_eq {cfg : K2Cfg} {msg3Delta : ℕ}
    (hdelta : puschDeltaTable[cfg.numerology]? = some msg3Delta) (n slotIdx : ℕ)
    (dlSymbolPresent : Bool) :
    ∃ table, cell.k2SlotLoop cfg n slotIdx dlSymbolPresent = some table ∧
      ∀ i < n, ∃ k2Indexes msg3K2Indexes, table[i]? = some (k2Indexes, msg3K2Indexes) ∧
        ∀ k2Index, (k2Index ∈ k2Indexes ↔ cell.frmtAt (slotIdx + i) ≠ .ulSlot ∧
            rowsWith (fun alloc => cell.PuschFor alloc (slotIdx + i + alloc.k2Val cell.scs))
              cfg.allocs 0 k2Index) ∧
          (k2Index ∈ msg3K2Indexes ↔ cell.frmtAt (slotIdx + i) ≠ .ulSlot ∧
            rowsWith (fun alloc => cfg.msg3 = true ∧
              cell.PuschFor alloc (slotIdx + i + alloc.k2Val cell.scs + msg3Delta))
              cfg.allocs 0 k2Index) := by
  have htake : cfg.allocs.take MAX_NUM_K2_IDX = cfg.allocs := List.take_of_length_le cfg.allocs_le
  induction n generalizing slotIdx dlSymbolPresent with
  | zero => exact ⟨[], rfl, fun i hi => absurd hi (Nat.not_lt_zero i)⟩
  | succ n ih =>
      rw [k2SlotLoop, patternFrmt_eq hpos hle, htake, Option.bind_eq_bind, Option.bind_some]
      simp only [toBits_injective]
      have hnext : ∀ i, slotIdx + 1 + i = slotIdx + (i + 1) := fun i => by omega
      by_cases hul : cell.frmtAt slotIdx = .ulSlot
      · obtain ⟨table, he, htable⟩ := ih (slotIdx + 1) dlSymbolPresent
        rw [if_pos hul, he]
        refine ⟨([], []) :: table, rfl, fun i hi => ?_⟩
        cases i with
        | zero => exact ⟨[], [], rfl, by simp [hul]⟩
        | succ i =>
            rw [← hnext]
            exact htable i (Nat.lt_of_succ_lt_succ hi)
      · obtain ⟨k2Indexes, msg3K2Indexes, flag, he1, hk2, hmsg3⟩ :=
          k2Loop_eq hpos hle hdelta slotIdx cfg.allocs 0 dlSymbolPresent
        obtain ⟨table, he, htable⟩ := ih (slotIdx + 1) flag
        rw [if_neg hul, he1]
        simp only [Option.bind_eq_bind, Option.bind_some, he]
        refine ⟨(k2Indexes, msg3K2Indexes) :: table, rfl, fun i hi => ?_⟩
        cases i with
        | zero =>
            exact ⟨k2Indexes, msg3K2Indexes, rfl, fun k2Index =>
              ⟨(hk2 k2Index).trans (and_iff_right hul).symm,
                (hmsg3 k2Index).trans (and_iff_right hul).symm⟩⟩
        | succ i =>
            rw [← hnext]
            exact htable i (Nat.lt_of_succ_lt_succ hi)

end Loops

/-- The entry leads from a slot that is not for the uplink to one for the PUSCH, which comes `delta`
slots after the k2. -/
def K2Entry (cell : TddCell) (cfg : K2Cfg) (delta slotIdx k2Index : ℕ) : Prop :=
  cell.frmtAt slotIdx ≠ .ulSlot ∧ ∃ alloc, cfg.allocs[k2Index]? = some alloc ∧
    cell.PuschFor alloc (slotIdx + alloc.k2Val cell.scs + delta)

/-- The tables for the PUSCH and for MSG3 are filled, with just these entries. -/
def K2Right (cell : TddCell) (numSlots : ℕ) (cfg : K2Cfg) (msg3Delta : ℕ) : Prop :=
  ∃ table, cell.buildK2InfoTable numSlots cfg = some table ∧
    ∀ slotIdx < numSlots, ∃ k2Indexes msg3K2Indexes,
      table[slotIdx]? = some (k2Indexes, msg3K2Indexes) ∧ ∀ k2Index,
        (k2Index ∈ k2Indexes ↔ cell.K2Entry cfg 0 slotIdx k2Index) ∧
        (k2Index ∈ msg3K2Indexes ↔ cfg.msg3 = true ∧ cell.K2Entry cfg msg3Delta slotIdx k2Index)

/-- **The table of the k2 is right always.** -/
theorem k2_right (hpos : 0 < cell.totalCfgSlot) (hle : cell.totalCfgSlot ≤ 16) (numSlots : ℕ)
    {cfg : K2Cfg} {msg3Delta : ℕ} (hdelta : puschDeltaTable[cfg.numerology]? = some msg3Delta) :
    cell.K2Right numSlots cfg msg3Delta := by
  obtain ⟨table, he, htable⟩ := k2SlotLoop_eq hpos hle hdelta numSlots 0 false
  refine ⟨table, he, fun slotIdx hlt => ?_⟩
  obtain ⟨k2Indexes, msg3K2Indexes, hrow, h⟩ := htable slotIdx hlt
  refine ⟨k2Indexes, msg3K2Indexes, hrow, fun k2Index => ⟨?_, ?_⟩⟩
  · rw [(h k2Index).1]
    simp only [rowsWith, K2Entry, List.mem_zipIdx_iff_getElem?, Nat.zero_add, Nat.add_zero]
  · rw [(h k2Index).2]
    simp only [rowsWith, K2Entry, List.mem_zipIdx_iff_getElem?, Nat.zero_add]
    constructor
    · rintro ⟨h1, alloc, h2, h3, h4⟩
      exact ⟨h3, h1, alloc, h2, h4⟩
    · rintro ⟨h3, h1, alloc, h2, h4⟩
      exact ⟨h1, alloc, h2, h3, h4⟩

/-- **Both tables are right exactly in the cases in which that of k0 and k1 is.** -/
theorem timingTables_right_iff (hpos : 0 < cell.totalCfgSlot) (hle : cell.totalCfgSlot ≤ 16)
    (numSlots : ℕ) (cfg : K0K1Cfg) {k2Cfg : K2Cfg} {msg3Delta : ℕ}
    (hdelta : puschDeltaTable[k2Cfg.numerology]? = some msg3Delta) :
    (cell.K0K1Right numSlots cfg ∧ cell.K2Right numSlots k2Cfg msg3Delta) ↔
      cell.K0K1Holds numSlots cfg := by
  rw [and_iff_left (k2_right hpos hle numSlots hdelta), k0K1_right_iff hpos hle]

end TddCell

/-! ## A pattern -/

/-- One allocation and one k1. -/
def mixedTddCfg (alloc : PdschTimeDomAlloc) (k1 : ℕ) : K0K1Cfg where
  allocs := [alloc]
  ulAckTbl := [k1]
  allocs_le := Nat.le_of_ble_eq_true rfl
  ulAckTbl_le := Nat.le_of_ble_eq_true rfl

def mixedTddK2Cfg : K2Cfg where
  numerology := 1
  allocs := [⟨4, 0, 14, by decide⟩]
  msg3 := true
  allocs_le := by decide

namespace TddCell

theorem exampleTdd_mixedUl {slot : ℕ} (h : exampleTdd.frmtAt slot = .flexiSlot) :
    exampleTdd.MixedUl slot := by
  have hall : ∀ r < 5, exampleTdd.tddCfg.slotFrmt r = .flexiSlot →
      exampleTdd.tddCfg.slotCfg r 10 = .ulSlot := by decide
  exact ⟨h, 10, by decide, hall (slot % 5) (Nat.mod_lt slot (by decide)) h⟩

theorem timingTables_right_iff_mixed :
    exampleTdd.K0K1Right 20 (mixedTddCfg ⟨some 0, 2, 12, by decide⟩ 8) ∧
      exampleTdd.K2Right 20 mixedTddK2Cfg 3 := by
  refine (timingTables_right_iff (by decide) (by decide) 20 _ (by decide)).2 ⟨?_, ?_⟩
  · intro v hv _
    obtain ⟨-, hdl, halloc, -⟩ := mem_visits.1 hv
    have halloc' : v.alloc = ⟨some 0, 2, 12, by decide⟩ :=
      List.mem_singleton.1 (List.mem_of_getElem? halloc)
    rw [Visit.pdschSlot, halloc']
    exact .inl hdl
  · exact List.pairwise_of_forall fun _ _ _ => exampleTdd_mixedUl

/-- **A PDSCH with uplink symbols is in the table**: it is put in the mixed slot, and its feedback in
the uplink slot 9. -/
theorem timingTables_wrong :
    ¬ (exampleTdd.K0K1Right 20 (mixedTddCfg ⟨some 3, 8, 6, by decide⟩ 6) ∧
      exampleTdd.K2Right 20 mixedTddK2Cfg 3) := by
  rintro ⟨hright, -⟩
  have hdl := ((k0K1_right_iff (by decide) (by decide) 20 _).1 hright).pdsch
    ⟨0, 0, ⟨some 3, 8, 6, by decide⟩, 0, 6⟩
    (mem_visits.2 ⟨by decide, by decide, rfl, by decide, rfl, by decide⟩) (.inl (by decide))
  rcases hdl with hdl | ⟨-, hdl⟩
  · exact absurd hdl (by decide)
  · exact hdl 10 (by decide) (by decide) (by decide)

/-- With a k1 of 15 the row is also there in slot 5, from which it leads to slot 8. -/
example : (exampleTdd.buildK0K1Table 20 (mixedTddCfg ⟨some 3, 8, 6, by decide⟩ 15)).map (·[5]?) =
    some (some [(0, [0])]) := by decide +kernel

end TddCell

end OaiCu.OduSch
