import OaiCu.OduSch.RaReq

/-!
# O-DU scheduler: the tables of k0, k1 and k2 for TDD (`sch_common.c`)

For each slot the tables hold the rows of the time-domain allocations that lead from it to slots of
the right direction. A slot of a mixed format is looked at symbol by symbol, with flags that live as
long as the function. An array with its counter is a list here.
-/

namespace OaiCu.OduSch

def MAX_NUM_DL_ALLOC : ℕ := 16
def MAX_NUM_UL_ALLOC : ℕ := 16
def MAX_NUM_K0_IDX : ℕ := 16
def MAX_NUM_K1_IDX : ℕ := 8
def MIN_NUM_K1_IDX : ℕ := 4
def MAX_NUM_K2_IDX : ℕ := 16
def DEFAULT_K0_VALUE : ℕ := 0

/-- An entry of the lists for the PDSCH. In the dedicated one the k0 may be absent. -/
structure PdschTimeDomAlloc where
  k0 : Option ℕ
  startSymbol : ℕ
  symbolLength : ℕ
  endSymbol_le : startSymbol + symbolLength ≤ MAX_SYMB_PER_SLOT

/-- `SchPuschTimeDomRsrcAlloc`. -/
structure PuschTimeDomAlloc where
  k2 : ℕ
  startSymbol : ℕ
  symbolLength : ℕ
  endSymbol_le : startSymbol + symbolLength ≤ MAX_SYMB_PER_SLOT

def PdschTimeDomAlloc.k0Val (alloc : PdschTimeDomAlloc) : ℕ := alloc.k0.getD DEFAULT_K0_VALUE

/-- The k2, or the default for the subcarrier spacing. -/
def PuschTimeDomAlloc.k2Val (alloc : PuschTimeDomAlloc) (scs : ℕ) : ℕ :=
  if alloc.k2 = 0 then
    match scs with
    | 0 => 1
    | 1 => 1
    | 2 => 2
    | 3 => 3
    | _ => 0
  else alloc.k2

/-- What `BuildK0K1Table` gets besides the cell. -/
structure K0K1Cfg where
  allocs : List PdschTimeDomAlloc
  ulAckTbl : List ℕ
  allocs_le : allocs.length ≤ MAX_NUM_DL_ALLOC
  ulAckTbl_le : ulAckTbl.length ≤ MAX_NUM_K1_IDX

/-- What `BuildK2InfoTable` gets, and the numerology of the cell. `msg3` says whether the table for
MSG3 is to be filled; it is clear then. -/
structure K2Cfg where
  numerology : ℕ
  allocs : List PuschTimeDomAlloc
  msg3 : Bool
  allocs_le : allocs.length ≤ MAX_NUM_UL_ALLOC

/-- The rows of the k0 for a slot, with their rows of the k1. -/
abbrev K0K1TimingInfo := List (ℕ × List ℕ)

namespace TddCell

/-- The format of a slot, which is taken from the pattern. -/
def patternFrmt (cell : TddCell) (slot : ℕ) : Option (BitVec 32) := do
  schGetSlotSymbFrmt (← remainder slot cell.totalCfgSlot) cell.slotFrmtBitMap

/-- A symbol of the slot. -/
def patternSymbol (cell : TddCell) (slot symbol : ℕ) : SlotConfig :=
  cell.tddCfg.slotCfg (slot % cell.totalCfgSlot) symbol

/-- There is an uplink symbol in the slot. -/
def ulSymbolIn (cell : TddCell) (slot : ℕ) : Bool :=
  (List.range MAX_SYMB_PER_SLOT).any fun symbol => cell.patternSymbol slot symbol = .ulSlot

/-- A symbol of the allocation is not for the uplink. -/
def dlSymbolIn (cell : TddCell) (slot startSymbol symbolLength : ℕ) : Bool :=
  (List.range' startSymbol symbolLength).any fun symbol =>
    cell.patternSymbol slot symbol = .dlSlot ∨ cell.patternSymbol slot symbol = .flexiSlot

/-! ## `BuildK0K1Table` -/

/-- The loop over the k1, for a PDSCH in `slot`. `ulSlotPresent` is set and not cleared. -/
def k1Loop (cell : TddCell) (slot : ℕ) : List ℕ → ℕ → Bool → Option (List ℕ × Bool)
  | [], _, ulSlotPresent => some ([], ulSlotPresent)
  | k1 :: ulAckTbl, k1Index, ulSlotPresent =>
    if MIN_NUM_K1_IDX < k1 then do
      let slotCfg ← cell.patternFrmt (slot + k1)
      if slotCfg = SlotConfig.dlSlot.toBits then k1Loop cell slot ulAckTbl (k1Index + 1) ulSlotPresent
      else do
        let ulSlotPresent := ulSlotPresent ||
          (slotCfg = SlotConfig.flexiSlot.toBits && cell.ulSymbolIn (slot + k1))
        let (k1Indexes, ulSlotPresent') ← k1Loop cell slot ulAckTbl (k1Index + 1) ulSlotPresent
        return (if ulSlotPresent || slotCfg = SlotConfig.ulSlot.toBits then k1Index :: k1Indexes
          else k1Indexes, ulSlotPresent')
    else k1Loop cell slot ulAckTbl (k1Index + 1) ulSlotPresent

/-- The loop over the allocations. -/
def k0Loop (cell : TddCell) (ulAckTbl : List ℕ) (slotIdx : ℕ) :
    List PdschTimeDomAlloc → ℕ → Bool → Option (K0K1TimingInfo × Bool)
  | [], _, ulSlotPresent => some ([], ulSlotPresent)
  | alloc :: allocs, k0Index, ulSlotPresent => do
    let slotCfg ← cell.patternFrmt (slotIdx + alloc.k0Val)
    if slotCfg = SlotConfig.ulSlot.toBits then
      k0Loop cell ulAckTbl slotIdx allocs (k0Index + 1) ulSlotPresent
    else do
      -- for a mixed slot the symbols are gone through, but an uplink symbol only goes on with
      -- the next symbol
      let (k1Indexes, ulSlotPresent) ←
        cell.k1Loop (slotIdx + alloc.k0Val) ulAckTbl 0 ulSlotPresent
      let (k0Indexes, ulSlotPresent) ←
        k0Loop cell ulAckTbl slotIdx allocs (k0Index + 1) ulSlotPresent
      return (if k1Indexes = [] then k0Indexes else (k0Index, k1Indexes) :: k0Indexes,
        ulSlotPresent)

/-- The loop over the slots, with `n` of them left. -/
def k0K1SlotLoop (cell : TddCell) (cfg : K0K1Cfg) : ℕ → ℕ → Bool → Option (List K0K1TimingInfo)
  | 0, _, _ => some []
  | n + 1, slotIdx, ulSlotPresent => do
    let slotCfg ← cell.patternFrmt slotIdx
    if slotCfg = SlotConfig.ulSlot.toBits ∨ slotCfg = SlotConfig.flexiSlot.toBits then
      let table ← k0K1SlotLoop cell cfg n (slotIdx + 1) ulSlotPresent
      return [] :: table
    else do
      let (k0Indexes, ulSlotPresent) ←
        cell.k0Loop cfg.ulAckTbl slotIdx (cfg.allocs.take MAX_NUM_K0_IDX) 0 ulSlotPresent
      let table ← k0K1SlotLoop cell cfg n (slotIdx + 1) ulSlotPresent
      return k0Indexes :: table

/-- `BuildK0K1Table` of a TDD cell: what is stored for each slot. -/
def buildK0K1Table (cell : TddCell) (numSlots : ℕ) (cfg : K0K1Cfg) : Option (List K0K1TimingInfo) :=
  cell.k0K1SlotLoop cfg numSlots 0 false

/-! ## `BuildK2InfoTable` -/

/-- Whether an allocation is stored for `slot`, and `dlSymbolPresent`. -/
def k2Check (cell : TddCell) (alloc : PuschTimeDomAlloc) (slot : ℕ) (dlSymbolPresent : Bool) :
    Option (Bool × Bool) := do
  let slotCfg ← cell.patternFrmt slot
  if slotCfg = SlotConfig.dlSlot.toBits then return (false, dlSymbolPresent)
  else
    let dlSymbolPresent :=
      if slotCfg = SlotConfig.flexiSlot.toBits then
        cell.dlSymbolIn slot alloc.startSymbol alloc.symbolLength
      else dlSymbolPresent
    return (!dlSymbolPresent || slotCfg = SlotConfig.ulSlot.toBits, dlSymbolPresent)

/-- The loop over the allocations: the rows for the PUSCH, and those for MSG3. -/
def k2Loop (cell : TddCell) (cfg : K2Cfg) (slotIdx : ℕ) :
    List PuschTimeDomAlloc → ℕ → Bool → Option (List ℕ × List ℕ × Bool)
  | [], _, dlSymbolPresent => some ([], [], dlSymbolPresent)
  | alloc :: allocs, k2Index, dlSymbolPresent => do
    let k2Val := alloc.k2Val cell.scs
    let (store, dlSymbolPresent) ← cell.k2Check alloc (slotIdx + k2Val) dlSymbolPresent
    let (storeMsg3, dlSymbolPresent) ←
      if cfg.msg3 then do
        let msg3Delta ← puschDeltaTable[cfg.numerology]?
        cell.k2Check alloc (slotIdx + k2Val + msg3Delta) dlSymbolPresent
      else some (false, dlSymbolPresent)
    let (k2Indexes, msg3K2Indexes, dlSymbolPresent) ←
      k2Loop cell cfg slotIdx allocs (k2Index + 1) dlSymbolPresent
    return (if store then k2Index :: k2Indexes else k2Indexes,
      if storeMsg3 then k2Index :: msg3K2Indexes else msg3K2Indexes, dlSymbolPresent)

/-- The loop over the slots, with `n` of them left. -/
def k2SlotLoop (cell : TddCell) (cfg : K2Cfg) : ℕ → ℕ → Bool → Option (List (List ℕ × List ℕ))
  | 0, _, _ => some []
  | n + 1, slotIdx, dlSymbolPresent => do
    let currentSlot ← cell.patternFrmt slotIdx
    if currentSlot = SlotConfig.ulSlot.toBits then
      let table ← k2SlotLoop cell cfg n (slotIdx + 1) dlSymbolPresent
      return ([], []) :: table
    else do
      let (k2Indexes, msg3K2Indexes, dlSymbolPresent) ←
        cell.k2Loop cfg slotIdx (cfg.allocs.take MAX_NUM_K2_IDX) 0 dlSymbolPresent
      let table ← k2SlotLoop cell cfg n (slotIdx + 1) dlSymbolPresent
      return (k2Indexes, msg3K2Indexes) :: table

/-- `BuildK2InfoTable` of a TDD cell: what both tables store for each slot. -/
def buildK2InfoTable (cell : TddCell) (numSlots : ℕ) (cfg : K2Cfg) :
    Option (List (List ℕ × List ℕ)) :=
  cell.k2SlotLoop cfg numSlots 0 false

end TddCell

end OaiCu.OduSch
