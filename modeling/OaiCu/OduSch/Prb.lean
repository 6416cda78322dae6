import OaiCu.OduSch.SlotFrmt
import OaiCu.Lib.Blocks

/-!
# O-DU scheduler: the PRBs of a slot (`sch.c`, `sch_utils.c`)

A slot keeps its free PRBs twice: as the list of the free blocks, and as one bitmap for each
symbol. `allocatePrbDl` and `allocatePrbUl` take PRBs from both. They leave out the PRBs that are
reserved in the slot for a broadcast or for the random access.

A call that does not return, since it loops or divides by zero, is `none`.
-/

namespace OaiCu.OduSch

def SCH_SSB_NUM_PRB : ℕ := 21
def SCH_MIB_TRANS : ℕ := 8
def SCH_SIB1_TRANS : ℕ := 16
def PRB_BITMAP_IDX_LEN : ℕ := 64
def NUM_DMRS_SYMBOLS : ℕ := 1

/-! ## What is reserved -/

/-- `PduTxOccsaion`. -/
inductive PduTxOccsaion
  | noTransmission
  | newTransmission
  | repeatition
deriving DecidableEq, Repr

/-- The fields of a row of `prachCfgIdxTable` that say when there is an occasion. -/
structure PrachCfg where
  x : ℕ
  y : ℕ
  prachSubframe : ℕ

/-- The fields of `SchCellCb` that say which PRBs are reserved in a slot. The row of
`prachCfgIdxTable` stands for its index. -/
structure OccasionCfg where
  duplex : Duplex
  numerology : ℕ
  ssbOffsetPointA : ℕ
  ssbPeriod : ℕ
  firstSsbTransmitted : Bool
  sib1NumPrb : ℕ
  sib1RepetitionPeriod : ℕ
  firstSib1Transmitted : Bool
  prachCfg : PrachCfg
  msg1FreqStart : ℕ
  rootSeqLen : ℕ
  prachSubcSpacing : ℕ
  scs : ℕ
  numSlotsInPeriodicity : ℕ
  slotFrmtBitMap : BitVec 32

/-- The first and the last of the reserved PRBs. -/
structure Reserved where
  startPrb : ℕ
  endPrb : ℕ
deriving DecidableEq, Repr

/-- The PRBs of a range, computed on 16 bits. -/
def Reserved.ofNumPrb (startPrb numPrb : ℕ) : Reserved where
  startPrb := startPrb
  endPrb := (startPrb + numPrb + 2 ^ 16 - 1) % 2 ^ 16

/-- The remainder, which is not defined for zero. -/
def remainder (a b : ℕ) : Option ℕ := if b = 0 then none else some (a % b)

namespace OccasionCfg

def schCheckSsbOcc (cell : OccasionCfg) (slotTime : SlotTimingInfo) : Option PduTxOccsaion :=
  if slotTime.sfn % SCH_MIB_TRANS = 0 ∧ slotTime.slot = 0 then some .newTransmission
  else if cell.firstSsbTransmitted then
    if cell.ssbPeriod = 5 ∧ (slotTime.slot = 0 ∨ slotTime.slot = 10) then some .repeatition
    else do
      let rest ← remainder slotTime.sfn (cell.ssbPeriod / 10)
      return if rest = 0 ∧ slotTime.slot = 0 then .repeatition else .noTransmission
  else some .noTransmission

def schCheckSib1Occ (cell : OccasionCfg) (slotTime : SlotTimingInfo) : Option PduTxOccsaion :=
  if slotTime.sfn % SCH_SIB1_TRANS = 0 ∧ slotTime.slot = 0 then some .newTransmission
  else if cell.firstSib1Transmitted then do
    let rest ← remainder slotTime.sfn (cell.sib1RepetitionPeriod / 10)
    return if rest = 0 ∧ slotTime.slot = 0 then .repeatition else .noTransmission
  else some .noTransmission

/-- The first PRB of SIB1, as `fillSchSib1Cfg` sets it. -/
def sib1StartPrb (cell : OccasionCfg) : ℕ := cell.ssbOffsetPointA + SCH_SSB_NUM_PRB

def schCheckPrachOcc (cell : OccasionCfg) (prachOccasionTimingInfo : SlotTimingInfo) :
    Option Bool := do
  let rest ← remainder prachOccasionTimingInfo.sfn cell.prachCfg.x
  let subFrame := prachOccasionTimingInfo.slot / 2 ^ cell.numerology
  if rest = cell.prachCfg.y ∧ (cell.prachCfg.prachSubframe).testBit subFrame then
    match cell.duplex with
    | .fdd => return true
    | .tdd =>
      let slot ← remainder prachOccasionTimingInfo.slot cell.numSlotsInPeriodicity
      let frmt ← schGetSlotSymbFrmt slot cell.slotFrmtBitMap
      return frmt == SlotConfig.ulSlot.toBits
  else return false

end OccasionCfg

/-- `convertScsEnumValToScsVal`. -/
def convertScsEnumValToScsVal (scsEnumValue : ℕ) : ℕ :=
  if scsEnumValue ≤ 4 then 15 * 2 ^ scsEnumValue else 15

/-- `numRbForPrachTable`: the length of the sequence, the subcarrier spacings of the PRACH and
of the PUSCH, and the number of PRBs. The entries 1.25 are cut off to 1. -/
def numRbForPrachTable : List (ℕ × ℕ × ℕ × ℕ) :=
  [(839, 1, 15, 6), (839, 1, 30, 3), (839, 1, 60, 2), (839, 5, 15, 24), (839, 5, 30, 12),
    (839, 5, 60, 6), (139, 15, 15, 12), (139, 15, 30, 6), (139, 15, 60, 3), (139, 30, 15, 24),
    (139, 30, 30, 12), (139, 30, 60, 6), (139, 60, 60, 12), (139, 60, 120, 6),
    (139, 120, 60, 24), (139, 120, 120, 12)]

namespace OccasionCfg

def schCalcPrachNumRb (cell : OccasionCfg) : ℕ :=
  match numRbForPrachTable.find? fun (rootSeqLen, prachScs, puschScs, _) =>
      rootSeqLen = cell.rootSeqLen ∧ prachScs = cell.prachSubcSpacing ∧
        puschScs = convertScsEnumValToScsVal cell.scs with
  | some (_, _, _, numRb) => numRb
  | none => 0

/-- What is reserved in a downlink slot for SSB and SIB1. -/
def reservedDl (cell : OccasionCfg) (slotTime : SlotTimingInfo) : Option (Option Reserved) := do
  let ssbOccasion ← cell.schCheckSsbOcc slotTime
  let sib1Occasion ← cell.schCheckSib1Occ slotTime
  return if ssbOccasion ≠ .noTransmission then
      if sib1Occasion ≠ .noTransmission then
        some (.ofNumPrb cell.ssbOffsetPointA (SCH_SSB_NUM_PRB + cell.sib1NumPrb))
      else some (.ofNumPrb cell.ssbOffsetPointA SCH_SSB_NUM_PRB)
    else if sib1Occasion ≠ .noTransmission then some (.ofNumPrb cell.sib1StartPrb cell.sib1NumPrb)
    else none

/-- What is reserved in an uplink slot for the PRACH. -/
def reservedUl (cell : OccasionCfg) (slotTime : SlotTimingInfo) : Option (Option Reserved) := do
  let isPrachOccasion ← cell.schCheckPrachOcc slotTime
  return if isPrachOccasion then some (.ofNumPrb cell.msg1FreqStart cell.schCalcPrachNumRb)
    else none

end OccasionCfg

/-! ## The free blocks -/

structure FreePrbBlock where
  numFreePrb : ℕ
  startPrb : ℕ
  endPrb : ℕ
deriving DecidableEq, Repr

namespace FreePrbBlock

/-- The PRB is in the block. -/
def has (freeBlock : FreePrbBlock) (prb : ℕ) : Bool :=
  freeBlock.startPrb ≤ prb && prb ≤ freeBlock.endPrb

/-- A new block from `startPrb` to `endPrb`. -/
def ofRange (startPrb endPrb : ℕ) : FreePrbBlock where
  numFreePrb := endPrb - startPrb + 1
  startPrb := startPrb
  endPrb := endPrb

end FreePrbBlock

/-- How the search for a block ends: with the block between those in front of it and behind it,
with none, or never. -/
inductive BlockSearch
  | found (front : List FreePrbBlock) (freePrbBlock : FreePrbBlock) (rest : List FreePrbBlock)
  | unavailable
  | loops
deriving DecidableEq, Repr

/-- One more block in front. -/
def BlockSearch.skip (freeBlock : FreePrbBlock) : BlockSearch → BlockSearch
  | .found front freePrbBlock rest => .found (freeBlock :: front) freePrbBlock rest
  | .unavailable => .unavailable
  | .loops => .loops

/-- `isPrbAvailable`. At a block that is too small the search goes on with the same block. -/
def isPrbAvailable (startPrb numPrb : ℕ) : List FreePrbBlock → BlockSearch
  | [] => .unavailable
  | freeBlock :: rest =>
    if freeBlock.numFreePrb < numPrb then .loops
    else if freeBlock.has startPrb && freeBlock.has (startPrb + numPrb - 1) then
      .found [] freeBlock rest
    else (isPrbAvailable startPrb numPrb rest).skip freeBlock

/-- The first PRB for `numPrb` PRBs in the block, if it has as many that are not reserved. Those
with the highest numbers are taken. -/
def FreePrbBlock.place (reserved : Option Reserved) (numPrb : ℕ) (freePrbBlock : FreePrbBlock) :
    Option ℕ :=
  match reserved.filter fun r => freePrbBlock.has r.startPrb && freePrbBlock.has r.endPrb with
  | some r =>
    if r.endPrb < freePrbBlock.endPrb ∧ numPrb ≤ freePrbBlock.endPrb - r.endPrb then
      some (freePrbBlock.endPrb + 1 - numPrb)
    else if freePrbBlock.startPrb < r.startPrb ∧ numPrb ≤ r.startPrb - freePrbBlock.startPrb then
      some (r.startPrb - numPrb)
    else none
  | none =>
    if freePrbBlock.numFreePrb < numPrb then none else some (freePrbBlock.endPrb + 1 - numPrb)

/-- The loop over the free blocks for an unknown first PRB, with the PRB that was found. -/
def placeFree (reserved : Option Reserved) (numPrb : ℕ) : List FreePrbBlock → BlockSearch × ℕ
  | [] => (.unavailable, 0)
  | freePrbBlock :: rest =>
    match freePrbBlock.place reserved numPrb with
    | some startPrb => (.found [] freePrbBlock rest, startPrb)
    | none =>
      let (search, startPrb) := placeFree reserved numPrb rest
      (search.skip freePrbBlock, startPrb)

/-- `removeAllocatedPrbFromFreePrbList`: what is left of the block. -/
def removeAllocatedPrb (freeBlock : FreePrbBlock) (startPrb numPrb : ℕ) : List FreePrbBlock :=
  let endPrb := startPrb + numPrb - 1
  if freeBlock.numFreePrb = numPrb then []
  else if freeBlock.startPrb = startPrb then [.ofRange (endPrb + 1) freeBlock.endPrb]
  else if freeBlock.endPrb = endPrb then [.ofRange freeBlock.startPrb (startPrb - 1)]
  else [.ofRange (endPrb + 1) freeBlock.endPrb, .ofRange freeBlock.startPrb (startPrb - 1)]

/-! ## The bitmaps -/

/-- The bits of a word for `numBits` PRBs from `offset` on. -/
def prbMask (offset numBits : ℕ) : BitVec 64 :=
  (BitVec.allOnes 64 >>> (PRB_BITMAP_IDX_LEN - numBits)) <<< offset

/-- The words from `bitMapIdx` on for the `numPrb` PRBs that are left. -/
def fillWords : ℕ → ℕ → ℕ → (ℕ → BitVec 64) → Option (ℕ → BitVec 64)
  | 0, _, _, prbBitMap => some prbBitMap
  | fuel + 1, bitMapIdx, numPrb, prbBitMap =>
    if PRB_BITMAP_IDX_LEN < numPrb then
      if prbBitMap bitMapIdx ≠ 0 then none
      else fillWords fuel (bitMapIdx + 1) (numPrb - PRB_BITMAP_IDX_LEN)
        (Function.update prbBitMap bitMapIdx (BitVec.allOnes 64))
    else if numPrb = 0 then some prbBitMap
    else
      let mask := prbMask 0 numPrb
      if prbBitMap bitMapIdx &&& mask = 0 then
        some (Function.update prbBitMap bitMapIdx (prbBitMap bitMapIdx ||| mask))
      else none

/-- `fillPrbBitmap`. It fails, and leaves the bitmap as it was, if a PRB is in use. -/
def fillPrbBitmap (prbBitMap : ℕ → BitVec 64) (startPrb numPrb : ℕ) : Option (ℕ → BitVec 64) :=
  let bitMapIdx := startPrb / PRB_BITMAP_IDX_LEN
  let offsetInFirstIdx := startPrb % PRB_BITMAP_IDX_LEN
  let numBitsToSetInFirstIdx :=
    if PRB_BITMAP_IDX_LEN - offsetInFirstIdx ≤ numPrb then PRB_BITMAP_IDX_LEN - offsetInFirstIdx
    else numPrb
  let mask := prbMask offsetInFirstIdx numBitsToSetInFirstIdx
  if prbBitMap bitMapIdx &&& mask = 0 then
    fillWords numPrb (bitMapIdx + 1) (numPrb - numBitsToSetInFirstIdx)
      (Function.update prbBitMap bitMapIdx (prbBitMap bitMapIdx ||| mask))
  else none

/-- The loop over the symbols, with `n` of them left: whether it comes to its end. -/
def fillSymbols (startPrb numPrb : ℕ) : ℕ → ℕ → (ℕ → ℕ → BitVec 64) → Bool × (ℕ → ℕ → BitVec 64)
  | 0, _, prbBitMap => (true, prbBitMap)
  | n + 1, symbol, prbBitMap =>
    match fillPrbBitmap (prbBitMap symbol) startPrb numPrb with
    | none => (false, prbBitMap)
    | some words =>
      fillSymbols startPrb numPrb n (symbol + 1) (Function.update prbBitMap symbol words)

/-! ## The allocation -/

structure SchPrbAlloc where
  freePrbBlockList : List FreePrbBlock
  prbBitMap : ℕ → ℕ → BitVec 64

/-- The PRBs of a slot after `schInitDlSlot` or `schInitUlSlot`. -/
def schInitSlot (duplex : Duplex) : SchPrbAlloc where
  freePrbBlockList := [⟨duplex.maxNumRb, 0, duplex.maxNumRb - 1⟩]
  prbBitMap := fun _ _ => 0

/-- What is asked for. `startPrb` is `MAX_NUM_RB` if it is not known. -/
structure PrbReq where
  startSymbol : ℕ
  symbolLength : ℕ
  startPrb : ℕ
  numPrb : ℕ
deriving DecidableEq, Repr

/-- The result of an allocation: whether it is `ROK`, the first PRB and the PRBs of the slot. -/
structure PrbRsp where
  ok : Bool
  startPrb : ℕ
  prbAlloc : SchPrbAlloc

/-- The PRBs are taken from the block that was found. -/
def takePrb (search : BlockSearch) (startPrb : ℕ) (req : PrbReq) (prbAlloc : SchPrbAlloc) :
    Option PrbRsp :=
  match search with
  | .loops => none
  | .unavailable => some ⟨false, req.startPrb, prbAlloc⟩
  | .found front freePrbBlock rest =>
    let (ok, prbBitMap) :=
      fillSymbols startPrb req.numPrb req.symbolLength req.startSymbol prbAlloc.prbBitMap
    some ⟨ok, startPrb, {
      freePrbBlockList := if ok then
          front ++ (removeAllocatedPrb freePrbBlock startPrb req.numPrb ++ rest)
        else prbAlloc.freePrbBlockList
      prbBitMap := prbBitMap }⟩

/-- `allocatePrbDl` and `allocatePrbUl`, which differ in what is reserved. -/
def allocatePrb (duplex : Duplex) (reserved : Option (Option Reserved)) (req : PrbReq)
    (prbAlloc : SchPrbAlloc) : Option PrbRsp :=
  if req.startPrb = duplex.maxNumRb then do
    let (search, startPrb) := placeFree (← reserved) req.numPrb prbAlloc.freePrbBlockList
    takePrb search startPrb req prbAlloc
  else
    takePrb (isPrbAvailable req.startPrb req.numPrb prbAlloc.freePrbBlockList) req.startPrb req
      prbAlloc

def allocatePrbDl (cell : OccasionCfg) (slotTime : SlotTimingInfo) : PrbReq → SchPrbAlloc →
    Option PrbRsp :=
  allocatePrb cell.duplex (cell.reservedDl slotTime)

def allocatePrbUl (cell : OccasionCfg) (slotTime : SlotTimingInfo) : PrbReq → SchPrbAlloc →
    Option PrbRsp :=
  allocatePrb cell.duplex (cell.reservedUl slotTime)

end OaiCu.OduSch
