import OaiCu.OduSch.PrbBits
import OaiCu.Lib.Machine

/-!
# The PRBs of a slot over a sequence of allocations

The list of free blocks and the bitmaps say the same in every state: a PRB is in no free block
exactly if it was granted, and its bit of a symbol is set exactly if it was granted for the symbol.
-/

namespace OaiCu.OduSch

/-! ## The list of free blocks -/

def FreePrbBlock.toBlock (freeBlock : FreePrbBlock) : Block := ⟨freeBlock.startPrb, freeBlock.endPrb⟩

/-- The PRB is in a free block. -/
def IsFree (freePrbBlockList : List FreePrbBlock) (prb : ℕ) : Prop :=
  Block.Covers (freePrbBlockList.map (·.toBlock)) prb

/-- The blocks are disjoint and in descending order, and their counts are right. -/
structure FreeListOk (numRb : ℕ) (freePrbBlockList : List FreePrbBlock) : Prop where
  descending : Block.Descending (freePrbBlockList.map (·.toBlock))
  numFreePrb : ∀ b ∈ freePrbBlockList, b.numFreePrb = b.endPrb - b.startPrb + 1
  lt : ∀ b ∈ freePrbBlockList, b.endPrb < numRb

theorem isFree_iff {freePrbBlockList : List FreePrbBlock} {prb : ℕ} : IsFree freePrbBlockList prb ↔
    ∃ b ∈ freePrbBlockList, b.startPrb ≤ prb ∧ prb ≤ b.endPrb := by
  simp only [IsFree, Block.Covers, List.mem_map, exists_exists_and_eq_and]
  exact Iff.rfl

theorem FreePrbBlock.has_iff {freeBlock : FreePrbBlock} {prb : ℕ} :
    freeBlock.has prb = true ↔ freeBlock.startPrb ≤ prb ∧ prb ≤ freeBlock.endPrb := by
  rw [FreePrbBlock.has, Bool.and_eq_true, decide_eq_true_iff, decide_eq_true_iff]

section

variable {numRb startPrb numPrb : ℕ} {front rest freePrbBlockList : List FreePrbBlock}
  {freeBlock : FreePrbBlock}

theorem FreeListOk.le (h : FreeListOk numRb freePrbBlockList) {b : FreePrbBlock}
    (hb : b ∈ freePrbBlockList) : b.startPrb ≤ b.endPrb :=
  h.descending.le _ (List.mem_map_of_mem hb)

theorem FreeListOk.of_cons (h : FreeListOk numRb (freeBlock :: rest)) : FreeListOk numRb rest :=
  ⟨⟨fun b hb => h.descending.le b (List.mem_cons_of_mem _ hb), h.descending.gap.of_cons⟩,
    fun b hb => h.numFreePrb b (List.mem_cons_of_mem _ hb),
    fun b hb => h.lt b (List.mem_cons_of_mem _ hb)⟩

/-- What is left of the block is the block without the PRBs. -/
theorem removeAllocatedPrb_toBlock (hcount : freeBlock.numFreePrb =
    freeBlock.endPrb - freeBlock.startPrb + 1) (h1 : freeBlock.startPrb ≤ startPrb)
    (hpos : 0 < numPrb) (h2 : startPrb + numPrb - 1 ≤ freeBlock.endPrb) :
    (removeAllocatedPrb freeBlock startPrb numPrb).map (·.toBlock) =
      freeBlock.toBlock.without startPrb (startPrb + numPrb - 1) := by
  have hlo : freeBlock.toBlock.lo = freeBlock.startPrb := rfl
  have hhi : freeBlock.toBlock.hi = freeBlock.endPrb := rfl
  rw [removeAllocatedPrb, Block.without]
  split
  · rw [if_neg (by omega), if_neg (by omega)]
    rfl
  · split
    · rw [if_pos (by omega), if_neg (by omega)]
      rfl
    · split
      · rw [if_neg (by omega), if_pos (by omega)]
        rfl
      · rw [if_pos (by omega), if_pos (by omega)]
        rfl

theorem mem_removeAllocatedPrb {b : FreePrbBlock} (hpos : 0 < numPrb)
    (h2 : startPrb + numPrb - 1 ≤ freeBlock.endPrb)
    (hb : b ∈ removeAllocatedPrb freeBlock startPrb numPrb) :
    b.numFreePrb = b.endPrb - b.startPrb + 1 ∧ b.endPrb ≤ freeBlock.endPrb := by
  rw [removeAllocatedPrb] at hb
  split at hb
  · cases hb
  · split at hb
    · obtain rfl := List.mem_singleton.mp hb
      exact ⟨rfl, le_rfl⟩
    · split at hb
      · obtain rfl := List.mem_singleton.mp hb
        exact ⟨rfl, (by omega : startPrb - 1 ≤ freeBlock.endPrb)⟩
      · rcases List.mem_cons.mp hb with rfl | hb
        · exact ⟨rfl, le_rfl⟩
        · obtain rfl := List.mem_singleton.mp hb
          exact ⟨rfl, (by omega : startPrb - 1 ≤ freeBlock.endPrb)⟩

/-- PRBs are taken from a block. -/
theorem FreeListOk.take (h : FreeListOk numRb (front ++ freeBlock :: rest))
    (h1 : freeBlock.startPrb ≤ startPrb) (hpos : 0 < numPrb)
    (h2 : startPrb + numPrb - 1 ≤ freeBlock.endPrb) :
    FreeListOk numRb (front ++ (removeAllocatedPrb freeBlock startPrb numPrb ++ rest)) ∧
      ∀ p, IsFree (front ++ (removeAllocatedPrb freeBlock startPrb numPrb ++ rest)) p ↔
        IsFree (front ++ freeBlock :: rest) p ∧ ¬ (startPrb ≤ p ∧ p < startPrb + numPrb) := by
  have hmem : freeBlock ∈ front ++ freeBlock :: rest := by simp
  have hmap : (front ++ (removeAllocatedPrb freeBlock startPrb numPrb ++ rest)).map (·.toBlock) =
      front.map (·.toBlock) ++
        (freeBlock.toBlock.without startPrb (startPrb + numPrb - 1) ++ rest.map (·.toBlock)) := by
    rw [List.map_append, List.map_append,
      removeAllocatedPrb_toBlock (h.numFreePrb _ hmem) h1 hpos h2]
  have hdesc := h.descending
  rw [List.map_append, List.map_cons] at hdesc
  refine ⟨⟨?_, fun b hb => ?_, fun b hb => ?_⟩, fun p => ?_⟩
  · rw [hmap]
    exact hdesc.carve h1 (by omega) h2
  · rw [List.mem_append, List.mem_append] at hb
    rcases hb with hb | hb | hb
    · exact h.numFreePrb b (List.mem_append_left _ hb)
    · exact (mem_removeAllocatedPrb hpos h2 hb).1
    · exact h.numFreePrb b (List.mem_append_right _ (List.mem_cons_of_mem _ hb))
  · rw [List.mem_append, List.mem_append] at hb
    rcases hb with hb | hb | hb
    · exact h.lt b (List.mem_append_left _ hb)
    · exact (mem_removeAllocatedPrb hpos h2 hb).2.trans_lt (h.lt _ hmem)
    · exact h.lt b (List.mem_append_right _ (List.mem_cons_of_mem _ hb))
  · rw [IsFree, IsFree, hmap, Block.covers_carve hdesc h1 (by omega) h2, List.map_append,
      List.map_cons]
    refine and_congr_right fun _ => not_congr (and_congr_right fun _ => ?_)
    omega

/-- Where a search may end: the PRBs are in the block that is found. -/
def BlockSearch.Fits (freePrbBlockList : List FreePrbBlock) (startPrb numPrb : ℕ) :
    BlockSearch → Prop
  | .found front freeBlock rest => freePrbBlockList = front ++ freeBlock :: rest ∧
      freeBlock.startPrb ≤ startPrb ∧ startPrb + numPrb - 1 ≤ freeBlock.endPrb
  | .unavailable => True
  | .loops => True

theorem BlockSearch.Fits.skip {search : BlockSearch}
    (h : search.Fits freePrbBlockList startPrb numPrb) (freeBlock : FreePrbBlock) :
    (search.skip freeBlock).Fits (freeBlock :: freePrbBlockList) startPrb numPrb := by
  cases search with
  | found front b rest => exact ⟨by rw [h.1, List.cons_append], h.2⟩
  | unavailable => trivial
  | loops => trivial

theorem isPrbAvailable_fits : ∀ freePrbBlockList : List FreePrbBlock,
    (isPrbAvailable startPrb numPrb freePrbBlockList).Fits freePrbBlockList startPrb numPrb
  | [] => trivial
  | freeBlock :: rest => by
      rw [isPrbAvailable]
      split
      · trivial
      · split
        · rename_i hin
          rw [Bool.and_eq_true, FreePrbBlock.has_iff, FreePrbBlock.has_iff] at hin
          exact ⟨rfl, hin.1.1, hin.2.2⟩
        · exact (isPrbAvailable_fits rest).skip freeBlock

/-- The PRBs are placed in the block, and not on the reserved ones if these are in the block. -/
theorem FreePrbBlock.place_spec {reserved : Option Reserved} (hpos : 0 < numPrb)
    (hcount : freeBlock.numFreePrb = freeBlock.endPrb - freeBlock.startPrb + 1)
    (hle : freeBlock.startPrb ≤ freeBlock.endPrb)
    (h : freeBlock.place reserved numPrb = some startPrb) :
    freeBlock.startPrb ≤ startPrb ∧ startPrb + numPrb - 1 ≤ freeBlock.endPrb ∧
      ∀ r, reserved = some r → freeBlock.has r.startPrb = true → freeBlock.has r.endPrb = true →
        r.endPrb < startPrb ∨ startPrb + numPrb ≤ r.startPrb := by
  rw [place] at h
  split at h
  · rename_i r hr
    obtain ⟨rfl, hin⟩ := Option.filter_eq_some_iff.mp hr
    rw [Bool.and_eq_true, has_iff, has_iff] at hin
    split at h
    · injection h with h
      refine ⟨by omega, by omega, ?_⟩
      rintro r' hr' - -
      injection hr' with hr'
      subst hr'
      exact .inl (by omega)
    · split at h
      · injection h with h
        refine ⟨by omega, by omega, ?_⟩
        rintro r' hr' - -
        injection hr' with hr'
        subst hr'
        exact .inr (by omega)
      · cases h
  · rename_i hr
    split at h
    · cases h
    · injection h with h
      refine ⟨by omega, by omega, ?_⟩
      rintro r rfl h1 h2
      rw [Option.filter_some, h1, h2] at hr
      cases hr

theorem placeFree_fits {reserved : Option Reserved} (hpos : 0 < numPrb) :
    ∀ freePrbBlockList : List FreePrbBlock, FreeListOk numRb freePrbBlockList →
      (placeFree reserved numPrb freePrbBlockList).1.Fits freePrbBlockList
        (placeFree reserved numPrb freePrbBlockList).2 numPrb ∧
      ∀ front b rest, (placeFree reserved numPrb freePrbBlockList).1 = .found front b rest →
        ∀ r, reserved = some r → b.has r.startPrb = true → b.has r.endPrb = true →
          r.endPrb < (placeFree reserved numPrb freePrbBlockList).2 ∨
            (placeFree reserved numPrb freePrbBlockList).2 + numPrb ≤ r.startPrb
  | [], _ => ⟨trivial, fun _ _ _ h => by cases h⟩
  | freeBlock :: rest, h => by
      have hmem : freeBlock ∈ freeBlock :: rest := List.mem_cons_self
      rw [placeFree]
      cases hp : freeBlock.place reserved numPrb with
      | some startPrb =>
          obtain ⟨h1, h2, h3⟩ := FreePrbBlock.place_spec hpos (h.numFreePrb _ hmem) (h.le hmem) hp
          refine ⟨⟨rfl, h1, h2⟩, ?_⟩
          rintro front b rest' he
          cases he
          exact h3
      | none =>
          obtain ⟨h1, h2⟩ := placeFree_fits hpos rest h.of_cons
          refine ⟨h1.skip freeBlock, ?_⟩
          rintro front b rest' he
          simp only at he ⊢
          generalize hs : (placeFree reserved numPrb rest).1 = search at he h2
          cases search with
          | found front' b' rest'' =>
              cases he
              exact h2 _ _ _ rfl
          | unavailable => cases he
          | loops => cases he

end

/-! ## The calls -/

/-- `allocatePrbDl` or `allocatePrbUl`. -/
inductive Direction
  | dl
  | ul
deriving DecidableEq, Repr

/-- A call for the slot, with the time and the cell at the call. -/
structure PrbCall where
  cell : OccasionCfg
  slotTime : SlotTimingInfo
  req : PrbReq

/-- What was granted: the call and the first PRB. -/
structure PrbGrant where
  req : PrbReq
  startPrb : ℕ
deriving DecidableEq, Repr

namespace PrbGrant

def has (grant : PrbGrant) (prb : ℕ) : Prop :=
  grant.startPrb ≤ prb ∧ prb < grant.startPrb + grant.req.numPrb

def hasSymbol (grant : PrbGrant) (symbol : ℕ) : Prop :=
  grant.req.startSymbol ≤ symbol ∧ symbol < grant.req.startSymbol + grant.req.symbolLength

end PrbGrant

namespace PrbCall

def allocate (direction : Direction) (call : PrbCall) (prbAlloc : SchPrbAlloc) : Option PrbRsp :=
  match direction with
  | .dl => allocatePrbDl call.cell call.slotTime call.req prbAlloc
  | .ul => allocatePrbUl call.cell call.slotTime call.req prbAlloc

/-- A call returns, with the grant if there is one. -/
def step (direction : Direction) (prbAlloc : SchPrbAlloc) (call : PrbCall) :
    Except Unit (SchPrbAlloc × List PrbGrant) :=
  match call.allocate direction prbAlloc with
  | none => .error ()
  | some rsp => .ok (rsp.prbAlloc, if rsp.ok then [⟨call.req, rsp.startPrb⟩] else [])

/-- The first PRB is not known or the PRBs are in the carrier, and the symbols are in the slot. -/
structure Valid (duplex : Duplex) (call : PrbCall) : Prop where
  duplex_eq : call.cell.duplex = duplex
  numPrb_pos : 0 < call.req.numPrb
  startPrb : call.req.startPrb = duplex.maxNumRb ∨
    call.req.startPrb + call.req.numPrb ≤ duplex.maxNumRb
  symbols : call.req.startSymbol + call.req.symbolLength ≤ MAX_SYMB_PER_SLOT

/-- What is reserved in the slot. -/
def reserved (direction : Direction) (call : PrbCall) : Option (Option Reserved) :=
  match direction with
  | .dl => call.cell.reservedDl call.slotTime
  | .ul => call.cell.reservedUl call.slotTime

theorem allocate_eq (direction : Direction) (call : PrbCall) :
    call.allocate direction = allocatePrb call.cell.duplex (call.reserved direction) call.req := by
  cases direction <;> rfl

end PrbCall

/-- The free list and the bitmaps agree with what was granted. -/
structure SchPrbAlloc.Inv (numRb : ℕ) (prbAlloc : SchPrbAlloc) (grants : List PrbGrant) : Prop where
  freeList : FreeListOk numRb prbAlloc.freePrbBlockList
  isFree : ∀ p < numRb, IsFree prbAlloc.freePrbBlockList p ↔ ∀ g ∈ grants, ¬ g.has p
  bit : ∀ s p, prbBit (prbAlloc.prbBitMap s) p = true ↔ ∃ g ∈ grants, g.hasSymbol s ∧ g.has p
  disjoint : grants.Pairwise fun g g' => ∀ p, ¬ (g.has p ∧ g'.has p)

section

variable {numRb startPrb : ℕ} {prbAlloc : SchPrbAlloc} {grants : List PrbGrant}

theorem IsFree.lt {freePrbBlockList : List FreePrbBlock} (h : FreeListOk numRb freePrbBlockList)
    {p : ℕ} (hp : IsFree freePrbBlockList p) : p < numRb := by
  obtain ⟨b, hb, -, hle⟩ := isFree_iff.mp hp
  exact hle.trans_lt (h.lt b hb)

theorem inv_init (duplex : Duplex) : (schInitSlot duplex).Inv duplex.maxNumRb [] := by
  have hpos : 0 < duplex.maxNumRb := by cases duplex <;> decide
  refine ⟨⟨⟨?_, List.pairwise_singleton _ _⟩, ?_, ?_⟩, ?_, ?_, List.Pairwise.nil⟩
  · intro b hb
    obtain rfl := List.mem_singleton.mp hb
    exact Nat.zero_le _
  · intro b hb
    obtain rfl := List.mem_singleton.mp hb
    exact (by omega : duplex.maxNumRb = duplex.maxNumRb - 1 - 0 + 1)
  · intro b hb
    obtain rfl := List.mem_singleton.mp hb
    exact (by omega : duplex.maxNumRb - 1 < duplex.maxNumRb)
  · intro p hp
    refine iff_of_true (isFree_iff.mpr ⟨_, List.mem_singleton.mpr rfl, Nat.zero_le _, ?_⟩) (by simp)
    exact (by omega : p ≤ duplex.maxNumRb - 1)
  · intro s p
    refine iff_of_false ?_ (by simp)
    rw [prbBit, schInitSlot]
    simp

/-- The PRBs that were found are granted to nobody. -/
theorem SchPrbAlloc.Inv.not_has (h : prbAlloc.Inv numRb grants) {front rest : List FreePrbBlock}
    {b : FreePrbBlock}
    (hfits : (BlockSearch.found front b rest).Fits prbAlloc.freePrbBlockList startPrb numPrb) :
    ∀ p, startPrb ≤ p → p < startPrb + numPrb → ∀ g ∈ grants, ¬ g.has p := by
  obtain ⟨hlist, h1, h2⟩ := hfits
  have hmem : b ∈ prbAlloc.freePrbBlockList := by
    rw [hlist]
    simp
  intro p hp1 hp2
  have hfree : IsFree prbAlloc.freePrbBlockList p := isFree_iff.mpr ⟨b, hmem, by omega, by omega⟩
  exact (h.isFree p (hfree.lt h.freeList)).mp hfree

/-- Their bits are clear, so that `fillPrbBitmap` does not fail. -/
theorem SchPrbAlloc.Inv.fill (h : prbAlloc.Inv numRb grants) {front rest : List FreePrbBlock}
    {b : FreePrbBlock}
    (hfits : (BlockSearch.found front b rest).Fits prbAlloc.freePrbBlockList startPrb numPrb)
    (symbolLength startSymbol : ℕ) : ∃ prbBitMap',
      fillSymbols startPrb numPrb symbolLength startSymbol prbAlloc.prbBitMap = (true, prbBitMap') ∧
      ∀ s p, prbBit (prbBitMap' s) p = (prbBit (prbAlloc.prbBitMap s) p ||
        decide ((startSymbol ≤ s ∧ s < startSymbol + symbolLength) ∧
          startPrb ≤ p ∧ p < startPrb + numPrb)) :=
  fillSymbols_spec symbolLength startSymbol prbAlloc.prbBitMap fun s _ _ p hp1 hp2 => by
    rw [← Bool.not_eq_true, h.bit]
    rintro ⟨g, hg, -, hhas⟩
    exact h.not_has hfits p hp1 hp2 g hg hhas

/-- The PRBs of a found block are free in all symbols, and are granted. -/
theorem SchPrbAlloc.Inv.grant (h : prbAlloc.Inv numRb grants) {req : PrbReq}
    (hpos : 0 < req.numPrb) {front rest : List FreePrbBlock} {b : FreePrbBlock}
    (hfits : (BlockSearch.found front b rest).Fits prbAlloc.freePrbBlockList startPrb req.numPrb) :
    ∃ prbAlloc', takePrb (.found front b rest) startPrb req prbAlloc =
        some ⟨true, startPrb, prbAlloc'⟩ ∧ prbAlloc'.Inv numRb (grants ++ [⟨req, startPrb⟩]) := by
  have hnone := h.not_has hfits
  obtain ⟨prbBitMap', he, hbits⟩ := h.fill hfits req.symbolLength req.startSymbol
  obtain ⟨hlist, h1, h2⟩ := hfits
  have hok := h.freeList
  rw [hlist] at hok
  obtain ⟨hok', hcov⟩ := hok.take h1 hpos h2
  rw [takePrb]
  simp only [he, if_true]
  refine ⟨_, rfl, hok', fun p hp => ?_, fun s p => ?_, ?_⟩
  · rw [hcov, ← hlist, h.isFree p hp]
    simp only [List.mem_append, List.mem_singleton, or_imp, forall_and, forall_eq]
    exact Iff.rfl
  · rw [hbits, Bool.or_eq_true, h.bit, decide_eq_true_iff]
    simp only [List.mem_append, List.mem_singleton, or_and_right, exists_or, exists_eq_left]
    exact Iff.rfl
  · refine List.pairwise_append.mpr ⟨h.disjoint, List.pairwise_singleton _ _, fun g hg g' hg' p hp => ?_⟩
    obtain rfl := List.mem_singleton.mp hg'
    exact hnone p hp.2.1 hp.2.2 g hg hp.1

/-- An allocation grants PRBs that were free, or leaves everything as it was. -/
theorem SchPrbAlloc.Inv.allocate {duplex : Duplex} (h : prbAlloc.Inv duplex.maxNumRb grants)
    {direction : Direction} {call : PrbCall} (hv : call.Valid duplex) {rsp : PrbRsp}
    (hrsp : call.allocate direction prbAlloc = some rsp) :
    (rsp.ok = true ∧ rsp.prbAlloc.Inv duplex.maxNumRb (grants ++ [⟨call.req, rsp.startPrb⟩])) ∨
      (rsp.ok = false ∧ rsp.prbAlloc = prbAlloc) := by
  rw [PrbCall.allocate_eq, allocatePrb] at hrsp
  -- both searches end in a block that has the PRBs, or in none
  have key : ∀ {search : BlockSearch} {startPrb : ℕ},
      search.Fits prbAlloc.freePrbBlockList startPrb call.req.numPrb →
      takePrb search startPrb call.req prbAlloc = some rsp →
      (rsp.ok = true ∧ rsp.prbAlloc.Inv duplex.maxNumRb (grants ++ [⟨call.req, rsp.startPrb⟩])) ∨
        (rsp.ok = false ∧ rsp.prbAlloc = prbAlloc) := by
    intro search startPrb hfits htake
    cases search with
    | found front b rest =>
        obtain ⟨prbAlloc', he, hinv⟩ := h.grant hv.numPrb_pos hfits
        rw [he] at htake
        cases htake
        exact .inl ⟨rfl, hinv⟩
    | unavailable =>
        cases htake
        exact .inr ⟨rfl, rfl⟩
    | loops => cases htake
  split at hrsp
  · obtain ⟨reserved, -, htake⟩ := Option.bind_eq_some_iff.mp hrsp
    exact key (placeFree_fits hv.numPrb_pos _ h.freeList).1 htake
  · exact key (isPrbAvailable_fits _) hrsp

theorem SchPrbAlloc.Inv.step {duplex : Duplex} (h : prbAlloc.Inv duplex.maxNumRb grants)
    {direction : Direction} {call : PrbCall} (hv : call.Valid duplex) {prbAlloc' : SchPrbAlloc}
    {out : List PrbGrant} (hstep : PrbCall.step direction prbAlloc call = .ok (prbAlloc', out)) :
    prbAlloc'.Inv duplex.maxNumRb (grants ++ out) := by
  rw [PrbCall.step] at hstep
  split at hstep
  · cases hstep
  · rename_i rsp hrsp
    cases hstep
    rcases h.allocate hv hrsp with ⟨hok, hinv⟩ | ⟨hok, he⟩
    · rw [if_pos hok]
      exact hinv
    · rw [hok, if_neg Bool.false_ne_true, List.append_nil, he]
      exact h

end

/-- What holds of a slot after the calls that granted `grants`. -/
structure SlotConsistent (direction : Direction) (duplex : Duplex) (prbAlloc : SchPrbAlloc)
    (grants : List PrbGrant) : Prop where
  freeList : FreeListOk duplex.maxNumRb prbAlloc.freePrbBlockList
  granted_iff : ∀ p < duplex.maxNumRb,
    ¬ IsFree prbAlloc.freePrbBlockList p ↔ ∃ g ∈ grants, g.has p
  bit_iff : ∀ s p, prbBit (prbAlloc.prbBitMap s) p = true ↔ ∃ g ∈ grants, g.hasSymbol s ∧ g.has p
  disjoint : grants.Pairwise fun g g' => ∀ p, ¬ (g.has p ∧ g'.has p)
  failed : ∀ (call : PrbCall) (rsp : PrbRsp), call.Valid duplex →
    call.allocate direction prbAlloc = some rsp → rsp.ok = false → rsp.prbAlloc = prbAlloc
  /-- The branch in which `fillPrbBitmap` fails for PRBs that were found is not reached. -/
  filled : ∀ (req : PrbReq) (startPrb : ℕ) (front : List FreePrbBlock) (b : FreePrbBlock)
    (rest : List FreePrbBlock), 0 < req.numPrb →
    (isPrbAvailable startPrb req.numPrb prbAlloc.freePrbBlockList = .found front b rest ∨
      ∃ reserved, placeFree reserved req.numPrb prbAlloc.freePrbBlockList =
        (.found front b rest, startPrb)) →
    (fillSymbols startPrb req.numPrb req.symbolLength req.startSymbol prbAlloc.prbBitMap).1 = true

/-- **The free list and the bitmaps stay consistent, no PRB is granted twice**, and the bits of PRBs
that are found are clear. -/
theorem slot_consistent {direction : Direction} {duplex : Duplex} {calls : List PrbCall}
    {prbAlloc : SchPrbAlloc} {grants : List PrbGrant} (hv : ∀ call ∈ calls, call.Valid duplex)
    (hrun : Machine.run (PrbCall.step direction) (schInitSlot duplex) calls =
      .ok (prbAlloc, grants)) : SlotConsistent direction duplex prbAlloc grants := by
  have hinv : prbAlloc.Inv duplex.maxNumRb grants :=
    @Machine.history_invariant _ _ _ _ _ (fun _ call => call.Valid duplex)
      (fun _ s gs => s.Inv duplex.maxNumRb gs) _ (inv_init duplex)
      (fun _ _ _ _ _ _ _ hinv hvalid hstep => hinv.step hvalid hstep) calls _ _
      (Machine.along_of_mem hv) hrun
  refine ⟨hinv.freeList, fun p hp => ?_, hinv.bit, hinv.disjoint, fun call rsp hc hrsp hok => ?_,
    fun req startPrb front b rest hpos hfound => ?_⟩
  · rw [hinv.isFree p hp]
    push Not
    exact Iff.rfl
  · rcases hinv.allocate hc hrsp with ⟨h, -⟩ | ⟨-, h⟩
    · rw [hok] at h
      cases h
    · exact h
  · have hfits : (BlockSearch.found front b rest).Fits prbAlloc.freePrbBlockList startPrb
        req.numPrb := by
      rcases hfound with hfound | ⟨reserved, hfound⟩
      · exact hfound ▸ isPrbAvailable_fits prbAlloc.freePrbBlockList
      · have hplace := (@placeFree_fits _ _ reserved hpos _ hinv.freeList).1
        rwa [hfound] at hplace
    obtain ⟨_, he, -⟩ := hinv.fill hfits req.symbolLength req.startSymbol
    rw [he]

/-- A cell of 20 MHz. -/
def exampleCell : OccasionCfg where
  duplex := .fdd
  numerology := 0
  ssbOffsetPointA := 24
  ssbPeriod := 20
  firstSsbTransmitted := true
  sib1NumPrb := 10
  sib1RepetitionPeriod := 20
  firstSib1Transmitted := true
  prachCfg := ⟨16, 1, 2⟩
  msg1FreqStart := 0
  rootSeqLen := 139
  prachSubcSpacing := 15
  scs := 0
  numSlotsInPeriodicity := 10
  slotFrmtBitMap := 0

/-- Ten PRBs at a known place, then four at an unknown one. -/
def twoCalls (symbolLength : ℕ) : List PrbCall :=
  [⟨exampleCell, ⟨1, 1⟩, ⟨0, symbolLength, 20, 10⟩⟩,
    ⟨exampleCell, ⟨1, 1⟩, ⟨0, symbolLength, Duplex.fdd.maxNumRb, 4⟩⟩]

theorem twoCalls_valid {symbolLength : ℕ} (h : symbolLength ≤ MAX_SYMB_PER_SLOT) :
    ∀ call ∈ twoCalls symbolLength, call.Valid .fdd := by
  intro call hc
  rw [twoCalls, List.mem_cons, List.mem_singleton] at hc
  rcases hc with rfl | rfl
  · exact ⟨rfl, Nat.succ_pos 9, .inr (show 20 + 10 ≤ 106 by decide), by simpa using h⟩
  · exact ⟨rfl, Nat.succ_pos 3, .inl rfl, by simpa using h⟩

/-- A check of the slot after a run. -/
def checkRun (calls : List PrbCall) (check : SchPrbAlloc → Bool) : Bool :=
  match Machine.run (PrbCall.step .dl) (schInitSlot .fdd) calls with
  | .ok (prbAlloc, _) => check prbAlloc
  | .error _ => false

theorem run_of_checkRun {calls : List PrbCall} {check : SchPrbAlloc → Bool}
    (h : checkRun calls check = true) : ∃ prbAlloc grants,
      Machine.run (PrbCall.step .dl) (schInitSlot .fdd) calls = .ok (prbAlloc, grants) ∧
        check prbAlloc = true := by
  rw [checkRun] at h
  split at h
  · exact ⟨_, _, ‹_›, h⟩
  · cases h

theorem twoCalls_consistent : ∃ prbAlloc grants,
    Machine.run (PrbCall.step .dl) (schInitSlot .fdd) (twoCalls 11) = .ok (prbAlloc, grants) ∧
      SlotConsistent .dl .fdd prbAlloc grants := by
  obtain ⟨prbAlloc, grants, hrun, -⟩ :=
    run_of_checkRun (show checkRun (twoCalls 11) (fun _ => true) = true by decide +kernel)
  exact ⟨prbAlloc, grants, hrun, slot_consistent (twoCalls_valid (by decide)) hrun⟩

/-- **PRBs that are allocated for no symbol are not free, and their bits are not set.** -/
theorem symbolless_not_set : ∃ prbAlloc grants, (∀ call ∈ twoCalls 0, call.Valid .fdd) ∧
    Machine.run (PrbCall.step .dl) (schInitSlot .fdd) (twoCalls 0) = .ok (prbAlloc, grants) ∧
      ¬ IsFree prbAlloc.freePrbBlockList 20 ∧
      ∀ s < MAX_SYMB_PER_SLOT, prbBit (prbAlloc.prbBitMap s) 20 = false := by
  obtain ⟨prbAlloc, grants, hrun, hcheck⟩ := run_of_checkRun (show checkRun (twoCalls 0) (fun s =>
    decide (∀ b ∈ s.freePrbBlockList, b.has 20 = false) &&
      decide (∀ symbol < MAX_SYMB_PER_SLOT, prbBit (s.prbBitMap symbol) 20 = false)) = true by
    decide +kernel)
  rw [Bool.and_eq_true, decide_eq_true_iff, decide_eq_true_iff] at hcheck
  refine ⟨prbAlloc, grants, twoCalls_valid (by decide), hrun, fun hfree => ?_, hcheck.2⟩
  obtain ⟨b, hb, hin⟩ := isFree_iff.mp hfree
  have := hcheck.1 b hb
  rw [FreePrbBlock.has_iff.mpr hin] at this
  cases this

end OaiCu.OduSch
