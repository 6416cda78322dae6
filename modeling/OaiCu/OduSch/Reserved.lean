import OaiCu.OduSch.PrbRuns

/-!
# The reserved PRBs of a slot (`sch.c`)

Dedicated allocations leave the PRBs of the broadcast and of the random access alone, and the
search for the largest free block finds one.
-/

namespace OaiCu.OduSch

/-- One round of `searchLargestFreeBlock`, with the number of PRBs and the first one so far. -/
def searchStep (reserved : Option Reserved) (best : ℕ × ℕ) (freePrbBlock : FreePrbBlock) : ℕ × ℕ :=
  if freePrbBlock.numFreePrb ≤ best.1 then best
  else
    match reserved.filter fun r => freePrbBlock.has r.startPrb && freePrbBlock.has r.endPrb with
    | some r =>
      let best :=
        if r.endPrb < freePrbBlock.endPrb ∧ best.1 < freePrbBlock.endPrb - r.endPrb then
          (freePrbBlock.endPrb - r.endPrb, r.endPrb + 1)
        else best
      if freePrbBlock.startPrb < r.startPrb ∧ best.1 < r.startPrb - freePrbBlock.startPrb then
        (r.startPrb - freePrbBlock.startPrb, freePrbBlock.startPrb)
      else best
    | none => (freePrbBlock.numFreePrb, freePrbBlock.startPrb)

/-- `searchLargestFreeBlock`: how many PRBs there are at most, and the first of them. -/
def searchLargestFreeBlock (reserved : Option Reserved) (freePrbBlockList : List FreePrbBlock) :
    ℕ × ℕ :=
  freePrbBlockList.foldl (searchStep reserved) (0, 0)

/-! ## The reserved PRBs lie in one free block -/

namespace Reserved

def has (r : Reserved) (prb : ℕ) : Prop := r.startPrb ≤ prb ∧ prb ≤ r.endPrb

/-- There are reserved PRBs, and they are in the carrier. -/
structure InCarrier (numRb : ℕ) (r : Reserved) : Prop where
  le : r.startPrb ≤ r.endPrb
  lt : r.endPrb < numRb

end Reserved

/-- All of the reserved PRBs are in the block, or none is. -/
def FreePrbBlock.Whole (r : Reserved) (freeBlock : FreePrbBlock) : Prop :=
  (freeBlock.startPrb ≤ r.startPrb ∧ r.endPrb ≤ freeBlock.endPrb) ∨
    r.endPrb < freeBlock.startPrb ∨ freeBlock.endPrb < r.startPrb

/-- No reserved PRB is granted so far. -/
structure SchPrbAlloc.Keeps (numRb : ℕ) (r : Reserved) (prbAlloc : SchPrbAlloc) : Prop where
  inv : ∃ grants, prbAlloc.Inv numRb grants
  free : ∀ p, r.has p → IsFree prbAlloc.freePrbBlockList p

section

variable {numRb startPrb numPrb : ℕ} {r : Reserved} {prbAlloc : SchPrbAlloc}
  {freePrbBlockList front rest : List FreePrbBlock} {b : FreePrbBlock}

/-- A run of free PRBs is in one block. -/
theorem FreeListOk.run_mem (h : FreeListOk numRb freePrbBlockList) {lo hi : ℕ} (hle : lo ≤ hi)
    (hrun : ∀ p, lo ≤ p → p ≤ hi → IsFree freePrbBlockList p) :
    ∃ b ∈ freePrbBlockList, b.startPrb ≤ lo ∧ hi ≤ b.endPrb := by
  obtain ⟨_, hblock, hin⟩ := h.descending.run_mem hle hrun
  obtain ⟨b, hb, rfl⟩ := List.mem_map.mp hblock
  exact ⟨b, hb, hin⟩

theorem FreeListOk.apart (h : FreeListOk numRb freePrbBlockList) {b b' : FreePrbBlock}
    (hb : b ∈ freePrbBlockList) (hb' : b' ∈ freePrbBlockList) :
    b.toBlock = b'.toBlock ∨ b'.endPrb + 1 < b.startPrb ∨ b.endPrb + 1 < b'.startPrb := by
  by_cases he : b.toBlock = b'.toBlock
  · exact .inl he
  · exact .inr (h.descending.apart (List.mem_map_of_mem hb) (List.mem_map_of_mem hb') he)

theorem FreeListOk.whole (h : FreeListOk numRb freePrbBlockList) (hr : r.startPrb ≤ r.endPrb)
    (hfree : ∀ p, r.has p → IsFree freePrbBlockList p) (hb : b ∈ freePrbBlockList) : b.Whole r := by
  obtain ⟨b', hb', h1, h2⟩ := h.run_mem hr fun p hp hp' => hfree p ⟨hp, hp'⟩
  rcases h.apart hb hb' with he | hlt | hlt
  · have hlo : b.startPrb = b'.startPrb := congrArg Block.lo he
    have hhi : b.endPrb = b'.endPrb := congrArg Block.hi he
    exact .inl ⟨by omega, by omega⟩
  · exact .inr (.inl (by omega))
  · exact .inr (.inr (by omega))

/-- A block that is whole either has both ends of the reserved PRBs or none of them. -/
theorem FreePrbBlock.Whole.cases (h : b.Whole r) (hr : r.startPrb ≤ r.endPrb) :
    (b.startPrb ≤ r.startPrb ∧ r.endPrb ≤ b.endPrb ∧
      (some r).filter (fun r => b.has r.startPrb && b.has r.endPrb) = some r) ∨
    ((r.endPrb < b.startPrb ∨ b.endPrb < r.startPrb) ∧
      (some r).filter (fun r => b.has r.startPrb && b.has r.endPrb) = none) := by
  rcases h with ⟨h1, h2⟩ | h
  · refine .inl ⟨h1, h2, Option.filter_eq_some_iff.mpr ⟨rfl, ?_⟩⟩
    rw [Bool.and_eq_true, has_iff, has_iff]
    exact ⟨⟨h1, hr.trans h2⟩, h1.trans hr, h2⟩
  · refine .inr ⟨h, Option.filter_eq_none_iff.mpr ?_⟩
    intro r' hr'
    cases hr'
    rw [Bool.and_eq_true, has_iff, has_iff]
    omega

/-! ## The largest free run -/

/-- The `n` PRBs from `lo` on are in the block, and none of them is reserved. -/
def FreePrbBlock.Room (r : Reserved) (freeBlock : FreePrbBlock) (lo n : ℕ) : Prop :=
  freeBlock.startPrb ≤ lo ∧ lo + n ≤ freeBlock.endPrb + 1 ∧ (lo + n ≤ r.startPrb ∨ r.endPrb < lo)

theorem searchStep_spec {best : ℕ × ℕ} (hcount : b.numFreePrb = b.endPrb - b.startPrb + 1)
    (hle : b.startPrb ≤ b.endPrb) (hr : r.startPrb ≤ r.endPrb) (hw : b.Whole r) :
    best.1 ≤ (searchStep (some r) best b).1 ∧
      (∀ lo n, 0 < n → b.Room r lo n → n ≤ (searchStep (some r) best b).1) ∧
      (searchStep (some r) best b = best ∨
        b.Room r (searchStep (some r) best b).2 (searchStep (some r) best b).1) := by
  rw [searchStep]
  split
  · refine ⟨le_rfl, ?_, .inl rfl⟩
    rintro lo n - ⟨h1, h2, -⟩
    omega
  · rcases hw.cases hr with ⟨hlo, hhi, hf⟩ | ⟨hout, hf⟩
    · rw [hf]
      dsimp only
      -- the PRBs above the reserved ones are tried first, then those below
      by_cases habove : r.endPrb < b.endPrb ∧ best.1 < b.endPrb - r.endPrb
      · simp only [habove, and_self, if_true]
        split
        · refine ⟨by dsimp only; omega, ?_, .inr ⟨le_rfl, ?_, .inl ?_⟩⟩
          · rintro lo n hn ⟨h1, h2, h3⟩
            dsimp only
            omega
          · dsimp only
            omega
          · dsimp only
            omega
        · refine ⟨habove.2.le, ?_, .inr ⟨?_, ?_, .inr (Nat.lt_succ_self _)⟩⟩
          · rintro lo n hn ⟨h1, h2, h3⟩
            dsimp only
            omega
          · dsimp only
            omega
          · dsimp only
            omega
      · rw [if_neg habove]
        split
        · refine ⟨by dsimp only; omega, ?_, .inr ⟨le_rfl, ?_, .inl ?_⟩⟩
          · rintro lo n hn ⟨h1, h2, h3⟩
            dsimp only
            omega
          · dsimp only
            omega
          · dsimp only
            omega
        · refine ⟨le_rfl, ?_, .inl rfl⟩
          rintro lo n hn ⟨h1, h2, h3⟩
          omega
    · rw [hf]
      refine ⟨by dsimp only; omega, ?_, .inr ⟨le_rfl, ?_, ?_⟩⟩
      · rintro lo n hn ⟨h1, h2, -⟩
        dsimp only
        omega
      · dsimp only
        omega
      · dsimp only
        omega

theorem foldl_searchStep_spec (hr : r.startPrb ≤ r.endPrb) :
    ∀ (bs : List FreePrbBlock) (best : ℕ × ℕ),
      (∀ b ∈ bs, b.numFreePrb = b.endPrb - b.startPrb + 1 ∧ b.startPrb ≤ b.endPrb ∧ b.Whole r) →
      best.1 ≤ (bs.foldl (searchStep (some r)) best).1 ∧
        (∀ b ∈ bs, ∀ lo n, 0 < n → b.Room r lo n → n ≤ (bs.foldl (searchStep (some r)) best).1) ∧
        (bs.foldl (searchStep (some r)) best = best ∨ ∃ b ∈ bs,
          b.Room r (bs.foldl (searchStep (some r)) best).2 (bs.foldl (searchStep (some r)) best).1)
  | [], best, _ => ⟨le_rfl, (fun _ hb => by cases hb), .inl rfl⟩
  | b :: bs, best, hok => by
      obtain ⟨hcount, hle, hw⟩ := hok b List.mem_cons_self
      obtain ⟨hge, hbest, heq⟩ := @searchStep_spec r b best hcount hle hr hw
      obtain ⟨hge', hbest', heq'⟩ := foldl_searchStep_spec hr bs (searchStep (some r) best b)
        fun b' hb' => hok b' (List.mem_cons_of_mem _ hb')
      rw [List.foldl_cons]
      refine ⟨hge.trans hge', fun b' hb' lo n hn hroom => ?_, ?_⟩
      · rcases List.mem_cons.mp hb' with rfl | hb'
        · exact (hbest lo n hn hroom).trans hge'
        · exact hbest' b' hb' lo n hn hroom
      · rcases heq' with heq' | ⟨b', hb', hroom⟩
        · rw [heq']
          exact heq.imp_right fun hroom => ⟨b, List.mem_cons_self, hroom⟩
        · exact .inr ⟨b', List.mem_cons_of_mem _ hb', hroom⟩

/-- **The search finds a largest run of free PRBs that are not reserved.** -/
theorem searchLargestFreeBlock_spec (h : FreeListOk numRb freePrbBlockList)
    (hr : r.startPrb ≤ r.endPrb) (hfree : ∀ p, r.has p → IsFree freePrbBlockList p) :
    ((searchLargestFreeBlock (some r) freePrbBlockList).1 = 0 ∨ ∃ b ∈ freePrbBlockList,
      b.Room r (searchLargestFreeBlock (some r) freePrbBlockList).2
        (searchLargestFreeBlock (some r) freePrbBlockList).1) ∧
      ∀ lo n, (∀ p, lo ≤ p → p < lo + n → IsFree freePrbBlockList p ∧ ¬ r.has p) →
        n ≤ (searchLargestFreeBlock (some r) freePrbBlockList).1 := by
  obtain ⟨-, hbest, heq⟩ := foldl_searchStep_spec hr freePrbBlockList (0, 0) fun b hb =>
    ⟨h.numFreePrb b hb, h.le hb, h.whole hr hfree hb⟩
  refine ⟨heq.imp_left fun he => by rw [searchLargestFreeBlock, he], fun lo n hrun => ?_⟩
  rcases Nat.eq_zero_or_pos n with rfl | hn
  · exact Nat.zero_le _
  · obtain ⟨b, hb, h1, h2⟩ := h.run_mem (by omega : lo ≤ lo + n - 1) fun p hp hp' =>
      (hrun p hp (by omega)).1
    refine hbest b hb lo n hn ⟨h1, by omega, ?_⟩
    -- the run would have to pass the reserved PRBs
    by_contra hpass
    refine (hrun (max lo r.startPrb) (le_max_left _ _) ?_).2 ⟨le_max_right _ _, ?_⟩
    · omega
    · omega

/-! ## The search for a block at a known PRB -/

/-- The blocks in front of a block are those above it. -/
theorem FreeListOk.mem_front (h : FreeListOk numRb (front ++ b :: rest)) {b' : FreePrbBlock}
    (hb' : b' ∈ front ++ b :: rest) {p : ℕ} (hp : b.has p = true) :
    b' ∈ front ↔ p < b'.startPrb := by
  have hdesc := h.descending
  rw [List.map_append, List.map_cons] at hdesc
  obtain ⟨hfront, hrest⟩ := hdesc.append_cons
  rw [FreePrbBlock.has_iff] at hp
  constructor
  · intro hmem
    have hgap : b.endPrb + 1 < b'.startPrb := hfront _ (List.mem_map_of_mem hmem)
    omega
  · intro hlt
    rcases List.mem_append.mp hb' with hmem | hmem
    · exact hmem
    · rcases List.mem_cons.mp hmem with rfl | hmem
      · omega
      · have hgap : b'.endPrb + 1 < b.startPrb := hrest _ (List.mem_map_of_mem hmem)
        have hle := h.le hb'
        omega

/-- The search comes to the block if no block in front of it is too small. -/
theorem isPrbAvailable_append (hpos : 0 < numPrb) (h1 : b.startPrb ≤ startPrb)
    (h2 : startPrb + numPrb - 1 ≤ b.endPrb) : ∀ front : List FreePrbBlock,
      FreeListOk numRb (front ++ b :: rest) →
      isPrbAvailable startPrb numPrb (front ++ b :: rest) =
        if ∀ b' ∈ front, numPrb ≤ b'.numFreePrb then .found front b rest else .loops
  | [], h => by
      have hcount := h.numFreePrb b List.mem_cons_self
      have hin : (b.has startPrb && b.has (startPrb + numPrb - 1)) = true := by
        rw [Bool.and_eq_true, FreePrbBlock.has_iff, FreePrbBlock.has_iff]
        omega
      rw [List.nil_append, isPrbAvailable, if_neg (by omega), if_pos hin,
        if_pos fun _ hb' => by cases hb']
  | b' :: front, h => by
      have ih := isPrbAvailable_append hpos h1 h2 front h.of_cons
      have hin : b.has startPrb = true := FreePrbBlock.has_iff.mpr ⟨h1, by omega⟩
      have habove := (h.mem_front List.mem_cons_self hin).mp List.mem_cons_self
      have hout : ¬ (b'.has startPrb && b'.has (startPrb + numPrb - 1)) = true := by
        rw [Bool.and_eq_true, FreePrbBlock.has_iff]
        omega
      rw [List.cons_append, isPrbAvailable, ih]
      simp only [List.forall_mem_cons]
      by_cases hsmall : b'.numFreePrb < numPrb
      · rw [if_pos hsmall, if_neg fun hall => by omega]
      · rw [if_neg hsmall, if_neg hout]
        simp only [Nat.le_of_not_lt hsmall, true_and]
        split <;> rfl

end

/-! ## One call -/

/-- No free block above the first PRB is smaller than what is asked for. -/
def PrbReq.Reaches (req : PrbReq) (freePrbBlockList : List FreePrbBlock) : Prop :=
  ∀ b ∈ freePrbBlockList, req.startPrb < b.startPrb → req.numPrb ≤ b.numFreePrb

instance (req : PrbReq) (freePrbBlockList : List FreePrbBlock) :
    Decidable (req.Reaches freePrbBlockList) :=
  inferInstanceAs (Decidable (∀ b ∈ freePrbBlockList, _ → _))

section

variable {duplex : Duplex} {reserved : Option (Option Reserved)} {r : Reserved} {req : PrbReq}
  {search : BlockSearch} {startPrb numPrb numRb : ℕ} {prbAlloc : SchPrbAlloc}
  {grants : List PrbGrant} {rsp : PrbRsp} {front rest : List FreePrbBlock} {b : FreePrbBlock}

/-- A grant is at the place that was found. -/
theorem takePrb_ok (h : takePrb search startPrb req prbAlloc = some rsp) (hok : rsp.ok = true) :
    rsp.startPrb = startPrb ∧ ∃ front b rest, search = .found front b rest ∧
      rsp.prbAlloc.freePrbBlockList =
        front ++ (removeAllocatedPrb b startPrb req.numPrb ++ rest) := by
  cases search with
  | loops => cases h
  | unavailable =>
      cases h
      cases hok
  | found front b rest =>
      rw [takePrb] at h
      injection h with h
      subst h
      exact ⟨rfl, front, b, rest, rfl, if_pos hok⟩

/-- Free PRBs at a known place are granted if the search comes to them. -/
theorem allocatePrb_known (h : prbAlloc.Inv duplex.maxNumRb grants) (hpos : 0 < req.numPrb)
    (hfree : ∀ p, req.startPrb ≤ p → p < req.startPrb + req.numPrb →
      IsFree prbAlloc.freePrbBlockList p) :
    ∃ front b rest, prbAlloc.freePrbBlockList = front ++ b :: rest ∧
      b.startPrb ≤ req.startPrb ∧ req.startPrb + req.numPrb - 1 ≤ b.endPrb ∧
      (req.Reaches prbAlloc.freePrbBlockList → ∃ prbAlloc',
        allocatePrb duplex reserved req prbAlloc = some ⟨true, req.startPrb, prbAlloc'⟩ ∧
        prbAlloc'.Inv duplex.maxNumRb (grants ++ [⟨req, req.startPrb⟩]) ∧
        prbAlloc'.freePrbBlockList =
          front ++ (removeAllocatedPrb b req.startPrb req.numPrb ++ rest)) ∧
      (¬ req.Reaches prbAlloc.freePrbBlockList → allocatePrb duplex reserved req prbAlloc = none) := by
  have hne : req.startPrb ≠ duplex.maxNumRb :=
    ((hfree req.startPrb le_rfl (by omega)).lt h.freeList).ne
  obtain ⟨b, hb, h1, h2⟩ := h.freeList.run_mem (by omega : req.startPrb ≤ req.startPrb + req.numPrb - 1)
    fun p hp hp' => hfree p hp (by omega)
  obtain ⟨front, rest, hlist⟩ := List.append_of_mem hb
  have hok := h.freeList
  rw [hlist] at hok
  have hin : b.has req.startPrb = true := FreePrbBlock.has_iff.mpr ⟨h1, by omega⟩
  have hreach : req.Reaches prbAlloc.freePrbBlockList ↔
      ∀ b' ∈ front, req.numPrb ≤ b'.numFreePrb := by
    rw [hlist]
    constructor
    · intro hall b' hb'
      have hmem : b' ∈ front ++ b :: rest := List.mem_append_left _ hb'
      exact hall b' hmem ((hok.mem_front hmem hin).mp hb')
    · intro hall b' hb' hlt
      exact hall b' ((hok.mem_front hb' hin).mpr hlt)
  have hsearch := isPrbAvailable_append hpos h1 h2 front hok
  rw [← hlist] at hsearch
  refine ⟨front, b, rest, hlist, h1, h2, fun hr => ?_, fun hr => ?_⟩
  · rw [if_pos (hreach.mp hr)] at hsearch
    obtain ⟨prbAlloc', htake, hinv⟩ := h.grant hpos ⟨hlist, h1, h2⟩
    rw [allocatePrb, if_neg hne, hsearch, htake]
    obtain ⟨-, front', b', rest', he, hfree'⟩ := takePrb_ok htake rfl
    cases he
    exact ⟨prbAlloc', rfl, hinv, hfree'⟩
  · rw [if_neg (mt hreach.mpr hr)] at hsearch
    rw [allocatePrb, if_neg hne, hsearch, takePrb]

theorem placeFree_ne_loops (reserved : Option Reserved) (numPrb : ℕ) :
    ∀ freePrbBlockList, (placeFree reserved numPrb freePrbBlockList).1 ≠ .loops
  | [] => BlockSearch.noConfusion
  | freePrbBlock :: rest => by
      have ih := placeFree_ne_loops reserved numPrb rest
      rw [placeFree]
      cases freePrbBlock.place reserved numPrb with
      | some startPrb => exact BlockSearch.noConfusion
      | none =>
          dsimp only
          cases hs : (placeFree reserved numPrb rest).1 with
          | loops => exact absurd hs ih
          | found front b rest' => exact BlockSearch.noConfusion
          | unavailable => exact BlockSearch.noConfusion

/-- PRBs at an unknown place are not put on the reserved ones. -/
theorem allocatePrb_unknown (h : prbAlloc.Keeps duplex.maxNumRb r) (hr : r.startPrb ≤ r.endPrb)
    (hpos : 0 < req.numPrb) (hstart : req.startPrb = duplex.maxNumRb) :
    ∃ rsp, allocatePrb duplex (some (some r)) req prbAlloc = some rsp ∧
      (rsp.ok = true → rsp.startPrb + req.numPrb ≤ r.startPrb ∨ r.endPrb < rsp.startPrb) := by
  obtain ⟨grants, hinv⟩ := h.inv
  obtain ⟨hfits, havoid⟩ := @placeFree_fits duplex.maxNumRb req.numPrb (some r) hpos
    prbAlloc.freePrbBlockList hinv.freeList
  have hsome : ∃ rsp, takePrb (placeFree (some r) req.numPrb prbAlloc.freePrbBlockList).1
      (placeFree (some r) req.numPrb prbAlloc.freePrbBlockList).2 req prbAlloc = some rsp := by
    cases hs : (placeFree (some r) req.numPrb prbAlloc.freePrbBlockList).1 with
    | loops => exact absurd hs (placeFree_ne_loops _ _ _)
    | found front b rest => exact ⟨_, rfl⟩
    | unavailable => exact ⟨_, rfl⟩
  obtain ⟨rsp, htake⟩ := hsome
  refine ⟨rsp, ?_, fun hok => ?_⟩
  · rw [allocatePrb, if_pos hstart]
    exact htake
  · obtain ⟨hstart', front, b, rest, hs, -⟩ := takePrb_ok htake hok
    rw [hs] at hfits
    obtain ⟨hlist, h1, h2⟩ := hfits
    have hmem : b ∈ prbAlloc.freePrbBlockList := by
      rw [hlist]
      exact List.mem_append_right _ List.mem_cons_self
    rw [hstart']
    rcases hinv.freeList.whole hr h.free hmem with ⟨h3, h4⟩ | hout
    · exact (havoid front b rest hs r rfl (FreePrbBlock.has_iff.mpr ⟨h3, hr.trans h4⟩)
        (FreePrbBlock.has_iff.mpr ⟨h3.trans hr, h4⟩)).symm
    · omega

end

namespace PrbCall

/-- A dedicated allocation as the callers make it: at an unknown place, or at the place that the
search for a largest block found, with at most as many PRBs. -/
structure Dedicated (direction : Direction) (duplex : Duplex) (r : Reserved)
    (prbAlloc : SchPrbAlloc) (call : PrbCall) : Prop where
  duplex_eq : call.cell.duplex = duplex
  reserved : call.reserved direction = some (some r)
  numPrb_pos : 0 < call.req.numPrb
  startPrb : call.req.startPrb = duplex.maxNumRb ∨
    call.req.startPrb = (searchLargestFreeBlock (some r) prbAlloc.freePrbBlockList).2 ∧
      call.req.numPrb ≤ (searchLargestFreeBlock (some r) prbAlloc.freePrbBlockList).1
  symbols : call.req.startSymbol + call.req.symbolLength ≤ MAX_SYMB_PER_SLOT

/-- The call does not meet a block that is too small. -/
def Reaches (duplex : Duplex) (prbAlloc : SchPrbAlloc) (call : PrbCall) : Prop :=
  call.req.startPrb = duplex.maxNumRb ∨ call.req.Reaches prbAlloc.freePrbBlockList

variable {direction : Direction} {duplex : Duplex} {r : Reserved} {prbAlloc : SchPrbAlloc}
  {call : PrbCall}

/-- The PRBs at a known place are free, and not reserved. -/
theorem Dedicated.free (h : call.Dedicated direction duplex r prbAlloc)
    (hk : prbAlloc.Keeps duplex.maxNumRb r) (hr : r.startPrb ≤ r.endPrb)
    (hne : call.req.startPrb ≠ duplex.maxNumRb) :
    (∀ p, call.req.startPrb ≤ p → p < call.req.startPrb + call.req.numPrb →
      IsFree prbAlloc.freePrbBlockList p) ∧
    (call.req.startPrb + call.req.numPrb ≤ r.startPrb ∨ r.endPrb < call.req.startPrb) := by
  obtain ⟨grants, hinv⟩ := hk.inv
  have hpos := h.numPrb_pos
  rcases h.startPrb with he | ⟨hstart, hnum⟩
  · exact absurd he hne
  · rcases (searchLargestFreeBlock_spec hinv.freeList hr hk.free).1 with hzero | ⟨b, hb, h1, h2, h3⟩
    · omega
    · rw [← hstart] at h1 h2 h3
      exact ⟨fun p hp hp' => isFree_iff.mpr ⟨b, hb, h1.trans hp, by omega⟩, by omega⟩

theorem Dedicated.valid (h : call.Dedicated direction duplex r prbAlloc)
    (hk : prbAlloc.Keeps duplex.maxNumRb r) (hr : r.InCarrier duplex.maxNumRb) :
    call.Valid duplex := by
  obtain ⟨grants, hinv⟩ := hk.inv
  have hpos := h.numPrb_pos
  refine ⟨h.duplex_eq, hpos, ?_, h.symbols⟩
  by_cases he : call.req.startPrb = duplex.maxNumRb
  · exact .inl he
  · have hlt := ((h.free hk hr.le he).1 (call.req.startPrb + call.req.numPrb - 1) (by omega)
      (by omega)).lt hinv.freeList
    exact .inr (by omega)

/-- What a dedicated call does: it returns if it comes to its PRBs, and leaves the reserved ones
free. -/
theorem Dedicated.step (h : call.Dedicated direction duplex r prbAlloc)
    (hk : prbAlloc.Keeps duplex.maxNumRb r) (hr : r.InCarrier duplex.maxNumRb) :
    ((∃ prbAlloc' out, PrbCall.step direction prbAlloc call = .ok (prbAlloc', out)) ↔
      call.Reaches duplex prbAlloc) ∧
    ∀ prbAlloc' out, PrbCall.step direction prbAlloc call = .ok (prbAlloc', out) →
      prbAlloc'.Keeps duplex.maxNumRb r := by
  obtain ⟨grants, hinv⟩ := hk.inv
  have halloc : call.allocate direction prbAlloc =
      allocatePrb duplex (some (some r)) call.req prbAlloc := by
    rw [allocate_eq, h.duplex_eq, h.reserved]
  have hvalid := h.valid hk hr
  -- a grant leaves the reserved PRBs free
  have hkeep : ∀ rsp, call.allocate direction prbAlloc = some rsp →
      (rsp.ok = true → rsp.startPrb + call.req.numPrb ≤ r.startPrb ∨ r.endPrb < rsp.startPrb) →
      rsp.prbAlloc.Keeps duplex.maxNumRb r := by
    intro rsp hrsp havoid
    rcases hinv.allocate hvalid hrsp with ⟨hok, hinv'⟩ | ⟨-, he⟩
    · refine ⟨⟨_, hinv'⟩, fun p hp => ?_⟩
      have hlt := (hk.free p hp).lt hinv.freeList
      rw [hinv'.isFree p hlt]
      rintro g hg hhas
      rcases List.mem_append.mp hg with hg | hg
      · exact (hinv.isFree p hlt).mp (hk.free p hp) g hg hhas
      · obtain rfl := List.mem_singleton.mp hg
        have h1 : rsp.startPrb ≤ p := hhas.1
        have h2 : p < rsp.startPrb + call.req.numPrb := hhas.2
        have h3 := hp.1
        have h4 := hp.2
        rcases havoid hok with havoid | havoid <;> omega
    · rw [he]
      exact hk
  by_cases he : call.req.startPrb = duplex.maxNumRb
  · obtain ⟨rsp, hrsp, havoid⟩ := allocatePrb_unknown hk hr.le h.numPrb_pos he
    rw [← halloc] at hrsp
    rw [PrbCall.step, hrsp]
    refine ⟨iff_of_true ⟨_, _, rfl⟩ (.inl he), fun prbAlloc' out hout => ?_⟩
    cases hout
    exact hkeep rsp hrsp havoid
  · obtain ⟨hfree, havoid⟩ := h.free hk hr.le he
    obtain ⟨_, _, _, -, -, -, hyes, hno⟩ :=
      @allocatePrb_known duplex (some (some r)) call.req prbAlloc grants hinv h.numPrb_pos hfree
    rw [← halloc] at hyes hno
    by_cases hreach : call.req.Reaches prbAlloc.freePrbBlockList
    · obtain ⟨prbAlloc', hrsp, -, -⟩ := hyes hreach
      rw [PrbCall.step, hrsp]
      refine ⟨iff_of_true ⟨_, _, rfl⟩ (.inr hreach), fun prbAlloc'' out hout => ?_⟩
      cases hout
      exact hkeep _ hrsp fun _ => havoid
    · rw [PrbCall.step, hno hreach]
      refine ⟨iff_of_false ?_ (fun h => h.elim he hreach), fun _ _ hout => by cases hout⟩
      rintro ⟨_, _, hout⟩
      cases hout

end PrbCall

end OaiCu.OduSch
