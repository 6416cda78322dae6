import OaiCu.OduSch.SlotFrmt
import OaiCu.Lib.Machine

/-!
# Paging (`sch.c`, `sch_slot_ind.c`)

Pages are stored for the frame of their paging occasion, in the order of the slots, and are taken
out in the slot of the occasion.
-/

namespace OaiCu.OduSch

def MAX_PO_PER_PF : ℕ := 4

structure SchPageInfo where
  pf : ℕ
  i_s : ℕ
  pageTxTime : SlotTimingInfo
  pagePdu : List (BitVec 8)
deriving DecidableEq, Repr

structure SchPagingOcc where
  frameOffset : ℕ
  pagingOccSlot : ℕ
deriving DecidableEq, Repr

/-- The fields of `SchCellCb` for paging. `pagMonOcc` is an array of `MAX_PO_PER_PF` entries. -/
structure PageCell where
  duplex : Duplex
  numPO : ℕ
  pagMonOcc : ℕ → SchPagingOcc
  pageIndInfoRecord : ℕ → List SchPageInfo

/-- What MAC is given: the time, the length, and the buffer with its size. -/
structure DlPageAlloc where
  dlPageTime : SlotTimingInfo
  dlPagePduLen : ℕ
  bufSize : ℕ
  dlPagePdu : List (BitVec 8)
deriving DecidableEq, Repr

/-- A paging indication, or the indication of a slot. For the slot, `allocated` says whether PRBs
and memory for a page are found in it. -/
inductive PageMsg
  | pagingInd (pf i_s : ℕ) (pagePdu : List (BitVec 8))
  | slotInd (currTime : SlotTimingInfo) (allocated : Bool)
deriving DecidableEq, Repr

/-- What becomes of a page. -/
inductive PageOut
  | rejected
  | stored (pageInfo : SchPageInfo)
  | toMac (pageInfo : SchPageInfo) (dlPageAlloc : DlPageAlloc)
  | dropped (pageInfo : SchPageInfo)
deriving DecidableEq, Repr

/-- `schAddPagingIndtoList`: the page is put in front of the first one that has a later slot. -/
def schAddPagingIndtoList (pageInfo : SchPageInfo) :
    List SchPageInfo → Option (List SchPageInfo)
  | [] => some [pageInfo]
  | tempNode :: rest =>
    if pageInfo.pageTxTime.slot < tempNode.pageTxTime.slot then some (pageInfo :: tempNode :: rest)
    else if pageInfo.pageTxTime.slot = tempNode.pageTxTime.slot then none
    else (schAddPagingIndtoList pageInfo rest).map (tempNode :: ·)

namespace PageCell

/-- The time of the paging occasion. -/
def pageTxTime (cell : PageCell) (pf i_s : ℕ) : SlotTimingInfo where
  sfn := (pf + (cell.pagMonOcc i_s).frameOffset) % MAX_SFN
  slot := (cell.pagMonOcc i_s).pagingOccSlot

/-- The page that an indication asks to store. -/
def pageInfo (cell : PageCell) (pf i_s : ℕ) (pagePdu : List (BitVec 8)) : SchPageInfo where
  pf := pf
  i_s := i_s
  pageTxTime := cell.pageTxTime pf i_s
  pagePdu := pagePdu

/-- `MacSchPagingInd`. It reads the occasion without a check that there is one. -/
def macSchPagingInd (cell : PageCell) (pf i_s : ℕ) (pagePdu : List (BitVec 8)) :
    Option (PageCell × List PageOut) :=
  if cell.numPO < i_s then some (cell, [.rejected])
  else if MAX_PO_PER_PF ≤ i_s then none
  else
    let pageInfo := cell.pageInfo pf i_s pagePdu
    match schAddPagingIndtoList pageInfo (cell.pageIndInfoRecord pageInfo.pageTxTime.sfn) with
    | none => some (cell, [.rejected])
    | some storedPageList =>
      some ({ cell with
        pageIndInfoRecord :=
          Function.update cell.pageIndInfoRecord pageInfo.pageTxTime.sfn storedPageList },
        [.stored pageInfo])

/-- `schProcDlPageAlloc`. The buffer has the size of `dlPagePduLen`, which has 16 bits. -/
def schProcDlPageAlloc (cell : PageCell) (currTime : SlotTimingInfo) (allocated : Bool) :
    PageCell × List PageOut :=
  match (cell.pageIndInfoRecord currTime.sfn).find? fun p => p.pageTxTime = currTime with
  | none => (cell, [])
  | some pageInfo =>
    ({ cell with
      pageIndInfoRecord := Function.update cell.pageIndInfoRecord currTime.sfn
        ((cell.pageIndInfoRecord currTime.sfn).eraseP fun p => p.pageTxTime = currTime) },
      if allocated then
        [.toMac pageInfo {
          dlPageTime := addDeltaToTime cell.duplex currTime (PHY_DELTA_DL + SCHED_DELTA)
          dlPagePduLen := pageInfo.pagePdu.length
          bufSize := 2
          dlPagePdu := pageInfo.pagePdu }]
      else [.dropped pageInfo])

/-- A message is processed. Reading behind the occasions ends the run. -/
def step (cell : PageCell) (msg : PageMsg) : Except Unit (PageCell × List PageOut) :=
  match msg with
  | .pagingInd pf i_s pagePdu =>
    match cell.macSchPagingInd pf i_s pagePdu with
    | some result => .ok result
    | none => .error ()
  | .slotInd currTime allocated => .ok (cell.schProcDlPageAlloc currTime allocated)

end PageCell

/-! ## The lists -/

/-- The slots of the pages are strictly increasing. -/
def SlotsIncreasing (pages : List SchPageInfo) : Prop :=
  pages.Pairwise fun p q => p.pageTxTime.slot < q.pageTxTime.slot

section

variable {page : SchPageInfo}

theorem schAddPagingIndtoList_perm : ∀ {pages pages' : List SchPageInfo},
    schAddPagingIndtoList page pages = some pages' → pages'.Perm (page :: pages)
  | [], pages', h => by
      cases h
      exact List.Perm.refl _
  | tempNode :: rest, pages', h => by
      rw [schAddPagingIndtoList] at h
      split at h
      · cases h
        exact List.Perm.refl _
      · split at h
        · cases h
        · obtain ⟨rest', hrest, rfl⟩ := Option.map_eq_some_iff.mp h
          exact ((schAddPagingIndtoList_perm hrest).cons tempNode).trans (List.Perm.swap _ _ _)

theorem schAddPagingIndtoList_increasing : ∀ {pages pages' : List SchPageInfo},
    SlotsIncreasing pages → schAddPagingIndtoList page pages = some pages' →
    SlotsIncreasing pages'
  | [], pages', _, h => by
      cases h
      exact List.pairwise_singleton _ _
  | tempNode :: rest, pages', hinc, h => by
      obtain ⟨hlt, hrest⟩ := List.pairwise_cons.mp hinc
      rw [schAddPagingIndtoList] at h
      split at h
      · rename_i hfirst
        cases h
        refine List.pairwise_cons.mpr ⟨fun q hq => ?_, hinc⟩
        rcases List.mem_cons.mp hq with rfl | hq
        · exact hfirst
        · exact hfirst.trans (hlt q hq)
      · split at h
        · cases h
        · rename_i hnlt hne
          obtain ⟨rest', hrest', rfl⟩ := Option.map_eq_some_iff.mp h
          refine List.pairwise_cons.mpr ⟨fun q hq => ?_,
            schAddPagingIndtoList_increasing hrest hrest'⟩
          rcases List.mem_cons.mp ((schAddPagingIndtoList_perm hrest').mem_iff.mp hq) with rfl | hq
          · omega
          · exact hlt q hq

/-- A page is rejected if there is one for its slot. -/
theorem schAddPagingIndtoList_eq_none_iff : ∀ {pages : List SchPageInfo},
    SlotsIncreasing pages → (schAddPagingIndtoList page pages = none ↔
      ∃ q ∈ pages, q.pageTxTime.slot = page.pageTxTime.slot)
  | [], _ => by simp [schAddPagingIndtoList]
  | tempNode :: rest, hinc => by
      obtain ⟨hlt, hrest⟩ := List.pairwise_cons.mp hinc
      rw [schAddPagingIndtoList, List.exists_mem_cons_iff]
      split
      · rename_i hfirst
        refine iff_of_false (Option.some_ne_none _) ?_
        rintro (he | ⟨q, hq, he⟩)
        · omega
        · have := hlt q hq
          omega
      · split
        · rename_i he
          exact iff_of_true rfl (.inl he.symm)
        · rename_i hne
          rw [Option.map_eq_none_iff, schAddPagingIndtoList_eq_none_iff hrest]
          exact (or_iff_right fun he => hne he.symm).symm

end

/-! ## The steps -/

namespace PageOut

/-- The page that is given to MAC. -/
def handed : PageOut → Option SchPageInfo
  | .toMac pageInfo _ => some pageInfo
  | _ => none

/-- The page that is accepted. -/
def accepted : PageOut → Option SchPageInfo
  | .stored pageInfo => some pageInfo
  | _ => none

end PageOut

namespace PageCell

/-- The lists are in order, and each page is in the list of its frame. -/
structure Inv (cell : PageCell) : Prop where
  increasing : ∀ sfn, SlotsIncreasing (cell.pageIndInfoRecord sfn)
  sfn : ∀ sfn, ∀ p ∈ cell.pageIndInfoRecord sfn, p.pageTxTime.sfn = sfn

/-- A page is stored for the time. -/
def Stored (cell : PageCell) (time : SlotTimingInfo) : Prop :=
  ∃ p ∈ cell.pageIndInfoRecord time.sfn, p.pageTxTime = time

instance (cell : PageCell) (time : SlotTimingInfo) : Decidable (cell.Stored time) :=
  inferInstanceAs (Decidable (∃ p ∈ cell.pageIndInfoRecord time.sfn, _))

/-- How often a page is stored. -/
def numStored (cell : PageCell) (page : SchPageInfo) : ℕ :=
  (cell.pageIndInfoRecord page.pageTxTime.sfn).count page

variable {cell cell' : PageCell} {msg : PageMsg} {out : List PageOut} {pf i_s : ℕ}
  {pagePdu : List (BitVec 8)} {currTime : SlotTimingInfo} {allocated : Bool}

theorem Inv.update (h : cell.Inv) {sfn : ℕ} {pages : List SchPageInfo}
    (hinc : SlotsIncreasing pages) (hsfn : ∀ p ∈ pages, p.pageTxTime.sfn = sfn)
    (hrecord : cell'.pageIndInfoRecord = Function.update cell.pageIndInfoRecord sfn pages) :
    cell'.Inv := by
  constructor <;> intro sfn' <;> rw [hrecord] <;> by_cases he : sfn' = sfn
  · rw [he, Function.update_self]
    exact hinc
  · rw [Function.update_of_ne he]
    exact h.increasing sfn'
  · rw [he, Function.update_self]
    exact hsfn
  · rw [Function.update_of_ne he]
    exact h.sfn sfn'

/-- What an indication does: the page is stored if there is none for its time. -/
theorem macSchPagingInd_spec (h : cell.Inv) (hle : i_s ≤ cell.numPO)
    (hlt : i_s < MAX_PO_PER_PF) :
    (cell.Stored (cell.pageTxTime pf i_s) →
      cell.macSchPagingInd pf i_s pagePdu = some (cell, [.rejected])) ∧
    (¬ cell.Stored (cell.pageTxTime pf i_s) → ∃ pages,
      pages.Perm (cell.pageInfo pf i_s pagePdu ::
        cell.pageIndInfoRecord (cell.pageTxTime pf i_s).sfn) ∧ SlotsIncreasing pages ∧
      cell.macSchPagingInd pf i_s pagePdu = some ({ cell with
        pageIndInfoRecord :=
          Function.update cell.pageIndInfoRecord (cell.pageTxTime pf i_s).sfn pages },
        [.stored (cell.pageInfo pf i_s pagePdu)])) := by
  have hinc := h.increasing (cell.pageTxTime pf i_s).sfn
  have hstored : (∃ q ∈ cell.pageIndInfoRecord (cell.pageTxTime pf i_s).sfn,
      q.pageTxTime.slot = (cell.pageInfo pf i_s pagePdu).pageTxTime.slot) ↔
      cell.Stored (cell.pageTxTime pf i_s) := by
    refine exists_congr fun q => and_congr_right fun hq => ?_
    rw [SlotTimingInfo.mk.injEq, and_iff_right (h.sfn _ q hq)]
    exact Iff.rfl
  have hmac : cell.macSchPagingInd pf i_s pagePdu =
      match schAddPagingIndtoList (cell.pageInfo pf i_s pagePdu)
        (cell.pageIndInfoRecord (cell.pageTxTime pf i_s).sfn) with
      | none => some (cell, [.rejected])
      | some storedPageList => some ({ cell with
          pageIndInfoRecord :=
            Function.update cell.pageIndInfoRecord (cell.pageTxTime pf i_s).sfn storedPageList },
          [.stored (cell.pageInfo pf i_s pagePdu)]) := by
    rw [macSchPagingInd, if_neg (Nat.not_lt_of_le hle), if_neg (Nat.not_le_of_lt hlt)]
    rfl
  rw [← hstored, ← schAddPagingIndtoList_eq_none_iff hinc, hmac]
  constructor
  · intro hnone
    rw [hnone]
  · intro hsome
    obtain ⟨pages, hpages⟩ := Option.ne_none_iff_exists'.mp hsome
    rw [hpages]
    exact ⟨pages, schAddPagingIndtoList_perm hpages, schAddPagingIndtoList_increasing hinc hpages,
      rfl⟩

/-- What a slot does: the page for its time is taken out. -/
theorem schProcDlPageAlloc_spec (cell : PageCell) (currTime : SlotTimingInfo)
    (allocated : Bool) :
    (¬ cell.Stored currTime → cell.schProcDlPageAlloc currTime allocated = (cell, [])) ∧
    (cell.Stored currTime → ∃ page pages front rest, page.pageTxTime = currTime ∧
      cell.pageIndInfoRecord currTime.sfn = front ++ page :: rest ∧ pages = front ++ rest ∧
      cell.schProcDlPageAlloc currTime allocated = ({ cell with
        pageIndInfoRecord := Function.update cell.pageIndInfoRecord currTime.sfn pages },
        if allocated then
          [.toMac page ⟨addDeltaToTime cell.duplex currTime (PHY_DELTA_DL + SCHED_DELTA),
            page.pagePdu.length, 2, page.pagePdu⟩]
        else [.dropped page])) := by
  rw [schProcDlPageAlloc]
  constructor
  · intro hnone
    rw [List.find?_eq_none.mpr fun p hp => by
      rw [decide_eq_true_iff]
      exact fun he => hnone ⟨p, hp, he⟩]
  · rintro ⟨p, hp, he⟩
    cases hfind : (cell.pageIndInfoRecord currTime.sfn).find? fun p => p.pageTxTime = currTime with
    | none => exact absurd (decide_eq_true he) (List.find?_eq_none.mp hfind p hp)
    | some page =>
        obtain ⟨hpage, front, rest, hlist, hfront⟩ := List.find?_eq_some_iff_append.mp hfind
        refine ⟨page, _, front, rest, of_decide_eq_true hpage, hlist, ?_, rfl⟩
        rw [hlist, List.eraseP_append_right _ (fun q hq => by simpa using hfront q hq),
          List.eraseP_cons_of_pos (by exact hpage)]

/-- Each page that is given to MAC was accepted, and is given once. -/
def AtMostOnce (outs : List PageOut) : Prop :=
  ∀ page, (outs.filterMap PageOut.handed).count page ≤ (outs.filterMap PageOut.accepted).count page

/-- A slot gives its page to MAC once at most. -/
theorem count_slotOut (page₀ page : SchPageInfo) (allocated : Bool) (alloc : DlPageAlloc) :
    ((if allocated then [PageOut.toMac page₀ alloc] else [.dropped page₀]).filterMap
      PageOut.handed).count page ≤ (if page₀ = page then 1 else 0) ∧
    ((if allocated then [PageOut.toMac page₀ alloc] else [.dropped page₀]).filterMap
      PageOut.accepted).count page = 0 := by
  cases allocated with
  | true =>
      refine ⟨?_, rfl⟩
      simp [PageOut.handed, List.count_cons]
  | false => exact ⟨Nat.zero_le _, rfl⟩

/-- A step keeps the lists in order, and keeps account of the pages. -/
theorem Inv.step (h : cell.Inv) (hstep : cell.step msg = .ok (cell', out)) :
    cell'.Inv ∧ ∀ page, (out.filterMap PageOut.handed).count page + cell'.numStored page ≤
      cell.numStored page + (out.filterMap PageOut.accepted).count page := by
  cases msg with
  | pagingInd pf i_s pagePdu =>
      rw [PageCell.step] at hstep
      by_cases hle : cell.numPO < i_s
      · rw [macSchPagingInd, if_pos hle] at hstep
        cases hstep
        exact ⟨h, fun page => (Nat.zero_add _).le⟩
      by_cases hge : MAX_PO_PER_PF ≤ i_s
      · rw [macSchPagingInd, if_neg hle, if_pos hge] at hstep
        cases hstep
      obtain ⟨hrej, hacc⟩ := @macSchPagingInd_spec cell pf i_s pagePdu h (Nat.le_of_not_lt hle)
        (Nat.lt_of_not_le hge)
      by_cases hs : cell.Stored (cell.pageTxTime pf i_s)
      · rw [hrej hs] at hstep
        cases hstep
        exact ⟨h, fun page => (Nat.zero_add _).le⟩
      · obtain ⟨pages, hperm, hinc, he⟩ := hacc hs
        rw [he] at hstep
        cases hstep
        refine ⟨h.update hinc (fun p hp => ?_) rfl, fun page => ?_⟩
        · rcases List.mem_cons.mp (hperm.mem_iff.mp hp) with rfl | hp
          · rfl
          · exact h.sfn _ p hp
        · simp only [numStored, List.filterMap_cons, PageOut.handed, PageOut.accepted,
            List.filterMap_nil, List.count_nil, Nat.zero_add]
          by_cases hsfn : page.pageTxTime.sfn = (cell.pageTxTime pf i_s).sfn
          · rw [hsfn, Function.update_self, hperm.count_eq, List.count_cons, List.count_cons,
              List.count_nil]
            omega
          · rw [Function.update_of_ne hsfn]
            exact Nat.le_add_right _ _
  | slotInd currTime allocated =>
      obtain ⟨hnone, hsome⟩ := schProcDlPageAlloc_spec cell currTime allocated
      rw [PageCell.step] at hstep
      by_cases hs : cell.Stored currTime
      · obtain ⟨page₀, pages, front, rest, htime, hlist, rfl, he⟩ := hsome hs
        have hsub : (front ++ rest).Sublist (front ++ page₀ :: rest) :=
          (List.sublist_cons_self _ _).append_left front
        rw [he] at hstep
        cases hstep
        refine ⟨h.update (List.Pairwise.sublist (hlist ▸ hsub) (h.increasing currTime.sfn))
          (fun p hp => h.sfn _ p (hlist ▸ hsub.subset hp)) rfl, fun page => ?_⟩
        obtain ⟨hhanded, haccepted⟩ := count_slotOut page₀ page allocated
          ⟨addDeltaToTime cell.duplex currTime (PHY_DELTA_DL + SCHED_DELTA), page₀.pagePdu.length, 2,
            page₀.pagePdu⟩
        rw [haccepted]
        refine (Nat.add_le_add_right hhanded _).trans ?_
        simp only [numStored]
        by_cases hsfn : page.pageTxTime.sfn = currTime.sfn
        · rw [hsfn, Function.update_self, hlist, List.count_append, List.count_append,
            List.count_cons]
          simp only [beq_iff_eq]
          split <;> omega
        -- the page that goes is of another frame
        · rw [Function.update_of_ne hsfn, if_neg fun he => hsfn (by rw [← he, htime])]
          omega
      · rw [hnone hs] at hstep
        cases hstep
        exact ⟨h, fun page => by simp⟩

/-- Pages are given to MAC once at most. -/
theorem atMostOnce_of_run {msgs : List PageMsg} {outs : List PageOut} (h : cell.Inv)
    (hempty : ∀ sfn, cell.pageIndInfoRecord sfn = [])
    (hrun : Machine.run PageCell.step cell msgs = .ok (cell', outs)) : AtMostOnce outs := by
  have hinv : cell'.Inv ∧ ∀ page, (outs.filterMap PageOut.handed).count page +
      cell'.numStored page ≤ (outs.filterMap PageOut.accepted).count page := by
    refine @Machine.history_invariant _ _ _ _ PageCell.step (fun _ _ => True)
      (fun _ s os => s.Inv ∧ ∀ page, (os.filterMap PageOut.handed).count page +
        s.numStored page ≤ (os.filterMap PageOut.accepted).count page) cell ⟨h, fun page => ?_⟩
      (fun _ _ s s' os o _ hJ _ hs => ?_) msgs _ _ (Machine.along_of_forall (fun _ _ => trivial) _ _) hrun
    · rw [numStored, hempty]
      exact le_rfl
    · obtain ⟨hinv', hcount⟩ := hJ.1.step hs
      refine ⟨hinv', fun page => ?_⟩
      have h1 := hJ.2 page
      have h2 := hcount page
      rw [List.filterMap_append, List.filterMap_append, List.count_append, List.count_append]
      omega
  exact fun page => (Nat.le_add_right _ _).trans (hinv.2 page)

end PageCell

/-! ## Sequences of messages -/

namespace PageMsg

/-- What a message should do. An indication is accepted if its occasion exists and no page is
stored for it; a page that is given to MAC has its own bytes, is sent at its occasion, and fits
into the buffer. -/
def Meets (cell : PageCell) (msg : PageMsg) : Prop :=
  ∃ cell' out, cell.step msg = .ok (cell', out) ∧
    (∀ sfn, SlotsIncreasing (cell'.pageIndInfoRecord sfn)) ∧
    match msg with
    | .pagingInd pf i_s pagePdu =>
      ((∃ page, .stored page ∈ out) ↔
        i_s < cell.numPO ∧ ¬ cell.Stored (cell.pageTxTime pf i_s)) ∧
      ∀ page, .stored page ∈ out → page = cell.pageInfo pf i_s pagePdu
    | .slotInd _ _ => ∀ page alloc, .toMac page alloc ∈ out →
      alloc.dlPagePdu = page.pagePdu ∧ alloc.dlPageTime = page.pageTxTime ∧
        alloc.dlPagePduLen ≤ alloc.bufSize

/-- When it does so: an indication does not name the occasion behind the last one, unless a page is
stored for it, and no page is due in a slot with resources. -/
def Safe (cell : PageCell) : PageMsg → Prop
  | .pagingInd pf i_s _ => i_s = cell.numPO →
      i_s < MAX_PO_PER_PF ∧ cell.Stored (cell.pageTxTime pf i_s)
  | .slotInd currTime allocated => allocated = true → ¬ cell.Stored currTime

end PageMsg

/-- The time two slots later is another one. -/
theorem addDeltaToTime_ne (duplex : Duplex) (time : SlotTimingInfo) :
    addDeltaToTime duplex time (PHY_DELTA_DL + SCHED_DELTA) ≠ time := by
  intro he
  have hslot : (time.slot + 2) % duplex.maxSlots = time.slot := congrArg SlotTimingInfo.slot he
  cases duplex
  · have hslot : (time.slot + 2) % 10 = time.slot := hslot
    omega
  · have hslot : (time.slot + 2) % 20 = time.slot := hslot
    omega

namespace PageCell

variable {cell : PageCell} {msg : PageMsg}

theorem meets_iff (h : cell.Inv) (hpo : cell.numPO ≤ MAX_PO_PER_PF) :
    msg.Meets cell ↔ msg.Safe cell := by
  cases msg with
  | pagingInd pf i_s pagePdu =>
      rw [PageMsg.Meets, PageMsg.Safe, PageCell.step]
      by_cases hgt : cell.numPO < i_s
      · refine iff_of_true ⟨cell, [.rejected], ?_, h.increasing, ?_⟩ fun he => by omega
        · rw [macSchPagingInd, if_pos hgt]
        · refine ⟨iff_of_false (fun ⟨_, hmem⟩ => ?_) fun hlt => by omega, fun _ hmem => ?_⟩
          · cases List.mem_singleton.mp hmem
          · cases List.mem_singleton.mp hmem
      by_cases hge : MAX_PO_PER_PF ≤ i_s
      · rw [macSchPagingInd, if_neg hgt, if_pos hge]
        exact iff_of_false (fun ⟨_, _, he, _⟩ => by cases he) fun hs => by
          have := (hs (by omega)).1
          omega
      obtain ⟨hrej, hacc⟩ := @macSchPagingInd_spec cell pf i_s pagePdu h (Nat.le_of_not_lt hgt)
        (Nat.lt_of_not_le hge)
      by_cases hs : cell.Stored (cell.pageTxTime pf i_s)
      · rw [hrej hs]
        refine iff_of_true ⟨cell, [.rejected], rfl, h.increasing, ?_⟩ fun _ =>
          ⟨Nat.lt_of_not_le hge, hs⟩
        refine ⟨iff_of_false (fun ⟨_, hmem⟩ => ?_) fun hlt => hlt.2 hs, fun _ hmem => ?_⟩
        · cases List.mem_singleton.mp hmem
        · cases List.mem_singleton.mp hmem
      · obtain ⟨pages, hperm, hinc, he⟩ := hacc hs
        have hinv := (@Inv.step cell _ (.pagingInd pf i_s pagePdu) _ h (by rw [PageCell.step, he])).1
        rw [he]
        constructor
        · rintro ⟨cell', out, hstep, -, hiff, -⟩ hlast
          cases hstep
          have := (hiff.mp ⟨_, List.mem_singleton.mpr rfl⟩).1
          omega
        · intro hsafe
          refine ⟨_, _, rfl, hinv.increasing, iff_of_true ⟨_, List.mem_singleton.mpr rfl⟩
            ⟨?_, hs⟩, fun page hmem => ?_⟩
          · refine lt_of_le_of_ne (Nat.le_of_not_lt hgt) fun hlast => ?_
            exact hs (hsafe hlast).2
          · cases List.mem_singleton.mp hmem
            rfl
  | slotInd currTime allocated =>
      obtain ⟨hnone, hsome⟩ := schProcDlPageAlloc_spec cell currTime allocated
      rw [PageMsg.Meets, PageMsg.Safe, PageCell.step]
      by_cases hs : cell.Stored currTime
      · obtain ⟨page₀, pages, front, rest, htime, hlist, rfl, he⟩ := hsome hs
        have hinv := (@Inv.step cell _ (.slotInd currTime allocated) _ h (by rw [PageCell.step, he])).1
        rw [he]
        cases allocated with
        | true =>
            refine iff_of_false ?_ fun hsafe => hsafe rfl hs
            rintro ⟨cell', out, hstep, -, hmac⟩
            cases hstep
            obtain ⟨-, htx, -⟩ := hmac _ _ (List.mem_singleton.mpr rfl)
            exact addDeltaToTime_ne cell.duplex currTime (htx.trans htime)
        | false =>
            refine iff_of_true ⟨_, _, rfl, hinv.increasing, fun page alloc hmem => ?_⟩ fun hf => by cases hf
            cases List.mem_singleton.mp hmem
      · rw [hnone hs]
        exact iff_of_true ⟨_, _, rfl, h.increasing, fun _ _ hmem => by cases hmem⟩ fun _ => hs

theorem step_numPO {cell' : PageCell} {out : List PageOut}
    (hstep : cell.step msg = .ok (cell', out)) : cell'.numPO = cell.numPO := by
  cases msg with
  | pagingInd pf i_s pagePdu =>
      rw [PageCell.step] at hstep
      split at hstep
      · rename_i result hmac
        cases hstep
        rw [macSchPagingInd] at hmac
        split at hmac
        · cases hmac
          rfl
        · split at hmac
          · cases hmac
          · dsimp only at hmac
            split at hmac <;> cases hmac <;> rfl
      · cases hstep
  | slotInd currTime allocated =>
      rw [PageCell.step, schProcDlPageAlloc] at hstep
      split at hstep <;> cases hstep <;> rfl

/-- **Paging works as long as no page is sent, and no indication names the occasion behind the
last one.** -/
theorem paging_iff {msgs : List PageMsg} (hpo : cell.numPO ≤ MAX_PO_PER_PF)
    (hempty : ∀ sfn, cell.pageIndInfoRecord sfn = []) :
    (Machine.Along PageCell.step (fun cell msg => msg.Meets cell) cell msgs ∧
      ∀ cell' outs, Machine.run PageCell.step cell msgs = .ok (cell', outs) → AtMostOnce outs) ↔
    Machine.Along PageCell.step (fun cell msg => msg.Safe cell) cell msgs := by
  have hinv : cell.Inv := by
    constructor <;> intro sfn <;> rw [hempty]
    · exact List.Pairwise.nil
    · exact fun _ hp => by cases hp
  rw [and_iff_left fun cell' outs hrun => atMostOnce_of_run hinv hempty hrun]
  refine @Machine.along_iff_along _ _ _ _ _ _ (fun s : PageCell => s.Inv ∧ s.numPO ≤ MAX_PO_PER_PF)
    _ (fun s i hI => meets_iff hI.1 hI.2) (fun s i s' out hI _ hstep => ⟨(hI.1.step hstep).1, ?_⟩)
    cell msgs ⟨hinv, hpo⟩
  exact (step_numPO hstep).trans_le hI.2

/-- A cell with two paging occasions in a frame. -/
def examplePaging : PageCell where
  duplex := .fdd
  numPO := 2
  pagMonOcc := fun i_s => ⟨0, i_s⟩
  pageIndInfoRecord := fun _ => []

/-- Two pages for the same frame, one twice, and a slot where none is due. -/
theorem examplePaging_works :
    Machine.Along PageCell.step (fun cell msg => msg.Meets cell) examplePaging
      [.pagingInd 3 1 [1], .pagingInd 3 0 [2], .pagingInd 3 0 [2], .slotInd ⟨2, 9⟩ true] ∧
    ∀ cell' outs, Machine.run PageCell.step examplePaging
      [.pagingInd 3 1 [1], .pagingInd 3 0 [2], .pagingInd 3 0 [2], .slotInd ⟨2, 9⟩ true] =
        .ok (cell', outs) → AtMostOnce outs := by
  refine (paging_iff (by decide) fun _ => rfl).mpr ?_
  refine @Machine.along_of_check _ _ _ _ _ _ (fun cell msg => decide (cell.numPO = 2) &&
    match msg with
    | .pagingInd _ i_s _ => decide (i_s ≠ 2)
    | .slotInd currTime _ => decide (¬ cell.Stored currTime)) (fun cell msg hcheck => ?_) _ _
      (by decide +kernel)
  rw [Bool.and_eq_true, decide_eq_true_iff] at hcheck
  cases msg with
  | pagingInd pf i_s pagePdu =>
      intro hlast
      exact absurd (hlast.trans hcheck.1) (of_decide_eq_true hcheck.2)
  | slotInd currTime allocated => exact fun _ => of_decide_eq_true hcheck.2

/-- **A page of five bytes is sent two slots after its occasion, in a buffer of two bytes.** -/
theorem examplePaging_fails :
    ¬ (Machine.Along PageCell.step (fun cell msg => msg.Meets cell) examplePaging
        [.pagingInd 3 1 [1, 2, 3, 4, 5], .slotInd ⟨3, 1⟩ true] ∧
      ∀ cell' outs, Machine.run PageCell.step examplePaging
        [.pagingInd 3 1 [1, 2, 3, 4, 5], .slotInd ⟨3, 1⟩ true] = .ok (cell', outs) →
          AtMostOnce outs) := by
  rintro ⟨⟨⟨cell₁, out₁, h₁, -⟩, hrest⟩, -⟩
  obtain ⟨⟨cell₂, out₂, h₂, -, hmac⟩, -⟩ := hrest cell₁ out₁ h₁
  have hcheck : (match examplePaging.step (.pagingInd 3 1 [1, 2, 3, 4, 5]) with
      | .ok (cell, _) =>
        match cell.step (.slotInd ⟨3, 1⟩ true) with
        | .ok (_, out) => decide (out = [.toMac ⟨3, 1, ⟨3, 1⟩, [1, 2, 3, 4, 5]⟩
            ⟨⟨3, 3⟩, 5, 2, [1, 2, 3, 4, 5]⟩])
        | .error _ => false
      | .error _ => false) = true := by decide +kernel
  simp only [h₁, h₂, decide_eq_true_iff] at hcheck
  obtain ⟨-, -, hfits⟩ := hmac _ _ (by rw [hcheck]; exact List.mem_singleton.mpr rfl)
  exact absurd hfits (by decide)

end PageCell

end OaiCu.OduSch
