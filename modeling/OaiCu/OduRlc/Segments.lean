import OaiCu.OduRlc.AmUl
import Mathlib.Data.List.Infix
import Mathlib.Data.List.TakeWhile

/-!
# The segments of an SN at the receiver (`rlc_amm_ul.c`, `rlc_umm_ul.c`)

`rlcAmmAddRcvdSeg` and `rlcUmmAddRcvdSeg` keep the segments of an SN in the order of their
offsets and drop one that overlaps with another. Besides the list there are `expSo`, the offset
up to which everything has been received, and two flags: `allRcvd` (`allSegRcvd` for UM) for the
SDU being complete, and `noMissingSeg` for no byte being missing before the last one received.
The flags are only touched by a segment that starts at `expSo`.
-/

namespace OaiCu.OduRlc

/-- A segment as it comes in: from its header, and the payload, of which the store needs the size
only. -/
structure RcvdSeg (α : Type*) where
  si : Si
  so : ℕ
  pduSz : ℕ
  pdu : α
deriving DecidableEq

/-- `RlcSeg` and `RlcUmSeg`: a segment in the list. -/
structure StoredSeg (α : Type*) where
  si : Si
  so : ℕ
  segSz : ℕ
  soEnd : ℕ
  seg : α
deriving DecidableEq

/-- What `RlcAmRecBuf` and `RlcUmRecBuf` keep of the segments. -/
structure SegStore (α : Type*) where
  segLst : List (StoredSeg α) := []
  expSo : ℕ := 0
  allRcvd : Bool := false
  noMissingSeg : Bool := false
deriving DecidableEq

variable {α : Type*}

/-- The segment with its last offset, on 16 bits. -/
def RcvdSeg.stored (seg : RcvdSeg α) : StoredSeg α where
  si := seg.si
  so := seg.so
  segSz := seg.pduSz
  soEnd := (seg.so + seg.pduSz + 2 ^ 16 - 1) % 2 ^ 16
  seg := seg.pdu

/-- The scan behind the new segment: the new `expSo`, whether a last segment was seen, and
whether the scan came to the end of the list. -/
def scanSegs : List (StoredSeg α) → ℕ → Bool → ℕ × Bool × Bool
  | [], newExpSo, lstRcvd => (newExpSo, lstRcvd, true)
  | seg :: segs, newExpSo, lstRcvd =>
    let lstRcvd := lstRcvd || seg.si = .last
    if seg.so = newExpSo then scanSegs segs ((seg.soEnd + 1) % 2 ^ 16) lstRcvd
    else (newExpSo, lstRcvd, false)

namespace SegStore

/-- `rlcAmmUpdExpByteSeg` and `rlcUmmUpdExpByteSeg`, with the list behind the new segment. -/
def updExpByteSeg (seg : StoredSeg α) (next : List (StoredSeg α)) (recBuf : SegStore α) :
    SegStore α :=
  if seg.so ≠ recBuf.expSo then recBuf
  else
    match scanSegs next ((seg.soEnd + 1) % 2 ^ 16) (seg.si = .last) with
    | (expSo, _, false) => { recBuf with
        expSo := expSo
        noMissingSeg := false }
    | (expSo, lstRcvd, true) => { recBuf with
        expSo := expSo
        allRcvd := recBuf.allRcvd || lstRcvd
        noMissingSeg := true }

/-- The segments before the new one, and the others. -/
def passed (so : ℕ) (recBuf : SegStore α) : List (StoredSeg α) :=
  recBuf.segLst.takeWhile (·.so < so)

def next (so : ℕ) (recBuf : SegStore α) : List (StoredSeg α) :=
  recBuf.segLst.dropWhile (·.so < so)

/-- The offset behind the segment before. -/
def prevEnd (so : ℕ) (recBuf : SegStore α) : ℕ :=
  (recBuf.passed so).getLast?.elim 0 fun seg => (seg.so + seg.segSz) % 2 ^ 16

/-- The body that `rlcAmmAddRcvdSeg` and `rlcUmmAddRcvdSeg` share: whether the segment was
taken. -/
def addRcvdSeg (seg : RcvdSeg α) (recBuf : SegStore α) : Bool × SegStore α :=
  if recBuf.allRcvd then (false, recBuf)
  else if seg.so < recBuf.prevEnd seg.so then (false, recBuf)
  else if (recBuf.next seg.so).head?.any (·.so ≤ seg.stored.soEnd) then (false, recBuf)
  else (true, updExpByteSeg seg.stored (recBuf.next seg.so) { recBuf with
    segLst := recBuf.passed seg.so ++ seg.stored :: recBuf.next seg.so })

end SegStore

/-! ## The records of AM and UM -/

/-- `RlcAmRecBuf` with the segments and flags. -/
structure AmRecBuf (α : Type*) extends SegStore α where
  sn : ℕ
  /-- `amHdr.si`; `none` for a complete PDU. -/
  si : Option Si := none
  pdu : Option α := none
  isDelvUpperLayer : Bool := false
deriving DecidableEq

/-- `RlcUmRecBuf`; `allRcvd` stands for `allSegRcvd`. -/
structure UmRecBuf (α : Type*) extends SegStore α where
  sn : ℕ
deriving DecidableEq

/-- `recBufLst`: a record is only stored for an SN that has none. -/
abbrev RecBufLst (β : Type*) := ℕ → Option β

def rlcAmmAddRcvdSeg (sn : ℕ) (seg : RcvdSeg α) (recBufLst : RecBufLst (AmRecBuf α)) :
    Bool × RecBufLst (AmRecBuf α) :=
  let recBuf := (recBufLst sn).getD { sn := sn }
  if recBuf.allRcvd then (false, recBufLst)
  else
    match recBuf.addRcvdSeg seg with
    | (false, segs) => (false, Function.update recBufLst sn (some { recBuf with
        toSegStore := segs
        isDelvUpperLayer := false }))
    | (true, segs) => (true, Function.update recBufLst sn (some { recBuf with
        toSegStore := segs
        isDelvUpperLayer := false
        si := some seg.si }))

def rlcUmmAddRcvdSeg (sn : ℕ) (seg : RcvdSeg α) (recBufLst : RecBufLst (UmRecBuf α)) :
    Bool × RecBufLst (UmRecBuf α) :=
  let recBuf := (recBufLst sn).getD { sn := sn }
  if recBuf.allRcvd then (false, recBufLst)
  else
    match recBuf.addRcvdSeg seg with
    | (ok, segs) => (ok, Function.update recBufLst sn (some { recBuf with toSegStore := segs }))

/-! ## What the store is to say -/

/-- A byte that has been received. -/
def StoredSeg.Has (seg : StoredSeg α) (b : ℕ) : Prop := seg.so ≤ b ∧ b ≤ seg.soEnd

namespace SegStore

def Has (recBuf : SegStore α) (b : ℕ) : Prop := ∃ seg ∈ recBuf.segLst, seg.Has b

/-- The list: nonempty ranges below the highest offset, in order and disjoint. -/
structure Ordered (segLst : List (StoredSeg α)) : Prop where
  sorted : segLst.Pairwise fun seg seg' => seg.soEnd < seg'.so
  bounds : ∀ seg ∈ segLst, seg.so ≤ seg.soEnd ∧ seg.soEnd < 2 ^ 16 - 1 ∧
    seg.segSz = seg.soEnd + 1 - seg.so

/-- The SDU is complete: what was received without a hole ends with a last segment, and nothing
is stored behind it. -/
def Complete (recBuf : SegStore α) : Prop :=
  ∃ seg, recBuf.segLst.getLast? = some seg ∧ seg.si = .last ∧ seg.soEnd + 1 = recBuf.expSo

/-- No byte is missing before the last one received. -/
def NoMissing (recBuf : SegStore α) : Prop :=
  recBuf.segLst ≠ [] ∧ ∀ seg ∈ recBuf.segLst, ∀ b ≤ seg.soEnd, recBuf.Has b

/-- `expSo` is the length of what was received without a hole. -/
structure Prefix (recBuf : SegStore α) : Prop where
  has : ∀ b < recBuf.expSo, recBuf.Has b
  missing : ¬ recBuf.Has recBuf.expSo

structure FlagsRight (recBuf : SegStore α) : Prop where
  allRcvd : recBuf.allRcvd = true ↔ recBuf.Complete
  noMissingSeg : recBuf.noMissingSeg = true ↔ recBuf.NoMissing

structure Right (recBuf : SegStore α) : Prop where
  ordered : Ordered recBuf.segLst
  toPrefix : recBuf.Prefix
  flags : recBuf.FlagsRight

/-- The segment overlaps with none of those stored, and the SDU is not complete. -/
def Free (recBuf : SegStore α) (seg : RcvdSeg α) : Prop :=
  recBuf.allRcvd = false ∧
    ∀ seg' ∈ recBuf.segLst, seg'.soEnd < seg.so ∨ seg.so + seg.pduSz ≤ seg'.so

/-- The segment leaves a hole behind what was received without one, and the flag says that there
is none. -/
def OpensHole (recBuf : SegStore α) (seg : RcvdSeg α) : Prop :=
  recBuf.noMissingSeg = true ∧ recBuf.expSo < seg.so

/-- The segment closes the last hole, and a last segment is in the list that is not the last of
it. -/
def EndsInside (recBuf : SegStore α) (seg : RcvdSeg α) : Prop :=
  seg.so = recBuf.expSo ∧
    (∀ seg' ∈ recBuf.segLst, ∀ b, seg.so + seg.pduSz ≤ b → b ≤ seg'.soEnd → recBuf.Has b) ∧
    (seg.si = .last ∨ ∃ seg' ∈ recBuf.segLst, seg.so < seg'.so ∧ seg'.si = .last) ∧
    ∃ seg', recBuf.segLst.getLast? = some seg' ∧ seg.so < seg'.so ∧ seg'.si ≠ .last

/-- The segment is one after which a flag is wrong. -/
def Misled (recBuf : SegStore α) (seg : RcvdSeg α) : Prop :=
  recBuf.Free seg ∧ (recBuf.OpensHole seg ∨ recBuf.EndsInside seg)

end SegStore

/-- A segment has a byte, and ends below the highest offset. -/
structure RcvdSeg.Valid (seg : RcvdSeg α) : Prop where
  nonempty : 1 ≤ seg.pduSz
  soEnd_lt : seg.so + seg.pduSz ≤ 2 ^ 16 - 1

namespace SegStore

theorem Ordered.sublist {segLst segLst' : List (StoredSeg α)} (h : Ordered segLst)
    (hs : segLst'.Sublist segLst) : Ordered segLst' :=
  ⟨h.sorted.sublist hs, fun seg hm => h.bounds seg (hs.subset hm)⟩

theorem Ordered.so_le {segLst : List (StoredSeg α)} {seg : StoredSeg α} (h : Ordered (seg :: segLst))
    {seg' : StoredSeg α} (hm : seg' ∈ segLst) : seg.so < seg'.so := by
  have h1 := (List.pairwise_cons.1 h.sorted).1 seg' hm
  have h2 := (h.bounds seg (by simp)).1
  omega

section

variable {recBuf : SegStore α} {so : ℕ}

theorem passed_append_next (so : ℕ) (recBuf : SegStore α) :
    recBuf.passed so ++ recBuf.next so = recBuf.segLst := List.takeWhile_append_dropWhile

theorem so_lt_of_mem_passed {seg : StoredSeg α} (h : seg ∈ recBuf.passed so) : seg.so < so := by
  simpa using List.mem_takeWhile_imp h

theorem le_so_of_mem_next (h : Ordered recBuf.segLst) {seg : StoredSeg α}
    (hm : seg ∈ recBuf.next so) : so ≤ seg.so := by
  cases hn : recBuf.next so with
  | nil => simp [hn] at hm
  | cons seg' segs =>
      have hhead : so ≤ seg'.so := by
        have hd := List.head?_dropWhile_not (fun seg : StoredSeg α => decide (seg.so < so))
          recBuf.segLst
        rw [show List.dropWhile _ recBuf.segLst = seg' :: segs from hn] at hd
        simpa using hd
      have ho : Ordered (seg' :: segs) := hn ▸ h.sublist (List.dropWhile_sublist _)
      rw [hn, List.mem_cons] at hm
      rcases hm with rfl | hm
      · exact hhead
      · exact hhead.trans (ho.so_le hm).le

/-- The offset behind the segment before: the segments before end below it. -/
theorem prevEnd_le_iff (h : Ordered recBuf.segLst) :
    recBuf.prevEnd so ≤ so ↔ ∀ seg ∈ recBuf.passed so, seg.soEnd < so := by
  rw [prevEnd]
  rcases List.eq_nil_or_concat (recBuf.passed so) with hnil | ⟨init, last, hlast⟩
  · simp [hnil]
  · have ho : Ordered (init ++ [last]) := by
      rw [← List.concat_eq_append, ← hlast]
      exact h.sublist (List.takeWhile_sublist _)
    have hb := ho.bounds last (by simp)
    have hend : (last.so + last.segSz) % 2 ^ 16 = last.soEnd + 1 := by omega
    have hbefore : ∀ seg ∈ init, seg.soEnd < last.so := fun seg hm =>
      (List.pairwise_append.1 ho.sorted).2.2 seg hm last (by simp)
    have hlt : last.so < so := so_lt_of_mem_passed
      (show last ∈ recBuf.passed so by simp [hlast])
    rw [hlast, List.concat_eq_append, List.getLast?_concat]
    simp only [Option.elim, hend]
    constructor
    · intro hle seg hm
      rw [List.mem_append, List.mem_singleton] at hm
      rcases hm with hm | rfl
      · have := hbefore seg hm
        omega
      · omega
    · intro hall
      have := hall last (by simp)
      omega

end

section

variable {recBuf : SegStore α} {seg : RcvdSeg α}

theorem stored_soEnd (hv : seg.Valid) : seg.stored.soEnd + 1 = seg.so + seg.pduSz := by
  have h1 := hv.nonempty
  have h2 := hv.soEnd_lt
  simp only [RcvdSeg.stored]
  omega

/-- Nothing overlaps if the segment before and the one behind do not. -/
theorem free_iff (h : Ordered recBuf.segLst) (hv : seg.Valid) :
    recBuf.Free seg ↔ recBuf.allRcvd = false ∧ recBuf.prevEnd seg.so ≤ seg.so ∧
      (recBuf.next seg.so).head?.any (·.so ≤ seg.stored.soEnd) = false := by
  have hend := stored_soEnd hv
  have h1 := hv.nonempty
  rw [Free, prevEnd_le_iff h]
  refine and_congr_right fun _ => ⟨fun hfree => ⟨fun seg' hm => ?_, ?_⟩, fun ⟨hpassed, hnext⟩ => ?_⟩
  · have hlt := so_lt_of_mem_passed hm
    have := hfree seg' ((List.takeWhile_sublist _).subset hm)
    omega
  · cases hn : recBuf.next seg.so with
    | nil => rfl
    | cons seg' segs =>
        have hm : seg' ∈ recBuf.next seg.so := by simp [hn]
        have hle := le_so_of_mem_next h hm
        have hb := h.bounds seg' ((List.dropWhile_sublist _).subset hm)
        have := hfree seg' ((List.dropWhile_sublist _).subset hm)
        simp only [List.head?_cons, Option.any_some, decide_eq_false_iff_not]
        omega
  · intro seg' hm
    rw [← passed_append_next seg.so recBuf, List.mem_append] at hm
    rcases hm with hm | hm
    · exact Or.inl (hpassed seg' hm)
    · right
      have ho : Ordered (recBuf.next seg.so) := h.sublist (List.dropWhile_sublist _)
      cases hn : recBuf.next seg.so with
      | nil => simp [hn] at hm
      | cons seg'' segs =>
          rw [hn] at hm hnext ho
          simp only [List.head?_cons, Option.any_some, decide_eq_false_iff_not] at hnext
          rw [List.mem_cons] at hm
          rcases hm with rfl | hm
          · omega
          · have := ho.so_le hm
            omega

/-- The segment is taken exactly when it is free, and else nothing changes. -/
theorem addRcvdSeg_of_free (h : Ordered recBuf.segLst) (hv : seg.Valid) (hf : recBuf.Free seg) :
    recBuf.addRcvdSeg seg = (true, updExpByteSeg seg.stored (recBuf.next seg.so) { recBuf with
      segLst := recBuf.passed seg.so ++ seg.stored :: recBuf.next seg.so }) := by
  obtain ⟨h1, h2, h3⟩ := (free_iff h hv).1 hf
  rw [addRcvdSeg, h1, if_neg (by simp), if_neg (by omega), h3, if_neg (by simp)]

theorem addRcvdSeg_of_not_free (h : Ordered recBuf.segLst) (hv : seg.Valid)
    (hf : ¬ recBuf.Free seg) : recBuf.addRcvdSeg seg = (false, recBuf) := by
  rw [addRcvdSeg]
  split_ifs with h1 h2 h3
  · rfl
  · rfl
  · rfl
  · refine absurd ((free_iff h hv).2 ⟨?_, by omega, ?_⟩) hf
    · exact Bool.eq_false_iff.2 h1
    · exact Bool.eq_false_iff.2 h3

theorem Ordered.insert (h : Ordered recBuf.segLst) (hv : seg.Valid) (hf : recBuf.Free seg) :
    Ordered (recBuf.passed seg.so ++ seg.stored :: recBuf.next seg.so) := by
  have hend := stored_soEnd hv
  have h1 := hv.nonempty
  have h2 := hv.soEnd_lt
  have hpassed : ∀ seg' ∈ recBuf.passed seg.so, seg'.soEnd < seg.so :=
    (prevEnd_le_iff h).1 ((free_iff h hv).1 hf).2.1
  have hnext : ∀ seg' ∈ recBuf.next seg.so, seg.so + seg.pduSz ≤ seg'.so := fun seg' hm => by
    have hm' := (List.dropWhile_sublist _).subset hm
    have := hf.2 seg' hm'
    have := le_so_of_mem_next h hm
    have := (h.bounds seg' hm').1
    omega
  refine ⟨?_, fun seg' hm => ?_⟩
  · rw [List.pairwise_append, List.pairwise_cons]
    refine ⟨h.sorted.sublist (List.takeWhile_sublist _), ⟨fun seg' hm => ?_,
      h.sorted.sublist (List.dropWhile_sublist _)⟩, fun a ha b hb => ?_⟩
    · have := hnext seg' hm
      omega
    · have := hpassed a ha
      rw [List.mem_cons] at hb
      rcases hb with rfl | hb
      · exact this
      · have := hnext b hb
        omega
  · rw [List.mem_append, List.mem_cons] at hm
    rcases hm with hm | rfl | hm
    · exact h.bounds seg' ((List.takeWhile_sublist _).subset hm)
    · refine ⟨?_, by omega, ?_⟩ <;> simp only [RcvdSeg.stored] at hend ⊢ <;> omega
    · exact h.bounds seg' ((List.dropWhile_sublist _).subset hm)

end

/-! ## The scan -/

theorem scanSegs_spec {segs : List (StoredSeg α)} {e : ℕ} (l : Bool) (h : Ordered segs)
    (he : ∀ seg ∈ segs, e ≤ seg.so) :
    e ≤ (scanSegs segs e l).1 ∧
      (∀ b, e ≤ b → b < (scanSegs segs e l).1 → ∃ seg ∈ segs, seg.Has b) ∧
      (∀ seg ∈ segs, ¬ seg.Has (scanSegs segs e l).1) ∧
      ((scanSegs segs e l).2.2 = true ↔ ∀ seg ∈ segs, seg.soEnd < (scanSegs segs e l).1) ∧
      ((scanSegs segs e l).2.2 = true →
        ((scanSegs segs e l).2.1 = true ↔ l = true ∨ ∃ seg ∈ segs, seg.si = .last)) := by
  induction segs generalizing e l with
  | nil => simp [scanSegs]
  | cons seg segs ih =>
      have ho : Ordered segs := h.sublist (List.sublist_cons_self seg segs)
      have hb := h.bounds seg (by simp)
      have hnext : ∀ seg' ∈ segs, seg.soEnd + 1 ≤ seg'.so := (List.pairwise_cons.1 h.sorted).1
      have hmod : (seg.soEnd + 1) % 2 ^ 16 = seg.soEnd + 1 := by omega
      rw [scanSegs]
      simp only [hmod]
      by_cases hso : seg.so = e
      · rw [if_pos hso]
        obtain ⟨h1, h2, h3, h4, h5⟩ := ih (l || decide (seg.si = .last)) ho hnext
        refine ⟨by omega, fun b hb1 hb2 => ?_, ?_, ?_, fun hfin => ?_⟩
        · rcases Nat.lt_or_ge b (seg.soEnd + 1) with hlt | hge
          · exact ⟨seg, by simp, by omega, by omega⟩
          · obtain ⟨seg', hm, hh⟩ := h2 b hge hb2
            exact ⟨seg', by simp [hm], hh⟩
        · intro seg' hm hh
          rw [List.mem_cons] at hm
          rcases hm with rfl | hm
          · have := hh.2
            omega
          · exact h3 seg' hm hh
        · rw [h4, List.forall_mem_cons]
          exact ⟨fun hall => ⟨by omega, hall⟩, fun hall => hall.2⟩
        · rw [h5 hfin, Bool.or_eq_true, decide_eq_true_eq, List.exists_mem_cons_iff, or_assoc]
      · have hlt := he seg (by simp)
        rw [if_neg hso]
        refine ⟨le_refl e, fun b hb1 hb2 => by omega, ?_, ?_, fun hfin => by simp at hfin⟩
        · intro seg' hm hh
          rw [List.mem_cons] at hm
          rcases hm with rfl | hm
          · have := hh.1
            omega
          · have := hnext seg' hm
            have := hh.1
            omega
        · simp only [Bool.false_eq_true, false_iff, not_forall]
          exact ⟨seg, by simp, by omega⟩

/-! ## A step -/

section

variable {recBuf : SegStore α} {seg : RcvdSeg α}

/-- The list with the new segment in its place. -/
def inserted (recBuf : SegStore α) (seg : RcvdSeg α) : List (StoredSeg α) :=
  recBuf.passed seg.so ++ seg.stored :: recBuf.next seg.so

theorem mem_inserted {seg' : StoredSeg α} :
    seg' ∈ recBuf.inserted seg ↔ seg' = seg.stored ∨ seg' ∈ recBuf.segLst := by
  rw [inserted, ← passed_append_next seg.so recBuf, List.mem_append, List.mem_cons,
    List.mem_append]
  tauto

theorem has_inserted {s : SegStore α} (hs : s.segLst = recBuf.inserted seg) {b : ℕ} :
    s.Has b ↔ seg.stored.Has b ∨ recBuf.Has b := by
  simp only [Has, hs, mem_inserted, or_and_right, exists_or, exists_eq_left]

theorem stored_has (hv : seg.Valid) {b : ℕ} :
    seg.stored.Has b ↔ seg.so ≤ b ∧ b < seg.so + seg.pduSz := by
  have hend := stored_soEnd hv
  simp only [StoredSeg.Has]
  exact and_congr_right fun _ => by omega

/-- A free segment does not start below `expSo`. -/
theorem Free.expSo_le (hf : recBuf.Free seg) (hv : seg.Valid) (hp : recBuf.Prefix) :
    recBuf.expSo ≤ seg.so := by
  by_contra hlt
  obtain ⟨seg', hm, hh⟩ := hp.has seg.so (by omega)
  have h1 := hv.nonempty
  have := hf.2 seg' hm
  have := hh.1
  have := hh.2
  omega

/-- The last segment of the list ends behind every other. -/
theorem Ordered.soEnd_le_last {segLst : List (StoredSeg α)} (h : Ordered segLst)
    {last seg : StoredSeg α} (hl : segLst.getLast? = some last) (hm : seg ∈ segLst) :
    seg.soEnd ≤ last.soEnd := by
  rcases List.eq_nil_or_concat segLst with rfl | ⟨init, last', rfl⟩
  · simp at hm
  · rw [List.concat_eq_append, List.getLast?_concat] at hl
    obtain rfl := Option.some.inj hl
    rw [List.concat_eq_append] at h hm
    rw [List.mem_append, List.mem_singleton] at hm
    rcases hm with hm | rfl
    · have h1 := (List.pairwise_append.1 h.sorted).2.2 seg hm last' (by simp)
      have h2 := (h.bounds last' (by simp)).1
      omega
    · exact le_refl _

/-- A segment with a hole before it: only the list changes. -/
theorem addRcvdSeg_hole (h : Ordered recBuf.segLst) (hv : seg.Valid) (hf : recBuf.Free seg)
    (hso : seg.so ≠ recBuf.expSo) :
    recBuf.addRcvdSeg seg = (true, { recBuf with segLst := recBuf.inserted seg }) := by
  rw [addRcvdSeg_of_free h hv hf, updExpByteSeg, if_pos (by simpa [RcvdSeg.stored] using hso)]
  rfl

/-- A segment at `expSo`. -/
theorem addRcvdSeg_fill (h : Ordered recBuf.segLst) (hv : seg.Valid) (hf : recBuf.Free seg)
    (hso : seg.so = recBuf.expSo) :
    ∃ expSo lstRcvd fin, recBuf.addRcvdSeg seg = (true, { recBuf with
        segLst := recBuf.inserted seg
        expSo := expSo
        allRcvd := fin && lstRcvd
        noMissingSeg := fin }) ∧
      seg.so + seg.pduSz ≤ expSo ∧
      (∀ b, seg.so + seg.pduSz ≤ b → b < expSo → recBuf.Has b) ∧ ¬ recBuf.Has expSo ∧
      (fin = true ↔ ∀ seg' ∈ recBuf.segLst, seg'.soEnd < expSo) ∧
      (fin = true → (lstRcvd = true ↔
        seg.si = .last ∨ ∃ seg' ∈ recBuf.segLst, seg.so < seg'.so ∧ seg'.si = .last)) := by
  have hend := stored_soEnd hv
  have h1 := hv.nonempty
  have h2 := hv.soEnd_lt
  have hmod : (seg.stored.soEnd + 1) % 2 ^ 16 = seg.so + seg.pduSz := by omega
  have hsub : ∀ seg' ∈ recBuf.next seg.so, seg' ∈ recBuf.segLst := fun seg' hm =>
    (List.dropWhile_sublist _).subset hm
  have hnext : ∀ seg' ∈ recBuf.next seg.so, seg.so + seg.pduSz ≤ seg'.so := fun seg' hm => by
    have := hf.2 seg' (hsub seg' hm)
    have := le_so_of_mem_next h hm
    have := (h.bounds seg' (hsub seg' hm)).1
    omega
  -- a segment of the list is behind the new one or ends before it
  have hsplit : ∀ seg' ∈ recBuf.segLst, seg'.soEnd < seg.so ∨ seg' ∈ recBuf.next seg.so :=
    fun seg' hm => by
      rw [← passed_append_next seg.so recBuf, List.mem_append] at hm
      exact hm.imp_left ((prevEnd_le_iff h).1 ((free_iff h hv).1 hf).2.1 seg')
  obtain ⟨s1, s2, s3, s4, s5⟩ := scanSegs_spec (decide (seg.stored.si = .last))
    (h.sublist (List.dropWhile_sublist _) : Ordered (recBuf.next seg.so)) hnext
  rw [addRcvdSeg_of_free h hv hf, updExpByteSeg, if_neg (by simpa [RcvdSeg.stored] using hso), hmod]
  generalize scanSegs (recBuf.next seg.so) (seg.so + seg.pduSz) (decide (seg.stored.si = .last)) = r
    at s1 s2 s3 s4 s5 ⊢
  obtain ⟨expSo, lstRcvd, fin⟩ := r
  refine ⟨expSo, lstRcvd, fin, ?_, s1, fun b hb1 hb2 => ?_, ?_, ?_, fun hfin => ?_⟩
  · cases fin <;> simp [hf.1, inserted]
  · obtain ⟨seg', hm, hh⟩ := s2 b hb1 hb2
    exact ⟨seg', hsub seg' hm, hh⟩
  · rintro ⟨seg', hm, hh⟩
    rcases hsplit seg' hm with hlt | hm'
    · have := hh.2
      simp only at s1
      omega
    · exact s3 seg' hm' hh
  · rw [s4]
    refine ⟨fun hall seg' hm => ?_, fun hall seg' hm => hall seg' (hsub seg' hm)⟩
    rcases hsplit seg' hm with hlt | hm'
    · simp only at s1 ⊢
      omega
    · exact hall seg' hm'
  · rw [s5 hfin, decide_eq_true_eq]
    refine or_congr_right ⟨fun ⟨seg', hm, hl⟩ => ⟨seg', hsub seg' hm, ?_, hl⟩,
      fun ⟨seg', hm, hlt, hl⟩ => ⟨seg', ?_, hl⟩⟩
    · have := hnext seg' hm
      omega
    · have := (h.bounds seg' hm).1
      exact (hsplit seg' hm).resolve_left (by omega)

/-- **The list and `expSo` are right after every segment.** -/
theorem addRcvdSeg_ordered (h : Ordered recBuf.segLst) (hp : recBuf.Prefix) (hv : seg.Valid) :
    Ordered (recBuf.addRcvdSeg seg).2.segLst ∧ (recBuf.addRcvdSeg seg).2.Prefix := by
  by_cases hf : recBuf.Free seg
  case neg =>
    rw [addRcvdSeg_of_not_free h hv hf]
    exact ⟨h, hp⟩
  case pos =>
    have hle := hf.expSo_le hv hp
    by_cases hso : seg.so = recBuf.expSo
    case neg =>
      rw [addRcvdSeg_hole h hv hf hso]
      refine ⟨h.insert hv hf, fun b hb => (has_inserted rfl).2 (.inr (hp.has b hb)), ?_⟩
      rw [has_inserted rfl, stored_has hv]
      rintro (hh | hh)
      · simp only at hh
        omega
      · exact hp.missing hh
    case pos =>
      obtain ⟨expSo, lstRcvd, fin, he, h1, h2, h3, -, -⟩ := addRcvdSeg_fill h hv hf hso
      rw [he]
      refine ⟨h.insert hv hf, fun b hb => (has_inserted rfl).2 ?_, ?_⟩
      · simp only at hb
        rw [stored_has hv]
        rcases Nat.lt_or_ge b seg.so with hlt | hge
        · exact .inr (hp.has b (by omega))
        · rcases Nat.lt_or_ge b (seg.so + seg.pduSz) with hlt | hge'
          · exact .inl ⟨hge, hlt⟩
          · exact .inr (h2 b hge' hb)
      · rw [has_inserted rfl, stored_has hv]
        rintro (hh | hh)
        · simp only at hh
          omega
        · exact h3 hh

/-- The last segment of the list, with the new one in its place. -/
theorem getLast?_inserted (h : Ordered recBuf.segLst) (hv : seg.Valid) (hf : recBuf.Free seg) :
    (∃ last, recBuf.segLst.getLast? = some last ∧ seg.so < last.so ∧
        (recBuf.inserted seg).getLast? = some last) ∨
      (recBuf.inserted seg).getLast? = some seg.stored ∧ ∀ seg' ∈ recBuf.segLst, seg'.so ≤ seg.so := by
  rcases List.eq_nil_or_concat (recBuf.next seg.so) with hnil | ⟨init, last, hlast⟩
  · right
    refine ⟨by rw [inserted, hnil, List.getLast?_concat], fun seg' hm => ?_⟩
    rw [← passed_append_next seg.so recBuf, hnil, List.append_nil] at hm
    exact (so_lt_of_mem_passed hm).le
  · left
    have hm : last ∈ recBuf.next seg.so := by simp [hlast]
    have hle := le_so_of_mem_next h hm
    have hm' := (List.dropWhile_sublist _).subset hm
    have hb := (h.bounds last hm').1
    have h1 := hv.nonempty
    have := hf.2 last hm'
    rw [List.concat_eq_append] at hlast
    refine ⟨last, ?_, ?_, ?_⟩
    · rw [← passed_append_next seg.so recBuf, hlast, ← List.append_assoc, List.getLast?_concat]
    · omega
    · rw [inserted, hlast, ← List.cons_append, ← List.append_assoc, List.getLast?_concat]

/-- **A segment with a hole before it leaves the flags as they are**, so that they are right
afterwards exactly when `noMissingSeg` was not set. -/
theorem flags_hole (h : recBuf.Right) (hv : seg.Valid) (hf : recBuf.Free seg)
    (hso : seg.so ≠ recBuf.expSo) :
    (recBuf.addRcvdSeg seg).2.FlagsRight ↔ ¬ recBuf.Misled seg := by
  have hlt : recBuf.expSo < seg.so := by
    have := hf.expSo_le hv h.toPrefix
    omega
  have h1 := hv.nonempty
  have hend := stored_soEnd hv
  obtain ⟨ho, hp⟩ := addRcvdSeg_ordered h.ordered h.toPrefix hv
  have hmisled : recBuf.Misled seg ↔ recBuf.noMissingSeg = true := by
    refine ⟨fun hm => hm.2.elim And.left fun he => absurd he.1 hso, fun hm => ⟨hf, .inl ⟨hm, hlt⟩⟩⟩
  rw [addRcvdSeg_hole h.ordered hv hf hso] at ho hp ⊢
  rw [hmisled]
  have hin : seg.stored ∈ recBuf.inserted seg := mem_inserted.2 (.inl rfl)
  constructor
  · intro hflags hm
    have hno := (hflags.noMissingSeg.1 hm).2 _ hin recBuf.expSo (by omega)
    exact hp.missing hno
  · intro hm
    refine ⟨?_, ?_⟩
    · rw [show _ = false from hf.1]
      refine ⟨(fun hc => by cases hc), fun ⟨last, hl, _, hx⟩ => ?_⟩
      have := ho.soEnd_le_last hl hin
      simp only at hx
      omega
    · rw [Bool.not_eq_true] at hm
      rw [show _ = false from hm]
      exact ⟨(fun hc => by cases hc), fun hno => absurd (hno.2 _ hin recBuf.expSo (by omega)) hp.missing⟩

/-- The last segment of a list without a hole ends at `expSo`. -/
theorem last_soEnd {s : SegStore α} (ho : Ordered s.segLst) (hp : s.Prefix)
    (hall : ∀ seg ∈ s.segLst, seg.soEnd < s.expSo) {last : StoredSeg α}
    (hl : s.segLst.getLast? = some last) : last.soEnd + 1 = s.expSo := by
  have hm := List.mem_of_getLast? hl
  have h1 := hall last hm
  obtain ⟨seg, hseg, hh⟩ := hp.has (s.expSo - 1) (by omega)
  have h2 := ho.soEnd_le_last hl hseg
  have h3 := hh.2
  omega

/-- **A segment at `expSo` sets the flags**, and `allRcvd` wrongly exactly when there is a last
segment that is not the last of the list. -/
theorem flags_fill (h : recBuf.Right) (hv : seg.Valid) (hf : recBuf.Free seg)
    (hso : seg.so = recBuf.expSo) :
    (recBuf.addRcvdSeg seg).2.FlagsRight ↔ ¬ recBuf.Misled seg := by
  obtain ⟨ho, hp⟩ := addRcvdSeg_ordered h.ordered h.toPrefix hv
  obtain ⟨expSo, lstRcvd, fin, he, h1, h2, h3, h4, h5⟩ := addRcvdSeg_fill h.ordered hv hf hso
  have hend := stored_soEnd hv
  have hmisled : recBuf.Misled seg ↔ recBuf.EndsInside seg :=
    ⟨fun hm => hm.2.elim (fun hopen => absurd hso hopen.2.ne') id, fun hm => ⟨hf, .inr hm⟩⟩
  rw [he] at ho hp ⊢
  rw [hmisled]
  have hin : seg.stored ∈ recBuf.inserted seg := mem_inserted.2 (.inl rfl)
  cases fin
  case false =>
    obtain ⟨seg', hm, hge⟩ : ∃ seg' ∈ recBuf.segLst, expSo ≤ seg'.soEnd := by
      by_contra hnone
      push Not at hnone
      exact absurd (h4.2 hnone) Bool.false_ne_true
    have hm' : seg' ∈ recBuf.inserted seg := mem_inserted.2 (.inr hm)
    refine ⟨fun _ hends => h3 (hends.2.1 seg' hm expSo h1 hge), fun _ => ⟨?_, ?_⟩⟩
    · refine ⟨(fun hc => by cases hc), fun ⟨last, hl, _, hx⟩ => ?_⟩
      have := ho.soEnd_le_last hl hm'
      simp only at hx
      omega
    · exact ⟨(fun hc => by cases hc), fun hno => absurd (hno.2 _ hm' expSo hge) hp.missing⟩
  case true =>
    have hall := h4.1 rfl
    have hall' : ∀ seg' ∈ recBuf.inserted seg, seg'.soEnd < expSo := fun seg' hm => by
      rcases mem_inserted.1 hm with rfl | hm
      · omega
      · exact hall seg' hm
    have hno : SegStore.NoMissing { recBuf with
        segLst := recBuf.inserted seg
        expSo := expSo
        allRcvd := true && lstRcvd
        noMissingSeg := true } :=
      ⟨List.ne_nil_of_mem hin, fun seg' hm b hb => hp.has b (hb.trans_lt (hall' seg' hm))⟩
    have hflags : FlagsRight { recBuf with
        segLst := recBuf.inserted seg
        expSo := expSo
        allRcvd := true && lstRcvd
        noMissingSeg := true } ↔
        (lstRcvd = true ↔ ∃ last, (recBuf.inserted seg).getLast? = some last ∧ last.si = .last) := by
      refine ⟨fun hr => (by simpa using hr.allRcvd : lstRcvd = true ↔ _).trans ?_,
        fun hr => ⟨(by simpa using hr : (true && lstRcvd) = true ↔ _).trans ?_, by simpa using hno⟩⟩
      · exact ⟨fun ⟨last, hl, hsi, _⟩ => ⟨last, hl, hsi⟩,
          fun ⟨last, hl, hsi⟩ => ⟨last, hl, hsi, last_soEnd ho hp hall' hl⟩⟩
      · exact ⟨fun ⟨last, hl, hsi⟩ => ⟨last, hl, hsi, last_soEnd ho hp hall' hl⟩,
          fun ⟨last, hl, hsi, _⟩ => ⟨last, hl, hsi⟩⟩
    rw [hflags, h5 rfl]
    have hcovered : ∀ seg' ∈ recBuf.segLst, ∀ b, seg.so + seg.pduSz ≤ b → b ≤ seg'.soEnd →
        recBuf.Has b := fun seg' hm b hb hb' => h2 b hb (hb'.trans_lt (hall seg' hm))
    rcases getLast?_inserted h.ordered hv hf with ⟨last, hl, hlt, hl'⟩ | ⟨hl', hle⟩
    · -- a segment behind the new one is the last of the list
      have hseen : last.si = .last → seg.si = .last ∨
          ∃ seg' ∈ recBuf.segLst, seg.so < seg'.so ∧ seg'.si = .last := fun hsi =>
        .inr ⟨last, List.mem_of_getLast? hl, hlt, hsi⟩
      constructor
      · rintro hiff ⟨-, -, hsaw, last', hl'', -, hne⟩
        obtain rfl := Option.some.inj (hl.symm.trans hl'')
        obtain ⟨last', hl'', hsi⟩ := hiff.1 hsaw
        obtain rfl := Option.some.inj (hl'.symm.trans hl'')
        exact hne hsi
      · intro hends
        refine ⟨fun hsaw => ⟨last, hl', ?_⟩, fun ⟨last', hl'', hsi⟩ => hseen ?_⟩
        · by_contra hne
          exact hends ⟨hso, hcovered, hsaw, last, hl, hlt, hne⟩
        · obtain rfl := Option.some.inj (hl'.symm.trans hl'')
          exact hsi
    · -- the new segment is the last of the list
      have hnone : ¬ ∃ seg' ∈ recBuf.segLst, seg.so < seg'.so ∧ seg'.si = .last :=
        fun ⟨seg', hm, hlt, _⟩ => absurd hlt (hle seg' hm).not_gt
      have hends : ¬ recBuf.EndsInside seg := fun ⟨_, _, _, last, hl, hlt, _⟩ =>
        absurd hlt (hle last (List.mem_of_getLast? hl)).not_gt
      rw [or_iff_left hnone]
      refine iff_of_true ⟨fun hsi => ⟨_, hl', hsi⟩, fun ⟨last, hl, hsi⟩ => ?_⟩ hends
      obtain rfl := Option.some.inj (hl'.symm.trans hl)
      exact hsi

/-- **After a segment the flags are right exactly when it is not one that misleads.** -/
theorem addRcvdSeg_flags (h : recBuf.Right) (hv : seg.Valid) :
    (recBuf.addRcvdSeg seg).2.FlagsRight ↔ ¬ recBuf.Misled seg := by
  by_cases hf : recBuf.Free seg
  case neg =>
    rw [addRcvdSeg_of_not_free h.ordered hv hf]
    exact iff_of_true h.flags fun hm => hf hm.1
  case pos =>
    by_cases hso : seg.so = recBuf.expSo
    · exact flags_fill h hv hf hso
    · exact flags_hole h hv hf hso

end

theorem right_empty : ({} : SegStore α).Right where
  ordered := ⟨List.Pairwise.nil, fun _ h => absurd h List.not_mem_nil⟩
  toPrefix := ⟨fun _ h => absurd h (Nat.not_lt_zero _), fun ⟨_, h, _⟩ => absurd h List.not_mem_nil⟩
  flags := by
    refine ⟨⟨(fun h => by cases h), ?_⟩, ⟨(fun h => by cases h), fun h => absurd rfl h.1⟩⟩
    rintro ⟨_, h, -⟩
    cases h

/-- A segment that is not taken changes nothing, and the first one is taken. -/
theorem addRcvdSeg_rejected {recBuf : SegStore α} {seg : RcvdSeg α}
    (h : (recBuf.addRcvdSeg seg).1 = false) : (recBuf.addRcvdSeg seg).2 = recBuf := by
  revert h
  rw [addRcvdSeg]
  split_ifs <;> simp

theorem addRcvdSeg_first (seg : RcvdSeg α) : (({} : SegStore α).addRcvdSeg seg).1 = true := rfl

end SegStore

/-! ## Runs -/

section

variable {β : Type*} (add : RcvdSeg α → β → Bool × β) (store : β → SegStore α) (init : β)

/-- The segments of one SN, one after the other. -/
def addSegs (segs : List (RcvdSeg α)) : β := segs.foldl (fun b seg => (add seg b).2) init

/-- The store is right after every segment, and one that is rejected changes nothing. -/
def KeepsRight (segs : List (RcvdSeg α)) : Prop :=
  (∀ pre, pre <+: segs → (store (addSegs add init pre)).Right) ∧
    ∀ pre seg, pre ++ [seg] <+: segs → (add seg (addSegs add init pre)).1 = false →
      (add seg (addSegs add init pre)).2 = addSegs add init pre

/-- No segment misleads the flags. -/
def NeverMisled (segs : List (RcvdSeg α)) : Prop :=
  ∀ pre seg, pre ++ [seg] <+: segs → ¬ (store (addSegs add init pre)).Misled seg

theorem addSegs_snoc (segs : List (RcvdSeg α)) (seg : RcvdSeg α) :
    addSegs add init (segs ++ [seg]) = (add seg (addSegs add init segs)).2 := by
  rw [addSegs, List.foldl_append]
  rfl

variable {add store init}

/-- A function that adds to the store in the way of `SegStore.addRcvdSeg`. -/
structure Adds (add : RcvdSeg α → β → Bool × β) (store : β → SegStore α) (init : β)
    (Inv : β → Prop) : Prop where
  start : Inv init
  empty : store init = {}
  step : ∀ seg b, Inv b → Inv (add seg b).2
  adds : ∀ seg b, store (add seg b).2 = ((store b).addRcvdSeg seg).2
  rejected : ∀ seg b, Inv b → (add seg b).1 = false → (add seg b).2 = b

variable {Inv : β → Prop}

theorem Adds.inv (h : Adds add store init Inv) (segs : List (RcvdSeg α)) :
    Inv (addSegs add init segs) := by
  induction segs using List.reverseRecOn with
  | nil => exact h.start
  | append_singleton segs seg ih =>
      rw [addSegs_snoc]
      exact h.step seg _ ih

theorem Adds.right_snoc (h : Adds add store init Inv) {segs : List (RcvdSeg α)}
    {seg : RcvdSeg α} (hr : (store (addSegs add init segs)).Right) (hv : seg.Valid) :
    (store (addSegs add init (segs ++ [seg]))).Right ↔
      ¬ (store (addSegs add init segs)).Misled seg := by
  rw [addSegs_snoc, h.adds, ← SegStore.addRcvdSeg_flags hr hv]
  obtain ⟨ho, hp⟩ := SegStore.addRcvdSeg_ordered hr.ordered hr.toPrefix hv
  exact ⟨fun hr' => hr'.flags, fun hf => ⟨ho, hp, hf⟩⟩

theorem Adds.keepsRight_iff (h : Adds add store init Inv) {segs : List (RcvdSeg α)}
    (hv : ∀ seg ∈ segs, seg.Valid) :
    KeepsRight add store init segs ↔ NeverMisled add store init segs := by
  constructor
  · intro hk pre seg hpre
    have hvalid : seg.Valid := hv seg (hpre.subset (by simp))
    exact (h.right_snoc (hk.1 pre ((List.prefix_append _ _).trans hpre)) hvalid).1 (hk.1 _ hpre)
  · intro hn
    refine ⟨fun pre hpre => ?_, fun pre seg _ => h.rejected seg _ (h.inv pre)⟩
    induction pre using List.reverseRecOn with
    | nil =>
        rw [show addSegs add init [] = init from rfl, h.empty]
        exact SegStore.right_empty
    | append_singleton pre seg ih =>
        have hvalid : seg.Valid := hv seg (hpre.subset (by simp))
        exact (h.right_snoc (ih ((List.prefix_append _ _).trans hpre)) hvalid).2 (hn pre seg hpre)

end

/-- The segments that are stored for the SN. -/
def amStore (sn : ℕ) (recBufLst : RecBufLst (AmRecBuf α)) : SegStore α :=
  (recBufLst sn).elim {} (·.toSegStore)

def umStore (sn : ℕ) (recBufLst : RecBufLst (UmRecBuf α)) : SegStore α :=
  (recBufLst sn).elim {} (·.toSegStore)

theorem addRcvdSeg_of_allRcvd {recBuf : SegStore α} (h : recBuf.allRcvd = true) (seg : RcvdSeg α) :
    recBuf.addRcvdSeg seg = (false, recBuf) := by rw [SegStore.addRcvdSeg, h, if_pos rfl]

/-- What `rlcAmmAddRcvdSeg` makes of the record of the SN. -/
theorem rlcAmmAddRcvdSeg_cases (sn : ℕ) (seg : RcvdSeg α) (recBufLst : RecBufLst (AmRecBuf α)) :
    ((recBufLst sn).elim false (·.allRcvd) = true ∧
        rlcAmmAddRcvdSeg sn seg recBufLst = (false, recBufLst)) ∨
      ∃ si, rlcAmmAddRcvdSeg sn seg recBufLst = (((amStore sn recBufLst).addRcvdSeg seg).1,
        Function.update recBufLst sn (some { (recBufLst sn).getD { sn := sn } with
          toSegStore := ((amStore sn recBufLst).addRcvdSeg seg).2
          isDelvUpperLayer := false
          si := si })) ∧
        (((amStore sn recBufLst).addRcvdSeg seg).1 = false →
          si = ((recBufLst sn).getD { sn := sn }).si) := by
  have hstore : amStore sn recBufLst = ((recBufLst sn).getD { sn := sn }).toSegStore := by
    rw [amStore]
    cases recBufLst sn <;> rfl
  have hall : (recBufLst sn).elim false (·.allRcvd) =
      ((recBufLst sn).getD { sn := sn }).allRcvd := by
    cases recBufLst sn <;> rfl
  rw [rlcAmmAddRcvdSeg, hstore, hall]
  generalize (recBufLst sn).getD { sn := sn } = recBuf
  by_cases h : recBuf.allRcvd = true
  · exact .inl ⟨h, if_pos h⟩
  · rw [if_neg h]
    right
    rcases hr : recBuf.addRcvdSeg seg with ⟨_ | _, segs⟩
    · exact ⟨recBuf.si, rfl, fun _ => rfl⟩
    · exact ⟨some seg.si, rfl, fun hc => by cases hc⟩

theorem amm_adds (sn : ℕ) :
    Adds (rlcAmmAddRcvdSeg (α := α) sn) (amStore sn) (fun _ => none)
      fun recBufLst => ∀ recBuf, recBufLst sn = some recBuf → recBuf.isDelvUpperLayer = false where
  start := fun _ h => by cases h
  empty := rfl
  step := by
    intro seg recBufLst h
    rcases rlcAmmAddRcvdSeg_cases sn seg recBufLst with ⟨-, he⟩ | ⟨si, he, -⟩ <;> rw [he]
    · exact h
    · intro recBuf hr
      simp only [Function.update_self] at hr
      rw [← Option.some.inj hr]
  adds := by
    intro seg recBufLst
    rcases rlcAmmAddRcvdSeg_cases sn seg recBufLst with ⟨hall, he⟩ | ⟨si, he, -⟩ <;> rw [he]
    · cases hr : recBufLst sn with
      | none => simp [hr] at hall
      | some recBuf =>
          have hall : recBuf.allRcvd = true := by simpa [hr] using hall
          simp only [amStore, hr, Option.elim]
          rw [addRcvdSeg_of_allRcvd hall]
    · simp only [amStore, Function.update_self, Option.elim]
  rejected := by
    intro seg recBufLst h
    rcases rlcAmmAddRcvdSeg_cases sn seg recBufLst with ⟨-, he⟩ | ⟨si, he, hsi⟩ <;> rw [he]
    · exact fun _ => rfl
    · intro hrej
      rw [SegStore.addRcvdSeg_rejected hrej, hsi hrej]
      cases hr : recBufLst sn with
      | none =>
          rw [amStore, hr] at hrej
          exact absurd hrej (by simp [SegStore.addRcvdSeg_first])
      | some recBuf =>
          have hd := h recBuf hr
          refine Function.update_eq_self_iff.2 ?_
          rw [amStore, hr]
          cases recBuf
          simp only at hd
          subst hd
          rfl

/-- What `rlcUmmAddRcvdSeg` makes of the record of the SN. -/
theorem rlcUmmAddRcvdSeg_cases (sn : ℕ) (seg : RcvdSeg α) (recBufLst : RecBufLst (UmRecBuf α)) :
    ((recBufLst sn).elim false (·.allRcvd) = true ∧
        rlcUmmAddRcvdSeg sn seg recBufLst = (false, recBufLst)) ∨
      rlcUmmAddRcvdSeg sn seg recBufLst = (((umStore sn recBufLst).addRcvdSeg seg).1,
        Function.update recBufLst sn (some { (recBufLst sn).getD { sn := sn } with
          toSegStore := ((umStore sn recBufLst).addRcvdSeg seg).2 })) := by
  have hstore : umStore sn recBufLst = ((recBufLst sn).getD { sn := sn }).toSegStore := by
    rw [umStore]
    cases recBufLst sn <;> rfl
  have hall : (recBufLst sn).elim false (·.allRcvd) =
      ((recBufLst sn).getD { sn := sn }).allRcvd := by
    cases recBufLst sn <;> rfl
  rw [rlcUmmAddRcvdSeg, hstore, hall]
  generalize (recBufLst sn).getD { sn := sn } = recBuf
  by_cases h : recBuf.allRcvd = true
  · exact .inl ⟨h, if_pos h⟩
  · exact .inr (if_neg h)

theorem umm_adds (sn : ℕ) :
    Adds (rlcUmmAddRcvdSeg (α := α) sn) (umStore sn) (fun _ => none) fun _ => True where
  start := trivial
  empty := rfl
  step := fun _ _ _ => trivial
  adds := by
    intro seg recBufLst
    rcases rlcUmmAddRcvdSeg_cases sn seg recBufLst with ⟨hall, he⟩ | he <;> rw [he]
    · cases hr : recBufLst sn with
      | none => simp [hr] at hall
      | some recBuf =>
          have hall : recBuf.allRcvd = true := by simpa [hr] using hall
          simp only [umStore, hr, Option.elim]
          rw [addRcvdSeg_of_allRcvd hall]
    · simp only [umStore, Function.update_self, Option.elim]
  rejected := by
    intro seg recBufLst _
    rcases rlcUmmAddRcvdSeg_cases sn seg recBufLst with ⟨-, he⟩ | he <;> rw [he]
    · exact fun _ => rfl
    · intro hrej
      rw [SegStore.addRcvdSeg_rejected hrej]
      cases hr : recBufLst sn with
      | none =>
          rw [umStore, hr] at hrej
          exact absurd hrej (by simp [SegStore.addRcvdSeg_first])
      | some recBuf =>
          rw [umStore, hr]
          exact Function.update_eq_self_iff.2 hr.symm

/-- **The segment stores of AM and UM are right after every segment exactly when no segment
misleads their flags.** -/
theorem segments_right_iff (sn : ℕ) {segs : List (RcvdSeg α)} (hv : ∀ seg ∈ segs, seg.Valid) :
    (KeepsRight (rlcAmmAddRcvdSeg sn) (amStore sn) (fun _ => none) segs ↔
        NeverMisled (rlcAmmAddRcvdSeg sn) (amStore sn) (fun _ => none) segs) ∧
      (KeepsRight (rlcUmmAddRcvdSeg sn) (umStore sn) (fun _ => none) segs ↔
        NeverMisled (rlcUmmAddRcvdSeg sn) (umStore sn) (fun _ => none) segs) :=
  ⟨(amm_adds sn).keepsRight_iff hv, (umm_adds sn).keepsRight_iff hv⟩

/-- The first and the last segment of an SDU, of which the middle is on its way. -/
def holeSegs : List (RcvdSeg Unit) :=
  [{ si := .first
     so := 0
     pduSz := 10
     pdu := () },
   { si := .last
     so := 20
     pduSz := 10
     pdu := () }]

theorem holeSegs_valid : ∀ seg ∈ holeSegs, seg.Valid := by
  intro seg hm
  simp only [holeSegs, List.mem_cons, List.not_mem_nil, or_false] at hm
  rcases hm with rfl | rfl <;> exact ⟨by decide, by decide⟩

theorem segments_right_iff_hole :
    (KeepsRight (rlcAmmAddRcvdSeg 5) (amStore 5) (fun _ => none) holeSegs ↔
        NeverMisled (rlcAmmAddRcvdSeg 5) (amStore 5) (fun _ => none) holeSegs) ∧
      (KeepsRight (rlcUmmAddRcvdSeg 5) (umStore 5) (fun _ => none) holeSegs ↔
        NeverMisled (rlcUmmAddRcvdSeg 5) (umStore 5) (fun _ => none) holeSegs) :=
  segments_right_iff 5 holeSegs_valid

/-- The flag of a store in which a byte is missing before the last one. -/
theorem not_right_of_flag {recBuf : SegStore Unit}
    (h : recBuf = {
      segLst := holeSegs.map RcvdSeg.stored
      expSo := 10
      noMissingSeg := true }) : ¬ recBuf.Right := by
  subst h
  intro hr
  obtain ⟨seg, hm, h1, h2⟩ := (hr.flags.noMissingSeg.1 rfl).2
    (RcvdSeg.stored ⟨.last, 20, 10, ()⟩) (by simp [holeSegs]) 15 (by decide)
  simp only [holeSegs, List.map_cons, List.map_nil, List.mem_cons, List.not_mem_nil,
    or_false] at hm
  rcases hm with rfl | rfl <;> revert h1 h2 <;> decide

/-- **The hole is not noticed**: `noMissingSeg` stays set when the last segment comes before the
one in the middle. -/
theorem segments_hole_unnoticed : (∀ seg ∈ holeSegs, seg.Valid) ∧
    ¬ KeepsRight (rlcAmmAddRcvdSeg 5) (amStore 5) (fun _ => none) holeSegs ∧
    ¬ KeepsRight (rlcUmmAddRcvdSeg 5) (umStore 5) (fun _ => none) holeSegs := by
  refine ⟨holeSegs_valid, fun hk => ?_, fun hk => ?_⟩
  · exact not_right_of_flag (by decide) (hk.1 holeSegs List.prefix_rfl)
  · exact not_right_of_flag (by decide) (hk.1 holeSegs List.prefix_rfl)

end OaiCu.OduRlc
