import OaiCu.Lib.Scan
import OaiCu.LteMac.Slicing

/-!
# What the slices are offered (slicing.c)

Once a subframe `static_dl` and `static_ul` go through the slices and offer each of them with UEs the
free resources of its range: on the downlink as a mask of resource block groups, on the uplink as
the contiguous regions of free resource blocks. The two loops stop at the end of the carrier in
different ways.
-/

namespace OaiCu.LteMac

/-- `get_min_rb_unit`. -/
def getMinRbUnit : Bandwidth → ℕ
  | .n6 => 1
  | .n15 => 2
  | .n25 => 2
  | .n50 => 3
  | .n75 => 4
  | .n100 => 4

/-- The number of UEs a slice may schedule, by the number of slices. -/
def maxNumUe (num : ℕ) : ℕ := if num = 1 then 4 else if num = 2 then 2 else 1

/-! ## Downlink -/

/-- `rbgalloc_mask`. An entry behind the last RBG of the carrier is not computed and has what the
memory held. -/
def rbgallocMask (bw : Bandwidth) (vrbMap memory : ℕ → ℕ) (i : ℕ) : ℕ :=
  if i < toRbg bw then
    (List.range (getMinRbUnit bw)).foldl
      (fun mask j => mask &&& if vrbMap (getMinRbUnit bw * i + j) = 0 then 1 else 0) 1
  else memory i

/-- `rbgalloc_slice_mask` and `n_rbg_sched`, and the entries of `rbgalloc_mask` read so far. -/
structure DlScan where
  mask : ℕ → ℕ
  nRbgSched : ℕ
  read : List ℕ

def DlScan.step (rbgallocMask : ℕ → ℕ) (o : DlScan) (rbg : ℕ) : DlScan where
  mask := Function.update o.mask rbg (rbgallocMask rbg)
  nRbgSched := o.nRbgSched + rbgallocMask rbg
  read := o.read ++ [rbg]

/-- `for (int rbg = posLow; rbg <= posHigh && rbg <= N_RBG; ++rbg)`. -/
def dlScan (bw : Bandwidth) (rbgallocMask : ℕ → ℕ) (p : StaticSliceParam) : DlScan :=
  (p.indices.takeWhile (· ≤ toRbg bw)).foldl (DlScan.step rbgallocMask) ⟨fun _ => 0, 0, []⟩

/-- What `dl_algo.run` is called with. -/
structure DlRun where
  ues : List ℕ
  maxNumUe : ℕ
  nRbgSched : ℕ
  mask : ℕ → ℕ

/-- What `static_dl` does for a slice, one of `num`; it may skip it. -/
def staticDlSlice (bw : Bandwidth) (vrbMap memory : ℕ → ℕ) (num : ℕ) (s : Slice) : Option DlRun :=
  if s.ues = [] then none
  else if (dlScan bw (rbgallocMask bw vrbMap memory) s.algoData).nRbgSched = 0 then none
  else some
    { ues := s.ues
      maxNumUe := maxNumUe num
      nRbgSched := (dlScan bw (rbgallocMask bw vrbMap memory) s.algoData).nRbgSched
      mask := (dlScan bw (rbgallocMask bw vrbMap memory) s.algoData).mask }

/-! ## Uplink -/

/-- `contig_rbs_t`. -/
structure ContigRbs where
  start : ℕ
  length : ℕ
  deriving DecidableEq

structure UlScan where
  lastRbBlocked : Bool
  rbs : List ContigRbs

/-- `rbs[n_contig - 1].length = …`. -/
def setLength (rbs : List ContigRbs) (f : ℕ → ℕ) : List ContigRbs :=
  rbs.modify (rbs.length - 1) fun r => { r with length := f r.start }

/-- A step of the loop; `none` if `AssertFatal` ends the program. The length of a region that was
begun is what the memory held. -/
def UlScan.step (vrbMapUl : ℕ → ℕ) (memory : ℕ) (st : UlScan) (rb : ℕ) : Option UlScan :=
  if vrbMapUl rb = 0 ∧ st.lastRbBlocked = true then
    if st.rbs.length + 1 ≤ 2 then some ⟨false, st.rbs ++ [⟨rb, memory⟩]⟩ else none
  else if vrbMapUl rb = 1 ∧ st.lastRbBlocked = false then
    some ⟨true, setLength st.rbs fun start => rb - start⟩
  else some st

/-- The resource blocks of the range that lie in the carrier. -/
def ulIndices (bw : Bandwidth) (p : StaticSliceParam) : List ℕ :=
  List.range' p.posLow (min (p.posHigh + 1) (toPrb bw) - p.posLow)

/-- `for (int rb = posLow; rb <= posHigh && rb < N_RB_UL; ++rb)` and the length of the region that is
still open behind it. -/
def ulScan (bw : Bandwidth) (vrbMapUl : ℕ → ℕ) (memory : ℕ) (p : StaticSliceParam) :
    Option (List ContigRbs) :=
  ((ulIndices bw p).foldlM (UlScan.step vrbMapUl memory) ⟨true, []⟩).map fun st =>
    if st.lastRbBlocked then st.rbs else setLength st.rbs fun start => p.posHigh - start + 1

/-- What `ul_algo.run` is called with; `n_contig` is the number of regions. -/
structure UlRun where
  ues : List ℕ
  maxNumUe : ℕ
  rbs : List ContigRbs
  deriving DecidableEq

/-- What `static_ul` does for a slice, one of `num`; it may skip it. -/
def staticUlSlice (bw : Bandwidth) (vrbMapUl : ℕ → ℕ) (memory num : ℕ) (s : Slice) :
    Option (Option UlRun) :=
  if s.ues = [] then some none
  else (ulScan bw vrbMapUl memory s.algoData).map fun rbs =>
    if rbs.map (·.length) = [0] then none else some ⟨s.ues, maxNumUe num, rbs⟩

/-! ## The downlink mask -/

/-- The RBG is in the range and in the carrier, and all of it is free. On carriers of 15, 25, 50 and 75
RBs the last RBG has one RB less than the others: the entry of `vrb_map` behind the carrier counts as
one of its RBs. -/
def DlFree (bw : Bandwidth) (vrbMap : ℕ → ℕ) (p : StaticSliceParam) (i : ℕ) : Prop :=
  (p.posLow ≤ i ∧ i ≤ p.posHigh) ∧ i < toRbg bw ∧
    ∀ j < getMinRbUnit bw, vrbMap (getMinRbUnit bw * i + j) = 0

instance (bw : Bandwidth) (vrbMap : ℕ → ℕ) (p : StaticSliceParam) :
    DecidablePred (DlFree bw vrbMap p) := fun i => by
  unfold DlFree
  infer_instance

/-- What is promised of a slice on the downlink. -/
def DlRight (bw : Bandwidth) (vrbMap memory : ℕ → ℕ) (num : ℕ) (s : Slice) : Prop :=
  (∀ i ∈ (dlScan bw (rbgallocMask bw vrbMap memory) s.algoData).read, i < toRbg bw) ∧
    match staticDlSlice bw vrbMap memory num s with
    | none => ∀ i, ¬ DlFree bw vrbMap s.algoData i
    | some r => (∀ i, r.mask i = if DlFree bw vrbMap s.algoData i then 1 else 0) ∧
        r.nRbgSched = (List.range (toRbg bw)).countP fun i => DlFree bw vrbMap s.algoData i

section Downlink

variable {bw : Bandwidth} {vrbMap memory : ℕ → ℕ} {p : StaticSliceParam}

theorem foldl_and_eq {f : ℕ → Prop} [DecidablePred f] : ∀ (l : List ℕ) (a : ℕ), a ≤ 1 →
    l.foldl (fun mask j => mask &&& if f j then 1 else 0) a =
      if a = 1 ∧ ∀ j ∈ l, f j then 1 else 0
  | [], a, ha => by
      by_cases h : a = 1
      · simp [h]
      · simp only [List.foldl_nil, h, false_and, if_false]
        omega
  | j :: l, a, ha => by
      rw [List.foldl_cons, foldl_and_eq l _ (Nat.and_le_left.trans ha)]
      have hone : a &&& 1 = a := by
        obtain rfl | rfl : a = 0 ∨ a = 1 := by omega
        · rfl
        · rfl
      by_cases h : f j
      · rw [if_pos h, hone]
        simp only [List.forall_mem_cons, h, true_and]
      · rw [if_neg h, Nat.and_zero]
        simp only [List.forall_mem_cons, h, false_and, and_false, Nat.zero_ne_one]

/-- A computed entry of the mask is 1 if the RBG is free and 0 if not. -/
theorem rbgallocMask_eq {i : ℕ} (hi : i < toRbg bw) :
    rbgallocMask bw vrbMap memory i =
      if ∀ j < getMinRbUnit bw, vrbMap (getMinRbUnit bw * i + j) = 0 then 1 else 0 := by
  rw [rbgallocMask, if_pos hi,
    foldl_and_eq (f := fun j => vrbMap (getMinRbUnit bw * i + j) = 0) _ 1 le_rfl]
  simp only [true_and, List.mem_range]

theorem sum_map_ite (q : ℕ → Bool) : ∀ l : List ℕ,
    (l.map fun i => if q i = true then 1 else 0).sum = l.countP q
  | [] => rfl
  | i :: l => by
      rw [List.map_cons, List.sum_cons, sum_map_ite q l, List.countP_cons, Nat.add_comm]

/-- What the loop leaves after the entries of a list. -/
theorem foldl_step (m : ℕ → ℕ) : ∀ (l : List ℕ) (o : DlScan), l.Nodup →
    (∀ i, (l.foldl (DlScan.step m) o).mask i = if i ∈ l then m i else o.mask i) ∧
      (l.foldl (DlScan.step m) o).nRbgSched = o.nRbgSched + (l.map m).sum ∧
      (l.foldl (DlScan.step m) o).read = o.read ++ l
  | [], o, _ => by simp
  | rbg :: l, o, hl => by
      obtain ⟨hnot, hl⟩ := List.nodup_cons.mp hl
      obtain ⟨hmask, hn, hread⟩ := foldl_step m l (o.step m rbg) hl
      refine ⟨?_, ?_, ?_⟩
      · intro i
        rw [List.foldl_cons, hmask]
        by_cases hi : i = rbg
        · subst hi
          simp [hnot, DlScan.step]
        · simp [hi, DlScan.step]
      · rw [List.foldl_cons, hn, List.map_cons, List.sum_cons, ← Nat.add_assoc]
        rfl
      · rw [List.foldl_cons, hread, DlScan.step, List.append_assoc]
        rfl

theorem mem_takeWhile_le {n i : ℕ} : ∀ {l : List ℕ}, l.Pairwise (· < ·) →
    (i ∈ l.takeWhile (· ≤ n) ↔ i ∈ l ∧ i ≤ n)
  | [], _ => by simp
  | a :: l, hl => by
      obtain ⟨hlt, hl⟩ := List.pairwise_cons.mp hl
      by_cases ha : a ≤ n
      · rw [List.takeWhile_cons_of_pos (by simpa using ha), List.mem_cons, List.mem_cons,
          mem_takeWhile_le hl]
        by_cases hi : i = a
        · simp [hi, ha]
        · simp [hi]
      · rw [List.takeWhile_cons_of_neg (by simpa using ha)]
        refine iff_of_false List.not_mem_nil fun ⟨hi, hin⟩ => ?_
        rcases List.mem_cons.mp hi with rfl | hi
        · exact ha hin
        · have := hlt i hi
          omega

/-- The loop goes up to and including the entry behind the carrier. -/
theorem mem_dlIndices {i : ℕ} :
    i ∈ p.indices.takeWhile (· ≤ toRbg bw) ↔ (p.posLow ≤ i ∧ i ≤ p.posHigh) ∧ i ≤ toRbg bw := by
  rw [mem_takeWhile_le p.indices_sorted, StaticSliceParam.mem_indices]

theorem dlIndices_nodup (bw : Bandwidth) (p : StaticSliceParam) :
    (p.indices.takeWhile (· ≤ toRbg bw)).Nodup :=
  (p.indices_sorted.imp Nat.ne_of_lt).sublist (List.takeWhile_sublist _)

/-- The entries read are those the loop goes through. -/
theorem dlScan_read (m : ℕ → ℕ) :
    (dlScan bw m p).read = p.indices.takeWhile (· ≤ toRbg bw) :=
  (foldl_step m _ _ (dlIndices_nodup bw p)).2.2

section Inside

variable (h : ¬ (p.posLow ≤ toRbg bw ∧ toRbg bw ≤ p.posHigh))

include h

theorem lt_of_mem_dlIndices {i : ℕ} (hi : i ∈ p.indices.takeWhile (· ≤ toRbg bw)) :
    i < toRbg bw := by
  rw [mem_dlIndices] at hi
  omega

/-- The mask where only computed entries are read. -/
theorem dlScan_mask (i : ℕ) :
    (dlScan bw (rbgallocMask bw vrbMap memory) p).mask i =
      if DlFree bw vrbMap p i then 1 else 0 := by
  rw [dlScan, (foldl_step _ _ _ (dlIndices_nodup bw p)).1]
  by_cases hi : i ∈ p.indices.takeWhile (· ≤ toRbg bw)
  · have hlt := lt_of_mem_dlIndices h hi
    rw [mem_dlIndices] at hi
    rw [if_pos (mem_dlIndices.mpr hi), rbgallocMask_eq hlt]
    simp only [DlFree, hi.1, hlt, and_self, true_and]
  · rw [if_neg hi, if_neg fun hfree => hi (mem_dlIndices.mpr ⟨hfree.1, hfree.2.1.le⟩)]

theorem dlScan_nRbgSched :
    (dlScan bw (rbgallocMask bw vrbMap memory) p).nRbgSched =
      (List.range (toRbg bw)).countP fun i => DlFree bw vrbMap p i := by
  rw [dlScan, (foldl_step _ _ _ (dlIndices_nodup bw p)).2.1, Nat.zero_add]
  have hmap : (p.indices.takeWhile (· ≤ toRbg bw)).map (rbgallocMask bw vrbMap memory) =
      (p.indices.takeWhile (· ≤ toRbg bw)).map
        fun i => if decide (DlFree bw vrbMap p i) = true then 1 else 0 := by
    refine List.map_congr_left fun i hi => ?_
    have hlt := lt_of_mem_dlIndices h hi
    rw [mem_dlIndices] at hi
    rw [rbgallocMask_eq hlt]
    simp only [DlFree, hi.1, hlt, and_self, true_and, decide_eq_true_eq]
  rw [hmap, sum_map_ite, List.countP_eq_length_filter, List.countP_eq_length_filter]
  refine List.Perm.length_eq ((List.perm_ext_iff_of_nodup
    ((dlIndices_nodup bw p).filter _) (List.nodup_range.filter _)).mpr fun i => ?_)
  rw [List.mem_filter, List.mem_filter, List.mem_range, mem_dlIndices, decide_eq_true_eq]
  exact ⟨fun hi => ⟨hi.2.2.1, hi.2⟩, fun hi => ⟨⟨hi.2.1, hi.1.le⟩, hi.2⟩⟩

end Inside

/-- On the downlink a slice is offered what is promised exactly if its range does not reach from
inside the carrier to behind it. -/
theorem dlRight_iff (bw : Bandwidth) (vrbMap memory : ℕ → ℕ) (num : ℕ) {s : Slice}
    (hs : s.ues ≠ []) :
    DlRight bw vrbMap memory num s ↔
      ¬ (s.algoData.posLow ≤ toRbg bw ∧ toRbg bw ≤ s.algoData.posHigh) := by
  constructor
  · rintro ⟨hread, -⟩ hedge
    have := hread (toRbg bw) (by rw [dlScan_read]; exact mem_dlIndices.mpr ⟨hedge, le_rfl⟩)
    omega
  · intro h
    refine ⟨fun i hi => lt_of_mem_dlIndices h (dlScan_read _ ▸ hi), ?_⟩
    have hn : (dlScan bw (rbgallocMask bw vrbMap memory) s.algoData).nRbgSched = _ :=
      dlScan_nRbgSched h
    rw [staticDlSlice, if_neg hs]
    split
    · rename_i hzero
      split at hzero
      · rename_i hnone
        rw [hn, List.countP_eq_zero] at hnone
        intro i hi
        exact hnone i (List.mem_range.mpr hi.2.1) (decide_eq_true hi)
      · cases hzero
    · rename_i r hr
      split at hr
      · cases hr
      · obtain rfl := Option.some.inj hr
        exact ⟨dlScan_mask h, hn⟩

end Downlink

/-! ## The uplink regions -/

/-- The RB is in the range and in the carrier, and it is free. -/
def UlFree (bw : Bandwidth) (vrbMapUl : ℕ → ℕ) (p : StaticSliceParam) (i : ℕ) : Prop :=
  (p.posLow ≤ i ∧ i ≤ p.posHigh) ∧ i < toPrb bw ∧ vrbMapUl i = 0

instance (bw : Bandwidth) (vrbMapUl : ℕ → ℕ) (p : StaticSliceParam) :
    DecidablePred (UlFree bw vrbMapUl p) := fun i => by
  unfold UlFree
  infer_instance

/-- The number of free regions: of the free RBs with no free one before them. -/
def freeRegions (bw : Bandwidth) (vrbMapUl : ℕ → ℕ) (p : StaticSliceParam) : ℕ :=
  (ulIndices bw p).countP fun i =>
    UlFree bw vrbMapUl p i ∧ ¬ (p.posLow < i ∧ UlFree bw vrbMapUl p (i - 1))

/-- A region by its start and its length. -/
def ContigRbs.pair (r : ContigRbs) : ℕ × ℕ := (r.start, r.length)

/-- What is promised of a slice on the uplink. -/
def UlRight (bw : Bandwidth) (vrbMapUl : ℕ → ℕ) (memory num : ℕ) (s : Slice) : Prop :=
  ∃ rbs, staticUlSlice bw vrbMapUl memory num s = some (some ⟨s.ues, maxNumUe num, rbs⟩) ∧
    Scan.Pieces (UlFree bw vrbMapUl s.algoData) (rbs.map (·.pair))

section Uplink

variable {bw : Bandwidth} {vrbMapUl : ℕ → ℕ} {memory lo k : ℕ}

/-- A region is open after `k` steps: the last RB marked free or blocked is free. -/
def openAfter (vrbMapUl : ℕ → ℕ) (lo : ℕ) : ℕ → Bool
  | 0 => false
  | k + 1 => vrbMapUl (lo + k) = 0 || (vrbMapUl (lo + k) ≠ 1 && openAfter vrbMapUl lo k)

/-- The RBs of the regions after `k` steps. -/
def Held (vrbMapUl : ℕ → ℕ) (lo k i : ℕ) : Prop :=
  lo ≤ i ∧ i < lo + k ∧ openAfter vrbMapUl lo (i + 1 - lo) = true

/-- The number of regions begun in `k` steps. -/
def begun (vrbMapUl : ℕ → ℕ) (lo k : ℕ) : ℕ :=
  (List.range k).countP fun j => openAfter vrbMapUl lo (j + 1) && !openAfter vrbMapUl lo j

theorem begun_succ : begun vrbMapUl lo (k + 1) = begun vrbMapUl lo k +
    if (openAfter vrbMapUl lo (k + 1) && !openAfter vrbMapUl lo k) = true then 1 else 0 := by
  rw [begun, List.range_succ, List.countP_append, List.countP_singleton]
  rfl

theorem held_succ {i : ℕ} : Held vrbMapUl lo (k + 1) i ↔
    Held vrbMapUl lo k i ∨ i = lo + k ∧ openAfter vrbMapUl lo (k + 1) = true := by
  by_cases hi : i = lo + k
  · subst hi
    have hlen : lo + k + 1 - lo = k + 1 := by omega
    simp only [Held, hlen]
    constructor
    · exact fun h => Or.inr ⟨trivial, h.2.2⟩
    · rintro (h | h)
      · omega
      · exact ⟨by omega, by omega, h.2⟩
  · simp only [Held, hi, false_and, or_false]
    refine and_congr_right fun _ => and_congr_left fun _ => ?_
    omega

theorem modify_length_append {α : Type*} (f : α → α) (x : α) : ∀ l : List α,
    (l ++ [x]).modify l.length f = l ++ [f x]
  | [] => rfl
  | y :: l => by
      rw [List.cons_append, List.length_cons, List.modify_succ_cons, modify_length_append f x l]
      rfl

theorem setLength_append (rbs : List ContigRbs) (r : ContigRbs) (f : ℕ → ℕ) :
    setLength (rbs ++ [r]) f = rbs ++ [⟨r.start, f r.start⟩] := by
  rw [setLength, List.length_append, List.length_singleton, Nat.add_sub_cancel,
    modify_length_append]

/-- What is known of the scan after `k` steps. -/
structure Scanned (vrbMapUl : ℕ → ℕ) (lo k : ℕ) (st : UlScan) : Prop where
  blocked : st.lastRbBlocked = !openAfter vrbMapUl lo k
  length : st.rbs.length = begun vrbMapUl lo k
  of_closed : openAfter vrbMapUl lo k = false →
    Scan.Pieces (Held vrbMapUl lo k) (st.rbs.map (·.pair))
  of_open : openAfter vrbMapUl lo k = true → ∃ pre start len, st.rbs = pre ++ [⟨start, len⟩] ∧
    start < lo + k ∧
    Scan.Pieces (Held vrbMapUl lo k) (pre.map (·.pair) ++ [(start, lo + k - start)])

theorem Scanned.first : Scanned vrbMapUl lo 0 ⟨true, []⟩ where
  blocked := rfl
  length := rfl
  of_closed _ := Scan.Pieces.nil fun i hi => by
    have := hi.1
    have := hi.2.1
    omega
  of_open h := by cases h

/-- No RB behind the place where the scan stands, nor the one before it if that is not held. -/
theorem Held.lt {i : ℕ} (h : Held vrbMapUl lo k i) (hk : openAfter vrbMapUl lo k = false) :
    i + 1 < lo + k := by
  obtain ⟨hlo, hlt, hopen⟩ := h
  by_contra hge
  have : i + 1 - lo = k := by omega
  rw [this, hk] at hopen
  cases hopen

theorem Scanned.step {st : UlScan} (h : Scanned vrbMapUl lo k st)
    (hbegun : begun vrbMapUl lo (k + 1) ≤ 2) :
    ∃ st', st.step vrbMapUl memory (lo + k) = some st' ∧ Scanned vrbMapUl lo (k + 1) st' := by
  have hsucc : openAfter vrbMapUl lo (k + 1) =
      (decide (vrbMapUl (lo + k) = 0) ||
        (decide (vrbMapUl (lo + k) ≠ 1) && openAfter vrbMapUl lo k)) := rfl
  have hnum : begun vrbMapUl lo (k + 1) = _ := begun_succ
  have hblocked := h.blocked
  have hlength := h.length
  cases hk : openAfter vrbMapUl lo k <;> cases hk' : openAfter vrbMapUl lo (k + 1)
  · -- nothing is open, and the RB is not free
    have hfree : vrbMapUl (lo + k) ≠ 0 := by simpa [hk, hk'] using hsucc
    rw [hk] at hblocked
    refine ⟨st, ?_, ?_, ?_, fun _ => ?_, fun hc => ?_⟩
    · rw [UlScan.step, if_neg (by tauto), if_neg (by simp [hblocked])]
    · rw [hblocked, hk']
    · rw [hlength, hnum, hk, hk']
      rfl
    · refine (h.of_closed hk).congr fun i => ?_
      rw [held_succ, hk']
      simp
    · rw [hk'] at hc
      cases hc
  · -- a region begins
    have hfree : vrbMapUl (lo + k) = 0 := by simpa [hk, hk'] using hsucc
    rw [hk] at hblocked
    refine ⟨⟨false, st.rbs ++ [⟨lo + k, memory⟩]⟩, ?_, ?_, ?_, fun hc => ?_, fun _ => ?_⟩
    · rw [UlScan.step, if_pos ⟨hfree, hblocked⟩, if_pos]
      rw [hnum, hk, hk'] at hbegun
      simpa [hlength] using hbegun
    · rw [hk']
      rfl
    · rw [List.length_append, hlength, hnum, hk, hk']
      rfl
    · rw [hk'] at hc
      cases hc
    · refine ⟨st.rbs, lo + k, memory, rfl, by omega, ?_⟩
      have hlen : lo + (k + 1) - (lo + k) = 1 := by omega
      rw [hlen]
      refine ((h.of_closed hk).behind fun i hi => hi.lt hk).congr fun i => ?_
      rw [held_succ, hk']
      simp
  · -- a region ends
    have hone : vrbMapUl (lo + k) = 1 := by
      have : vrbMapUl (lo + k) ≠ 0 ∧ vrbMapUl (lo + k) = 1 := by simpa [hk, hk'] using hsucc
      exact this.2
    rw [hk] at hblocked
    obtain ⟨pre, start, len, hrbs, hstart, hpieces⟩ := h.of_open hk
    refine ⟨⟨true, setLength st.rbs fun start => lo + k - start⟩, ?_, ?_, ?_, fun _ => ?_,
      fun hc => ?_⟩
    · rw [UlScan.step, if_neg (by omega), if_pos ⟨hone, hblocked⟩]
    · rw [hk']
      rfl
    · rw [setLength, List.length_modify, hlength, hnum, hk, hk']
      rfl
    · rw [hrbs, setLength_append, List.map_append, List.map_singleton]
      refine hpieces.congr fun i => ?_
      rw [held_succ, hk']
      simp
    · rw [hk'] at hc
      cases hc
  · -- a region goes on
    have hne : vrbMapUl (lo + k) ≠ 1 := by
      intro hone
      simp [hk, hk', hone] at hsucc
    rw [hk] at hblocked
    obtain ⟨pre, start, len, hrbs, hstart, hpieces⟩ := h.of_open hk
    refine ⟨st, ?_, ?_, ?_, fun hc => ?_, fun _ => ⟨pre, start, len, hrbs, by omega, ?_⟩⟩
    · rw [UlScan.step, if_neg (by simp [hblocked]), if_neg (by tauto)]
    · rw [hblocked, hk']
    · rw [hlength, hnum, hk, hk']
      rfl
    · rw [hk'] at hc
      cases hc
    · have hlen : lo + (k + 1) - start = lo + k - start + 1 := by omega
      have hend : start + (lo + k - start) = lo + k := by omega
      rw [hlen]
      refine hpieces.extend.congr fun i => ?_
      rw [held_succ, hk', hend]
      simp

theorem begun_mono {k' : ℕ} (h : k ≤ k') : begun vrbMapUl lo k ≤ begun vrbMapUl lo k' :=
  List.Sublist.countP_le (List.range_sublist.mpr h)

/-- The scan of `k` resource blocks. -/
theorem scanned : ∀ k, begun vrbMapUl lo k ≤ 2 →
    ∃ st, (List.range' lo k).foldlM (UlScan.step vrbMapUl memory) ⟨true, []⟩ = some st ∧
      Scanned vrbMapUl lo k st
  | 0, _ => ⟨_, rfl, .first⟩
  | k + 1, h => by
      obtain ⟨st, hst, hscan⟩ := scanned k ((begun_mono (Nat.le_succ k)).trans h)
      obtain ⟨st', hst', hscan'⟩ := hscan.step h
      refine ⟨st', ?_, hscan'⟩
      rw [List.range'_1_concat, List.foldlM_append, hst]
      simpa using hst'

/-! ## When the regions are the free ones -/

variable {p : StaticSliceParam}

/-- The number of resource blocks the loop goes through. -/
def ulCount (bw : Bandwidth) (p : StaticSliceParam) : ℕ :=
  min (p.posHigh + 1) (toPrb bw) - p.posLow

theorem ulFree_iff {i : ℕ} : UlFree bw vrbMapUl p i ↔
    p.posLow ≤ i ∧ i < p.posLow + ulCount bw p ∧ vrbMapUl i = 0 := by
  rw [UlFree, ulCount]
  omega

/-- An RB whose entry is neither 0 nor 1 does not follow a free one. -/
def Marked (bw : Bandwidth) (vrbMapUl : ℕ → ℕ) (p : StaticSliceParam) : Prop :=
  ∀ i, p.posLow ≤ i → i < p.posHigh → i + 1 < toPrb bw → vrbMapUl i = 0 → vrbMapUl (i + 1) ≤ 1

theorem openAfter_of_free {i : ℕ} (hi : lo ≤ i) (h : vrbMapUl i = 0) :
    openAfter vrbMapUl lo (i + 1 - lo) = true := by
  have hlen : i + 1 - lo = i - lo + 1 := by omega
  have hplace : lo + (i - lo) = i := by omega
  rw [hlen, openAfter, hplace, h]
  rfl

theorem Marked.openAfter_iff (h : Marked bw vrbMapUl p) : ∀ j < ulCount bw p,
    (openAfter vrbMapUl p.posLow (j + 1) = true ↔ vrbMapUl (p.posLow + j) = 0) := by
  intro j
  induction j with
  | zero => simp [openAfter]
  | succ j ih =>
      intro hj
      rw [openAfter, Bool.or_eq_true, Bool.and_eq_true, ih (by omega), decide_eq_true_eq,
        decide_eq_true_eq]
      refine or_iff_left_of_imp fun ⟨hne, hfree⟩ => ?_
      rw [ulCount] at hj
      have := h (p.posLow + j) (by omega) (by omega) (by omega) hfree
      rw [Nat.add_assoc] at this
      omega

theorem marked_iff : Marked bw vrbMapUl p ↔
    ∀ i, UlFree bw vrbMapUl p i ↔ Held vrbMapUl p.posLow (ulCount bw p) i := by
  constructor
  · intro h i
    rw [ulFree_iff, Held]
    refine and_congr_right fun hlo => and_congr_right fun hlt => ?_
    have hlen : i + 1 - p.posLow = i - p.posLow + 1 := by omega
    have hplace : p.posLow + (i - p.posLow) = i := by omega
    rw [hlen, h.openAfter_iff _ (by omega), hplace]
  · intro h i hlo hhi hN hfree
    by_contra hv
    have hopen : openAfter vrbMapUl p.posLow (i + 1 - p.posLow) = true :=
      openAfter_of_free hlo hfree
    have hlen : i + 1 + 1 - p.posLow = i + 1 - p.posLow + 1 := by omega
    have hplace : p.posLow + (i + 1 - p.posLow) = i + 1 := by omega
    have hheld : Held vrbMapUl p.posLow (ulCount bw p) (i + 1) := by
      refine ⟨by omega, by rw [ulCount]; omega, ?_⟩
      rw [hlen, openAfter, hplace, hopen]
      simp only [Bool.and_true, Bool.or_eq_true, decide_eq_true_eq]
      omega
    have := (ulFree_iff.mp ((h (i + 1)).mpr hheld)).2.2
    omega

/-- No more regions are begun than there are free ones. -/
theorem begun_le_freeRegions :
    begun vrbMapUl p.posLow (ulCount bw p) ≤ freeRegions bw vrbMapUl p := by
  rw [begun, freeRegions, ulIndices, List.range'_eq_map_range, List.countP_map]
  refine List.countP_mono_left fun j hj hb => ?_
  rw [List.mem_range] at hj
  simp only [Bool.and_eq_true, Bool.not_eq_true'] at hb
  obtain ⟨hopen, hclosed⟩ := hb
  rw [openAfter, hclosed, Bool.and_false, Bool.or_false, decide_eq_true_eq] at hopen
  change decide (UlFree bw vrbMapUl p (p.posLow + j) ∧
    ¬ (p.posLow < p.posLow + j ∧ UlFree bw vrbMapUl p (p.posLow + j - 1))) = true
  refine decide_eq_true ⟨ulFree_iff.mpr ⟨by omega, by omega, hopen⟩, fun ⟨hlt, hprev⟩ => ?_⟩
  have hlo : p.posLow ≤ p.posLow + j - 1 := by omega
  have hlen : p.posLow + j - 1 + 1 - p.posLow = j := by omega
  have hbefore := openAfter_of_free hlo (ulFree_iff.mp hprev).2.2
  rw [hlen, hclosed] at hbefore
  cases hbefore

/-- The slice is not skipped, as no region is empty. -/
theorem ulRight_iff_pieces {s : Slice} (hs : s.ues ≠ []) {num : ℕ} {rbs : List ContigRbs}
    (hscan : ulScan bw vrbMapUl memory s.algoData = some rbs) (hpos : ∀ r ∈ rbs, 0 < r.length) :
    UlRight bw vrbMapUl memory num s ↔
      Scan.Pieces (UlFree bw vrbMapUl s.algoData) (rbs.map (·.pair)) := by
  have hrun : staticUlSlice bw vrbMapUl memory num s = some (some ⟨s.ues, maxNumUe num, rbs⟩) := by
    rw [staticUlSlice, if_neg hs, hscan, Option.map_some, if_neg]
    intro hzero
    have hmem : 0 ∈ rbs.map (·.length) := hzero ▸ List.mem_singleton_self 0
    obtain ⟨r, hr, hlen⟩ := List.mem_map.mp hmem
    exact absurd (hpos r hr) (by omega)
  constructor
  · rintro ⟨rbs', hrun', hpieces⟩
    rw [hrun] at hrun'
    injection hrun' with hrun'
    injection hrun' with hrun'
    injection hrun' with _ _ hrbs
    exact hrbs ▸ hpieces
  · exact fun hpieces => ⟨rbs, hrun, hpieces⟩

theorem pos_of_pieces {F : ℕ → Prop} {rbs : List ContigRbs}
    (h : Scan.Pieces F (rbs.map (·.pair))) : ∀ r ∈ rbs, 0 < r.length := fun r hr =>
  h.pos r.pair (List.mem_map_of_mem hr)

/-- Regions that are held are the free ones if no other entry follows a free RB. -/
theorem pieces_free_iff {rbs : List (ℕ × ℕ)}
    (h : Scan.Pieces (Held vrbMapUl p.posLow (ulCount bw p)) rbs) :
    Scan.Pieces (UlFree bw vrbMapUl p) rbs ↔ Marked bw vrbMapUl p := by
  rw [marked_iff]
  exact ⟨fun hfree i => (hfree.mem_iff i).trans (h.mem_iff i).symm,
    fun hiff => h.congr fun i => (hiff i).symm⟩

/-- On the uplink a slice with at most two free regions is offered what is promised exactly if no
RB with another entry than 0 and 1 follows a free one, and the last RB of the carrier is not a free
one in the range if the range goes on behind it. -/
theorem ulRight_iff (bw : Bandwidth) (vrbMapUl : ℕ → ℕ) (memory num : ℕ) {s : Slice}
    (hs : s.ues ≠ []) (hregions : freeRegions bw vrbMapUl s.algoData ≤ 2) :
    UlRight bw vrbMapUl memory num s ↔
      Marked bw vrbMapUl s.algoData ∧ ¬ (s.algoData.posLow < toPrb bw ∧
        toPrb bw ≤ s.algoData.posHigh ∧ vrbMapUl (toPrb bw - 1) = 0) := by
  obtain ⟨st, hst, hscan⟩ := @scanned vrbMapUl memory s.algoData.posLow (ulCount bw s.algoData)
    (begun_le_freeRegions.trans hregions)
  have hul : ulScan bw vrbMapUl memory s.algoData = some (if st.lastRbBlocked then st.rbs else
      setLength st.rbs fun start => s.algoData.posHigh - start + 1) := by
    rw [ulScan, ulIndices, ← ulCount, hst]
    rfl
  rw [hscan.blocked] at hul
  generalize hp : s.algoData = p at *
  cases hopen : openAfter vrbMapUl p.posLow (ulCount bw p) with
  | false =>
      have hpieces := hscan.of_closed hopen
      rw [hopen] at hul
      rw [ulRight_iff_pieces hs (hp ▸ hul) (pos_of_pieces hpieces), hp, pieces_free_iff hpieces]
      refine (and_iff_left ?_).symm
      rintro ⟨hlt, hle, hfree⟩
      have hlast := openAfter_of_free (show p.posLow ≤ toPrb bw - 1 by omega) hfree
      have hcount : toPrb bw - 1 + 1 - p.posLow = ulCount bw p := by
        rw [ulCount]
        omega
      rw [hcount, hopen] at hlast
      cases hlast
  | true =>
      obtain ⟨pre, start, len, hrbs, hstart, hpieces⟩ := hscan.of_open hopen
      rw [hopen, hrbs, setLength_append] at hul
      have hcount : 0 < ulCount bw p := by
        rcases Nat.eq_zero_or_pos (ulCount bw p) with h0 | h0
        · rw [h0] at hopen
          cases hopen
        · exact h0
      have hpos : ∀ r ∈ pre ++ [⟨start, p.posHigh - start + 1⟩], 0 < r.length := by
        intro r hr
        rcases List.mem_append.mp hr with hr | hr
        · exact hpieces.pos r.pair (List.mem_append_left _ (List.mem_map_of_mem hr))
        · obtain rfl := List.mem_singleton.mp hr
          exact Nat.succ_pos _
      rw [ulRight_iff_pieces hs (hp ▸ hul) hpos, hp, List.map_append, List.map_singleton]
      rw [ulCount] at hstart hcount
      by_cases hedge : toPrb bw ≤ p.posHigh
      · -- the last region is given a length beyond the carrier
        refine iff_of_false (fun hfree => ?_) fun ⟨hmarked, hno⟩ => hno ?_
        · have hbehind : UlFree bw vrbMapUl p (toPrb bw) := (hfree.mem_iff _).mpr
            ⟨_, List.mem_append_right _ (List.mem_singleton_self _), by
              dsimp only [ContigRbs.pair]
              omega⟩
          exact Nat.lt_irrefl _ hbehind.2.1
        · have hlast : Held vrbMapUl p.posLow (ulCount bw p) (toPrb bw - 1) := by
            have hlen : toPrb bw - 1 + 1 - p.posLow = ulCount bw p := by
              rw [ulCount]
              omega
            exact ⟨by omega, by rw [ulCount]; omega, by rw [hlen, hopen]⟩
          exact ⟨by omega, hedge, ((marked_iff.mp hmarked _).mpr hlast).2.2⟩
      · have hlen : p.posHigh - start + 1 = p.posLow + ulCount bw p - start := by
          rw [ulCount]
          omega
        change Scan.Pieces _ (pre.map (·.pair) ++ [(start, p.posHigh - start + 1)]) ↔ _
        rw [hlen, pieces_free_iff hpieces]
        exact (and_iff_left fun h => hedge h.2.1).symm

end Uplink

/-- What the slices are offered is right exactly if the range on the downlink does not reach from
inside the carrier to behind it, and the one on the uplink does so at most with a blocked RB at
the end of the carrier. -/
theorem static_slices_iff (bw bwUl : Bandwidth) (vrbMap vrbMapUl memory : ℕ → ℕ)
    (memoryUl num numUl : ℕ) (s t : Slice) (hs : s.ues ≠ []) (ht : t.ues ≠ [])
    (hregions : freeRegions bwUl vrbMapUl t.algoData ≤ 2) :
    (DlRight bw vrbMap memory num s ↔
      ¬ (s.algoData.posLow ≤ toRbg bw ∧ toRbg bw ≤ s.algoData.posHigh)) ∧
    (UlRight bwUl vrbMapUl memoryUl numUl t ↔
      Marked bwUl vrbMapUl t.algoData ∧ ¬ (t.algoData.posLow < toPrb bwUl ∧
        toPrb bwUl ≤ t.algoData.posHigh ∧ vrbMapUl (toPrb bwUl - 1) = 0)) :=
  ⟨dlRight_iff bw vrbMap memory num hs, ulRight_iff bwUl vrbMapUl memoryUl numUl ht hregions⟩

/-- On a carrier of 25 RBs the downlink slice ends at the carrier and its second RBG is blocked; the
uplink slice goes on behind the carrier, the last RB of which is blocked, and has two regions. -/
theorem static_slices_right_edge :
    DlRight .n25 (fun i => if i = 4 then 1 else 0) (fun _ => 7) 2
      ⟨1, none, ⟨none, none⟩, ⟨1, 12⟩, [4]⟩ ∧
    UlRight .n25 (fun i => if i = 3 ∨ i = 24 then 1 else 0) 7 1
      ⟨0, none, ⟨none, none⟩, ⟨0, 30⟩, [4]⟩ := by
  obtain ⟨hdl, hul⟩ := static_slices_iff .n25 .n25 (fun i => if i = 4 then 1 else 0)
    (fun i => if i = 3 ∨ i = 24 then 1 else 0) (fun _ => 7) 7 2 1
    ⟨1, none, ⟨none, none⟩, ⟨1, 12⟩, [4]⟩ ⟨0, none, ⟨none, none⟩, ⟨0, 30⟩, [4]⟩ (by decide) (by decide)
    (by decide)
  refine ⟨hdl.mpr (by decide), hul.mpr ⟨fun i _ _ _ _ => ?_, by decide⟩⟩
  dsimp only
  split
  · exact le_rfl
  · exact Nat.zero_le 1

/-- A downlink slice right behind a carrier of 17 RBGs is offered what the memory held. -/
theorem not_static_slices_right :
    ¬ ∀ (bw bwUl : Bandwidth) (vrbMap vrbMapUl memory : ℕ → ℕ) (memoryUl num numUl : ℕ)
      (s t : Slice), s.ues ≠ [] → t.ues ≠ [] →
      s.algoData.posLow + Link.dl.gap ≤ s.algoData.posHigh →
      s.algoData.posHigh < Link.dl.mapSize →
      t.algoData.posLow + Link.ul.gap ≤ t.algoData.posHigh →
      t.algoData.posHigh < Link.ul.mapSize → freeRegions bwUl vrbMapUl t.algoData ≤ 2 →
      DlRight bw vrbMap memory num s ∧ UlRight bwUl vrbMapUl memoryUl numUl t := by
  intro h
  have hright := (h .n50 .n50 (fun _ => 0) (fun _ => 0) (fun _ => 7) 7 2 1
    ⟨1, none, ⟨none, none⟩, ⟨17, 20⟩, [4]⟩ ⟨0, none, ⟨none, none⟩, ⟨0, 49⟩, [4]⟩ (by decide)
    (by decide) (by decide) (by decide) (by decide) (by decide) (by decide)).1.1 17 (by decide)
  exact absurd hright (by decide)

/-- An uplink slice that goes on behind the carrier is offered RBs there. -/
example : staticUlSlice .n50 (fun _ => 0) 7 1 ⟨0, none, ⟨none, none⟩, ⟨0, 99⟩, [4]⟩ =
    some (some ⟨[4], 4, [⟨0, 100⟩]⟩) := by
  decide

end OaiCu.LteMac
