import Mathlib.Algebra.BigOperators.Group.Finset.Basic
import OaiCu.NrRlc.AmTx

/-!
# RLC AM: the segments of an SDU

The segments of an SDU, in whatever list they are or freed already, are a partition of its
bytes; the counters of the SDU and of the entity say how many there are and how big. The
invariant is about the segments all together: moving a segment from one list to another
does not touch it.
-/

namespace OaiCu.NrRlc

/-! ## Counting -/

/-- The segment has byte `b` of the SDU `i`. -/
def Segment.covers (s : Segment) (i b : ℕ) : Bool :=
  s.sdu == i && decide (s.so ≤ b ∧ b < s.so + s.size)

/-- The number of segments that have byte `b` of the SDU `i`. -/
def cover (l : List Segment) (i b : ℕ) : ℕ := l.countP fun s => s.covers i b

/-- The number of segments of the SDU `i`. -/
def sduCount (l : List Segment) (i : ℕ) : ℕ := l.countP fun s => s.sdu == i

/-- The size of the PDUs that carry the segments. -/
def totalSize (cfg : AmConfig) (l : List Segment) : ℤ := (l.map fun s => (pduSize cfg s : ℤ)).sum

@[simp] theorem cover_nil (i b : ℕ) : cover [] i b = 0 := rfl

@[simp] theorem cover_cons (s : Segment) (l : List Segment) (i b : ℕ) :
    cover (s :: l) i b = (if s.covers i b then 1 else 0) + cover l i b := by
  unfold cover
  rw [List.countP_cons, add_comm]

@[simp] theorem cover_append (l l' : List Segment) (i b : ℕ) :
    cover (l ++ l') i b = cover l i b + cover l' i b := List.countP_append

@[simp] theorem sduCount_nil (i : ℕ) : sduCount [] i = 0 := rfl

@[simp] theorem sduCount_cons (s : Segment) (l : List Segment) (i : ℕ) :
    sduCount (s :: l) i = (if s.sdu = i then 1 else 0) + sduCount l i := by
  unfold sduCount
  rw [List.countP_cons, add_comm]
  simp

@[simp] theorem sduCount_append (l l' : List Segment) (i : ℕ) :
    sduCount (l ++ l') i = sduCount l i + sduCount l' i := List.countP_append

@[simp] theorem totalSize_nil (cfg : AmConfig) : totalSize cfg [] = 0 := rfl

@[simp] theorem totalSize_cons (cfg : AmConfig) (s : Segment) (l : List Segment) :
    totalSize cfg (s :: l) = pduSize cfg s + totalSize cfg l := by
  simp [totalSize]

@[simp] theorem totalSize_append (cfg : AmConfig) (l l' : List Segment) :
    totalSize cfg (l ++ l') = totalSize cfg l + totalSize cfg l' := by
  simp [totalSize]

theorem totalSize_perm {cfg : AmConfig} {l l' : List Segment} (h : l.Perm l') :
    totalSize cfg l = totalSize cfg l' := (h.map _).sum_eq

theorem sduCount_pos {l : List Segment} {s : Segment} (h : s ∈ l) : 0 < sduCount l s.sdu :=
  List.countP_pos_iff.mpr ⟨s, h, by simp⟩

theorem Segment.covers_iff {s : Segment} {i b : ℕ} :
    s.covers i b = true ↔ s.sdu = i ∧ s.so ≤ b ∧ b < s.so + s.size := by
  simp [Segment.covers]

/-! ## The invariant -/

/-- All segments of the entity; `lost` are those that are in no list and not freed. -/
def AmTx.segments (tx : AmTx) (lost : List Segment) : List Segment :=
  tx.txList ++ tx.waitList ++ tx.retransmitList ++ tx.freed ++ lost

/-- The size of an SDU, 0 once it is freed. -/
def Sdu.heldSize (s : Sdu) : ℤ := if s.isFreed then 0 else s.size

theorem Sdu.heldSize_of_lt {s : Sdu} (h : s.freeCount < s.refCount) : s.heldSize = s.size := by
  simp [Sdu.heldSize, Sdu.isFreed, h.ne]

theorem Sdu.heldSize_of_eq {s : Sdu} (h : s.freeCount = s.refCount) : s.heldSize = 0 := by
  simp [Sdu.heldSize, Sdu.isFreed, h]

/-- The sizes of the SDUs that are not freed. -/
def AmTx.heldSize (tx : AmTx) : ℤ := ∑ i ∈ Finset.range tx.nextSdu, (tx.heap i).heldSize

/-- The segments are a partition of the SDUs, and the counters of the SDUs count them. -/
structure AmTx.Parts (tx : AmTx) (lost : List Segment) : Prop where
  sdu_lt : ∀ s ∈ tx.segments lost, s.sdu < tx.nextSdu
  addr_lt : ∀ s ∈ tx.segments lost, s.addr < tx.nextSeg
  addr_nodup : ((tx.segments lost).map Segment.addr).Nodup
  cover_eq : ∀ i < tx.nextSdu, ∀ b,
    cover (tx.segments lost) i b = if b < (tx.heap i).size then 1 else 0
  isFirst_iff : ∀ s ∈ tx.segments lost, s.isFirst = true ↔ s.so = 0
  isLast_iff : ∀ s ∈ tx.segments lost, s.isLast = true ↔ s.so + s.size = (tx.heap s.sdu).size
  end_le : ∀ s ∈ tx.segments lost, s.so + s.size ≤ (tx.heap s.sdu).size
  /-- Only an SDU without data has a segment without data, and it has no other. -/
  size_pos : ∀ s ∈ tx.segments lost, s.size = 0 → (tx.heap s.sdu).size = 0
  empty_sdu : ∀ i < tx.nextSdu, (tx.heap i).size = 0 → (tx.heap i).refCount = 1
  size_le : ∀ i < tx.nextSdu, (tx.heap i).size ≤ nrSduMax
  refCount_eq : ∀ i < tx.nextSdu, (tx.heap i).refCount = sduCount (tx.segments lost) i
  freeCount_eq : ∀ i < tx.nextSdu, (tx.heap i).freeCount = sduCount tx.freed i

/-- The counters of the entity. -/
structure AmTx.Accounts (cfg : AmConfig) (tx : AmTx) : Prop where
  bstatusTxSize_eq : tx.bstatusTxSize = totalSize cfg tx.txList
  bstatusRetxSize_eq : tx.bstatusRetxSize = totalSize cfg tx.retransmitList
  txSize_eq : tx.txSize = tx.heldSize

section Parts

variable {cfg : AmConfig} {tx tx' : AmTx} {lost lost' : List Segment}

theorem parts_init : AmTx.Parts {} [] where
  sdu_lt := by simp [AmTx.segments]
  addr_lt := by simp [AmTx.segments]
  addr_nodup := List.nodup_nil
  cover_eq := by simp
  isFirst_iff := by simp [AmTx.segments]
  isLast_iff := by simp [AmTx.segments]
  end_le := by simp [AmTx.segments]
  size_pos := by simp [AmTx.segments]
  empty_sdu := by simp
  size_le := by simp
  refCount_eq := by simp
  freeCount_eq := by simp

theorem accounts_init : AmTx.Accounts cfg {} := ⟨rfl, rfl, rfl⟩

/-- What the invariant says of the segments does not depend on the lists they are in, and
of an SDU it only looks at the data and the two counters. -/
theorem AmTx.Parts.of_perm (h : tx.Parts lost)
    (hp : (tx'.segments lost').Perm (tx.segments lost)) (hsdu : tx'.nextSdu = tx.nextSdu)
    (hseg : tx'.nextSeg = tx.nextSeg)
    (hheap : ∀ i, (tx'.heap i).data = (tx.heap i).data ∧
      (tx'.heap i).refCount = (tx.heap i).refCount)
    (hfree : ∀ i < tx'.nextSdu, (tx'.heap i).freeCount = sduCount tx'.freed i) :
    tx'.Parts lost' := by
  have hsz : ∀ i, (tx'.heap i).size = (tx.heap i).size := fun i => by
    rw [Sdu.size, Sdu.size, (hheap i).1]
  refine ⟨?_, ?_, ?_, ?_, ?_, ?_, ?_, ?_, ?_, ?_, ?_, hfree⟩
  · intro s hs
    rw [hsdu]
    exact h.sdu_lt s (hp.mem_iff.mp hs)
  · intro s hs
    rw [hseg]
    exact h.addr_lt s (hp.mem_iff.mp hs)
  · exact (hp.map Segment.addr).nodup_iff.mpr h.addr_nodup
  · intro i hi b
    rw [hsz, ← h.cover_eq i (hsdu ▸ hi) b]
    exact hp.countP_eq _
  · exact fun s hs => h.isFirst_iff s (hp.mem_iff.mp hs)
  · intro s hs
    rw [hsz]
    exact h.isLast_iff s (hp.mem_iff.mp hs)
  · intro s hs
    rw [hsz]
    exact h.end_le s (hp.mem_iff.mp hs)
  · intro s hs
    rw [hsz]
    exact h.size_pos s (hp.mem_iff.mp hs)
  · intro i hi
    rw [hsz, (hheap i).2]
    exact h.empty_sdu i (hsdu ▸ hi)
  · intro i hi
    rw [hsz]
    exact h.size_le i (hsdu ▸ hi)
  · intro i hi
    rw [(hheap i).2, h.refCount_eq i (hsdu ▸ hi)]
    exact (hp.countP_eq _).symm

/-- Changing one SDU of the heap changes the sum by the difference. -/
theorem sum_heldSize_update {heap : ℕ → Sdu} {n j : ℕ} (hj : j < n) (sdu : Sdu) :
    ∑ i ∈ Finset.range n, (Function.update heap j sdu i).heldSize =
      ∑ i ∈ Finset.range n, (heap i).heldSize - (heap j).heldSize + sdu.heldSize := by
  have hmem : j ∈ Finset.range n := Finset.mem_range.mpr hj
  rw [← Finset.add_sum_erase _ _ hmem, ← Finset.add_sum_erase (Finset.range n) _ hmem,
    Function.update_self]
  have hrest : ∑ i ∈ (Finset.range n).erase j, (Function.update heap j sdu i).heldSize =
      ∑ i ∈ (Finset.range n).erase j, (heap i).heldSize :=
    Finset.sum_congr rfl fun i hi => by rw [Function.update_of_ne (Finset.ne_of_mem_erase hi)]
  rw [hrest]
  ring

/-- A segment that is in a list is not counted as freed. -/
theorem AmTx.Parts.freeCount_lt (h : tx.Parts lost) {s : Segment} {rest : List Segment}
    (hp : (s :: rest ++ tx.freed).Perm (tx.segments lost)) :
    (tx.heap s.sdu).freeCount < (tx.heap s.sdu).refCount := by
  have hlt := h.sdu_lt s (hp.mem_iff.mp (by simp))
  rw [h.freeCount_eq _ hlt, h.refCount_eq _ hlt, sduCount, sduCount, ← hp.countP_eq,
    List.cons_append, List.countP_cons, List.countP_append, beq_self_eq_true, if_pos rfl]
  omega

/-- **A segment is freed.** It goes from the lists to the freed ones. -/
theorem AmTx.Parts.free (h : tx.Parts lost) {s : Segment}
    (hp : (tx'.segments lost').Perm (tx.segments lost))
    (hheap : tx'.heap = (tx.freeSduSegment s).heap) (hsdu : tx'.nextSdu = tx.nextSdu)
    (hseg : tx'.nextSeg = tx.nextSeg) (hfreed : tx'.freed = tx.freed ++ [s]) :
    tx'.Parts lost' := by
  have hupd : tx'.heap = Function.update tx.heap s.sdu (tx.heap s.sdu).freeSegment := hheap
  have hlt : s.sdu < tx.nextSdu := by
    refine h.sdu_lt s (hp.mem_iff.mp ?_)
    simp [AmTx.segments, hfreed]
  refine h.of_perm hp hsdu hseg ?_ ?_
  · intro i
    by_cases hi : i = s.sdu
    · subst hi
      rw [hupd, Function.update_self]
      exact ⟨rfl, rfl⟩
    · rw [hupd, Function.update_of_ne hi]
      exact ⟨rfl, rfl⟩
  · intro i hi
    rw [hfreed, sduCount_append, sduCount_cons, sduCount_nil, hupd]
    by_cases his : i = s.sdu
    · subst his
      rw [Function.update_self, if_pos rfl, ← h.freeCount_eq _ hlt]
      rfl
    · rw [Function.update_of_ne his, if_neg (Ne.symm his), h.freeCount_eq i (hsdu ▸ hi)]
      rfl

/-- `tx_size` as the callers of `nr_rlc_free_sdu_segment` update it. -/
theorem AmTx.Parts.heldSize_free (h : tx.Parts lost) {s : Segment} {rest : List Segment}
    (hs : (s :: rest ++ tx.freed).Perm (tx.segments lost)) :
    (tx.freeSduSegment s).heldSize =
      if (tx.heap s.sdu).freeSegment.isFreed then tx.heldSize - (tx.heap s.sdu).size
      else tx.heldSize := by
  have hlt := h.sdu_lt s (hs.mem_iff.mp (by simp))
  have hheld := Sdu.heldSize_of_lt (h.freeCount_lt hs)
  have hsum : (tx.freeSduSegment s).heldSize =
      tx.heldSize - (tx.heap s.sdu).size + (tx.heap s.sdu).freeSegment.heldSize := by
    simp only [AmTx.heldSize, AmTx.freeSduSegment]
    rw [sum_heldSize_update hlt, hheld]
  rw [hsum, Sdu.heldSize]
  split
  · ring
  · rw [show (tx.heap s.sdu).freeSegment.size = (tx.heap s.sdu).size from rfl]
    ring

/-- Counting a retransmission leaves all but `retx_count` alone. -/
theorem countRetx_heap (cfg : AmConfig) (tx : AmTx) (s : Segment) (i : ℕ) :
    ((tx.countRetx cfg s).1.heap i).sn = (tx.heap i).sn ∧
      ((tx.countRetx cfg s).1.heap i).data = (tx.heap i).data ∧
      ((tx.countRetx cfg s).1.heap i).refCount = (tx.heap i).refCount ∧
      ((tx.countRetx cfg s).1.heap i).freeCount = (tx.heap i).freeCount := by
  unfold AmTx.countRetx
  by_cases hi : i = s.sdu
  · subst hi
    simp
  · simp [hi]

/-! ## Splitting a segment -/

/-- The two parts of a segment have its bytes between them. -/
theorem covers_resegment (s : Segment) (size addr i b : ℕ)
    (h1 : computePduHeaderSize cfg s < size) (h2 : size < pduSize cfg s) :
    (if (resegment cfg s size addr).1.covers i b then 1 else 0) +
        (if (resegment cfg s size addr).2.covers i b then 1 else 0) =
      (if s.covers i b then 1 else 0 : ℕ) := by
  unfold pduSize at h2
  simp only [Segment.covers_iff, resegment]
  by_cases hi : s.sdu = i
  · split_ifs <;> omega
  · simp [hi]

/-- **A segment is split.** -/
theorem AmTx.Parts.split (h : tx.Parts lost) {s : Segment} {rest : List Segment} {size : ℕ}
    (hs : (s :: rest ++ tx.freed).Perm (tx.segments lost))
    (h1 : computePduHeaderSize cfg s < size) (h2 : size < pduSize cfg s)
    (hp : (tx'.segments lost').Perm ((resegment cfg s size tx.nextSeg).1 ::
      (resegment cfg s size tx.nextSeg).2 :: rest ++ tx.freed))
    (hsdu : tx'.nextSdu = tx.nextSdu) (hseg : tx'.nextSeg = tx.nextSeg + 1)
    (hdata : ∀ i, (tx'.heap i).data = (tx.heap i).data)
    (href : ∀ i, (tx'.heap i).refCount = (tx.heap i).refCount + if s.sdu = i then 1 else 0)
    (hfree : ∀ i, (tx'.heap i).freeCount = (tx.heap i).freeCount)
    (hfreed : tx'.freed = tx.freed) : tx'.Parts lost' ∧ tx'.heldSize = tx.heldSize := by
  have hsz : ∀ i, (tx'.heap i).size = (tx.heap i).size := fun i => by
    rw [Sdu.size, Sdu.size, hdata]
  have hmem : s ∈ tx.segments lost := hs.mem_iff.mp (by simp)
  have hlt := h.sdu_lt s hmem
  have hlive := h.freeCount_lt hs
  have hover : 1 < s.size := by unfold pduSize at h2; omega
  -- a segment now is one of the two parts or was there before
  have hcases : ∀ x ∈ tx'.segments lost', x = (resegment cfg s size tx.nextSeg).1 ∨
      x = (resegment cfg s size tx.nextSeg).2 ∨ (x ∈ rest ++ tx.freed ∧ x ∈ tx.segments lost) := by
    intro x hx
    have := hp.mem_iff.mp hx
    rw [List.cons_append, List.cons_append, List.mem_cons, List.mem_cons] at this
    rcases this with hx | hx | hx
    · exact .inl hx
    · exact .inr (.inl hx)
    · exact .inr (.inr ⟨hx, hs.mem_iff.mp (List.mem_cons_of_mem _ hx)⟩)
  have hend := h.end_le s hmem
  have hlast := h.isLast_iff s hmem
  have hfirst := h.isFirst_iff s hmem
  unfold pduSize at h2
  refine ⟨⟨?_, ?_, ?_, ?_, ?_, ?_, ?_, ?_, ?_, ?_, ?_, ?_⟩, ?_⟩
  · intro x hx
    rw [hsdu]
    rcases hcases x hx with rfl | rfl | ⟨-, hx⟩
    · exact hlt
    · exact hlt
    · exact h.sdu_lt x hx
  · intro x hx
    rw [hseg]
    rcases hcases x hx with rfl | rfl | ⟨-, hx⟩
    · exact Nat.lt_succ_of_lt (h.addr_lt s hmem)
    · exact Nat.lt_succ_self _
    · exact Nat.lt_succ_of_lt (h.addr_lt x hx)
  · rw [(hp.map Segment.addr).nodup_iff, List.cons_append, List.cons_append, List.map_cons,
      List.map_cons]
    have hn := (hs.map Segment.addr).nodup_iff.mpr h.addr_nodup
    rw [List.cons_append, List.map_cons, List.nodup_cons] at hn
    refine List.nodup_cons.mpr ⟨?_, List.nodup_cons.mpr ⟨?_, hn.2⟩⟩
    · rw [List.mem_cons, not_or]
      exact ⟨(h.addr_lt s hmem).ne, hn.1⟩
    · intro hin
      obtain ⟨x, hx, hxa⟩ := List.mem_map.mp hin
      have := h.addr_lt x (hs.mem_iff.mp (List.mem_cons_of_mem _ hx))
      exact this.ne hxa
  · intro i hi b
    rw [hsz, ← h.cover_eq i (hsdu ▸ hi) b, cover, hp.countP_eq, ← cover, cover, cover,
      ← hs.countP_eq, ← cover, ← cover]
    simp only [List.cons_append, cover_cons]
    rw [← covers_resegment s size tx.nextSeg i b h1 (by unfold pduSize; omega)]
    omega
  · intro x hx
    rcases hcases x hx with rfl | rfl | ⟨-, hx⟩
    · exact hfirst
    · simp only [resegment, Bool.false_eq_true, false_iff]
      omega
    · exact h.isFirst_iff x hx
  · intro x hx
    rw [hsz]
    rcases hcases x hx with rfl | rfl | ⟨-, hx⟩
    · simp only [resegment, Bool.false_eq_true, false_iff]
      omega
    · simp only [resegment]
      rw [hlast]
      omega
    · exact h.isLast_iff x hx
  · intro x hx
    rw [hsz]
    rcases hcases x hx with rfl | rfl | ⟨-, hx⟩
    · simp only [resegment]
      omega
    · simp only [resegment]
      omega
    · exact h.end_le x hx
  · intro x hx
    rw [hsz]
    rcases hcases x hx with rfl | rfl | ⟨-, hx⟩
    · simp only [resegment]
      omega
    · simp only [resegment]
      omega
    · exact h.size_pos x hx
  · intro i hi
    rw [hsz, href]
    intro h0
    by_cases his : s.sdu = i
    · subst his
      omega
    · rw [if_neg his]
      exact h.empty_sdu i (hsdu ▸ hi) h0
  · intro i hi
    rw [hsz]
    exact h.size_le i (hsdu ▸ hi)
  · intro i hi
    rw [href, h.refCount_eq i (hsdu ▸ hi), sduCount, sduCount, hp.countP_eq, ← hs.countP_eq,
      ← sduCount, ← sduCount]
    simp only [List.cons_append, sduCount_cons, resegment]
    omega
  · intro i hi
    rw [hfree, hfreed, h.freeCount_eq i (hsdu ▸ hi)]
  · rw [AmTx.heldSize, AmTx.heldSize, hsdu]
    refine Finset.sum_congr rfl fun i _ => ?_
    by_cases his : s.sdu = i
    · subst his
      rw [Sdu.heldSize_of_lt hlive, Sdu.heldSize_of_lt (by rw [href, hfree]; omega), hsz]
    · simp [Sdu.heldSize, Sdu.isFreed, hsz, hfree, href, his]

/-! ## A new SDU -/

/-- **An SDU is accepted.** It comes with one segment. -/
theorem AmTx.Parts.add (h : tx.Parts lost) {buffer : List UInt8} {sduId : ℤ}
    (hlen : buffer.length ≤ nrSduMax)
    (hp : (tx'.segments lost').Perm
      (newSegment tx.nextSeg tx.nextSdu buffer.length :: tx.segments lost))
    (hheap : tx'.heap = Function.update tx.heap tx.nextSdu (newSdu buffer sduId))
    (hsdu : tx'.nextSdu = tx.nextSdu + 1) (hseg : tx'.nextSeg = tx.nextSeg + 1)
    (hfreed : tx'.freed = tx.freed) :
    tx'.Parts lost' ∧ tx'.heldSize = tx.heldSize + buffer.length := by
  have hold : ∀ {i}, i < tx.nextSdu → tx'.heap i = tx.heap i := fun hi => by
    rw [hheap, Function.update_of_ne hi.ne]
  have hnew : tx'.heap tx.nextSdu = newSdu buffer sduId := by rw [hheap, Function.update_self]
  have hcases : ∀ x ∈ tx'.segments lost',
      x = newSegment tx.nextSeg tx.nextSdu buffer.length ∨ x ∈ tx.segments lost :=
    fun x hx => List.mem_cons.mp (hp.mem_iff.mp hx)
  have hno : ∀ x ∈ tx.segments lost, x.sdu ≠ tx.nextSdu := fun x hx => (h.sdu_lt x hx).ne
  have hi' : ∀ {i}, i < tx'.nextSdu → i = tx.nextSdu ∨ i < tx.nextSdu := fun hi => by omega
  refine ⟨⟨?_, ?_, ?_, ?_, ?_, ?_, ?_, ?_, ?_, ?_, ?_, ?_⟩, ?_⟩
  · intro x hx
    rw [hsdu]
    rcases hcases x hx with rfl | hx
    · exact Nat.lt_succ_self _
    · exact Nat.lt_succ_of_lt (h.sdu_lt x hx)
  · intro x hx
    rw [hseg]
    rcases hcases x hx with rfl | hx
    · exact Nat.lt_succ_self _
    · exact Nat.lt_succ_of_lt (h.addr_lt x hx)
  · rw [(hp.map Segment.addr).nodup_iff, List.map_cons]
    refine List.nodup_cons.mpr ⟨?_, h.addr_nodup⟩
    intro hin
    obtain ⟨x, hx, hxa⟩ := List.mem_map.mp hin
    exact (h.addr_lt x hx).ne hxa
  · intro i hi b
    rw [cover, hp.countP_eq, ← cover, cover_cons]
    rcases hi' hi with rfl | hi
    · have h0 : cover (tx.segments lost) tx.nextSdu b = 0 := by
        refine List.countP_eq_zero.mpr fun x hx hc => hno x hx ?_
        exact (Segment.covers_iff.mp hc).1
      rw [hnew, h0, add_zero]
      refine if_congr ?_ rfl rfl
      simp [Segment.covers_iff, newSegment, newSdu, Sdu.size]
    · rw [hold hi, ← h.cover_eq i hi b, if_neg, zero_add]
      rw [Segment.covers_iff]
      exact fun hc => hi.ne' hc.1
  · intro x hx
    rcases hcases x hx with rfl | hx
    · simp [newSegment]
    · exact h.isFirst_iff x hx
  · intro x hx
    rcases hcases x hx with rfl | hx
    · simp [newSegment, hnew, newSdu, Sdu.size]
    · rw [hold (h.sdu_lt x hx)]
      exact h.isLast_iff x hx
  · intro x hx
    rcases hcases x hx with rfl | hx
    · simp [newSegment, hnew, newSdu, Sdu.size]
    · rw [hold (h.sdu_lt x hx)]
      exact h.end_le x hx
  · intro x hx
    rcases hcases x hx with rfl | hx
    · simp [newSegment, hnew, newSdu, Sdu.size]
    · rw [hold (h.sdu_lt x hx)]
      exact h.size_pos x hx
  · intro i hi
    rcases hi' hi with rfl | hi
    · rw [hnew]
      exact fun _ => rfl
    · rw [hold hi]
      exact h.empty_sdu i hi
  · intro i hi
    rcases hi' hi with rfl | hi
    · rw [hnew]
      exact hlen
    · rw [hold hi]
      exact h.size_le i hi
  · intro i hi
    rw [sduCount, hp.countP_eq, ← sduCount, sduCount_cons]
    rcases hi' hi with rfl | hi
    · have h0 : sduCount (tx.segments lost) tx.nextSdu = 0 :=
        List.countP_eq_zero.mpr fun x hx hc => hno x hx (by simpa using hc)
      rw [hnew, h0]
      simp [newSegment, newSdu]
    · rw [hold hi, h.refCount_eq i hi]
      simp [newSegment, hi.ne']
  · intro i hi
    rw [hfreed]
    rcases hi' hi with rfl | hi
    · have h0 : sduCount tx.freed tx.nextSdu = 0 :=
        List.countP_eq_zero.mpr fun x hx hc =>
          hno x (by simp [AmTx.segments, hx]) (by simpa using hc)
      rw [hnew, h0]
      rfl
    · rw [hold hi, h.freeCount_eq i hi]
  · rw [AmTx.heldSize, AmTx.heldSize, hsdu, Finset.sum_range_succ, hnew]
    congr 1
    exact Finset.sum_congr rfl fun i hi => by rw [hold (Finset.mem_range.mp hi)]

/-! ## Clearing the entity -/

theorem foldl_freeSduSegment (l : List Segment) (tx : AmTx) :
    (l.foldl AmTx.freeSduSegment tx).freed = tx.freed ++ l ∧
      (l.foldl AmTx.freeSduSegment tx).nextSdu = tx.nextSdu ∧
      (l.foldl AmTx.freeSduSegment tx).nextSeg = tx.nextSeg ∧
      ∀ i, (l.foldl AmTx.freeSduSegment tx).heap i =
        { tx.heap i with freeCount := (tx.heap i).freeCount + sduCount l i } := by
  induction l generalizing tx with
  | nil => simp
  | cons s l ih =>
      obtain ⟨h1, h2, h3, h4⟩ := ih (tx.freeSduSegment s)
      rw [List.foldl_cons]
      refine ⟨?_, h2, h3, fun i => ?_⟩
      · rw [h1, AmTx.freeSduSegment, List.append_assoc]
        rfl
      · rw [h4 i, sduCount_cons]
        simp only [AmTx.freeSduSegment]
        by_cases hi : i = s.sdu
        · subst hi
          rw [Function.update_self, if_pos rfl]
          simp only [Sdu.freeSegment, Sdu.mk.injEq, true_and]
          omega
        · rw [Function.update_of_ne hi, if_neg (Ne.symm hi), zero_add]

/-- **The entity is cleared.** If nothing was lost, all SDUs are freed. -/
theorem AmTx.Parts.clear (h : tx.Parts lost) :
    (clearTx tx).Parts lost ∧ (lost = [] → (clearTx tx).heldSize = 0) := by
  obtain ⟨h1, h2, h3, h4⟩ :=
    foldl_freeSduSegment (tx.txList ++ tx.waitList ++ tx.retransmitList) tx
  have hp : ((clearTx tx).segments lost).Perm (tx.segments lost) := by
    simp only [clearTx, AmTx.segments, h1, List.nil_append]
    refine List.Perm.append_right _ ?_
    exact List.perm_append_comm
  have hheap : ∀ i, (clearTx tx).heap i =
      { tx.heap i with
        freeCount := (tx.heap i).freeCount +
          sduCount (tx.txList ++ tx.waitList ++ tx.retransmitList) i } := h4
  have hfree : ∀ i < tx.nextSdu, ((clearTx tx).heap i).freeCount =
      sduCount (clearTx tx).freed i := by
    intro i hi
    rw [hheap]
    simp only [clearTx, h1, h.freeCount_eq i hi, sduCount_append]
  refine ⟨h.of_perm hp h2 h3 (fun i => by rw [hheap]; exact ⟨rfl, rfl⟩)
    (fun i hi => hfree i (h2 ▸ hi)), ?_⟩
  intro hl
  refine Finset.sum_eq_zero fun i hi => ?_
  have hlt : i < tx.nextSdu := h2 ▸ Finset.mem_range.mp hi
  apply Sdu.heldSize_of_eq
  rw [hfree i hlt, hheap]
  simp only [h.refCount_eq i hlt, clearTx, h1, AmTx.segments, hl, List.append_nil, sduCount_append]
  omega

/-! ## What follows -/

/-- Two segments that share a byte are one. -/
theorem AmTx.Parts.eq_of_covers (h : tx.Parts lost) {s s' : Segment} {b : ℕ}
    (hs : s ∈ tx.segments lost) (hs' : s' ∈ tx.segments lost)
    (hb : s.covers s.sdu b = true) (hb' : s'.covers s.sdu b = true) : s = s' := by
  by_contra hne
  have hcov := h.cover_eq s.sdu (h.sdu_lt s hs) b
  have htwo : 2 ≤ cover (tx.segments lost) s.sdu b := by
    obtain ⟨l, hl⟩ := List.mem_iff_append.mp hs
    obtain ⟨l', hl⟩ := hl
    have hmem : s' ∈ l ++ l' := by
      rw [hl, List.mem_append, List.mem_cons] at hs'
      rcases hs' with hs' | hs' | hs'
      · exact List.mem_append_left _ hs'
      · exact absurd hs'.symm hne
      · exact List.mem_append_right _ hs'
    have hpos : 0 < cover (l ++ l') s.sdu b := List.countP_pos_iff.mpr ⟨s', hmem, hb'⟩
    rw [hl, cover_append, cover_cons, if_pos hb]
    rw [cover_append] at hpos
    omega
  split at hcov <;> omega

/-- Two segments of an SDU with the same SO are one. -/
theorem AmTx.Parts.eq_of_so (h : tx.Parts lost) {s s' : Segment}
    (hs : s ∈ tx.segments lost) (hs' : s' ∈ tx.segments lost) (hsdu : s'.sdu = s.sdu)
    (hso : s'.so = s.so) : s = s' := by
  by_cases h0 : (tx.heap s.sdu).size = 0
  · -- an SDU without data has one segment
    by_contra hne
    have hlt := h.sdu_lt s hs
    have href := h.empty_sdu _ hlt h0
    rw [h.refCount_eq _ hlt] at href
    obtain ⟨l, l', hl⟩ := List.mem_iff_append.mp hs
    have hmem : s' ∈ l ++ l' := by
      rw [hl, List.mem_append, List.mem_cons] at hs'
      rcases hs' with hs' | hs' | hs'
      · exact List.mem_append_left _ hs'
      · exact absurd hs'.symm hne
      · exact List.mem_append_right _ hs'
    have hpos := sduCount_pos hmem
    rw [hsdu] at hpos
    rw [hl, sduCount_append, sduCount_cons, if_pos rfl] at href
    rw [sduCount_append] at hpos
    omega
  · have hpos : 0 < s.size := Nat.pos_of_ne_zero fun hz => h0 (h.size_pos s hs hz)
    have hpos' : 0 < s'.size := Nat.pos_of_ne_zero fun hz => h0 (hsdu ▸ h.size_pos s' hs' hz)
    exact h.eq_of_covers hs hs' (b := s.so)
      (Segment.covers_iff.mpr ⟨rfl, le_refl _, by omega⟩)
      (Segment.covers_iff.mpr ⟨hsdu, by omega, by omega⟩)

/-- Of two segments of an SDU, the second starts behind the first. -/
theorem AmTx.Parts.end_le_so (h : tx.Parts lost) {s s' : Segment}
    (hs : s ∈ tx.segments lost) (hs' : s' ∈ tx.segments lost) (hsdu : s'.sdu = s.sdu)
    (hne : s ≠ s') (hso : s.so ≤ s'.so) : s.so + s.size ≤ s'.so := by
  by_contra hlt
  by_cases h0 : s'.size = 0
  · have h0' := h.size_pos s' hs' h0
    have hend := h.end_le s hs
    have hend' := h.end_le s' hs'
    rw [hsdu] at h0' hend'
    omega
  · exact hne (h.eq_of_covers hs hs' (b := s'.so)
      (Segment.covers_iff.mpr ⟨rfl, hso, by omega⟩)
      (Segment.covers_iff.mpr ⟨hsdu, le_refl _, by omega⟩))

/-- A segment that is a whole SDU is the only one of it. -/
theorem AmTx.Parts.eq_of_whole (h : tx.Parts lost) {s s' : Segment}
    (hs : s ∈ tx.segments lost) (hs' : s' ∈ tx.segments lost) (hsdu : s'.sdu = s.sdu)
    (hfirst : s.isFirst = true) (hlast : s.isLast = true) : s = s' := by
  have hso := (h.isFirst_iff s hs).mp hfirst
  have hend := (h.isLast_iff s hs).mp hlast
  have hend' := h.end_le s' hs'
  rw [hsdu] at hend'
  by_cases h0 : s'.size = 0
  · have := h.size_pos s' hs' h0
    rw [hsdu] at this
    exact h.eq_of_so hs hs' hsdu (by omega)
  · exact h.eq_of_covers hs hs' (b := s'.so)
      (Segment.covers_iff.mpr ⟨rfl, by omega, by omega⟩)
      (Segment.covers_iff.mpr ⟨hsdu, le_refl _, by omega⟩)

end Parts

end OaiCu.NrRlc
