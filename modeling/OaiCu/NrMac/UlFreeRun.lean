import OaiCu.NrMac.Pdcch
import OaiCu.Lib.Scan

/-!
# The free RBs of the uplink preprocessor

`nr_fr1_ulsch_preprocessor` looks for the longest run of RBs of the BWP with no symbol of the time-domain
allocation occupied. Both inner loops read the entry of an RB before they test the bound, so that the
model keeps a record of the entries that are read.
-/

namespace OaiCu.NrMac

open Scan

/-- The last RB and the length of the longest run so far, and the RBs whose entries are read from here
on. -/
structure FreeRun where
  e : ℕ
  len : ℕ
  reads : List ℕ

/-- (vrb_map_UL[bwpStart + i] & symb) == 0: no symbol of the allocation is occupied in the RB. -/
def rbFree (vrbMapUl : ℕ → BitVec 16) (bwpStart : ℕ) (symb : BitVec 16) (i : ℕ) : Bool :=
  vrbMapUl (bwpStart + i) &&& symb == 0

/-- for (int i = 0; i < bwpSize; i++), from `i` on, for the RBs that are free. -/
def freeRunLoop (free : ℕ → Bool) (bwpSize i e len : ℕ) : FreeRun :=
  if i < bwpSize then
    let occupied := upRead (fun k => !free k) bwpSize i
    let st := occupied.1
    let unoccupied := upRead free bwpSize st
    let i' := unoccupied.1
    let rest :=
      if i' - st > len then freeRunLoop free bwpSize (i' + 1) (i' - 1) (i' - st)
      else freeRunLoop free bwpSize (i' + 1) e len
    { rest with reads := occupied.2 ++ unoccupied.2 ++ rest.reads }
  else ⟨e, len, []⟩
termination_by bwpSize - i
decreasing_by
  all_goals
    have hle : i ≤ (upRead free bwpSize (upRead (fun k => !free k) bwpSize i).1).1 :=
      Nat.le_trans le_upRead le_upRead
    omega

/-- What the preprocessor works out: the first and the last RB, the length, the mask, and the entries of
vrb_map_UL that it has read. -/
structure UlAllocation where
  st : ℕ
  e : ℕ
  len : ℕ
  rballocMask : List (BitVec 16)
  reads : List ℕ

/-- nr_fr1_ulsch_preprocessor from the symbols of the allocation on. -/
def nrFr1UlschPreprocessor (vrbMapUl : ℕ → BitVec 16) (bwpStart bwpSize startSymbolIndex
    nrOfSymbols : ℕ) : UlAllocation :=
  let symb := slToBitmap startSymbolIndex nrOfSymbols
  let run := freeRunLoop (rbFree vrbMapUl bwpStart symb) bwpSize 0 0 0
  let st := run.e + 1 - run.len
  { st := st
    e := run.e
    len := run.len
    rballocMask := (List.range bwpSize).map fun i => if i ≥ st ∧ i ≤ run.e then symb else 0
    reads := run.reads.map (bwpStart + ·) }

variable {free : ℕ → Bool} {n i e len : ℕ}

/-! ## The run -/

theorem freeRunLoop_of_lt (h : i < n) : freeRunLoop free n i e len =
    let st := nextFree free n i
    let j := up free n st
    let rest := freeRunLoop free n (j + 1) (if len < j - st then j - 1 else e)
      (if len < j - st then j - st else len)
    { rest with reads := (upRead (fun k => !free k) n i).2 ++ (upRead free n st).2 ++ rest.reads } := by
  have hst : (upRead (fun k => !free k) n i).1 = nextFree free n i := upRead_fst
  rw [freeRunLoop, if_pos h]
  simp only [hst, upRead_fst, gt_iff_lt]
  split <;> rfl

theorem freeRunLoop_of_le (h : n ≤ i) : freeRunLoop free n i e len = ⟨e, len, []⟩ := by
  rw [freeRunLoop, if_neg (Nat.not_lt.mpr h)]

theorem freeRunLoop_longest {i e len : ℕ} (h : Longest free n i e len) :
    ∃ i' ≥ n, Longest free n i' (freeRunLoop free n i e len).e (freeRunLoop free n i e len).len := by
  rcases Nat.lt_or_ge i n with hlt | hge
  · have hle : i ≤ up free n (nextFree free n i) := Nat.le_trans le_nextFree le_up
    have hrec := freeRunLoop_longest (h.next hlt rfl rfl)
    rw [freeRunLoop_of_lt hlt]
    exact hrec
  · rw [freeRunLoop_of_le hge]
    exact ⟨i, hge, h⟩
termination_by n - i

/-! ## The entries that are read -/

/-- The loops come to the end of the BWP at an RB that is occupied and behind a free one. -/
def EndsOccupied (free : ℕ → Bool) (n i : ℕ) : Prop :=
  i + 2 ≤ n ∧ free (n - 2) = true ∧ free (n - 1) = false

/-- Every RB that is looked at is one of the BWP. -/
theorem freeRunLoop_reads {i e len : ℕ} (hin : i ≤ n) :
    (∀ k ∈ (freeRunLoop free n i e len).reads, k < n) ↔ i = n ∨ EndsOccupied free n i := by
  rcases Nat.eq_or_lt_of_le hin with rfl | hlt
  · rw [freeRunLoop_of_le (Nat.le_refl i)]
    exact iff_of_true nofun (.inl rfl)
  rw [freeRunLoop_of_lt hlt]
  dsimp only
  have hi : i ≤ nextFree free n i := le_nextFree
  have hst : nextFree free n i ≤ n := nextFree_le hin
  have hocc : ∀ k, i ≤ k → k < nextFree free n i → free k = false := fun k => of_lt_nextFree
  have hread : ∀ k, k ∈ (upRead (fun k => !free k) n i).2 ↔ i ≤ k ∧ k ≤ nextFree free n i :=
    fun k => mem_upRead
  have hfirst : nextFree free n i < n → free (nextFree free n i) = true := nextFree_free
  generalize nextFree free n i = st at *
  have hj : st ≤ up free n st := le_up
  have hjn : up free n st ≤ n := up_le hst
  have hrun : ∀ k, st ≤ k → k < up free n st → free k = true := fun k => of_lt_up
  have hread' : ∀ k, k ∈ (upRead free n st).2 ↔ st ≤ k ∧ k ≤ up free n st := fun k => mem_upRead
  have hstop : up free n st < n → free (up free n st) = false := up_stops
  have hstep : st < n → st < up free n st := fun h => lt_up h (hfirst h)
  generalize up free n st = j at *
  simp only [List.mem_append, hread, hread']
  rcases Nat.eq_or_lt_of_le hjn with rfl | hjlt
  · -- the entry behind the last RB is read
    refine iff_of_false (fun h => Nat.lt_irrefl j (h j (.inl (.inr ⟨hj, Nat.le_refl j⟩)))) ?_
    rintro (heq | ⟨hle, hfree, hlast⟩)
    · omega
    · rcases Nat.eq_or_lt_of_le hst with rfl | hst'
      · rw [hocc (st - 2) (by omega) (by omega)] at hfree
        cases hfree
      · rw [hrun (j - 1) (by omega) (by omega)] at hlast
        cases hlast
  · have hstn : st < n := Nat.lt_of_le_of_lt hj hjlt
    have hrec := @freeRunLoop_reads (j + 1) (if len < j - st then j - 1 else e)
      (if len < j - st then j - st else len) hjlt
    have hsplit : (∀ k, ((i ≤ k ∧ k ≤ st) ∨ (st ≤ k ∧ k ≤ j)) ∨
        k ∈ (freeRunLoop free n (j + 1) (if len < j - st then j - 1 else e)
          (if len < j - st then j - st else len)).reads → k < n) ↔
        j + 1 = n ∨ EndsOccupied free n (j + 1) := by
      rw [← hrec]
      constructor
      · exact fun h k hk => h k (.inr hk)
      · rintro h k (hk | hk)
        · omega
        · exact h k hk
    refine hsplit.trans ?_
    constructor
    · rintro (rfl | ⟨hle, hfree, hlast⟩)
      · have hlt' := hstep hstn
        refine .inr ⟨by omega, hrun _ (by omega) (by omega), ?_⟩
        exact hstop hjlt
      · exact .inr ⟨by omega, hfree, hlast⟩
    · rintro (heq | ⟨hle, hfree, hlast⟩)
      · omega
      · rcases Nat.eq_or_lt_of_le hjlt with heq | hlt'
        · exact .inl heq
        · -- the RB before the last one is free and so is not the one at which the run ended
          have hne : j + 2 ≠ n := by
            rintro rfl
            rw [Nat.add_sub_cancel, hstop hjlt] at hfree
            cases hfree
          exact .inr ⟨by omega, hfree, hlast⟩
termination_by n - i

/-! ## What the preprocessor is to do -/

section

variable (vrbMapUl : ℕ → BitVec 16) (bwpStart bwpSize startSymbolIndex nrOfSymbols : ℕ)

/-- The allocation is a longest run of free RBs. -/
structure LongestFreeRun (free : ℕ → Bool) (bwpSize : ℕ) (a : UlAllocation) : Prop where
  longest : ∀ m s, IsRun free bwpSize m s → m ≤ a.len
  run : 0 < a.len → IsRun free bwpSize a.len a.st ∧ a.e + 1 = a.st + a.len
  none : a.len = 0 → a.rballocMask = List.replicate bwpSize 0

/-- Only entries of the BWP are read, and the allocation is a longest run of free RBs. -/
def UlschRight : Prop :=
  let a := nrFr1UlschPreprocessor vrbMapUl bwpStart bwpSize startSymbolIndex nrOfSymbols
  (∀ k ∈ a.reads, bwpStart ≤ k ∧ k < bwpStart + bwpSize) ∧
    LongestFreeRun (rbFree vrbMapUl bwpStart (slToBitmap startSymbolIndex nrOfSymbols)) bwpSize a

theorem longestFreeRun :
    LongestFreeRun (rbFree vrbMapUl bwpStart (slToBitmap startSymbolIndex nrOfSymbols)) bwpSize
      (nrFr1UlschPreprocessor vrbMapUl bwpStart bwpSize startSymbolIndex nrOfSymbols) := by
  rw [nrFr1UlschPreprocessor]
  generalize slToBitmap startSymbolIndex nrOfSymbols = symb
  obtain ⟨i, hi, hlongest⟩ :=
    @freeRunLoop_longest (rbFree vrbMapUl bwpStart symb) bwpSize 0 0 0 .first
  generalize freeRunLoop (rbFree vrbMapUl bwpStart symb) bwpSize 0 0 0 = run at *
  refine ⟨fun m s hrun => ?_, fun hpos => ?_, fun hzero => ?_⟩
  · rcases Nat.eq_zero_or_pos m with rfl | hm
    · exact Nat.zero_le _
    · have hend := hrun.1
      exact hlongest.longest m s hrun (by omega)
  · obtain ⟨hle, hrun⟩ := hlongest.run hpos
    exact ⟨hrun, (Nat.sub_add_cancel hle).symm⟩
  · -- the mask is from RB 1 to RB 0
    have hlen : run.len = 0 := hzero
    have he := hlongest.empty hlen
    refine List.eq_replicate_iff.mpr ⟨by simp, fun b hb => ?_⟩
    obtain ⟨k, -, rfl⟩ := List.mem_map.mp hb
    refine if_neg ?_
    omega

/-- **The run is always a longest one. No entry outside of the BWP is read just if the BWP is empty or
ends with a free RB and then an occupied one.** -/
theorem ulschRight_iff :
    UlschRight vrbMapUl bwpStart bwpSize startSymbolIndex nrOfSymbols ↔
      bwpSize = 0 ∨ 2 ≤ bwpSize ∧
        rbFree vrbMapUl bwpStart (slToBitmap startSymbolIndex nrOfSymbols) (bwpSize - 2) = true ∧
        rbFree vrbMapUl bwpStart (slToBitmap startSymbolIndex nrOfSymbols) (bwpSize - 1) = false := by
  have hreads := @freeRunLoop_reads
    (rbFree vrbMapUl bwpStart (slToBitmap startSymbolIndex nrOfSymbols)) bwpSize 0 0 0
    (Nat.zero_le _)
  have hshift : (∀ k ∈ (nrFr1UlschPreprocessor vrbMapUl bwpStart bwpSize startSymbolIndex
      nrOfSymbols).reads, bwpStart ≤ k ∧ k < bwpStart + bwpSize) ↔
      ∀ k ∈ (freeRunLoop (rbFree vrbMapUl bwpStart (slToBitmap startSymbolIndex nrOfSymbols)) bwpSize
        0 0 0).reads, k < bwpSize := by
    change (∀ k ∈ List.map _ _, _) ↔ _
    rw [List.forall_mem_map]
    refine forall₂_congr fun k _ => ?_
    omega
  have hrun := longestFreeRun vrbMapUl bwpStart bwpSize startSymbolIndex nrOfSymbols
  rw [EndsOccupied, Nat.zero_add, eq_comm] at hreads
  exact (and_iff_left hrun).trans (hshift.trans hreads)

end

/-- A BWP of two free RBs: the entry behind it is read. -/
theorem not_ulschRight_free : ¬ UlschRight (fun _ => 0) 0 2 0 14 := by
  intro h
  have hread : 2 ∈ (nrFr1UlschPreprocessor (fun _ => 0) 0 2 0 14).reads := by
    simp [nrFr1UlschPreprocessor, freeRunLoop, upRead, rbFree]
  exact absurd (h.1 2 hread).2 (by decide)

end OaiCu.NrMac
