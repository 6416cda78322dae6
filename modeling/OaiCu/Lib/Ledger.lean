import Mathlib.Algebra.BigOperators.Group.List.Basic
import Mathlib.Data.List.Count
import Mathlib.Algebra.Ring.Int.Defs
import Mathlib.Algebra.Ring.Nat

/-!
# A counter for open items

Items have sizes, and a counter is to hold the sum of the sizes of those that are open. It grows when
an item is opened, and a size is taken off, down to 0 at most, when one is closed. The entries of the
ledger say which items were opened and which were taken off, and where there was too little to take
off.
-/

namespace Ledger

variable {ι : Type*}

/-- An item is opened, or its size is taken off: `short` if the counter was smaller. -/
inductive Entry (ι : Type*)
  | opened (i : ι)
  | closed (i : ι) (short : Bool)
  deriving DecidableEq, Repr

namespace Entry

variable [DecidableEq ι]

def opens (i : ι) : Entry ι → Bool
  | .opened j => j = i
  | .closed _ _ => false

def closes (i : ι) : Entry ι → Bool
  | .opened _ => false
  | .closed j _ => j = i

end Entry

def Entry.short : Entry ι → Bool
  | .opened _ => false
  | .closed _ short => short

/-- c -= size; if (c < 0) c = 0. -/
def takeOff (size : ι → ℕ) (c : ℤ) (i : ι) : ℤ := max 0 (c - size i)

/-- The counter after some sizes are taken off, and the entries for them. -/
def takeOffs (size : ι → ℕ) : ℤ → List ι → ℤ × List (Entry ι)
  | c, [] => (c, [])
  | c, i :: is =>
      ((takeOffs size (takeOff size c i) is).1,
        .closed i (c < size i) :: (takeOffs size (takeOff size c i) is).2)

/-- The counter is the sum of what is open, each item that is not open was closed as often as it was
opened, and there was always enough to take off. -/
structure Balanced [DecidableEq ι] (size : ι → ℕ) (c : ℤ) (outstanding : List ι)
    (entries : List (Entry ι)) : Prop where
  sum : c = (outstanding.map size).sum
  once : ∀ i, entries.countP (Entry.opens i) = entries.countP (Entry.closes i) + outstanding.count i
  covered : ∀ e ∈ entries, e.short = false

variable {size size' : ι → ℕ} {c c' : ℤ} {outstanding outstanding' l l' : List ι}
  {entries : List (Entry ι)} {i : ι}

theorem takeOffs_append (size : ι → ℕ) (c : ℤ) (l l' : List ι) :
    takeOffs size c (l ++ l') =
      ((takeOffs size (takeOffs size c l).1 l').1,
        (takeOffs size c l).2 ++ (takeOffs size (takeOffs size c l).1 l').2) := by
  induction l generalizing c with
  | nil => rfl
  | cons i l ih => simp only [List.cons_append, takeOffs, ih]

variable [DecidableEq ι]

theorem countP_opens_takeOffs (size : ι → ℕ) (c : ℤ) (l : List ι) (i : ι) :
    (takeOffs size c l).2.countP (Entry.opens i) = 0 := by
  induction l generalizing c with
  | nil => rfl
  | cons j l ih => rw [takeOffs, List.countP_cons_of_neg (by simp [Entry.opens]), ih]

theorem countP_closes_takeOffs (size : ι → ℕ) (c : ℤ) (l : List ι) (i : ι) :
    (takeOffs size c l).2.countP (Entry.closes i) = l.count i := by
  induction l generalizing c with
  | nil => rfl
  | cons j l ih =>
      rw [takeOffs, List.countP_cons, ih, List.count_cons]
      simp [Entry.closes]

namespace Balanced

theorem nil (size : ι → ℕ) : Balanced size 0 [] [] where
  sum := rfl
  once := fun _ => rfl
  covered := fun _ h => absurd h List.not_mem_nil

theorem perm (h : Balanced size c outstanding entries) (hp : outstanding.Perm outstanding') :
    Balanced size c outstanding' entries where
  sum := by rw [h.sum, (hp.map size).sum_eq]
  once := fun i => by rw [h.once i, hp.count_eq]
  covered := h.covered

/-- Only the sizes of the items that are open matter. -/
theorem congr (h : Balanced size c outstanding entries) (hs : ∀ i ∈ outstanding, size' i = size i) :
    Balanced size' c outstanding entries where
  sum := by rw [h.sum, List.map_congr_left hs]
  once := h.once
  covered := h.covered

theorem opened (h : Balanced size c outstanding entries) (i : ι) :
    Balanced size (c + size i) (i :: outstanding) (entries ++ [.opened i]) where
  sum := by
    rw [h.sum, List.map_cons, List.sum_cons, Int.natCast_add, add_comm]
  once := fun j => by
    rw [List.countP_append, List.countP_append, h.once j, List.count_cons]
    simp only [List.countP_singleton, Entry.opens, Entry.closes, decide_eq_true_eq, beq_iff_eq,
      Bool.false_eq_true, if_false]
    omega
  covered := fun e he => by
    rcases List.mem_append.mp he with he | he
    · exact h.covered e he
    · rw [List.mem_singleton.mp he, Entry.short]

theorem closed (h : Balanced size c (i :: outstanding) entries) :
    Balanced size (takeOff size c i) outstanding (entries ++ [.closed i (c < size i)]) := by
  have hsum := h.sum
  rw [List.map_cons, List.sum_cons, Int.natCast_add] at hsum
  have hle : (size i : ℤ) ≤ c := by
    rw [hsum]
    omega
  refine ⟨?_, fun j => ?_, fun e he => ?_⟩
  · rw [takeOff]
    omega
  · have honce := h.once j
    rw [List.count_cons] at honce
    rw [List.countP_append, List.countP_append, honce]
    simp only [List.countP_singleton, Entry.opens, Entry.closes, decide_eq_true_eq, beq_iff_eq,
      Bool.false_eq_true, if_false]
    omega
  · rcases List.mem_append.mp he with he | he
    · exact h.covered e he
    · rw [List.mem_singleton.mp he, Entry.short, decide_eq_false_iff_not]
      exact Int.not_lt.mpr hle

/-- Taking off items that are open, each as often as it is. -/
theorem takeOffs (h : Balanced size c (l ++ outstanding) entries) :
    Balanced size (Ledger.takeOffs size c l).1 outstanding
      (entries ++ (Ledger.takeOffs size c l).2) := by
  induction l generalizing c entries with
  | nil =>
      rw [Ledger.takeOffs, List.append_nil]
      exact h
  | cons i l ih =>
      rw [Ledger.takeOffs]
      have hrest := ih h.closed
      rwa [List.append_assoc, List.singleton_append] at hrest

/-- If the ledger is balanced before and after, what was taken off are the items that were closed. -/
theorem perm_of_takeOffs (h : Balanced size c outstanding entries)
    (h' : Balanced size' c' outstanding' (entries ++ (Ledger.takeOffs size c l).2)) :
    outstanding.Perm (l ++ outstanding') := by
  rw [List.perm_iff_count]
  intro i
  have hbefore := h.once i
  have hafter := h'.once i
  rw [List.countP_append, List.countP_append, countP_opens_takeOffs, countP_closes_takeOffs] at hafter
  rw [List.count_append]
  omega

/-- Some items are closed, and others are taken off and closed. The ledger is balanced if the first
ones are those that were taken off before. -/
theorem takeOffs_takeOffs_iff {closed given : List ι} (h : Balanced size c outstanding entries)
    (hperm : outstanding.Perm (given ++ (closed ++ outstanding'))) :
    Balanced size (Ledger.takeOffs size (Ledger.takeOffs size c l).1 given).1 outstanding'
        (entries ++ ((Ledger.takeOffs size c l).2 ++
          (Ledger.takeOffs size (Ledger.takeOffs size c l).1 given).2)) ↔
      closed.Perm l := by
  have hboth := takeOffs_append size c l given
  have hcounter := congrArg Prod.fst hboth
  have hentries := congrArg Prod.snd hboth
  dsimp only at hcounter hentries
  rw [← hcounter, ← hentries]
  constructor
  · intro h'
    have htaken := hperm.symm.trans (h.perm_of_takeOffs h')
    rw [List.perm_iff_count] at htaken ⊢
    intro i
    have := htaken i
    simp only [List.count_append] at this
    omega
  · intro hclosed
    refine (h.perm (hperm.trans ?_)).takeOffs
    rw [← List.append_assoc]
    exact (List.perm_append_comm.trans (hclosed.append_right given)).append_right outstanding'

end Balanced

end Ledger
