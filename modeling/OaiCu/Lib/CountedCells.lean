import Mathlib.Data.List.GetD
import Mathlib.Data.List.Range

/-!
# Arrays that count themselves

Reads and writes of arrays are checked: outside of the array they fail. Some arrays are filled front
to back, and their last cell holds the index that was written last.
-/

namespace CountedCells

variable {N size i n v : ℕ} {a b : ℕ → ℤ} {l l' : List ℕ}

/-- A read of an array of `size` cells. -/
def read (size : ℕ) (a : ℕ → ℤ) (i : ℤ) : Option ℤ :=
  if 0 ≤ i ∧ i < size then some (a i.toNat) else none

/-- A write to an array of `size` cells. -/
def store (size : ℕ) (a : ℕ → ℤ) (i v : ℤ) : Option (ℕ → ℤ) :=
  if 0 ≤ i ∧ i < size then some (Function.update a i.toNat v) else none

/-- The array of `N + 1` cells without an entry. -/
def empty : ℕ → ℤ := fun _ => -1

/-- An entry behind the others, in an array of `N + 1` cells. -/
def push (N : ℕ) (a : ℕ → ℤ) (v : ℤ) : Option (ℕ → ℤ) := do
  let b ← store (N + 1) a (a N + 1) v
  store (N + 1) b N (b N + 1)

/-- A loop over some cells that ends at the first one that holds `v`. -/
def search (size : ℕ) (a : ℕ → ℤ) (v : ℤ) : List ℕ → Option Bool
  | [] => some false
  | m :: ms => do
    let w ← read size a m
    if v = w then some true else search size a v ms

theorem read_of_lt (h : i < size) : read size a i = some (a i) := by
  rw [read, if_pos ⟨Int.natCast_nonneg i, Int.ofNat_lt.mpr h⟩, Int.toNat_natCast]

theorem store_of_lt {x : ℤ} (h : i < size) : store size a i x = some (Function.update a i x) := by
  rw [store, if_pos ⟨Int.natCast_nonneg i, Int.ofNat_lt.mpr h⟩, Int.toNat_natCast]

/-! ## Loops -/

/-- **A loop whose steps keep an invariant comes to its end.** -/
theorem foldlM_range {σ : Type*} {f : σ → ℕ → Option σ} {P : ℕ → σ → Prop} {s : σ} (h0 : P 0 s)
    (hstep : ∀ i < n, ∀ s, P i s → ∃ s', f s i = some s' ∧ P (i + 1) s') :
    ∃ s', (List.range n).foldlM f s = some s' ∧ P n s' := by
  induction n with
  | zero => exact ⟨s, rfl, h0⟩
  | succ n ih =>
      obtain ⟨s', hs', hP⟩ := ih fun i hi => hstep i (Nat.lt_succ_of_lt hi)
      obtain ⟨s'', hs'', hP'⟩ := hstep n (Nat.lt_succ_self n) s' hP
      refine ⟨s'', ?_, hP'⟩
      rw [List.range_succ, List.foldlM_append, hs']
      simp [hs'']

/-! ## Entries -/

/-- The first cells of an array. -/
def Starts (a : ℕ → ℤ) (l : List ℕ) : Prop := ∀ i (h : i < l.length), a i = l[i]

/-- What an array of `N + 1` cells holds. -/
structure Holds (N : ℕ) (a : ℕ → ℤ) (l : List ℕ) : Prop where
  length_le : l.length ≤ N
  counter : a N = l.length - 1
  starts : Starts a l

theorem holds_empty (N : ℕ) : Holds N empty [] where
  length_le := Nat.zero_le N
  counter := rfl
  starts := fun _ h => absurd h (Nat.not_lt_zero _)

theorem Holds.counter_add_one (h : Holds N a l) : a N + 1 = (l.length : ℤ) := by
  rw [h.counter, Int.sub_add_cancel]

theorem push_holds (h : Holds N a l) (hroom : l.length < N) :
    ∃ b, push N a v = some b ∧ Holds N b (l ++ [v]) := by
  have hN : N ≠ l.length := hroom.ne'
  have hstore : ∀ x : ℤ, store (N + 1) a (a N + 1) x = some (Function.update a l.length x) := by
    intro x
    rw [h.counter_add_one, store_of_lt (Nat.lt_succ_of_lt hroom)]
  refine ⟨Function.update (Function.update a l.length v) N (l.length : ℤ), ?_, ?_, ?_, ?_⟩
  · rw [push, hstore]
    simp only [Option.bind_eq_bind, Option.bind_some]
    rw [store_of_lt (Nat.lt_succ_self N), Function.update_of_ne hN, h.counter_add_one]
  · rw [List.length_append, List.length_singleton]
    exact hroom
  · rw [Function.update_self, List.length_append, List.length_singleton, Int.natCast_add]
    exact (Int.add_sub_cancel _ _).symm
  · intro i hi
    rw [List.length_append, List.length_singleton] at hi
    rw [Function.update_of_ne (by omega)]
    rcases Nat.lt_succ_iff_lt_or_eq.mp hi with hlt | rfl
    · rw [Function.update_of_ne hlt.ne, h.starts i hlt, List.getElem_append_left hlt]
    · rw [Function.update_self, List.getElem_concat_length rfl]

/-- A loop that appends to the array. -/
theorem foldlM_push {f : ℕ → ℕ} {body : (ℕ → ℤ) → ℕ → Option (ℕ → ℤ)} {ms : List ℕ}
    (hbody : ∀ m ∈ ms, ∀ a, body a m = push N a (f m)) (h : Holds N a l)
    (hroom : l.length + ms.length ≤ N) :
    ∃ b, ms.foldlM body a = some b ∧ Holds N b (l ++ ms.map f) := by
  induction ms generalizing a l with
  | nil => exact ⟨a, rfl, by simpa using h⟩
  | cons m ms ih =>
      rw [List.length_cons] at hroom
      obtain ⟨b, hb, hholds⟩ := push_holds (v := f m) h (by omega)
      have hlen : (l ++ [f m]).length + ms.length ≤ N := by
        rw [List.length_append, List.length_singleton]
        omega
      obtain ⟨c, hc, hholds'⟩ := ih (fun m' hm' => hbody m' (List.mem_cons_of_mem _ hm')) hholds hlen
      refine ⟨c, ?_, ?_⟩
      · rw [List.foldlM_cons, hbody m List.mem_cons_self, hb]
        exact hc
      · rwa [List.append_assoc] at hholds'

/-! ## Search -/

theorem search_eq {x : ℤ} {ms : List ℕ} (h : ∀ m ∈ ms, m < size) :
    search size a x ms = some (ms.any fun m => decide (x = a m)) := by
  induction ms with
  | nil => rfl
  | cons m ms ih =>
      rw [search, read_of_lt (h m List.mem_cons_self), List.any_cons]
      simp only [Option.bind_eq_bind, Option.bind_some]
      split
      · rename_i heq
        rw [decide_eq_true heq, Bool.true_or]
      · rename_i hne
        rw [decide_eq_false hne, Bool.false_or, ih fun m hm => h m (List.mem_cons_of_mem _ hm)]

/-- The search finds what is among the entries. -/
theorem search_starts (h : Starts a l) (hsize : l.length ≤ size) :
    search size a v (List.range l.length) = some (decide (v ∈ l)) := by
  rw [search_eq fun m hm => (List.mem_range.mp hm).trans_le hsize, Option.some_inj,
    Bool.eq_iff_iff, List.any_eq_true, decide_eq_true_iff, List.mem_iff_getElem]
  constructor
  · rintro ⟨m, hm, heq⟩
    have hm := List.mem_range.mp hm
    have heq := of_decide_eq_true heq
    rw [h m hm] at heq
    exact ⟨m, hm, (Int.ofNat_inj.mp heq).symm⟩
  · rintro ⟨m, hm, rfl⟩
    exact ⟨m, List.mem_range.mpr hm, decide_eq_true (h m hm).symm⟩

end CountedCells
