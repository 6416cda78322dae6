import Mathlib.Data.List.Basic

/-!
# Memory that is written front to back

A memory has a cell for every index. A writer goes through it and leaves behind it what it has put.
-/

namespace Memory

variable {α : Type*} {m : ℕ → α} {start : ℕ} {l l' : List α}

/-- A write of a list from a start on. -/
def write (m : ℕ → α) (start : ℕ) (l : List α) : ℕ → α := fun i =>
  if start ≤ i then l[i - start]?.getD (m i) else m i

/-- A read of some cells from a start on. -/
def read (m : ℕ → α) (start len : ℕ) : List α := (List.range len).map fun i => m (start + i)

@[simp] theorem write_nil : write m start ([] : List α) = m := by
  funext i
  rw [write, List.getElem?_nil, Option.getD_none, ite_self]

theorem write_of_le {i : ℕ} (h : start ≤ i) : write m start l i = l[i - start]?.getD (m i) :=
  if_pos h

theorem write_of_lt {i : ℕ} (h : i < start) : write m start l i = m i :=
  if_neg (Nat.not_le.mpr h)

theorem write_of_ge {i : ℕ} (h : start + l.length ≤ i) : write m start l i = m i := by
  rw [write, List.getElem?_eq_none (Nat.le_sub_of_add_le' h), Option.getD_none, ite_self]

theorem write_add {i : ℕ} (h : i < l.length) : write m start l (start + i) = l[i] := by
  rw [write_of_le (Nat.le_add_right start i), Nat.add_sub_cancel_left,
    List.getElem?_eq_getElem h, Option.getD_some]

/-- A write behind another is one write. -/
theorem write_append (m : ℕ → α) (start : ℕ) (l l' : List α) :
    write (write m start l) (start + l.length) l' = write m start (l ++ l') := by
  funext i
  by_cases hlt : i < start + l.length
  · rw [write_of_lt hlt]
    by_cases hs : start ≤ i
    · rw [write_of_le hs, write_of_le hs,
        List.getElem?_append_left (Nat.sub_lt_left_of_lt_add hs hlt)]
    · rw [write_of_lt (Nat.lt_of_not_le hs), write_of_lt (Nat.lt_of_not_le hs)]
  · have hge : start + l.length ≤ i := Nat.le_of_not_lt hlt
    have hs : start ≤ i := Nat.le_of_add_right_le hge
    have hl : l.length ≤ i - start := Nat.le_sub_of_add_le' hge
    rw [write_of_le hge, write_of_ge hge, write_of_le hs, List.getElem?_append_right hl,
      Nat.sub_add_eq]

/-- A write in front of another is one write. -/
theorem write_before (m : ℕ → α) (start : ℕ) (l l' : List α) :
    write (write m (start + l.length) l') start l = write m start (l ++ l') := by
  funext i
  by_cases hs : start ≤ i
  · by_cases hlt : i < start + l.length
    · have hl := Nat.sub_lt_left_of_lt_add hs hlt
      rw [write_of_le hs, write_of_le hs, List.getElem?_append_left hl,
        List.getElem?_eq_getElem hl, Option.getD_some, Option.getD_some]
    · have hge : start + l.length ≤ i := Nat.le_of_not_lt hlt
      rw [write_of_ge hge, ← write_append, write_of_le hge, write_of_le hge, write_of_ge hge]
  · have hlt : i < start := Nat.lt_of_not_le hs
    rw [write_of_lt hlt, write_of_lt hlt, write_of_lt (Nat.lt_add_right _ hlt)]

theorem read_write (m : ℕ → α) (start : ℕ) (l : List α) :
    read (write m start l) start l.length = l := by
  refine List.ext_getElem (by rw [read, List.length_map, List.length_range]) fun i _ h => ?_
  simp only [read, List.getElem_map, List.getElem_range, write_add h]

/-- Two writes of as many cells are the same only if what they write is. -/
theorem eq_of_write_eq (hlen : l.length = l'.length) (h : write m start l = write m start l') :
    l = l' := by
  rw [← read_write m start l, h, hlen, read_write]

/-! ## Writes in any order -/

/-- Writes of single cells, one after another. -/
def scatter (m : ℕ → α) (l : List (ℕ × α)) : ℕ → α :=
  l.foldl (fun m p => Function.update m p.1 p.2) m

theorem scatter_of_not_mem : ∀ {l : List (ℕ × α)} {m : ℕ → α} {i : ℕ} (_ : ∀ p ∈ l, p.1 ≠ i),
    scatter m l i = m i
  | [], _, _, _ => rfl
  | p :: l, m, i, h => by
      rw [scatter, List.foldl_cons]
      refine (scatter_of_not_mem fun q hq => h q (List.mem_cons_of_mem p hq)).trans ?_
      exact Function.update_of_ne (h p List.mem_cons_self).symm _ _

/-- A cell that is written has what all its writes put there. -/
theorem scatter_of_mem : ∀ {l : List (ℕ × α)} {m : ℕ → α} {i : ℕ} {v : α} (_ : (i, v) ∈ l)
    (_ : ∀ p ∈ l, p.1 = i → p.2 = v), scatter m l i = v
  | p :: l, m, i, v, hmem, h => by
      rw [scatter, List.foldl_cons]
      by_cases hlater : ∃ q ∈ l, q.1 = i
      · obtain ⟨q, hq, rfl⟩ := hlater
        obtain rfl := h q (List.mem_cons_of_mem p hq) rfl
        exact scatter_of_mem hq fun q' hq' => h q' (List.mem_cons_of_mem p hq')
      · rcases List.mem_cons.mp hmem with rfl | hmem
        · refine (scatter_of_not_mem fun q hq heq => hlater ⟨q, hq, heq⟩).trans ?_
          exact Function.update_self ..
        · exact absurd ⟨_, hmem, rfl⟩ hlater

/-- A writer: the memory, and where it writes next. -/
structure Writer (α : Type*) where
  mem : ℕ → α
  pos : ℕ

namespace Writer

def put (w : Writer α) (l : List α) : Writer α :=
  { mem := write w.mem w.pos l
    pos := w.pos + l.length }

@[simp] theorem put_nil (w : Writer α) : w.put [] = w := by
  rw [put, write_nil]
  rfl

theorem put_put (w : Writer α) (l l' : List α) : (w.put l).put l' = w.put (l ++ l') := by
  simp only [put, write_append, List.length_append, Nat.add_assoc]

end Writer

end Memory
