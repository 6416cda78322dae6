import OaiCu.Lib.LinkedCells
import Mathlib.Data.List.Perm.Subperm

/-!
# Lists of ids in the gNB MAC

`NR_list_t`: the links of the ids are in an array, and the list knows its last id. A link or a tail
of -1 is `none` here.
-/

namespace OaiCu.NrMac

open LinkedCells

/-- NR_list_t. `next` has `len` entries once the list is created. -/
structure NrList where
  head : Option ℕ
  next : List (Option ℕ)
  tail : Option ℕ
  len : ℕ
  deriving Repr

/-- What the assertions of the MAC stop on. -/
inductive MacErr
  /-- "Nothing to remove". -/
  | nothingToRemove
  /-- "ID %d not found in UE_list". -/
  | notFound (id : ℕ)
  /-- "no free HARQ process available for UE %d". -/
  | noFreeHarq
  /-- DevAssert(!harq->is_waiting). -/
  | isWaiting
  /-- DevAssert(harq->is_waiting). -/
  | notWaiting
  /-- "HARQ lists have different lengths". -/
  | lenMismatch
  /-- "cannot resize HARQ list to be smaller". -/
  | resizeSmaller
  /-- The round is no index of `rounds` or of `nr_rv_round_map`. -/
  | roundIndex
  /-- "mismatch between scheduled TBS and buffered TB for HARQ PID %d". -/
  | tbsMismatch
  /-- A loop over a list that does not come to its end. -/
  | endless
  deriving DecidableEq, Repr

/-- The assertion is one on the lists, on what a process is used for or on `is_waiting`. -/
def MacErr.isGuard : MacErr → Bool
  | .roundIndex => false
  | _ => true

namespace NrList

/-- What is stored in a cell of the list. -/
def read (l : NrList) : Cell ℕ → Option ℕ
  | .head => l.head
  | .next id => (l.next[id]?).join

def write (l : NrList) : Cell ℕ → Option ℕ → NrList
  | .head, v => { l with head := v }
  | .next id, v => { l with next := l.next.set id v }

/-- create_nr_list. -/
def create (len : ℕ) : NrList where
  head := none
  next := List.replicate len none
  tail := none
  len := len

/-- resize_nr_list to a list that is not shorter. -/
def resize (l : NrList) (newLen : ℕ) : NrList :=
  { l with next := l.next ++ List.replicate (newLen - l.len) none, len := newLen }

/-- add_tail_nr_list. -/
def addTail (l : NrList) (id : ℕ) : NrList :=
  let last := match l.tail with
    | none => Cell.head
    | some t => .next t
  { (l.write last (some id)).write (.next id) none with tail := some id }

/-- remove_front_nr_list. -/
def removeFront (l : NrList) : Except MacErr NrList :=
  match l.head with
  | none => .error .nothingToRemove
  | some ohead =>
      let l := (l.write .head (l.read (.next ohead))).write (.next ohead) none
      .ok (if l.head.isNone then { l with tail := none } else l)

/-- remove_nr_list. The walk over the links is given one more link than there are ids. -/
def remove (l : NrList) (id : ℕ) : Except MacErr NrList :=
  match find l.read id (l.next.length + 1) .head .head with
  | none => .error (.notFound id)
  | some (prev, cur) =>
      let l := (l.write cur (l.read (.next id))).write (.next id) none
      .ok { l with
        tail := match l.read prev with
          | none => none
          | some p => if (l.read (.next p)).isSome then l.tail else some p }

/-- The list holds these ids. -/
structure Holds (l : NrList) (xs : List ℕ) : Prop where
  links : LinkedCells.Holds l.read .head xs
  nodup : xs.Nodup
  lt : ∀ x ∈ xs, x < l.next.length
  tail : l.tail = xs.getLast?
  len : l.len = l.next.length

variable {l : NrList} {xs ys : List ℕ} {id : ℕ}

theorem read_write_head (l : NrList) (v : Option ℕ) :
    (l.write .head v).read = Function.update l.read .head v := by
  funext d
  cases d with
  | head => exact (Function.update_self Cell.head v l.read).symm
  | next j => exact (Function.update_of_ne (Cell.head_ne_next j).symm v l.read).symm

theorem read_write_next (h : id < l.next.length) (v : Option ℕ) :
    (l.write (.next id) v).read = Function.update l.read (.next id) v := by
  funext d
  cases d with
  | head => exact (Function.update_of_ne (Cell.head_ne_next id) v l.read).symm
  | next j =>
      rcases eq_or_ne j id with rfl | hj
      · rw [Function.update_self]
        simp only [write, read, List.getElem?_set_self h, Option.join_some]
      · rw [Function.update_of_ne fun h => hj (Cell.next.inj h)]
        simp only [write, read, List.getElem?_set_ne hj.symm]

@[simp] theorem length_write (l : NrList) (c : Cell ℕ) (v : Option ℕ) :
    (l.write c v).next.length = l.next.length := by
  cases c with
  | head => rfl
  | next id => exact List.length_set

@[simp] theorem tail_write (l : NrList) (c : Cell ℕ) (v : Option ℕ) :
    (l.write c v).tail = l.tail := by
  cases c <;> rfl

@[simp] theorem len_write (l : NrList) (c : Cell ℕ) (v : Option ℕ) :
    (l.write c v).len = l.len := by
  cases c <;> rfl

theorem Holds.head (h : l.Holds xs) : l.head = xs.head? := by
  cases xs with
  | nil => exact h.links
  | cons x xs => exact h.links.1

/-- The ids are different and below the length of the array. -/
theorem Holds.length_le (h : l.Holds xs) : xs.length ≤ l.next.length := by
  have hsub : xs ⊆ List.range l.next.length := fun x hx => List.mem_range.mpr (h.lt x hx)
  simpa using (h.nodup.subperm hsub).length_le

/-- The cell at which the list ends. -/
theorem Holds.last (h : l.Holds xs) : (match l.tail with
    | none => Cell.head
    | some t => .next t) = Cell.head.after xs := by
  rw [h.tail]
  rcases List.eq_nil_or_concat xs with rfl | ⟨ys, y, rfl⟩
  · rfl
  · simp

theorem read_write (h : l.Holds (xs ++ ys)) (v : Option ℕ) :
    (l.write (Cell.head.after xs) v).read =
      Function.update l.read (Cell.head.after xs) v := by
  cases xs with
  | nil => exact l.read_write_head v
  | cons x xs =>
      obtain ⟨y, hy, hlast⟩ := after_next x xs
      rw [after_cons, hlast]
      exact read_write_next (h.lt y (List.mem_append_left _ hy)) v

theorem holds_create (len : ℕ) : (create len).Holds [] :=
  ⟨rfl, List.nodup_nil, fun _ h => absurd h List.not_mem_nil, rfl, List.length_replicate.symm⟩

theorem read_resize (l : NrList) (newLen : ℕ) : (l.resize newLen).read = l.read := by
  funext d
  cases d with
  | head => rfl
  | next j =>
      change ((l.next ++ List.replicate _ none)[j]?).join = (l.next[j]?).join
      rw [List.getElem?_append]
      split
      · rfl
      · rename_i hj
        rw [List.getElem?_eq_none (Nat.le_of_not_lt hj), List.getElem?_replicate]
        split <;> rfl

theorem Holds.resize (h : l.Holds xs) {newLen : ℕ} (hle : l.len ≤ newLen) :
    (l.resize newLen).Holds xs where
  links := (l.read_resize newLen).symm ▸ h.links
  nodup := h.nodup
  lt x hx := by
    have := h.lt x hx
    simp only [NrList.resize, List.length_append]
    omega
  tail := h.tail
  len := by
    have := h.len
    simp only [NrList.resize, List.length_append, List.length_replicate]
    omega

theorem Holds.read_addTail (h : l.Holds xs) (hlt : id < l.next.length) :
    (l.addTail id).read = link l.read (Cell.head.after xs) id := by
  rw [NrList.addTail, h.last]
  change NrList.read (NrList.write _ _ _) = _
  rw [read_write_next (by simpa using hlt), read_write ((List.append_nil xs).symm ▸ h), link]

theorem Holds.addTail (h : l.Holds xs) (hlt : id < l.next.length) (hid : id ∉ xs) :
    (l.addTail id).Holds (xs ++ [id]) where
  links := by
    rw [h.read_addTail hlt]
    exact h.links.link h.nodup (fun y _ => Cell.head_ne_next y) (Cell.head_ne_next id) hid
  nodup := by
    rw [← List.concat_eq_append]
    exact h.nodup.concat hid
  lt x hx := by
    rw [List.mem_append, List.mem_singleton] at hx
    simp only [NrList.addTail, length_write]
    rcases hx with hx | rfl
    · exact h.lt x hx
    · exact hlt
  tail := by
    simp [NrList.addTail]
  len := by
    simpa [NrList.addTail] using h.len

/-- Ids added one after another. -/
theorem Holds.addTails : ∀ {ys xs : List ℕ} {l : NrList}, l.Holds xs →
    (∀ y ∈ ys, y < l.next.length) → (xs ++ ys).Nodup →
    (ys.foldl NrList.addTail l).Holds (xs ++ ys) ∧
      (ys.foldl NrList.addTail l).next.length = l.next.length
  | [], xs, l, h, _, _ => ⟨(List.append_nil xs).symm ▸ h, rfl⟩
  | y :: ys, xs, l, h, hlt, hnd => by
      have hy : y ∉ xs := fun hx =>
        (List.nodup_append.mp hnd).2.2 y hx y List.mem_cons_self rfl
      have hlen : (l.addTail y).next.length = l.next.length := by simp [NrList.addTail]
      have := @Holds.addTails ys _ _ (h.addTail (hlt y List.mem_cons_self) hy)
        (fun z hz => hlen ▸ hlt z (List.mem_cons_of_mem y hz)) (by simpa using hnd)
      rw [List.append_assoc, List.singleton_append, hlen] at this
      exact this

/-- A new list with all the ids. -/
theorem holds_range (n : ℕ) :
    ((List.range n).foldl NrList.addTail (create n)).Holds (List.range n) ∧
      ((List.range n).foldl NrList.addTail (create n)).next.length = n := by
  have hlen : (create n).next.length = n := List.length_replicate
  have := @Holds.addTails (List.range n) _ _ (holds_create n)
    (fun y hy => hlen.symm ▸ List.mem_range.mp hy) List.nodup_range
  exact ⟨this.1, this.2.trans hlen⟩

/-- The links after an id is taken out. -/
theorem Holds.unlinked (h : l.Holds (xs ++ id :: ys)) :
    ((l.write (Cell.head.after xs) (l.read (.next id))).write (.next id) none).read =
        unlink l.read (Cell.head.after xs) id ∧
      LinkedCells.Holds (unlink l.read (Cell.head.after xs) id) .head (xs ++ ys) := by
  refine ⟨?_, h.links.unlink h.nodup fun y _ => Cell.head_ne_next y⟩
  rw [read_write_next (by simpa using h.lt id (by simp)), read_write h, unlink]

theorem Holds.removeFront (h : l.Holds (id :: xs)) :
    ∃ l', l.removeFront = .ok l' ∧ l'.Holds xs ∧ l'.next.length = l.next.length := by
  obtain ⟨hread, hlinks⟩ := @Holds.unlinked l [] xs id h
  simp only [after_nil, List.nil_append] at hread hlinks
  rw [NrList.removeFront, h.head]
  refine ⟨_, rfl, ?_, ?_⟩
  · generalize hw : (l.write .head (l.read (.next id))).write (.next id) none = w at hread ⊢
    have hwhead : w.head = xs.head? := by
      rw [← hread] at hlinks
      cases xs with
      | nil => exact hlinks
      | cons x xs => exact hlinks.1
    have hlen : w.next.length = l.next.length := by simp [← hw]
    have htail : w.tail = l.tail := by simp [← hw]
    have hlen' : w.len = l.len := by simp [← hw]
    rw [← hread] at hlinks
    have hlt : ∀ x ∈ xs, x < w.next.length :=
      fun x hx => hlen ▸ h.lt x (List.mem_cons_of_mem _ hx)
    split
    · rename_i hnone
      rw [hwhead, Option.isNone_iff_eq_none, List.head?_eq_none_iff] at hnone
      subst hnone
      refine ⟨?_, List.nodup_nil, fun _ hx => absurd hx List.not_mem_nil, rfl, ?_⟩
      · exact hlinks
      · exact hlen'.trans (h.len.trans hlen.symm)
    · rename_i hsome
      refine ⟨hlinks, (List.nodup_cons.mp h.nodup).2, hlt, ?_, hlen'.trans (h.len.trans hlen.symm)⟩
      rw [htail, h.tail]
      cases xs with
      | nil => exact absurd (by rw [hwhead]; rfl) hsome
      | cons x xs => exact List.getLast?_cons_cons
  · split <;> simp

/-- The tail that the C code derives from the cell before the one that held the id. -/
theorem Holds.tail_of_unlinked {w : NrList} (h : l.Holds (xs ++ id :: ys))
    (hw : LinkedCells.Holds w.read .head (xs ++ ys)) (htail : w.tail = l.tail) :
    (match w.read (beforeLast .head .head xs) with
      | none => none
      | some p => if (w.read (.next p)).isSome then w.tail else some p) =
    (xs ++ ys).getLast? := by
  rw [htail, h.tail]
  rcases List.eq_nil_or_concat xs with rfl | ⟨zs, z, rfl⟩
  · -- the id was the head, and the head is what is read
    cases ys with
    | nil =>
        have hnone : w.read .head = none := hw
        simp only [beforeLast, hnone]
        rfl
    | cons y ys =>
        obtain ⟨hy, hrest⟩ : w.read .head = some y ∧ LinkedCells.Holds w.read (.next y) ys := hw
        simp only [beforeLast, hy]
        cases ys with
        | nil =>
            rw [show w.read (.next y) = none from hrest]
            rfl
        | cons y' ys =>
            rw [hrest.1]
            simp
  · have hz : w.read (Cell.head.after zs) = some z := by
      rw [List.concat_eq_append, List.append_assoc] at hw
      exact hw.read_after
    have hnext : w.read (.next z) = ys.head? := by
      have := hw.read_after
      simpa using this
    rw [List.concat_eq_append, beforeLast_snoc, hz]
    simp only [hnext]
    cases ys with
    | nil => simp
    | cons y ys => simp

/-- The walk to an id of the list. -/
theorem Holds.find (h : l.Holds (xs ++ id :: ys)) :
    LinkedCells.find l.read id (l.next.length + 1) .head .head =
      some (beforeLast .head .head xs, Cell.head.after xs) := by
  have hid : id ∉ xs := fun hx =>
    (List.nodup_append.mp h.nodup).2.2 id hx id List.mem_cons_self rfl
  have hlen : xs.length < l.next.length + 1 := by
    have := h.length_le
    simp only [List.length_append, List.length_cons] at this
    omega
  exact find_eq h.links hid hlen

theorem Holds.remove (h : l.Holds (xs ++ id :: ys)) :
    ∃ l', l.remove id = .ok l' ∧ l'.Holds (xs ++ ys) ∧ l'.next.length = l.next.length := by
  obtain ⟨hread, hlinks⟩ := h.unlinked
  rw [NrList.remove, h.find]
  refine ⟨_, rfl, ?_, by simp⟩
  rw [← hread] at hlinks
  refine ⟨hlinks, ?_, ?_, h.tail_of_unlinked hlinks (by simp), ?_⟩
  · exact h.nodup.sublist (List.Sublist.append_left (List.sublist_cons_self _ _) xs)
  · intro x hx
    have hx' : x ∈ xs ++ id :: ys := by
      rw [List.mem_append] at hx ⊢
      exact hx.imp_right (List.mem_cons_of_mem id)
    simpa using h.lt x hx'
  · simpa using h.len

end NrList

end OaiCu.NrMac
