import OaiCu.NrMac.NrList

/-!
# Runs of the list operations

An `NR_list_t` against a sequence of different ids. Every operation is one on the sequence, and the
links of the ids that are not in it are -1, which `add_nr_list` relies on.

`memory` says for how many entries the allocator has memory. Where it has none the assertion behind
`malloc` or `realloc` stops the program.
-/

namespace OaiCu.NrMac

open LinkedCells

/-- What the assertions of the list operations stop on. -/
inductive NrListErr
  | mac (err : MacErr)
  /-- "id %d already in NR_UE_list!". -/
  | alreadyIn (id : ℕ)
  /-- "cannot malloc() memory for NR_list_t->next", and for realloc(). -/
  | noMemory
  /-- "shortened list head out of index". -/
  | shortenedHead
  /-- "shortened list tail out of index". -/
  | shortenedTail
  /-- "shortened list entry out of index". -/
  | shortenedEntry
  deriving DecidableEq, Repr

namespace NrList

/-- create_nr_list with its assertion. -/
def createNrList (memory : ℕ → Bool) (len : ℕ) : Except NrListErr NrList :=
  if memory len then .ok (create len) else .error .noMemory

/-- add_nr_list. The walk over the links is given one more link than there are ids. -/
def add (l : NrList) (id : ℕ) : Except NrListErr NrList :=
  match endOf l.read id (l.next.length + 1) .head with
  | none => .error (.alreadyIn id)
  | some cur =>
      let l := l.write cur (some id)
      .ok (if (l.read (.next id)).isNone then { l with tail := some id } else l)

/-- add_front_nr_list. -/
def addFront (l : NrList) (id : ℕ) : NrList :=
  let ohead := l.head
  let l := (l.write .head (some id)).write (.next id) ohead
  if l.tail.isNone then { l with tail := some id } else l

/-- An index, or -1, is below the new length. -/
def inIndex (newLen : ℕ) (v : Option ℕ) : Bool := v.all (· < newLen)

/-- resize_nr_list. -/
def resizeNrList (memory : ℕ → Bool) (l : NrList) (newLen : ℕ) : Except NrListErr NrList :=
  if newLen = l.len then .ok l
  else if l.len < newLen then
    if memory newLen then .ok (l.resize newLen) else .error .noMemory
  else if !inIndex newLen l.head then .error .shortenedHead
  else if !inIndex newLen l.tail then .error .shortenedTail
  else if !l.next.all (inIndex newLen) then .error .shortenedEntry
  else if memory newLen then .ok { l with next := l.next.take newLen, len := newLen }
  else .error .noMemory

end NrList

/-- The operations on a list. -/
inductive NrListOp
  | add (id : ℕ)
  | addTail (id : ℕ)
  | addFront (id : ℕ)
  | remove (id : ℕ)
  | removeFront
  | resize (newLen : ℕ)

def NrListOp.run (memory : ℕ → Bool) (l : NrList) : NrListOp → Except NrListErr NrList
  | .add id => l.add id
  | .addTail id => .ok (l.addTail id)
  | .addFront id => .ok (l.addFront id)
  | .remove id => (l.remove id).mapError .mac
  | .removeFront => l.removeFront.mapError .mac
  | .resize newLen => l.resizeNrList memory newLen

/-- create_nr_list and then the operations. -/
def NrList.runAll (memory : ℕ → Bool) (len : ℕ) (ops : List NrListOp) :
    Except NrListErr NrList := do
  let l ← createNrList memory len
  ops.foldlM (fun l op => op.run memory l) l

/-! ## The sequence -/

/-- A sequence of ids below a length. -/
structure IdSeq where
  ids : List ℕ
  len : ℕ

namespace IdSeq

/-- When an operation may be used: for a new id, for an id of the sequence, or for a length above all
its ids. -/
def Allowed (memory : ℕ → Bool) (s : IdSeq) : NrListOp → Prop
  | .add id | .addTail id | .addFront id => id < s.len ∧ id ∉ s.ids
  | .remove id => id ∈ s.ids
  | .removeFront => s.ids ≠ []
  | .resize newLen => (s.len ≤ newLen ∨ ∀ x ∈ s.ids, x < newLen) ∧
      (newLen ≠ s.len → memory newLen = true)

/-- What an operation does to the sequence. -/
def apply (s : IdSeq) : NrListOp → IdSeq
  | .add id | .addTail id => { s with ids := s.ids ++ [id] }
  | .addFront id => { s with ids := id :: s.ids }
  | .remove id => { s with ids := s.ids.erase id }
  | .removeFront => { s with ids := s.ids.tail }
  | .resize newLen => { s with len := newLen }

/-- Every operation may be used where it is. -/
def AllowedAll (memory : ℕ → Bool) : IdSeq → List NrListOp → Prop
  | _, [] => True
  | s, op :: ops => s.Allowed memory op ∧ AllowedAll memory (s.apply op) ops

instance (memory : ℕ → Bool) (s : IdSeq) (op : NrListOp) : Decidable (s.Allowed memory op) := by
  cases op <;> unfold Allowed <;> infer_instance

instance decidableAllowedAll (memory : ℕ → Bool) :
    ∀ (s : IdSeq) (ops : List NrListOp), Decidable (AllowedAll memory s ops)
  | _, [] => .isTrue trivial
  | s, op :: ops =>
      have := decidableAllowedAll memory (s.apply op) ops
      inferInstanceAs (Decidable (s.Allowed memory op ∧ AllowedAll memory (s.apply op) ops))

end IdSeq

namespace NrList

/-- The list is this sequence: the chain from the head on has the ids, all different, then -1; the tail
is the last of them; and the links of all other ids are -1. -/
structure Represents (l : NrList) (s : IdSeq) : Prop where
  holds : l.Holds s.ids
  tight : Tight l.read s.ids
  len : l.len = s.len

variable {l : NrList} {s : IdSeq} {xs ys : List ℕ} {id newLen : ℕ} {memory : ℕ → Bool}

theorem Represents.length_next (h : l.Represents s) : l.next.length = s.len :=
  h.holds.len.symm.trans h.len

theorem represents_create (len : ℕ) : (create len).Represents ⟨[], len⟩ where
  holds := holds_create len
  tight a _ := by
    change ((List.replicate len none)[a]?).join = none
    rw [List.getElem?_replicate]
    split <;> rfl
  len := rfl

/-! ## Adding -/

theorem Represents.addTail (h : l.Represents s) (hlt : id < s.len) (hid : id ∉ s.ids) :
    (l.addTail id).Represents (s.apply (.addTail id)) where
  holds := h.holds.addTail (h.length_next.symm ▸ hlt) hid
  tight := by
    rw [h.holds.read_addTail (h.length_next.symm ▸ hlt)]
    exact h.tight.link
  len := by
    have hlen : (l.addTail id).len = l.len := by simp [NrList.addTail]
    exact hlen.trans h.len

/-- The link of a new id is -1 already, so that `add_nr_list` and `add_tail_nr_list` write the same. -/
theorem Represents.add_eq (h : l.Represents s) (hlt : id < s.len) (hid : id ∉ s.ids) :
    l.add id = .ok (l.addTail id) := by
  have hfree : l.read (.next id) = none := h.tight id hid
  have hlen : s.ids.length < l.next.length + 1 := Nat.lt_succ_of_le h.holds.length_le
  have hcell : Cell.head.after s.ids ≠ .next id := after_ne_next hid
  have hread : (l.write (Cell.head.after s.ids) (some id)).read (.next id) = none := by
    rw [read_write ((List.append_nil s.ids).symm ▸ h.holds), Function.update_of_ne hcell.symm]
    exact hfree
  -- the cell of the new id keeps its value
  have hnext : ∀ w : NrList, id < w.next.length → w.read (.next id) = none →
      w.write (.next id) none = w := by
    intro w hw hnone
    have hget : w.next[id] = none := by
      rw [read, List.getElem?_eq_getElem hw, Option.join_some] at hnone
      exact hnone
    have hset : w.next.set id none = w.next := by
      rw [← hget]
      exact List.set_getElem_self hw
    change { w with next := w.next.set id none } = w
    rw [hset]
  have hlt' : id < (l.write (Cell.head.after s.ids) (some id)).next.length := by
    rw [length_write, h.length_next]
    exact hlt
  rw [NrList.add, endOf_eq h.holds.links hid hlen]
  simp only [hread, Option.isNone_none, if_true]
  rw [NrList.addTail, h.holds.last, hnext _ hlt' hread]

theorem Represents.addFront (h : l.Represents s) (hlt : id < s.len) (hid : id ∉ s.ids) :
    (l.addFront id).Represents (s.apply (.addFront id)) := by
  generalize hw : (l.write .head (some id)).write (.next id) l.head = w
  have hread : w.read = push l.read id := by
    have hlt' : id < (l.write .head (some id)).next.length := by
      rw [length_write, h.length_next]
      exact hlt
    rw [← hw, read_write_next hlt', read_write_head]
    rfl
  have htail : w.tail = l.tail := by simp [← hw]
  have hlen : w.len = l.len := by simp [← hw]
  have hnext : w.next.length = l.next.length := by simp [← hw]
  have hfront : l.addFront id = { w with tail := (id :: s.ids).getLast? } := by
    rw [NrList.addFront, hw]
    simp only [htail]
    rw [h.holds.tail]
    cases hxs : s.ids with
    | nil => rfl
    | cons x xs =>
        have hlast : w.tail = (id :: x :: xs).getLast? := by
          rw [htail, h.holds.tail, hxs, List.getLast?_cons_cons]
        rw [← hlast]
        rfl
  rw [hfront]
  refine ⟨⟨?_, ?_, ?_, rfl, ?_⟩, ?_, ?_⟩
  · change LinkedCells.Holds w.read .head (id :: s.ids)
    rw [hread]
    exact h.holds.links.push hid
  · exact List.nodup_cons.mpr ⟨hid, h.holds.nodup⟩
  · intro x hx
    change x < w.next.length
    rw [hnext]
    rcases List.mem_cons.mp hx with rfl | hx
    · exact h.length_next.symm ▸ hlt
    · exact h.holds.lt x hx
  · exact hlen.trans (h.holds.len.trans hnext.symm)
  · change Tight w.read (id :: s.ids)
    rw [hread]
    exact h.tight.push
  · exact hlen.trans h.len

/-! ## Removing -/

theorem Holds.read_remove (h : l.Holds (xs ++ id :: ys)) {l' : NrList} (hok : l.remove id = .ok l') :
    l'.read = unlink l.read (Cell.head.after xs) id ∧ l'.len = l.len := by
  rw [NrList.remove, h.find] at hok
  obtain rfl := Except.ok.inj hok
  refine ⟨h.unlinked.1, ?_⟩
  simp

theorem Holds.read_removeFront (h : l.Holds (id :: xs)) {l' : NrList}
    (hok : l.removeFront = .ok l') : l'.read = unlink l.read .head id ∧ l'.len = l.len := by
  have hunlinked := (@Holds.unlinked l [] xs id h).1
  rw [NrList.removeFront, h.head] at hok
  obtain rfl := Except.ok.inj hok
  simp only [after_nil] at hunlinked
  constructor
  · rw [← hunlinked]
    split <;> rfl
  · split <;> simp

theorem Represents.remove (h : l.Represents s) (hid : id ∈ s.ids) :
    ∃ l', l.remove id = .ok l' ∧ l'.Represents (s.apply (.remove id)) := by
  obtain ⟨xs, ys, hids⟩ := List.append_of_mem hid
  have hholds := h.holds
  have htight := h.tight
  have hnd := h.holds.nodup
  rw [hids] at hholds htight hnd
  have hxs : id ∉ xs := fun hx =>
    (List.nodup_append.mp hnd).2.2 id hx id List.mem_cons_self rfl
  have herase : s.ids.erase id = xs ++ ys := by
    rw [hids, List.erase_append_right _ hxs, List.erase_cons_head]
  obtain ⟨l', hok, hholds', -⟩ := hholds.remove
  obtain ⟨hread, hlen⟩ := hholds.read_remove hok
  refine ⟨l', hok, ?_, ?_, hlen.trans h.len⟩
  · change l'.Holds (s.ids.erase id)
    rw [herase]
    exact hholds'
  · change Tight l'.read (s.ids.erase id)
    rw [herase, hread]
    exact htight.unlink

theorem Represents.removeFront (h : l.Represents s) (hne : s.ids ≠ []) :
    ∃ l', l.removeFront = .ok l' ∧ l'.Represents (s.apply .removeFront) := by
  obtain ⟨x, xs, hids⟩ := List.exists_cons_of_ne_nil hne
  have hholds := h.holds
  have htight := h.tight
  rw [hids] at hholds htight
  obtain ⟨l', hok, hholds', -⟩ := hholds.removeFront
  obtain ⟨hread, hlen⟩ := hholds.read_removeFront hok
  refine ⟨l', hok, ?_, ?_, hlen.trans h.len⟩
  · change l'.Holds s.ids.tail
    rw [hids]
    exact hholds'
  · change Tight l'.read s.ids.tail
    rw [hids, hread]
    exact @Tight.unlink ℕ l.read x [] xs _ htight

/-! ## Another length -/

theorem Represents.grow (h : l.Represents s) (hle : s.len ≤ newLen) :
    (l.resize newLen).Represents (s.apply (.resize newLen)) where
  holds := h.holds.resize (h.len.symm ▸ hle)
  tight := by
    rw [read_resize]
    exact h.tight
  len := rfl

/-- The ids of the list are below the new length, so that the links up to it are all there are. -/
theorem Represents.shrink (h : l.Represents s) (hlt : ∀ x ∈ s.ids, x < newLen)
    (hle : newLen ≤ s.len) :
    { l with next := l.next.take newLen, len := newLen : NrList }.Represents
      (s.apply (.resize newLen)) := by
  have hread : ∀ j, NrList.read { l with next := l.next.take newLen, len := newLen } (.next j) =
      if j < newLen then l.read (.next j) else none := by
    intro j
    change ((l.next.take newLen)[j]?).join = _
    rw [List.getElem?_take]
    split <;> rfl
  have hlength : (l.next.take newLen).length = newLen := by
    rw [List.length_take, h.length_next, Nat.min_eq_left hle]
  refine ⟨⟨?_, h.holds.nodup, ?_, h.holds.tail, hlength.symm⟩, ?_, rfl⟩
  · refine h.holds.links.congr rfl fun x hx => ?_
    rw [hread, if_pos (hlt x hx)]
  · intro x hx
    exact hlength.symm ▸ hlt x hx
  · intro a ha
    rw [hread, h.tight a ha, ite_self]

/-- The assertions of `resize_nr_list` hold. -/
theorem Represents.inIndex (h : l.Represents s) (hlt : ∀ x ∈ s.ids, x < newLen) :
    inIndex newLen l.head = true ∧ inIndex newLen l.tail = true ∧
      l.next.all (inIndex newLen) = true := by
  have hmem : ∀ v : Option ℕ, (∀ x, v = some x → x ∈ s.ids) → NrList.inIndex newLen v = true := by
    intro v hv
    cases v with
    | none => rfl
    | some x => exact decide_eq_true (hlt x (hv x rfl))
  refine ⟨hmem _ fun x hx => ?_, hmem _ fun x hx => ?_, List.all_eq_true.mpr fun v hv =>
    hmem v fun x hx => ?_⟩
  · rw [h.holds.head] at hx
    exact List.mem_of_head? hx
  · rw [h.holds.tail] at hx
    exact List.mem_of_getLast? hx
  · -- the entry of an id is the link behind it
    subst hx
    obtain ⟨j, hj, hget⟩ := List.mem_iff_getElem.mp hv
    have hread : l.read (.next j) = some x := by
      rw [read, List.getElem?_eq_getElem hj, hget]
      rfl
    have hjmem : j ∈ s.ids := by
      by_contra hnot
      cases hread.symm.trans (h.tight j hnot)
    obtain ⟨as, bs, hids⟩ := List.append_of_mem hjmem
    have hlinks := h.holds.links
    rw [hids, ← List.singleton_append, ← List.append_assoc] at hlinks
    have hafter : Cell.head.after (as ++ [j]) = .next j := by simp
    have hhead := hlinks.read_after
    rw [hafter, hread] at hhead
    rw [hids]
    exact List.mem_append_right _ (List.mem_cons_of_mem _ (List.mem_of_head? hhead.symm))

theorem Represents.resize (h : l.Represents s) (hop : s.Allowed memory (.resize newLen)) :
    ∃ l', l.resizeNrList memory newLen = .ok l' ∧ l'.Represents (s.apply (.resize newLen)) := by
  obtain ⟨habove, hmemory⟩ := hop
  rw [resizeNrList, h.len]
  by_cases heq : newLen = s.len
  · rw [if_pos heq]
    refine ⟨l, rfl, h.holds, h.tight, ?_⟩
    exact h.len.trans heq.symm
  · rw [if_neg heq, if_pos (hmemory heq)]
    by_cases hgrow : s.len < newLen
    · rw [if_pos hgrow]
      exact ⟨_, rfl, h.grow (Nat.le_of_lt hgrow)⟩
    · rw [if_neg hgrow]
      have hle : newLen ≤ s.len := Nat.le_of_not_lt hgrow
      have hlt : ∀ x ∈ s.ids, x < newLen := by
        rcases habove with hge | hlt
        · exact absurd (Nat.le_antisymm hle hge) heq
        · exact hlt
      obtain ⟨h1, h2, h3⟩ := h.inIndex hlt
      simp only [h1, h2, h3, hmemory heq, Bool.not_true, Bool.false_eq_true, if_false, if_true]
      exact ⟨_, rfl, h.shrink hlt hle⟩

/-! ## Runs -/

/-- One operation. -/
theorem Represents.run (h : l.Represents s) {op : NrListOp} (hop : s.Allowed memory op) :
    ∃ l', op.run memory l = .ok l' ∧ l'.Represents (s.apply op) := by
  cases op with
  | add id => exact ⟨_, h.add_eq hop.1 hop.2, h.addTail hop.1 hop.2⟩
  | addTail id => exact ⟨_, rfl, h.addTail hop.1 hop.2⟩
  | addFront id => exact ⟨_, rfl, h.addFront hop.1 hop.2⟩
  | remove id =>
      obtain ⟨l', hok, h'⟩ := h.remove hop
      refine ⟨l', ?_, h'⟩
      rw [NrListOp.run, hok]
      rfl
  | removeFront =>
      obtain ⟨l', hok, h'⟩ := h.removeFront hop
      refine ⟨l', ?_, h'⟩
      rw [NrListOp.run, hok]
      rfl
  | resize newLen => exact h.resize hop

theorem Represents.foldlM : ∀ {ops : List NrListOp} {l : NrList} {s : IdSeq}, l.Represents s →
    s.AllowedAll memory ops →
    ∃ l', ops.foldlM (fun l op => op.run memory l) l = .ok l' ∧
      l'.Represents (ops.foldl IdSeq.apply s)
  | [], l, _, h, _ => ⟨l, rfl, h⟩
  | op :: ops, l, s, h, hops => by
      obtain ⟨l', hok, h'⟩ := h.run hops.1
      obtain ⟨l'', hrun, h''⟩ := Represents.foldlM h' hops.2
      refine ⟨l'', ?_, h''⟩
      rw [List.foldlM_cons, hok]
      exact hrun

/-- **`NR_list_t` refines a sequence of different ids.** -/
theorem runAll_represents (memory : ℕ → Bool) (len : ℕ) (ops : List NrListOp)
    (hmemory : memory len = true) (hops : IdSeq.AllowedAll memory ⟨[], len⟩ ops) :
    ∃ l, runAll memory len ops = .ok l ∧ l.Represents (ops.foldl IdSeq.apply ⟨[], len⟩) := by
  obtain ⟨l, hrun, h⟩ := Represents.foldlM (represents_create len) hops
  refine ⟨l, ?_, h⟩
  rw [runAll, createNrList, if_pos hmemory]
  exact hrun

/-- The ids 2, 0 and 3 of four, without 2, in a longer and then a shorter list. -/
theorem runAll_represents_four : ∃ l,
    runAll (· ≠ 0) 4 [.add 2, .addFront 0, .addTail 3, .remove 2, .resize 6, .removeFront, .resize 5] =
      .ok l ∧ l.Represents ⟨[3], 5⟩ :=
  runAll_represents (· ≠ 0) 4
    [.add 2, .addFront 0, .addTail 3, .remove 2, .resize 6, .removeFront, .resize 5] (by decide)
    (by decide)

end NrList

end OaiCu.NrMac
