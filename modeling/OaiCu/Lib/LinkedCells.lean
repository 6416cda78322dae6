import Mathlib.Data.List.Nodup

/-!
# Singly linked lists of cells

A list that lives in its own links: the head holds the first element and the link behind an
element holds the next one. The elements are the list that one reads by following the links.
-/

namespace LinkedCells

variable {α : Type*}

/-- What holds a link: the head, or the link behind an element. -/
inductive Cell (α : Type*)
  | head
  | next (a : α)
  deriving DecidableEq

theorem Cell.head_ne_next (a : α) : Cell.head ≠ Cell.next a := by
  rintro ⟨⟩

/-- The cell one stands at after walking over the elements. -/
def Cell.after : Cell α → List α → Cell α
  | c, [] => c
  | _, x :: xs => (Cell.next x).after xs

/-- From the cell one reads these elements, and then the end. -/
def Holds (m : Cell α → Option α) : Cell α → List α → Prop
  | c, [] => m c = none
  | c, x :: xs => m c = some x ∧ Holds m (.next x) xs

variable {m m' : Cell α → Option α} {c : Cell α} {x : α} {xs ys : List α}

@[simp] theorem after_nil (c : Cell α) : c.after [] = c := rfl

@[simp] theorem after_cons (c : Cell α) (x : α) (xs : List α) :
    c.after (x :: xs) = (Cell.next x).after xs := rfl

@[simp] theorem after_append : ∀ (c : Cell α) (xs ys : List α),
    c.after (xs ++ ys) = (c.after xs).after ys
  | _, [], _ => rfl
  | _, x :: xs, ys => after_append (.next x) xs ys

/-- Behind at least one element one stands at the link of an element. -/
theorem after_next : ∀ (x : α) (xs : List α), ∃ y ∈ x :: xs, (Cell.next x).after xs = .next y
  | x, [] => ⟨x, List.mem_cons_self, rfl⟩
  | x, y :: ys => by
      obtain ⟨z, hz, h⟩ := after_next y ys
      exact ⟨z, List.mem_cons_of_mem x hz, h⟩

/-- The list read first is the only one. -/
theorem holds_unique : ∀ {xs ys : List α} {c : Cell α}, Holds m c xs → Holds m c ys → xs = ys
  | [], [], _, _, _ => rfl
  | [], _ :: _, _, h, h' => by cases h.symm.trans h'.1
  | _ :: _, [], _, h, h' => by cases h.1.symm.trans h'
  | x :: xs, y :: ys, _, h, h' => by
      obtain rfl : x = y := Option.some.inj (h.1.symm.trans h'.1)
      rw [holds_unique h.2 h'.2]

/-- The link at which one stands in the middle of a list. -/
theorem Holds.read_after : ∀ {xs ys : List α} {c : Cell α}, Holds m c (xs ++ ys) →
    m (c.after xs) = ys.head?
  | [], [], _, h => h
  | [], _ :: _, _, h => h.1
  | _ :: _, _, _, h => h.2.read_after

/-- Only the links of the list matter. -/
theorem Holds.congr : ∀ {xs : List α} {c : Cell α}, Holds m c xs → m' c = m c →
    (∀ x ∈ xs, m' (.next x) = m (.next x)) → Holds m' c xs
  | [], _, h, hc, _ => hc.trans h
  | _ :: _, _, h, hc, hxs =>
      ⟨hc.trans h.1, h.2.congr (hxs _ List.mem_cons_self)
        fun y hy => hxs y (List.mem_cons_of_mem _ hy)⟩

/-- The link at which one stands is not behind an element outside of the list. -/
theorem after_ne_next {a : α} (ha : a ∉ xs) : Cell.head.after xs ≠ .next a := by
  cases xs with
  | nil => exact Cell.head_ne_next a
  | cons y ys =>
      obtain ⟨z, hz, hlast⟩ := after_next y ys
      rw [after_cons, hlast]
      rintro ⟨⟩
      exact ha hz

/-! ## Linking and unlinking -/

section Update

variable [DecidableEq α]

/-- The link at the end is set to `x`, and behind `x` the list ends. -/
def link (m : Cell α → Option α) (last : Cell α) (x : α) : Cell α → Option α :=
  Function.update (Function.update m last (some x)) (.next x) none

/-- The link that held `x` gets what is behind `x`. -/
def unlink (m : Cell α → Option α) (cur : Cell α) (x : α) : Cell α → Option α :=
  Function.update (Function.update m cur (m (.next x))) (.next x) none

theorem link_of_ne {last d : Cell α} (h : d ≠ last) (hx : d ≠ .next x) : link m last x d = m d := by
  rw [link, Function.update_of_ne hx, Function.update_of_ne h]

theorem unlink_of_ne {cur d : Cell α} (h : d ≠ cur) (hx : d ≠ .next x) :
    unlink m cur x d = m d := by
  rw [unlink, Function.update_of_ne hx, Function.update_of_ne h]

/-- An element linked at the end. -/
theorem Holds.link : ∀ {xs : List α} {c : Cell α}, Holds m c xs → xs.Nodup →
    (∀ y ∈ xs, c ≠ .next y) → c ≠ .next x → x ∉ xs →
    Holds (link m (c.after xs) x) c (xs ++ [x])
  | [], c, _, _, _, hx, _ => by
      refine ⟨?_, Function.update_self _ _ _⟩
      rw [LinkedCells.link, Function.update_of_ne hx, after_nil, Function.update_self]
  | y :: ys, c, h, hnd, hc, hx, hmem => by
      rw [List.nodup_cons] at hnd
      rw [List.mem_cons, not_or] at hmem
      obtain ⟨z, hz, hlast⟩ := after_next y ys
      refine ⟨?_, h.2.link hnd.2 ?_ ?_ hmem.2⟩
      · rw [after_cons, link_of_ne (hlast ▸ hc z hz) hx]
        exact h.1
      · rintro w hw ⟨⟩
        exact hnd.1 hw
      · rintro ⟨⟩
        exact hmem.1 rfl

/-- An element taken out. -/
theorem Holds.unlink : ∀ {xs : List α} {c : Cell α}, Holds m c (xs ++ x :: ys) →
    (xs ++ x :: ys).Nodup → (∀ y ∈ xs ++ x :: ys, c ≠ .next y) →
    Holds (unlink m (c.after xs) x) c (xs ++ ys)
  | [], c, h, hnd, hc => by
      obtain ⟨hx, hys⟩ := List.nodup_cons.mp hnd
      have hcur : LinkedCells.unlink m c x c = m (.next x) := by
        rw [LinkedCells.unlink, Function.update_of_ne (hc x List.mem_cons_self),
          Function.update_self]
      cases ys with
      | nil => exact hcur.trans h.2
      | cons z zs =>
          refine ⟨hcur.trans h.2.1, h.2.2.congr ?_ fun w hw => ?_⟩
          · refine unlink_of_ne (hc z (by simp)).symm ?_
            rintro ⟨⟩
            exact hx List.mem_cons_self
          · refine unlink_of_ne (hc w (by simp [hw])).symm ?_
            rintro ⟨⟩
            exact hx (List.mem_cons_of_mem z hw)
  | y :: xs, c, h, hnd, hc => by
      rw [List.cons_append, List.nodup_cons] at hnd
      obtain ⟨z, hz, hcur⟩ := after_next y xs
      refine ⟨?_, h.2.unlink hnd.2 ?_⟩
      · rw [after_cons, unlink_of_ne]
        · exact h.1
        · exact hcur ▸ hc z (List.mem_append_left _ hz)
        · exact hc x (by simp)
      · rintro w hw ⟨⟩
        exact hnd.1 hw

/-- The head is set to `x`, and behind `x` is what the head was before. -/
def push (m : Cell α → Option α) (x : α) : Cell α → Option α :=
  Function.update (Function.update m .head (some x)) (.next x) (m .head)

theorem push_of_ne {d : Cell α} (h : d ≠ .head) (hx : d ≠ .next x) : push m x d = m d := by
  rw [push, Function.update_of_ne hx, Function.update_of_ne h]

/-- An element put in front. -/
theorem Holds.push (h : Holds m .head xs) (hx : x ∉ xs) : Holds (push m x) .head (x :: xs) := by
  refine ⟨?_, ?_⟩
  · rw [LinkedCells.push, Function.update_of_ne (Cell.head_ne_next x), Function.update_self]
  have hlink : LinkedCells.push m x (.next x) = m .head := Function.update_self _ _ _
  cases xs with
  | nil => exact hlink.trans h
  | cons y ys =>
      refine ⟨hlink.trans h.1, h.2.congr ?_ fun z hz => ?_⟩
      · refine push_of_ne (Cell.head_ne_next y).symm ?_
        rintro ⟨⟩
        exact hx List.mem_cons_self
      · refine push_of_ne (Cell.head_ne_next z).symm ?_
        rintro ⟨⟩
        exact hx (List.mem_cons_of_mem _ hz)

/-! ## Elements outside of the list -/

/-- There is no link behind an element that is not in the list. -/
def Tight (m : Cell α → Option α) (xs : List α) : Prop := ∀ a ∉ xs, m (.next a) = none

theorem Tight.link (h : Tight m xs) : Tight (link m (Cell.head.after xs) x) (xs ++ [x]) := by
  intro a ha
  rw [List.mem_append, List.mem_singleton, not_or] at ha
  rw [link_of_ne (after_ne_next ha.1).symm fun heq => ha.2 (Cell.next.inj heq)]
  exact h a ha.1

theorem Tight.push (h : Tight m xs) : Tight (push m x) (x :: xs) := by
  intro a ha
  rw [List.mem_cons, not_or] at ha
  rw [push_of_ne (Cell.head_ne_next a).symm fun heq => ha.1 (Cell.next.inj heq)]
  exact h a ha.2

theorem Tight.unlink (h : Tight m (xs ++ x :: ys)) :
    Tight (unlink m (Cell.head.after xs) x) (xs ++ ys) := by
  intro a ha
  by_cases hax : a = x
  · rw [hax]
    exact Function.update_self _ _ _
  · rw [List.mem_append, not_or] at ha
    rw [unlink_of_ne (after_ne_next ha.1).symm fun heq => hax (Cell.next.inj heq)]
    refine h a ?_
    rw [List.mem_append, List.mem_cons]
    rintro (hxs | rfl | hys)
    exacts [ha.1 hxs, hax rfl, ha.2 hys]

end Update

/-! ## Looking for an element -/

/-- Follows the links up to `x`: the cell that holds it, and the cell before (`prev` if there is
none). The walk ends at the end of the list or after the given number of links. -/
def find [DecidableEq α] (m : Cell α → Option α) (x : α) :
    ℕ → Cell α → Cell α → Option (Cell α × Cell α)
  | 0, _, _ => none
  | links + 1, prev, cur =>
      match m cur with
      | none => none
      | some y => if y = x then some (prev, cur) else find m x links cur (.next y)

/-- The cell before the one at which one stands, or `prev`. -/
def beforeLast (prev c : Cell α) : List α → Cell α
  | [] => prev
  | x :: xs => beforeLast c (.next x) xs

/-- The cell before the last of some elements is the one that held that element. -/
theorem beforeLast_snoc : ∀ (prev c : Cell α) (xs : List α) (x : α),
    beforeLast prev c (xs ++ [x]) = c.after xs
  | _, _, [], _ => rfl
  | _, c, y :: ys, x => beforeLast_snoc c (.next y) ys x

variable [DecidableEq α]

theorem find_eq : ∀ {xs : List α} {links : ℕ} {prev c : Cell α}, Holds m c (xs ++ x :: ys) →
    x ∉ xs → xs.length < links →
    find m x links prev c = some (beforeLast prev c xs, c.after xs)
  | [], links + 1, _, _, h, _, _ => by
      rw [find, h.1]
      exact if_pos rfl
  | y :: xs, links + 1, prev, c, h, hx, hlen => by
      rw [List.mem_cons, not_or] at hx
      rw [find, h.1]
      exact (if_neg (Ne.symm hx.1)).trans
        (find_eq h.2 hx.2 (Nat.lt_of_succ_lt_succ hlen))

/-- Follows the links to the end, unless it meets `x`. -/
def endOf (m : Cell α → Option α) (x : α) : ℕ → Cell α → Option (Cell α)
  | 0, _ => none
  | links + 1, cur =>
      match m cur with
      | none => some cur
      | some y => if y = x then none else endOf m x links (.next y)

theorem endOf_eq : ∀ {xs : List α} {links : ℕ} {c : Cell α}, Holds m c xs → x ∉ xs →
    xs.length < links → endOf m x links c = some (c.after xs)
  | [], links + 1, _, h, _, _ => by
      rw [endOf, h]
      rfl
  | y :: xs, links + 1, c, h, hx, hlen => by
      rw [List.mem_cons, not_or] at hx
      rw [endOf, h.1]
      exact (if_neg (Ne.symm hx.1)).trans (endOf_eq h.2 hx.2 (Nat.lt_of_succ_lt_succ hlen))

end LinkedCells
