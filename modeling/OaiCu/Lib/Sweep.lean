import Mathlib.Data.List.TakeWhile

/-!
# Sweeping a list with a sequence of cursors

Each cursor goes over what the cursors before it left, from the front, and gives every element a
verdict. It stops at the first element whose verdict says so; that element and all behind it are
left to the next cursor.
-/

namespace Sweep

variable {α ν β : Type*} (stop : β → Bool) (v : ν → α → β)

/-- The elements that got a verdict, with it and in order, and those that are left. -/
def sweep : List ν → List α → List (α × β) × List α
  | [], l => ([], l)
  | n :: ns, l =>
      let (done, rest) := sweep ns (l.dropWhile fun x => !stop (v n x))
      ((l.takeWhile fun x => !stop (v n x)).map (fun x => (x, v n x)) ++ done, rest)

/-- The verdict of the first cursor that does not stop at the element. -/
def fate : List ν → α → Option β
  | [], _ => none
  | n :: ns, x => if stop (v n x) then fate ns x else some (v n x)

variable {stop v} {ns : List ν} {n : ν} {l front rest : List α}

theorem sweep_cons (n : ν) (ns : List ν) (l : List α) : sweep stop v (n :: ns) l =
    ((l.takeWhile fun x => !stop (v n x)).map (fun x => (x, v n x)) ++
        (sweep stop v ns (l.dropWhile fun x => !stop (v n x))).1,
      (sweep stop v ns (l.dropWhile fun x => !stop (v n x))).2) := rfl

/-- Nothing is lost. -/
theorem sweep_split (ns : List ν) (l : List α) :
    (sweep stop v ns l).1.map Prod.fst ++ (sweep stop v ns l).2 = l := by
  induction ns generalizing l with
  | nil => rfl
  | cons n ns ih =>
      rw [sweep_cons]
      simp only [List.map_append, List.map_map, List.append_assoc]
      rw [ih]
      have hid : (Prod.fst ∘ fun x => (x, v n x)) = id := rfl
      rw [hid, List.map_id]
      exact List.takeWhile_append_dropWhile

/-- Every verdict is that of a cursor that does not stop there. -/
theorem sweep_verdict (ns : List ν) (l : List α) :
    ∀ p ∈ (sweep stop v ns l).1, stop p.2 = false ∧ ∃ n ∈ ns, p.2 = v n p.1 := by
  induction ns generalizing l with
  | nil => simp [sweep]
  | cons n ns ih =>
      intro p hp
      rw [sweep_cons] at hp
      rcases List.mem_append.mp hp with hp | hp
      · obtain ⟨x, hx, rfl⟩ := List.mem_map.mp hp
        exact ⟨by simpa using List.mem_takeWhile_imp hx, n, List.mem_cons_self, rfl⟩
      · obtain ⟨h1, n', hn', h2⟩ := ih _ p hp
        exact ⟨h1, n', List.mem_cons_of_mem _ hn', h2⟩

/-- Over an empty list all cursors are done. -/
theorem sweep_nil (ns : List ν) : sweep stop v ns ([] : List α) = ([], []) := by
  induction ns with
  | nil => rfl
  | cons n ns ih =>
      rw [sweep_cons]
      simp only [List.takeWhile_nil, List.dropWhile_nil, List.map_nil, List.nil_append]
      rw [ih]

/-- One more cursor goes over what is left. -/
theorem sweep_append (ns ns' : List ν) (l : List α) : sweep stop v (ns ++ ns') l =
    ((sweep stop v ns l).1 ++ (sweep stop v ns' (sweep stop v ns l).2).1,
      (sweep stop v ns' (sweep stop v ns l).2).2) := by
  induction ns generalizing l with
  | nil => rfl
  | cons n ns ih =>
      rw [List.cons_append, sweep_cons, ih, sweep_cons]
      simp only [List.append_assoc]

/-- A cursor that goes over `front` and no further. -/
theorem sweep_singleton (hl : l = front ++ rest) (hfront : ∀ x ∈ front, stop (v n x) = false)
    (hrest : ∀ x ∈ rest.head?, stop (v n x) = true) :
    sweep stop v [n] l = (front.map (fun x => (x, v n x)), rest) := by
  have hp : ∀ x ∈ front, (!stop (v n x)) = true := fun x hx => by rw [hfront x hx]; rfl
  subst hl
  rw [sweep_cons, List.takeWhile_append_of_pos hp, List.dropWhile_append_of_pos hp]
  cases rest with
  | nil => simp [sweep]
  | cons x rest =>
      have hx := hrest x (by simp)
      simp [sweep, hx]

/-- A cursor that goes over `front` and at least one element more. -/
theorem sweep_further {x : α} {ns' : List ν} (hl : (sweep stop v ns l).2 = front ++ x :: rest)
    (hfront : ∀ y ∈ front, stop (v n y) = false) (hx : stop (v n x) = false) :
    ∃ more, (sweep stop v (ns ++ n :: ns') l).1 =
      (sweep stop v ns l).1 ++ front.map (fun y => (y, v n y)) ++ (x, v n x) :: more := by
  have hp : ∀ y ∈ front, (!stop (v n y)) = true := fun y hy => by rw [hfront y hy]; rfl
  rw [sweep_append, hl, sweep_cons, List.takeWhile_append_of_pos hp,
    List.takeWhile_cons_of_pos (by rw [hx]; rfl)]
  simp only [List.map_append, List.map_cons, List.append_assoc, List.cons_append]
  exact ⟨_, rfl⟩

/-- On a list in order, where a cursor stops at every element behind one it stops at, the
verdicts are the fates. -/
theorem sweep_fate {le : α → α → Prop} (hl : l.Pairwise le)
    (hmono : ∀ n ∈ ns, ∀ x ∈ l, ∀ y ∈ l, le x y → stop (v n x) = true → stop (v n y) = true) :
    (∀ p ∈ (sweep stop v ns l).1, fate stop v ns p.1 = some p.2) ∧
      ∀ x ∈ (sweep stop v ns l).2, fate stop v ns x = none := by
  induction ns generalizing l with
  | nil => exact ⟨by simp [sweep], fun _ _ => rfl⟩
  | cons n ns ih =>
      have hsub := (List.dropWhile_suffix (l := l) (fun x => !stop (v n x))).sublist
      obtain ⟨ih1, ih2⟩ := @ih (l.dropWhile fun x => !stop (v n x)) (hl.sublist hsub)
        (fun n' hn' x hx y hy => hmono n' (List.mem_cons_of_mem _ hn') x (hsub.subset hx) y
          (hsub.subset hy))
      -- the cursor stops at all that is left
      have hstop : ∀ x ∈ l.dropWhile (fun x => !stop (v n x)), stop (v n x) = true := by
        intro x hx
        obtain ⟨y, t, hy⟩ := List.exists_cons_of_ne_nil (List.ne_nil_of_mem hx)
        have hhead : stop (v n y) = true := by
          have := @List.head_dropWhile_not _ (fun x => !stop (v n x)) l (by simp [hy])
          simpa [hy] using this
        have hs := hl.sublist hsub
        rw [hy] at hx hs hsub
        rcases List.mem_cons.mp hx with rfl | hxt
        · exact hhead
        · exact hmono n List.mem_cons_self y (hsub.subset List.mem_cons_self) x
            (hsub.subset hx) ((List.pairwise_cons.mp hs).1 x hxt) hhead
      rw [sweep_cons]
      constructor
      · intro p hp
        rcases List.mem_append.mp hp with hp | hp
        · obtain ⟨x, hx, rfl⟩ := List.mem_map.mp hp
          have := List.mem_takeWhile_imp hx
          simp only [Bool.not_eq_true'] at this
          simp [fate, this]
        · have hmem : p.1 ∈ l.dropWhile fun x => !stop (v n x) := by
            rw [← @sweep_split α ν β stop v ns (l.dropWhile fun x => !stop (v n x))]
            exact List.mem_append_left _ (List.mem_map_of_mem hp)
          rw [fate, if_pos (hstop _ hmem)]
          exact ih1 p hp
      · intro x hx
        have hmem : x ∈ l.dropWhile fun x => !stop (v n x) := by
          rw [← @sweep_split α ν β stop v ns (l.dropWhile fun x => !stop (v n x))]
          exact List.mem_append_right _ hx
        rw [fate, if_pos (hstop _ hmem)]
        exact ih2 x hx

end Sweep
