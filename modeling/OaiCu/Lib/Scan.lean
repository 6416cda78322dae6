import Mathlib.Tactic.Common

/-!
# Scans for a run

A map says which of the first `n` places are free. A scan goes up as long as a condition holds. The
search for a run of free places goes to the next free place, up to the end of the places that follow
it, and starts again behind them if they are too few.
-/

namespace Scan

variable {p : ℕ → Bool} {n i j : ℕ}

/-- while (i < n && p i) i++. -/
def up (p : ℕ → Bool) (n i : ℕ) : ℕ :=
  if i < n ∧ p i = true then up p n (i + 1) else i
termination_by n - i

theorem le_up : i ≤ up p n i := by
  fun_induction up p n i with
  | case1 i h ih => omega
  | case2 i h => exact Nat.le_refl i

theorem up_le (h : i ≤ n) : up p n i ≤ n := by
  fun_induction up p n i with
  | case1 i hi ih => exact ih hi.1
  | case2 i hi => exact h

/-- The condition holds on the way. -/
theorem of_lt_up (hi : i ≤ j) (hj : j < up p n i) : p j = true := by
  fun_induction up p n i with
  | case1 i h ih =>
      rcases Nat.eq_or_lt_of_le hi with rfl | hlt
      · exact h.2
      · exact ih hlt hj
  | case2 i h => exact absurd hi (by omega)

/-- The condition fails at the end. -/
theorem up_stops (h : up p n i < n) : p (up p n i) = false := by
  fun_induction up p n i with
  | case1 i hi ih => exact ih h
  | case2 i hi => exact Bool.eq_false_iff.mpr fun hp => hi ⟨h, hp⟩

/-- A scan takes a step where the condition holds. -/
theorem lt_up (hi : i < n) (hp : p i = true) : i < up p n i := by
  rw [up, if_pos ⟨hi, hp⟩]
  exact le_up

/-- while (p i && i < n) i++: where it ends, and the places at which it looks. -/
def upRead (p : ℕ → Bool) (n i : ℕ) : ℕ × List ℕ :=
  if p i = true ∧ i < n then ((upRead p n (i + 1)).1, i :: (upRead p n (i + 1)).2) else (i, [i])
termination_by n - i

theorem upRead_fst : (upRead p n i).1 = up p n i := by
  fun_induction upRead p n i with
  | case1 i h ih => rw [up, if_pos h.symm, ih]
  | case2 i h => rw [up, if_neg fun h' => h h'.symm]

theorem le_upRead : i ≤ (upRead p n i).1 := by
  rw [upRead_fst]
  exact le_up

/-- It looks at the place where it ends, even if that is behind the last one. -/
theorem mem_upRead : j ∈ (upRead p n i).2 ↔ i ≤ j ∧ j ≤ up p n i := by
  fun_induction upRead p n i with
  | case1 i h ih =>
      have hle : i + 1 ≤ up p n (i + 1) := le_up
      rw [up, if_pos h.symm, List.mem_cons, ih]
      omega
  | case2 i h =>
      rw [up, if_neg fun h' => h h'.symm, List.mem_singleton]
      omega

/-! ## Runs -/

/-- The next free place. -/
def nextFree (p : ℕ → Bool) (n i : ℕ) : ℕ := up (fun i => !p i) n i

theorem le_nextFree : i ≤ nextFree p n i := le_up

theorem nextFree_le (h : i ≤ n) : nextFree p n i ≤ n := up_le h

theorem of_lt_nextFree (hi : i ≤ j) (hj : j < nextFree p n i) : p j = false := by
  simpa using of_lt_up hi hj

theorem nextFree_free (h : nextFree p n i < n) : p (nextFree p n i) = true := by
  have hstop : (!p (nextFree p n i)) = false := up_stops h
  simpa using hstop

/-- The places from `s` on that follow one another, up to `need` of them. -/
def runEnd (p : ℕ → Bool) (n need s : ℕ) : ℕ := up p (min n (s + need)) s

/-- A run of free places. -/
def IsRun (p : ℕ → Bool) (n need s : ℕ) : Prop := s + need ≤ n ∧ ∀ k < need, p (s + k) = true

/-- The search for a run, from a place behind which some free places were found. -/
def findRun (p : ℕ → Bool) (n need start size : ℕ) : Option ℕ :=
  if size < need then
    if nextFree p n (start + size) < n then
      findRun p n need (nextFree p n (start + size))
        (runEnd p n need (nextFree p n (start + size)) - nextFree p n (start + size))
    else none
  else some start
termination_by n - (start + size)
decreasing_by
  rename_i hneed hs
  have hle : start + size ≤ nextFree p n (start + size) := le_nextFree
  have hfree := nextFree_free hs
  generalize nextFree p n (start + size) = s at *
  have : s < runEnd p n need s := lt_up (by omega) hfree
  omega

/-- What is known of the runs where the search stands. -/
structure At (p : ℕ → Bool) (n need start size : ℕ) : Prop where
  free : ∀ k < size, p (start + k) = true
  le : start + size ≤ n
  behind : size < need → ∀ t, IsRun p n need t → start + size ≤ t

variable {need start size : ℕ}

theorem At.first : At p n need 0 0 where
  free := fun _ hk => absurd hk (Nat.not_lt_zero _)
  le := Nat.zero_le _
  behind := fun _ _ _ => Nat.zero_le _

/-- A run does not start before the next free place. -/
theorem IsRun.nextFree_le {t : ℕ} (h : IsRun p n need t) (hneed : 0 < need) (hi : i ≤ t) :
    nextFree p n i ≤ t := by
  by_contra hlt
  have hfree := h.2 0 hneed
  rw [Nat.add_zero, of_lt_nextFree hi (Nat.lt_of_not_le hlt)] at hfree
  cases hfree

/-- A pass of the search goes on behind the places that are too few. -/
theorem At.next (h : At p n need start size) (hneed : size < need)
    (hs : nextFree p n (start + size) < n) :
    At p n need (nextFree p n (start + size))
      (runEnd p n need (nextFree p n (start + size)) - nextFree p n (start + size)) := by
  have hfirst : ∀ t, IsRun p n need t → nextFree p n (start + size) ≤ t := fun t ht =>
    ht.nextFree_le (by omega) (h.behind hneed t ht)
  generalize nextFree p n (start + size) = s at *
  have hge : s ≤ runEnd p n need s := le_up
  have hle : runEnd p n need s ≤ min n (s + need) := up_le (by omega)
  have hrun : ∀ j, s ≤ j → j < runEnd p n need s → p j = true := fun j => of_lt_up
  have hstop : runEnd p n need s < min n (s + need) → p (runEnd p n need s) = false := up_stops
  generalize runEnd p n need s = e at *
  have hn : e ≤ n := Nat.le_trans hle (Nat.min_le_left n _)
  refine ⟨fun k hk => hrun (s + k) (by omega) (by omega), by omega, fun hfew t ht => ?_⟩
  have hst := hfirst t ht
  have hend := ht.1
  -- the place where the scan stopped is not free, so the run starts behind it
  by_contra hlt
  have hfree := ht.2 (e - t) (by omega)
  rw [show t + (e - t) = e by omega, hstop (by omega)] at hfree
  cases hfree

theorem findRun_isRun {s : ℕ} (h : At p n need start size)
    (hs : findRun p n need start size = some s) : IsRun p n need s := by
  fun_induction findRun p n need start size with
  | case1 start size hneed hlt ih => exact ih (h.next hneed hlt) hs
  | case2 => cases hs
  | case3 start size hneed =>
      obtain rfl := Option.some.inj hs
      exact ⟨by have := h.le; omega, fun k hk => h.free k (by omega)⟩

theorem not_isRun_of_findRun {t : ℕ} (h : At p n need start size)
    (hs : findRun p n need start size = none) : ¬ IsRun p n need t := by
  fun_induction findRun p n need start size with
  | case1 start size hneed hlt ih => exact ih (h.next hneed hlt) hs
  | case2 start size hneed hlt =>
      intro ht
      have hfirst := ht.nextFree_le (by omega) (h.behind hneed t ht)
      have := ht.1
      omega
  | case3 => cases hs

/-- The search finds a run if there is one. -/
theorem findRun_eq_none_iff : findRun p n need 0 0 = none ↔ ¬ ∃ s, IsRun p n need s := by
  constructor
  · rintro h ⟨s, hs⟩
    exact not_isRun_of_findRun .first h hs
  · intro h
    cases hs : findRun p n need 0 0 with
    | none => rfl
    | some s => exact absurd ⟨s, findRun_isRun .first hs⟩ h

/-! ## The longest run -/

/-- Of the runs that start before place `i`, the one up to `e` is the longest. -/
structure Longest (p : ℕ → Bool) (n i e len : ℕ) : Prop where
  run : 0 < len → len ≤ e + 1 ∧ IsRun p n len (e + 1 - len)
  empty : len = 0 → e = 0
  longest : ∀ m s, IsRun p n m s → s < i → m ≤ len

variable {e len : ℕ}

theorem Longest.first : Longest p n 0 0 0 where
  run := fun h => absurd h (Nat.lt_irrefl 0)
  empty := fun _ => rfl
  longest := fun _ _ _ h => absurd h (Nat.not_lt_zero _)

/-- A run that starts in the places up to the end of the next free ones is not longer than these. -/
theorem IsRun.le_next {m s : ℕ} (h : IsRun p n m s) (hi : i ≤ s) (hin : i < n)
    (hs : s ≤ up p n (nextFree p n i)) :
    m ≤ up p n (nextFree p n i) - nextFree p n i := by
  have hnext : nextFree p n i ≤ n := Scan.nextFree_le (Nat.le_of_lt hin)
  rcases Nat.eq_zero_or_pos m with rfl | hm
  · exact Nat.zero_le _
  have hstart : nextFree p n i ≤ s := h.nextFree_le hm hi
  have hle : up p n (nextFree p n i) ≤ n := up_le hnext
  have hend := h.1
  -- the place where the free ones end is not free, or there is none
  by_contra hlt
  have hfree := h.2 (up p n (nextFree p n i) - s) (by omega)
  have hstop : p (up p n (nextFree p n i)) = false := up_stops (by omega)
  rw [Nat.add_sub_cancel' hs, hstop] at hfree
  cases hfree

/-- A pass over the next free places. -/
theorem Longest.next (h : Longest p n i e len) (hin : i < n) {st j : ℕ} (hst : nextFree p n i = st)
    (hj : up p n st = j) :
    Longest p n (j + 1) (if len < j - st then j - 1 else e) (if len < j - st then j - st else len) := by
  have hle : j ≤ n := hj ▸ up_le (hst ▸ nextFree_le (Nat.le_of_lt hin))
  have hbefore : ∀ m s, IsRun p n m s → s < j + 1 → m ≤ len ∨ m ≤ j - st := by
    intro m s hrun hs
    rcases Nat.lt_or_ge s i with hlt | hge
    · exact .inl (h.longest m s hrun hlt)
    · subst hj hst
      exact .inr (hrun.le_next hge hin (Nat.le_of_lt_succ hs))
  by_cases hlonger : len < j - st
  · rw [if_pos hlonger, if_pos hlonger]
    refine ⟨fun _ => ⟨by omega, by omega, fun k hk => ?_⟩, by omega, fun m s hrun hs => ?_⟩
    · have hend : j - 1 + 1 - (j - st) + k < up p n st := by
        rw [hj]
        omega
      exact of_lt_up (by omega) hend
    · have := hbefore m s hrun hs
      omega
  · rw [if_neg hlonger, if_neg hlonger]
    refine ⟨h.run, h.empty, fun m s hrun hs => ?_⟩
    have := hbefore m s hrun hs
    omega

/-! ## All runs of a set of places -/

/-- The pieces, each by its start and its length, are the runs of `F` in their order: none is empty,
there is a gap between one and the next, and together they are `F`. -/
structure Pieces (F : ℕ → Prop) (rs : List (ℕ × ℕ)) : Prop where
  gap : rs.Pairwise fun r r' => r.1 + r.2 < r'.1
  pos : ∀ r ∈ rs, 0 < r.2
  mem_iff : ∀ i, F i ↔ ∃ r ∈ rs, r.1 ≤ i ∧ i < r.1 + r.2

section Pieces

variable {F G : ℕ → Prop} {rs : List (ℕ × ℕ)} {s l : ℕ}

theorem Pieces.nil (h : ∀ i, ¬ F i) : Pieces F [] where
  gap := List.Pairwise.nil
  pos := fun _ hr => absurd hr List.not_mem_nil
  mem_iff i := iff_of_false (h i) fun ⟨_, hr, _⟩ => absurd hr List.not_mem_nil

theorem Pieces.congr (h : Pieces F rs) (hFG : ∀ i, F i ↔ G i) : Pieces G rs where
  gap := h.gap
  pos := h.pos
  mem_iff i := (hFG i).symm.trans (h.mem_iff i)

/-- A place behind a gap starts a piece of its own. -/
theorem Pieces.behind (h : Pieces F rs) (hs : ∀ i, F i → i + 1 < s) :
    Pieces (fun i => F i ∨ i = s) (rs ++ [(s, 1)]) where
  gap := by
    refine List.pairwise_append.mpr ⟨h.gap, List.pairwise_singleton _ _, fun r hr r' hr' => ?_⟩
    obtain rfl := List.mem_singleton.mp hr'
    have hpos := h.pos r hr
    have := hs (r.1 + r.2 - 1) ((h.mem_iff _).mpr ⟨r, hr, by omega, by omega⟩)
    dsimp only
    omega
  pos r hr := by
    rcases List.mem_append.mp hr with hr | hr
    · exact h.pos r hr
    · obtain rfl := List.mem_singleton.mp hr
      exact Nat.one_pos
  mem_iff i := by
    simp only [List.mem_append, List.mem_singleton, or_and_right, exists_or, exists_eq_left,
      ← h.mem_iff i]
    exact or_congr_right (by omega)

/-- The place right behind the last piece belongs to it. -/
theorem Pieces.extend (h : Pieces F (rs ++ [(s, l)])) :
    Pieces (fun i => F i ∨ i = s + l) (rs ++ [(s, l + 1)]) where
  gap := by
    obtain ⟨hrs, -, hlast⟩ := List.pairwise_append.mp h.gap
    refine List.pairwise_append.mpr ⟨hrs, List.pairwise_singleton _ _, fun r hr r' hr' => ?_⟩
    obtain rfl := List.mem_singleton.mp hr'
    exact hlast r hr (s, l) (List.mem_singleton_self _)
  pos r hr := by
    rcases List.mem_append.mp hr with hr | hr
    · exact h.pos r (List.mem_append_left _ hr)
    · obtain rfl := List.mem_singleton.mp hr
      exact Nat.succ_pos l
  mem_iff i := by
    have hpos : 0 < l := h.pos (s, l) (List.mem_append_right _ (List.mem_singleton_self _))
    rw [h.mem_iff]
    simp only [List.mem_append, List.mem_singleton, or_and_right, exists_or, exists_eq_left,
      or_assoc]
    exact or_congr_right (by omega)

end Pieces

end Scan
