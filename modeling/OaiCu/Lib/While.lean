import Mathlib.Tactic.Common
import Mathlib.Data.Option.Basic

/-!
# Loops and walks

A loop is given by its body, a function that makes one pass and gives `none` where the loop is
left. `Ends` says that a loop is left and in which state; `iterate` computes that state if it gets
enough passes. Two loops whose passes go together end together. A walk round a list is a loop over
its places that begins again at the front.
-/

namespace While

variable {σ τ : Type*} {body : σ → Option σ} {body' : τ → Option τ}

/-- The loop entered in one state is left in another one. -/
inductive Ends (body : σ → Option σ) : σ → σ → Prop
  | left {s : σ} (h : body s = none) : Ends body s s
  | again {s s' t : σ} (h : body s = some s') (ht : Ends body s' t) : Ends body s t

/-- The state after some passes, or where the loop is left before. -/
def iterate (body : σ → Option σ) : ℕ → σ → σ
  | 0, s => s
  | fuel + 1, s =>
      match body s with
      | none => s
      | some s' => iterate body fuel s'

theorem iterate_of_none {s : σ} (h : body s = none) (fuel : ℕ) : iterate body fuel s = s := by
  cases fuel with
  | zero => rfl
  | succ fuel => rw [iterate, h]

theorem iterate_of_some {s s' : σ} (h : body s = some s') (fuel : ℕ) :
    iterate body (fuel + 1) s = iterate body fuel s' := by
  rw [iterate, h]

/-- A loop that is left in its first state. -/
theorem ends_iff_of_none {s t : σ} (h : body s = none) : Ends body s t ↔ t = s := by
  constructor
  · intro hends
    cases hends with
    | left => rfl
    | again h' => exact absurd (h.symm.trans h') nofun
  · rintro rfl
    exact .left h

theorem ends_iff_of_some {s s' t : σ} (h : body s = some s') : Ends body s t ↔ Ends body s' t := by
  constructor
  · intro hends
    cases hends with
    | left h' => exact absurd (h.symm.trans h') nofun
    | again h' ht => exact Option.some.inj (h'.symm.trans h) ▸ ht
  · exact .again h

/-- A loop that stays in one state is never left. -/
theorem not_ends_of_stuck {s t : σ} (h : body s = some s) : ¬ Ends body s t := by
  intro hends
  induction hends with
  | left h' => exact absurd (h'.symm.trans h) nofun
  | again h' _ ih => exact ih (Option.some.inj (h.symm.trans h') ▸ h)

/-- A loop is left in one state only. -/
theorem Ends.unique {s t t' : σ} (h : Ends body s t) (h' : Ends body s t') : t = t' := by
  induction h with
  | left hnone => exact ((ends_iff_of_none hnone).mp h').symm
  | again hsome _ ih => exact ih ((ends_iff_of_some hsome).mp h')

/-- A loop that keeps an invariant under which it is not left. -/
theorem not_ends_of_invariant {I : σ → Prop} (h : ∀ s, I s → ∃ s', body s = some s' ∧ I s')
    {s t : σ} (hs : I s) : ¬ Ends body s t := by
  intro hends
  induction hends with
  | left hnone =>
      obtain ⟨s', hs', -⟩ := h _ hs
      exact absurd (hnone.symm.trans hs') nofun
  | again hsome _ ih =>
      obtain ⟨s', hs', hI⟩ := h _ hs
      exact ih (Option.some.inj (hsome.symm.trans hs') ▸ hI)

/-- A loop in which each pass takes something off a measure ends. -/
theorem ends_iterate (measure : σ → ℕ) (h : ∀ s s', body s = some s' → measure s' < measure s) :
    ∀ (fuel : ℕ) (s : σ), measure s ≤ fuel → Ends body s (iterate body fuel s)
  | 0, s, hs => by
      cases hb : body s with
      | none => exact .left hb
      | some s' => exact absurd (h s s' hb) (by omega)
  | fuel + 1, s, hs => by
      cases hb : body s with
      | none =>
          rw [iterate_of_none hb]
          exact .left hb
      | some s' =>
          rw [iterate_of_some hb]
          have := h s s' hb
          exact .again hb (ends_iterate measure h fuel s' (by omega))

/-- Loops whose passes go together stay together. -/
theorem iterate_rel {R : σ → τ → Prop} (h : ∀ s t, R s t → Option.Rel R (body s) (body' t)) :
    ∀ (fuel : ℕ) (s : σ) (t : τ), R s t → R (iterate body fuel s) (iterate body' fuel t)
  | 0, _, _, hR => hR
  | fuel + 1, s, t, hR => by
      have hpass := h s t hR
      cases hs : body s with
      | none =>
          cases ht : body' t with
          | none => rwa [iterate_of_none hs, iterate_of_none ht]
          | some t' =>
              rw [hs, ht] at hpass
              cases hpass
      | some s' =>
          cases ht : body' t with
          | none =>
              rw [hs, ht] at hpass
              cases hpass
          | some t' =>
              rw [hs, ht] at hpass
              cases hpass with
              | some hR' =>
                  rw [iterate_of_some hs, iterate_of_some ht]
                  exact iterate_rel h fuel s' t' hR'

end While

/-!
## Walks round a list

A walk goes over the places of a list from some place on, again and again from the front, until it
has been at `E` places. It does something at each place, which may depend on the number of places
before.
-/

namespace CyclicWalk

variable {σ α : Type*} {op : σ → ℕ → α → σ} {E : ℕ}

/-- A place, unless the walk is over. -/
def step (op : σ → ℕ → α → σ) (E : ℕ) (s : σ × ℕ) (a : α) : σ × ℕ :=
  if s.2 < E then (op s.1 s.2 a, s.2 + 1) else s

/-- for (a in L; k < E) op(k++, a). -/
def pass (op : σ → ℕ → α → σ) (E : ℕ) (L : List α) (s : σ × ℕ) : σ × ℕ :=
  L.foldl (step op E) s

/-- while (k < E). -/
def body (op : σ → ℕ → α → σ) (E : ℕ) (L : List α) (s : σ × ℕ) : Option (σ × ℕ) :=
  if s.2 < E then some (pass op E L s) else none

/-- What is done at the places `a` to `a + m - 1` of a sequence. -/
def run (op : σ → ℕ → α → σ) (place : ℕ → α) (a m : ℕ) (st : σ) : σ :=
  (List.range' a m).foldl (fun st k => op st k (place k)) st

variable {place : ℕ → α} {L L' : List α} {a m m' : ℕ} {st : σ}

theorem run_add : run op place a (m + m') st = run op place (a + m) m' (run op place a m st) := by
  rw [run, run, run, ← List.foldl_append, List.range'_append_1]

@[simp] theorem run_zero : run op place a 0 st = st := rfl

theorem run_succ : run op place 0 (m + 1) st = op (run op place 0 m st) m (place m) := by
  rw [run_add, Nat.zero_add]
  rfl

/-- A pass over two lists. -/
theorem pass_append (s : σ × ℕ) : pass op E (L ++ L') s = pass op E L' (pass op E L s) :=
  List.foldl_append

theorem pass_over {s : σ × ℕ} (h : E ≤ s.2) : pass op E L s = s := by
  induction L with
  | nil => rfl
  | cons b L ih =>
      have hstep : step op E s b = s := if_neg (Nat.not_lt.mpr h)
      rw [pass, List.foldl_cons, hstep]
      exact ih

/-- A pass is the part of a sequence that has the places of the list. -/
theorem pass_eq (h : ∀ j (hj : j < L.length), place (a + j) = L[j]) (ha : a ≤ E) :
    pass op E L (st, a) =
      (run op place a (min L.length (E - a)) st, a + min L.length (E - a)) := by
  induction L generalizing a st with
  | nil => simp [pass]
  | cons b L ih =>
      rcases Nat.eq_or_lt_of_le ha with rfl | hlt
      · rw [pass_over (Nat.le_refl a), Nat.sub_self, Nat.min_zero]
        rfl
      · have hstep : step op E (st, a) b = (op st a b, a + 1) := if_pos hlt
        have hb : place a = b := h 0 (Nat.zero_lt_succ _)
        have htail : ∀ j (hj : j < L.length), place (a + 1 + j) = L[j] := by
          intro j hj
          rw [Nat.add_right_comm]
          exact h (j + 1) (Nat.succ_lt_succ hj)
        have hmin : min (b :: L).length (E - a) = 1 + min L.length (E - (a + 1)) := by
          rw [List.length_cons]
          omega
        rw [pass, List.foldl_cons, hstep]
        have hpass := @ih (a + 1) (op st a b) htail hlt
        rw [pass] at hpass
        rw [hpass, hmin, run_add, ← Nat.add_assoc]
        congr 2
        rw [← hb]
        rfl

/-- From a place where the sequence is at the front of the list, the walk goes on to its end. -/
theorem ends_from (hL : 0 < L.length) {r : ℕ} (h : ∀ k, L[(r + k) % L.length]? = some (place k)) :
    ∀ {a : ℕ} (_ : a ≤ E) (_ : a = E ∨ (r + a) % L.length = 0),
      While.Ends (body op E L) (run op place 0 a st, a) (run op place 0 E st, E)
  | a, ha, hfront => by
      rcases Nat.eq_or_lt_of_le ha with rfl | hlt
      · exact .left (if_neg (Nat.lt_irrefl _))
      · have hzero : (r + a) % L.length = 0 := hfront.resolve_left (Nat.ne_of_lt hlt)
        have hplace : ∀ j (hj : j < L.length), place (a + j) = L[j] := by
          intro j hj
          have hj' := h (a + j)
          rw [← Nat.add_assoc, Nat.add_mod, hzero, Nat.zero_add, Nat.mod_mod, Nat.mod_eq_of_lt hj,
            List.getElem?_eq_getElem hj] at hj'
          exact (Option.some.inj hj').symm
        have hrun : run op place a (min L.length (E - a)) (run op place 0 a st) =
            run op place 0 (a + min L.length (E - a)) st := by
          rw [run_add, Nat.zero_add]
        refine .again (if_pos hlt) ?_
        rw [pass_eq hplace ha, hrun]
        refine ends_from hL h (by omega) ?_
        rcases Nat.le_total L.length (E - a) with hle | hle
        · rw [Nat.min_eq_left hle, ← Nat.add_assoc, Nat.add_mod_right]
          exact .inr hzero
        · rw [Nat.min_eq_right hle]
          exact .inl (by omega)
termination_by a => E - a

/-- The first pass, over the places behind the first `r`. -/
theorem first_pass {r : ℕ} (hr : r ≤ L.length)
    (h : ∀ k, L[(r + k) % L.length]? = some (place k)) :
    pass op E (L.drop r) (st, 0) =
      (run op place 0 (min (L.length - r) E) st, min (L.length - r) E) := by
  have hplace : ∀ j (hj : j < (L.drop r).length), place (0 + j) = (L.drop r)[j] := by
    intro j hj
    rw [List.length_drop] at hj
    have hj' := h j
    rw [Nat.mod_eq_of_lt (by omega), List.getElem?_eq_getElem (by omega)] at hj'
    rw [Nat.zero_add, List.getElem_drop]
    exact (Option.some.inj hj').symm
  rw [pass_eq hplace (Nat.zero_le E), List.length_drop, Nat.sub_zero, Nat.zero_add]

/-- A walk that starts behind the first `r` places is the run over the sequence. -/
theorem ends (hL : 0 < L.length) {r : ℕ} (hr : r ≤ L.length)
    (h : ∀ k, L[(r + k) % L.length]? = some (place k)) :
    While.Ends (body op E L) (pass op E (L.drop r) (st, 0)) (run op place 0 E st, E) := by
  rw [first_pass hr h]
  refine ends_from hL h (Nat.min_le_right _ _) ?_
  rcases Nat.le_total (L.length - r) E with hle | hle
  · rw [Nat.min_eq_left hle, Nat.add_sub_cancel' hr, Nat.mod_self]
    exact .inr rfl
  · rw [Nat.min_eq_right hle]
    exact .inl rfl

end CyclicWalk
