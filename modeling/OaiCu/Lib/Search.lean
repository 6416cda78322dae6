import Mathlib.Data.List.Basic

/-!
# Searches through tables

A search looks at one entry after another and ends at the first hit. Looking at an entry may fail,
and then the whole search does. In a search with owners, an entry is a hit if a check allows it and
its place is not taken. What the hits are like for any owners says what the entries are like.
-/

namespace Search

variable {α β : Type*}

/-- The first hit: `none` if the look at an entry failed, `some none` if there is no hit. -/
def first (f : α → Option (Option β)) : List α → Option (Option β)
  | [] => some none
  | a :: as =>
    match f a with
    | none => none
    | some (some b) => some (some b)
    | some none => first f as

/-- The first entry that passes the check and has a free place. -/
def firstFree (check : α → Option Bool) (taken : α → Bool) : List α → Option (Option α) :=
  first fun a => (check a).map fun ok => if ok && !taken a then some a else none

theorem first_hit {f : α → Option (Option β)} {b : β} : ∀ {as : List α},
    first f as = some (some b) → ∃ a ∈ as, f a = some (some b)
  | [], h => by cases h
  | a :: as, h => by
      rw [first] at h
      cases hf : f a with
      | none =>
          rw [hf] at h
          cases h
      | some r =>
          rw [hf] at h
          cases r with
          | some b' => exact ⟨a, List.mem_cons_self, hf.trans h⟩
          | none =>
              obtain ⟨a', ha', he⟩ := first_hit h
              exact ⟨a', List.mem_cons_of_mem _ ha', he⟩

theorem first_defined {f : α → Option (Option β)} : ∀ {as : List α},
    (∀ a ∈ as, f a ≠ none) → first f as ≠ none
  | [], _ => Option.some_ne_none _
  | a :: as, h => by
      rw [first]
      cases hf : f a with
      | none => exact absurd hf (h a List.mem_cons_self)
      | some r =>
          cases r with
          | some b => exact Option.some_ne_none _
          | none => exact first_defined fun a' ha' => h a' (List.mem_cons_of_mem _ ha')

/-- A search without a hit has looked at all entries. -/
theorem first_eq_some_none {f : α → Option (Option β)} : ∀ {as : List α},
    first f as = some none ↔ ∀ a ∈ as, f a = some none
  | [] => by simp [first]
  | a :: as => by
      rw [first, List.forall_mem_cons]
      cases hf : f a with
      | none => simp
      | some r =>
          cases r with
          | some b => simp
          | none => simp [first_eq_some_none]

/-! ## Searches with owners -/

section

variable {check : α → Option Bool} {taken : α → Bool} {as : List α} {place : α → ℕ}
  {Good : α → Prop}

theorem firstFree_hit {a : α} (h : firstFree check taken as = some (some a)) :
    a ∈ as ∧ check a = some true ∧ taken a = false := by
  obtain ⟨a', ha', he⟩ := first_hit h
  obtain ⟨ok, hok, hif⟩ := Option.map_eq_some_iff.mp he
  split at hif
  · rename_i hfree
    obtain rfl := Option.some.inj hif
    rw [Bool.and_eq_true, Bool.not_eq_true'] at hfree
    exact ⟨ha', hfree.1 ▸ hok, hfree.2⟩
  · cases hif

/-- A search where all places are taken looks at all entries. -/
theorem firstFree_taken (h : ∀ a ∈ as, taken a = true) :
    firstFree check taken as = some none ∨ firstFree check taken as = none := by
  cases hr : firstFree check taken as with
  | none => exact .inr rfl
  | some r =>
      cases r with
      | none => exact .inl rfl
      | some a =>
          obtain ⟨ha, -, hfree⟩ := firstFree_hit hr
          rw [h a ha] at hfree
          cases hfree

theorem firstFree_eq_some_none : firstFree check taken as = some none ↔
    ∀ a ∈ as, ∃ ok, check a = some ok ∧ (ok = true → taken a = true) := by
  rw [firstFree, first_eq_some_none]
  refine forall_congr' fun a => imp_congr_right fun _ => ?_
  cases check a with
  | none => simp
  | some ok => cases ok <;> cases taken a <;> simp

theorem firstFree_defined (h : ∀ a ∈ as, check a ≠ none) : firstFree check taken as ≠ none :=
  first_defined fun a ha he => h a ha (Option.map_eq_none_iff.mp he)

/-- All hits are good, whatever is taken, if and only if the check is defined for all entries and
allows the good ones only. -/
theorem forall_firstFree_iff (hgood : ∀ a b, place a = place b → (Good a ↔ Good b)) :
    (∀ owned : ℕ → Bool, ∃ r, firstFree check (owned ∘ place) as = some r ∧
      ∀ a, r = some a → Good a) ↔
    ∀ a ∈ as, ∃ ok, check a = some ok ∧ (ok = true → Good a) := by
  constructor
  · intro h a ha
    -- with all places taken the search looks at every entry
    have hdefined : ∃ ok, check a = some ok := by
      obtain ⟨r, hr, -⟩ := h fun _ => true
      rcases @firstFree_taken _ check ((fun _ => true) ∘ place) as (fun _ _ => rfl) with he | he
      · obtain ⟨ok, hok, -⟩ := firstFree_eq_some_none.mp he a ha
        exact ⟨ok, hok⟩
      · rw [he] at hr
        cases hr
    obtain ⟨ok, hok⟩ := hdefined
    refine ⟨ok, hok, fun hpass => ?_⟩
    -- with all places taken but this one, the hit has this place
    obtain ⟨r, hr, hall⟩ := h fun p => decide (p ≠ place a)
    cases r with
    | none =>
        obtain ⟨ok', hok', htaken⟩ := firstFree_eq_some_none.mp hr a ha
        obtain rfl := Option.some.inj (hok.symm.trans hok')
        exact absurd (of_decide_eq_true (htaken hpass)) (not_not_intro rfl)
    | some b =>
        obtain ⟨-, -, hfree⟩ := firstFree_hit hr
        have hplace : place b = place a := by
          by_contra hne
          exact absurd (decide_eq_true hne) (Bool.eq_false_iff.mp hfree)
        exact (hgood b a hplace).mp (hall b rfl)
  · intro h owned
    cases hr : firstFree check (owned ∘ place) as with
    | none =>
        refine absurd hr (firstFree_defined fun a ha he => ?_)
        obtain ⟨ok, hok, -⟩ := h a ha
        rw [he] at hok
        cases hok
    | some r =>
        refine ⟨r, rfl, fun a hra => ?_⟩
        subst hra
        obtain ⟨ha, hok, -⟩ := firstFree_hit hr
        obtain ⟨ok, hok', hg⟩ := h a ha
        exact hg (Option.some.inj (hok'.symm.trans hok))

end

/-! ## Searches in two levels -/

/-- The first pair of an entry and an entry of its own table, each of which passes its check and
has a free place. -/
def firstPair (check : α → Option Bool) (taken : α → Bool) (inner : α → List β)
    (check' : α → β → Option Bool) (taken' : α → β → Bool) : List α → Option (Option (α × β)) :=
  first fun a => (check a).bind fun ok =>
    if ok && !taken a then (firstFree (check' a) (taken' a) (inner a)).map (Option.map (a, ·))
    else some none

section

variable {check : α → Option Bool} {taken : α → Bool} {inner : α → List β}
  {check' : α → β → Option Bool} {taken' : α → β → Bool} {as : List α} {place : α → ℕ}
  {place' : α → β → ℕ} {Good : α → β → Prop}

theorem firstPair_hit {a : α} {b : β}
    (h : firstPair check taken inner check' taken' as = some (some (a, b))) :
    a ∈ as ∧ check a = some true ∧ taken a = false ∧
      firstFree (check' a) (taken' a) (inner a) = some (some b) := by
  obtain ⟨a', ha', he⟩ := first_hit h
  obtain ⟨ok, hok, hif⟩ := Option.bind_eq_some_iff.mp he
  split at hif
  · rename_i hfree
    obtain ⟨r, hr, hmap⟩ := Option.map_eq_some_iff.mp hif
    obtain ⟨b', rfl, hpair⟩ := Option.map_eq_some_iff.mp hmap
    cases hpair
    rw [Bool.and_eq_true, Bool.not_eq_true'] at hfree
    exact ⟨ha', hfree.1 ▸ hok, hfree.2, hr⟩
  · cases hif

theorem firstPair_eq_some_none : firstPair check taken inner check' taken' as = some none ↔
    ∀ a ∈ as, ∃ ok, check a = some ok ∧ (ok = true → taken a = false →
      firstFree (check' a) (taken' a) (inner a) = some none) := by
  rw [firstPair, first_eq_some_none]
  refine forall_congr' fun a => imp_congr_right fun _ => ?_
  cases check a with
  | none => simp
  | some ok => cases ok <;> cases taken a <;> simp

/-- The same for a search in two levels. -/
theorem forall_firstPair_iff (hgood : ∀ a b a' b', place a = place a' →
      place' a b = place' a' b' → (Good a b ↔ Good a' b')) :
    (∀ owned owned' : ℕ → Bool, ∃ r, firstPair check (owned ∘ place) inner check'
        (fun a => owned' ∘ place' a) as = some r ∧ ∀ a b, r = some (a, b) → Good a b) ↔
    ∀ a ∈ as, ∃ ok, check a = some ok ∧ (ok = true → ∀ b ∈ inner a,
      ∃ ok', check' a b = some ok' ∧ (ok' = true → Good a b)) := by
  constructor
  · intro h a ha
    have hdefined : ∃ ok, check a = some ok := by
      obtain ⟨r, hr, -⟩ := h (fun _ => true) fun _ => true
      cases r with
      | none =>
          obtain ⟨ok, hok, -⟩ := firstPair_eq_some_none.mp hr a ha
          exact ⟨ok, hok⟩
      | some ab => cases (firstPair_hit hr).2.2.1
    obtain ⟨ok, hok⟩ := hdefined
    refine ⟨ok, hok, fun hpass b hb => ?_⟩
    -- only the place of the entry is free from here on
    have hsearch : ∀ owned' : ℕ → Bool, firstPair check ((fun p => decide (p ≠ place a)) ∘ place)
        inner check' (fun a => owned' ∘ place' a) as = some none →
        firstFree (check' a) (owned' ∘ place' a) (inner a) = some none := by
      intro owned' hnone
      obtain ⟨ok', hok', hinner⟩ := firstPair_eq_some_none.mp hnone a ha
      obtain rfl := Option.some.inj (hok.symm.trans hok')
      exact hinner hpass (decide_eq_false (not_not_intro rfl))
    have hdefined' : ∃ ok', check' a b = some ok' := by
      obtain ⟨r, hr, -⟩ := h (fun p => decide (p ≠ place a)) fun _ => true
      cases r with
      | none =>
          obtain ⟨ok', hok', -⟩ := firstFree_eq_some_none.mp (hsearch _ hr) b hb
          exact ⟨ok', hok'⟩
      | some ab => cases (firstFree_hit (firstPair_hit hr).2.2.2).2.2
    obtain ⟨ok', hok'⟩ := hdefined'
    refine ⟨ok', hok', fun hpass' => ?_⟩
    obtain ⟨r, hr, hall⟩ := h (fun p => decide (p ≠ place a)) fun p => decide (p ≠ place' a b)
    cases r with
    | none =>
        obtain ⟨ok'', hok'', htaken⟩ := firstFree_eq_some_none.mp (hsearch _ hr) b hb
        obtain rfl := Option.some.inj (hok'.symm.trans hok'')
        exact absurd (of_decide_eq_true (htaken hpass')) (not_not_intro rfl)
    | some ab =>
        obtain ⟨-, -, hfree, hinner⟩ := firstPair_hit hr
        have hplace : place ab.1 = place a := by
          by_contra hne
          exact absurd (decide_eq_true hne) (Bool.eq_false_iff.mp hfree)
        have hplace' : place' ab.1 ab.2 = place' a b := by
          by_contra hne
          exact absurd (decide_eq_true hne) (Bool.eq_false_iff.mp (firstFree_hit hinner).2.2)
        exact (hgood ab.1 ab.2 a b hplace hplace').mp (hall ab.1 ab.2 rfl)
  · intro h owned owned'
    have hdefined : firstPair check (owned ∘ place) inner check' (fun a => owned' ∘ place' a) as ≠
        none := by
      refine first_defined fun a ha he => ?_
      obtain ⟨ok, hok, hinner⟩ := h a ha
      rw [hok, Option.bind_some] at he
      split at he
      · rename_i hfree
        refine firstFree_defined (fun b hb hnone => ?_) (Option.map_eq_none_iff.mp he)
        obtain ⟨ok', hok', -⟩ := hinner (Bool.and_eq_true _ _ ▸ hfree).1 b hb
        rw [hnone] at hok'
        cases hok'
      · cases he
    obtain ⟨r, hr⟩ := Option.ne_none_iff_exists'.mp hdefined
    refine ⟨r, hr, ?_⟩
    rintro a b rfl
    obtain ⟨ha, hok, -, hinner⟩ := firstPair_hit hr
    obtain ⟨hb, hok', -⟩ := firstFree_hit hinner
    obtain ⟨ok, hok₁, hall⟩ := h a ha
    obtain ⟨ok', hok₂, hg⟩ := hall (Option.some.inj (hok₁.symm.trans hok)) b hb
    exact hg (Option.some.inj (hok₂.symm.trans hok'))

end

end Search
