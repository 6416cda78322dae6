import Mathlib.Logic.Function.Basic

/-!
# Two tables that index each other

A table from keys to values and a table back are inverse if an entry is in the one exactly
if it is in the other. Every change of the two tables either keeps this or is told apart
here.
-/

namespace Inverse

variable {α β : Type*}

/-- The two tables hold the same entries. -/
def IsInverse (f : α → Option β) (g : β → Option α) : Prop :=
  ∀ a b, f a = some b ↔ g b = some a

/-- An entry of the table back that the table does not have. -/
def Leak (f : α → Option β) (g : β → Option α) : Prop :=
  ∃ a b, g b = some a ∧ f a ≠ some b

variable {f : α → Option β} {g : β → Option α}

theorem not_isInverse_of_leak (h : Leak f g) : ¬ IsInverse f g := by
  obtain ⟨a, b, hg, hf⟩ := h
  exact fun hi => hf ((hi a b).2 hg)

section Update

variable [DecidableEq α] [DecidableEq β]

/-- A new value is entered at a key that is free, and back at the same key, or the tables are
not inverse any more. -/
theorem isInverse_update_iff (h : IsInverse f g) {a a' : α} {b : β} (hb : g b = none) :
    IsInverse (Function.update f a (some b)) (Function.update g b (some a')) ↔
      a' = a ∧ f a = none := by
  constructor
  · intro h'
    have h1 : a' = a := by
      have := (h' a b).1 (Function.update_self _ _ _)
      rw [Function.update_self] at this
      exact Option.some.inj this
    refine ⟨h1, Option.eq_none_iff_forall_ne_some.2 fun c hc => ?_⟩
    have hgc := (h a c).1 hc
    have hcb : c ≠ b := by
      rintro rfl
      rw [hb] at hgc
      cases hgc
    have := (h' a c).2 (by rwa [Function.update_of_ne hcb])
    rw [Function.update_self] at this
    exact hcb (Option.some.inj this).symm
  · rintro ⟨rfl, hf⟩ x y
    by_cases hx : x = a'
    · subst hx
      rw [Function.update_self]
      by_cases hy : y = b
      · subst hy
        rw [Function.update_self]
        exact iff_of_true rfl rfl
      · rw [Function.update_of_ne hy, ← h, hf]
        simp [Ne.symm hy]
    · rw [Function.update_of_ne hx]
      by_cases hy : y = b
      · subst hy
        rw [Function.update_self, h, hb]
        simp [Ne.symm hx]
      · rw [Function.update_of_ne hy, h]

/-- A value that is overwritten stays behind in the table back. -/
theorem leak_of_used (h : IsInverse f g) {a a' : α} {b : β} (hb : g b = none) (ha : f a ≠ none) :
    Leak (Function.update f a (some b)) (Function.update g b (some a')) := by
  obtain ⟨c, hc⟩ := Option.ne_none_iff_exists'.1 ha
  have hgc := (h a c).1 hc
  have hcb : c ≠ b := by
    rintro rfl
    rw [hb] at hgc
    cases hgc
  refine ⟨a, c, by rwa [Function.update_of_ne hcb], ?_⟩
  rw [Function.update_self]
  simp [Ne.symm hcb]

/-- What stayed behind stays there. -/
theorem leak_update (h : Leak f g) {a a' : α} {b : β} (hb : g b = none) :
    Leak (Function.update f a (some b)) (Function.update g b (some a')) := by
  obtain ⟨x, y, hg, hf⟩ := h
  have hyb : y ≠ b := by
    rintro rfl
    rw [hb] at hg
    cases hg
  refine ⟨x, y, by rwa [Function.update_of_ne hyb], ?_⟩
  by_cases hx : x = a
  · subst hx
    rw [Function.update_self]
    simp [Ne.symm hyb]
  · rwa [Function.update_of_ne hx]

end Update

/-- Erasing keys and their values from both tables. -/
theorem isInverse_erase (h : IsInverse f g) {f' : α → Option β} {g' : β → Option α}
    {S : Set α} (hin : ∀ a ∈ S, f' a = none) (hout : ∀ a, a ∉ S → f' a = f a)
    (hb : ∀ b, (∃ a ∈ S, f a = some b) → g' b = none)
    (hb' : ∀ b, (¬ ∃ a ∈ S, f a = some b) → g' b = g b) : IsInverse f' g' := by
  intro a b
  by_cases ha : a ∈ S
  · rw [hin a ha]
    by_cases hx : ∃ a ∈ S, f a = some b
    · rw [hb b hx]
      simp
    · rw [hb' b hx, ← h]
      refine iff_of_false (by simp) fun hf => hx ⟨a, ha, hf⟩
  · rw [hout a ha]
    by_cases hx : ∃ a ∈ S, f a = some b
    · obtain ⟨a', ha', hf'⟩ := hx
      rw [hb b ⟨a', ha', hf'⟩]
      refine iff_of_false (fun hf => ?_) (by simp)
      have := (h a b).1 hf
      rw [(h a' b).1 hf'] at this
      exact ha (Option.some.inj this ▸ ha')
    · rw [hb' b hx, h]

/-- Erasing the values of keys from the table back alone. -/
theorem isInverse_erase_back_iff (h : IsInverse f g) {g' : β → Option α} {S : Set α}
    (hb : ∀ b, (∃ a ∈ S, f a = some b) → g' b = none)
    (hb' : ∀ b, (¬ ∃ a ∈ S, f a = some b) → g' b = g b) :
    IsInverse f g' ↔ ∀ a ∈ S, f a = none := by
  constructor
  · intro h' a ha
    refine Option.eq_none_iff_forall_ne_some.2 fun b hf => ?_
    have := (h' a b).1 hf
    rw [hb b ⟨a, ha, hf⟩] at this
    cases this
  · intro hn a b
    have hno : ¬ ∃ a ∈ S, f a = some b := by
      rintro ⟨a', ha', hf⟩
      rw [hn a' ha'] at hf
      cases hf
    rw [hb' b hno, h]

end Inverse
