import Mathlib.Data.List.Basic

/-!
# Strings that are read chunk by chunk

What stands at the front of a string tells how long the first chunk is, or that the reading ends
there. The rest starts behind the chunk, and is empty if the chunk is not wholly in the string.
-/

namespace Chunks

variable {α : Type*} {size : List α → Option ℕ} {s t : List α} {n : ℕ} {P : List α → Prop}

/-- A rest of the string at which the reading goes on. -/
inductive Start (size : List α → Option ℕ) (s : List α) : List α → Prop
  | first : Start size s s
  | next {t : List α} {n : ℕ} (h : Start size s t) (hn : size t = some n) : Start size s (t.drop n)

theorem Start.of_drop (hn : size s = some n) (h : Start size (s.drop n) t) : Start size s t := by
  induction h with
  | first => exact .next .first hn
  | next _ hm ih => exact .next ih hm

/-- What holds of all rests holds of the first one and of those behind the first chunk. -/
theorem forall_start_iff :
    (∀ t, Start size s t → P t) ↔
      P s ∧ ∀ n, size s = some n → ∀ t, Start size (s.drop n) t → P t := by
  constructor
  · exact fun h => ⟨h s .first, fun n hn t ht => h t (ht.of_drop hn)⟩
  · rintro ⟨hs, hrest⟩ t ht
    have hcases : t = s ∨ ∃ n, size s = some n ∧ Start size (s.drop n) t := by
      induction ht with
      | first => exact .inl rfl
      | next _ hm ih =>
          rcases ih with rfl | ⟨n, hn, ht⟩
          · exact .inr ⟨_, hm, .first⟩
          · exact .inr ⟨n, hn, .next ht hm⟩
    rcases hcases with rfl | ⟨n, hn, ht⟩
    · exact hs
    · exact hrest n hn t ht

end Chunks
