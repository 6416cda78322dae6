import Mathlib.Data.List.Nodup

/-!
# A filter with a latch

A list is filtered by two tests. One of them counts in any case, the other one as long as a latch is
set. Some elements set it, and nothing clears it, so that an element can be let in by an element in
front of it.
-/

namespace Latch

variable {α : Type*}

/-- The tests of the filter. -/
structure Tests (α : Type*) where
  sets : α → Bool
  sure : α → Bool
  maybe : α → Bool

namespace Tests

variable (t : Tests α)

/-- What the filter lets in. -/
def pass : Bool → List α → List α
  | _, [] => []
  | latch, a :: l =>
    if t.sure a || ((latch || t.sets a) && t.maybe a) then a :: pass (latch || t.sets a) l
    else pass (latch || t.sets a) l

/-- An element that is let in without the help of others. -/
def Good (a : α) : Prop := t.sure a = true ∨ (t.sets a = true ∧ t.maybe a = true)

/-- An element that is let in by others only. -/
def Stale (a : α) : Prop := t.maybe a = true ∧ ¬ t.Good a

variable {t} {latch : Bool} {l l' : List α} {a : α}

theorem pass_append : t.pass latch (l ++ l') =
    t.pass latch l ++ t.pass (latch || l.any t.sets) l' := by
  induction l generalizing latch with
  | nil => simp [pass]
  | cons a l ih =>
      rw [List.cons_append, pass, pass, ih, List.any_cons, Bool.or_assoc]
      split
      · rfl
      · rfl

theorem pass_sublist : (t.pass latch l).Sublist l := by
  induction l generalizing latch with
  | nil => exact List.Sublist.refl _
  | cons a l ih =>
      rw [pass]
      split
      · exact ih.cons_cons a
      · exact ih.cons a

theorem head_passes_iff : (t.sure a || ((latch || t.sets a) && t.maybe a)) = true ↔
    t.Good a ∨ (latch = true ∧ t.maybe a = true) := by
  cases latch <;> cases hs : t.sets a <;> cases hm : t.maybe a <;> cases hu : t.sure a <;>
    simp [Good, hs, hm, hu]

theorem mem_pass_of_good (ha : a ∈ l) (hg : t.Good a) : a ∈ t.pass latch l := by
  induction l generalizing latch with
  | nil => cases ha
  | cons b l ih =>
      rw [pass]
      rcases List.mem_cons.1 ha with rfl | ha
      · rw [if_pos (head_passes_iff.2 (.inl hg))]
        exact List.mem_cons_self
      · split
        · exact List.mem_cons_of_mem b (ih ha)
        · exact ih ha

/-- **Only good elements are let in exactly if no element is let in by others**: none with the
latch as it is found, and none behind an element that sets it. -/
theorem forall_mem_pass_iff (hn : l.Nodup) :
    (∀ a ∈ l, a ∈ t.pass latch l ↔ t.Good a) ↔
      (latch = true → ∀ a ∈ l, ¬ t.Stale a) ∧
        l.Pairwise fun a b => t.sets a = true → ¬ t.Stale b := by
  induction l generalizing latch with
  | nil => simp
  | cons a l ih =>
      obtain ⟨ha, hn'⟩ := List.nodup_cons.1 hn
      have hnot : ∀ latch, a ∉ t.pass latch l := fun latch hm => ha (pass_sublist.subset hm)
      have hhead : (a ∈ t.pass latch (a :: l) ↔ t.Good a) ↔ (latch = true → ¬ t.Stale a) := by
        have hmem : a ∈ t.pass latch (a :: l) ↔ t.Good a ∨ (latch = true ∧ t.maybe a = true) := by
          rw [← head_passes_iff, pass]
          split
          · rename_i h
            exact iff_of_true List.mem_cons_self h
          · rename_i h
            exact iff_of_false (hnot _) h
        rw [hmem, Stale]
        by_cases hg : t.Good a <;> simp [hg]
      have htail : (∀ b ∈ l, b ∈ t.pass latch (a :: l) ↔ t.Good b) ↔
          ∀ b ∈ l, b ∈ t.pass (latch || t.sets a) l ↔ t.Good b := by
        refine forall₂_congr fun b hb => ?_
        have hne : b ≠ a := fun he => ha (he ▸ hb)
        rw [pass]
        split
        · rw [List.mem_cons, or_iff_right hne]
        · exact Iff.rfl
      rw [List.forall_mem_cons, hhead, htail, ih hn', List.pairwise_cons, Bool.or_eq_true,
        List.forall_mem_cons]
      constructor
      · rintro ⟨h1, h2, h3⟩
        exact ⟨fun h => ⟨h1 h, h2 (.inl h)⟩, fun b hb hs => h2 (.inr hs) b hb, h3⟩
      · rintro ⟨h1, h2, h3⟩
        exact ⟨fun h => (h1 h).1, fun h b hb => h.elim (fun h => (h1 h).2 b hb) (h2 b hb), h3⟩

end Tests

end Latch
