import Mathlib.Data.List.Pairwise
import Mathlib.Tactic.Tauto

/-!
# Lists of blocks

A set of numbers is kept as the list of its blocks, from the highest to the lowest, with a gap
between any two. A part of a block is taken away by putting what is left of it in its place.
-/

/-- The numbers from `lo` to `hi`. -/
structure Block where
  lo : ℕ
  hi : ℕ
deriving DecidableEq, Repr

namespace Block

def Mem (b : Block) (p : ℕ) : Prop := b.lo ≤ p ∧ p ≤ b.hi

/-- A number is in one of the blocks. -/
def Covers (bs : List Block) (p : ℕ) : Prop := ∃ b ∈ bs, b.Mem p

/-- No block is empty, and each is above the next one with a gap in between. -/
structure Descending (bs : List Block) : Prop where
  le : ∀ b ∈ bs, b.lo ≤ b.hi
  gap : bs.Pairwise fun b b' => b'.hi + 1 < b.lo

/-- What is left of a block without the numbers from `lo` to `hi`, the upper part first. -/
def without (b : Block) (lo hi : ℕ) : List Block :=
  (if hi < b.hi then [⟨hi + 1, b.hi⟩] else []) ++ (if b.lo < lo then [⟨b.lo, lo - 1⟩] else [])

variable {bs front rest : List Block} {b : Block} {lo hi p : ℕ}

theorem covers_append (bs bs' : List Block) (p : ℕ) :
    Covers (bs ++ bs') p ↔ Covers bs p ∨ Covers bs' p := by
  simp only [Covers, List.mem_append, or_and_right, exists_or]

theorem covers_cons (b : Block) (bs : List Block) (p : ℕ) :
    Covers (b :: bs) p ↔ b.Mem p ∨ Covers bs p := by
  simp only [Covers, List.mem_cons, exists_eq_or_imp]

theorem mem_without {b' : Block} (h : b' ∈ b.without lo hi) :
    (hi < b.hi ∧ b' = ⟨hi + 1, b.hi⟩) ∨ (b.lo < lo ∧ b' = ⟨b.lo, lo - 1⟩) := by
  rw [without, List.mem_append] at h
  rcases h with h | h
  · split at h
    · exact .inl ⟨‹_›, List.mem_singleton.mp h⟩
    · cases h
  · split at h
    · exact .inr ⟨‹_›, List.mem_singleton.mp h⟩
    · cases h

/-- The parts cover what the block covers and is not taken away. -/
theorem covers_without (h1 : b.lo ≤ lo) (h2 : lo ≤ hi) (h3 : hi ≤ b.hi) (p : ℕ) :
    Covers (b.without lo hi) p ↔ b.Mem p ∧ ¬ (lo ≤ p ∧ p ≤ hi) := by
  constructor
  · rintro ⟨b', hb', hp⟩
    rcases mem_without hb' with ⟨h, rfl⟩ | ⟨h, rfl⟩ <;> simp only [Mem] at hp ⊢ <;> omega
  · rintro ⟨hm, hout⟩
    simp only [Mem] at hm
    by_cases h : hi < p
    · refine ⟨⟨hi + 1, b.hi⟩, ?_, h, hm.2⟩
      rw [without, if_pos (by omega)]
      exact List.mem_append_left _ (List.mem_singleton.mpr rfl)
    · refine ⟨⟨b.lo, lo - 1⟩, ?_, hm.1, (by omega : p ≤ lo - 1)⟩
      rw [without, if_pos (by omega : b.lo < lo)]
      exact List.mem_append_right _ (List.mem_singleton.mpr rfl)

theorem Descending.apart (h : Descending bs) {b b' : Block} (hb : b ∈ bs) (hb' : b' ∈ bs)
    (hne : b ≠ b') : b'.hi + 1 < b.lo ∨ b.hi + 1 < b'.lo :=
  have : Std.Symm fun b b' : Block => b'.hi + 1 < b.lo ∨ b.hi + 1 < b'.lo := ⟨fun _ _ => Or.symm⟩
  (h.gap.imp Or.inl : bs.Pairwise fun b b' => b'.hi + 1 < b.lo ∨ b.hi + 1 < b'.lo).forall hb hb' hne

theorem Descending.append_cons (h : Descending (front ++ b :: rest)) :
    (∀ b' ∈ front, b.hi + 1 < b'.lo) ∧ (∀ b' ∈ rest, b'.hi + 1 < b.lo) := by
  obtain ⟨-, h2, h3⟩ := List.pairwise_append.mp h.gap
  exact ⟨fun b' hb' => h3 b' hb' b List.mem_cons_self, (List.pairwise_cons.mp h2).1⟩

/-- A part of a block is taken away. -/
theorem Descending.carve (h : Descending (front ++ b :: rest)) (h1 : b.lo ≤ lo) (h2 : lo ≤ hi)
    (h3 : hi ≤ b.hi) : Descending (front ++ (b.without lo hi ++ rest)) := by
  obtain ⟨hf, hr⟩ := h.append_cons
  obtain ⟨g1, g2, g3⟩ := List.pairwise_append.mp h.gap
  have hin : ∀ b' ∈ b.without lo hi, b.lo ≤ b'.lo ∧ b'.lo ≤ b'.hi ∧ b'.hi ≤ b.hi := by
    intro b' hb'
    rcases mem_without hb' with ⟨hlt, rfl⟩ | ⟨hlt, rfl⟩ <;> dsimp only <;> omega
  constructor
  · intro b' hb'
    rw [List.mem_append, List.mem_append] at hb'
    rcases hb' with hb' | hb' | hb'
    · exact h.le b' (List.mem_append_left _ hb')
    · exact (hin b' hb').2.1
    · exact h.le b' (List.mem_append_right _ (List.mem_cons_of_mem _ hb'))
  · refine List.pairwise_append.mpr ⟨g1, List.pairwise_append.mpr ⟨?_, g2.of_cons, ?_⟩, ?_⟩
    · rw [without]
      split <;> split <;> simp
      omega
    · intro x hx y hy
      have := hin x hx
      have := hr y hy
      omega
    · intro x hx y hy
      have hlt := hf x hx
      rcases List.mem_append.mp hy with hy | hy
      · have := hin y hy
        omega
      · exact g3 x hx y (List.mem_cons_of_mem _ hy)

theorem covers_carve (h : Descending (front ++ b :: rest)) (h1 : b.lo ≤ lo) (h2 : lo ≤ hi)
    (h3 : hi ≤ b.hi) (p : ℕ) : Covers (front ++ (b.without lo hi ++ rest)) p ↔
      Covers (front ++ b :: rest) p ∧ ¬ (lo ≤ p ∧ p ≤ hi) := by
  obtain ⟨hf, hr⟩ := h.append_cons
  have hfront : Covers front p → ¬ (lo ≤ p ∧ p ≤ hi) := by
    rintro ⟨b', hb', hp⟩ hin
    have := hf b' hb'
    have := hp.1
    omega
  have hrest : Covers rest p → ¬ (lo ≤ p ∧ p ≤ hi) := by
    rintro ⟨b', hb', hp⟩ hin
    have := hr b' hb'
    have := hp.2
    omega
  rw [covers_append, covers_append, covers_append, covers_cons, covers_without h1 h2 h3]
  tauto

/-- Consecutive covered numbers are in one block. -/
theorem Descending.run_mem (h : Descending bs) (hle : lo ≤ hi)
    (hrun : ∀ p, lo ≤ p → p ≤ hi → Covers bs p) : ∃ b ∈ bs, b.lo ≤ lo ∧ hi ≤ b.hi := by
  induction hle with
  | refl =>
      obtain ⟨b, hb, hm⟩ := hrun lo (Nat.le_refl lo) (Nat.le_refl lo)
      exact ⟨b, hb, hm⟩
  | @step hi hle ih =>
      obtain ⟨b, hb, h1, h2⟩ := ih fun p hp hp' => hrun p hp (Nat.le_succ_of_le hp')
      obtain ⟨b', hb', h3, h4⟩ := hrun (hi + 1) (Nat.le_succ_of_le hle) (Nat.le_refl _)
      by_cases he : b = b'
      · exact ⟨b, hb, h1, he ▸ h4⟩
      -- two blocks have a gap between them
      · have hle : lo ≤ hi := hle
        have hgap := h.apart hb hb' he
        omega

end Block
