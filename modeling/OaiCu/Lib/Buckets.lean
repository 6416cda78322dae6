import Mathlib.Data.List.Nodup

/-!
# Buckets with a locator

Elements are kept in an array of buckets, and a table says of each of them in which one. An
element may be put into a bucket and taken out of it, and an empty bucket may be dropped, after
which the ones above it move down.
-/

namespace Buckets

variable {α : Type*} {bs : List (List α)} {loc : α → ℕ} {P : α → Prop}

/-- `loc` locates the elements of `P`, and there are no others. -/
structure Located (bs : List (List α)) (loc : α → ℕ) (P : α → Prop) : Prop where
  nodup : ∀ (j : ℕ) (b : List α), bs[j]? = some b → b.Nodup
  mem_iff : ∀ (j : ℕ) (b : List α), bs[j]? = some b → ∀ u, u ∈ b ↔ P u ∧ loc u = j
  lt : ∀ u, P u → loc u < bs.length

theorem Located.congr {loc' : α → ℕ} {P' : α → Prop} (h : Located bs loc P)
    (hP : ∀ u, P u ↔ P' u) (hloc : ∀ u, P u → loc' u = loc u) : Located bs loc' P' := by
  refine ⟨h.nodup, fun j b hb u => ?_, fun u hu => ?_⟩
  · rw [h.mem_iff j b hb, ← hP]
    exact and_congr_right fun hu => by rw [hloc u hu]
  · rw [← hP] at hu
    exact hloc u hu ▸ h.lt u hu

variable [DecidableEq α]

/-- An element that was nowhere is put into bucket `k`. -/
theorem Located.add (h : Located bs loc P) {u : α} (hu : ¬ P u) {k : ℕ} (hk : k < bs.length) :
    Located (bs.modify k (· ++ [u])) (Function.update loc u k) fun x => P x ∨ x = u := by
  have hmem : ∀ (j : ℕ) (b : List α), (bs.modify k (· ++ [u]))[j]? = some b →
      ∃ c, bs[j]? = some c ∧ b = if k = j then c ++ [u] else c := by
    intro j b hb
    rw [List.getElem?_modify, Option.map_eq_map, Option.map_eq_some_iff] at hb
    obtain ⟨c, hc, rfl⟩ := hb
    exact ⟨c, hc, by split <;> rfl⟩
  refine ⟨fun j b hb => ?_, fun j b hb x => ?_, fun x hx => ?_⟩
  · obtain ⟨c, hc, rfl⟩ := hmem j b hb
    split
    · refine List.nodup_append.mpr ⟨h.nodup j c hc, List.nodup_singleton u, ?_⟩
      intro x hx y hy hxy
      rw [List.mem_singleton] at hy
      exact hu (hy ▸ hxy ▸ ((h.mem_iff j c hc x).mp hx).1)
    · exact h.nodup j c hc
  · obtain ⟨c, hc, rfl⟩ := hmem j b hb
    have hiff := h.mem_iff j c hc x
    by_cases hx : x = u
    · subst hx
      rw [Function.update_self]
      split
      · simp_all
      · simp_all
    · rw [Function.update_of_ne hx]
      split
      · simp only [List.mem_append, List.mem_singleton, hx, or_false, hiff]
      · simp only [hx, or_false, hiff]
  · rw [List.length_modify]
    by_cases hxu : x = u
    · rw [hxu, Function.update_self]
      exact hk
    · rw [Function.update_of_ne hxu]
      exact h.lt x (hx.resolve_right hxu)

/-- An element is taken out of the bucket the table gives. -/
theorem Located.del (h : Located bs loc P) (u : α) :
    Located (bs.modify (loc u) (·.erase u)) loc fun x => P x ∧ x ≠ u := by
  have hmem : ∀ (j : ℕ) (b : List α), (bs.modify (loc u) (·.erase u))[j]? = some b →
      ∃ c, bs[j]? = some c ∧ b = if loc u = j then c.erase u else c := by
    intro j b hb
    rw [List.getElem?_modify, Option.map_eq_map, Option.map_eq_some_iff] at hb
    obtain ⟨c, hc, rfl⟩ := hb
    exact ⟨c, hc, by split <;> rfl⟩
  refine ⟨fun j b hb => ?_, fun j b hb x => ?_, fun x hx => ?_⟩
  · obtain ⟨c, hc, rfl⟩ := hmem j b hb
    split
    · exact (h.nodup j c hc).erase u
    · exact h.nodup j c hc
  · obtain ⟨c, hc, rfl⟩ := hmem j b hb
    have hiff := h.mem_iff j c hc x
    split
    · rw [(h.nodup j c hc).mem_erase_iff, hiff]
      tauto
    · rename_i hj
      rw [hiff]
      refine ⟨fun hx => ⟨⟨hx.1, fun he => hj (he ▸ hx.2)⟩, hx.2⟩, fun hx => ⟨hx.1.1, hx.2⟩⟩
  · rw [List.length_modify]
    exact h.lt x hx.1

/-- An element goes from its bucket to the bucket `k`. -/
theorem Located.move (h : Located bs loc P) {u : α} (hu : P u) {k : ℕ} (hk : k < bs.length) :
    Located ((bs.modify (loc u) (·.erase u)).modify k (· ++ [u])) (Function.update loc u k) P := by
  have hk' : k < (bs.modify (loc u) (·.erase u)).length := by rwa [List.length_modify]
  refine ((h.del u).add (fun hc => hc.2 rfl) hk').congr (fun x => ?_) fun x _ => rfl
  by_cases hx : x = u
  · simp [hx, hu]
  · simp [hx]

omit [DecidableEq α] in
/-- An empty bucket is dropped, and what is above it moves down. -/
theorem Located.drop (h : Located bs loc P) {k : ℕ} (hk : bs[k]? = some []) :
    Located (bs.eraseIdx k) (fun u => if k < loc u then loc u - 1 else loc u) P := by
  have hklt : k < bs.length := (List.getElem?_eq_some_iff.mp hk).1
  have hne : ∀ u, P u → loc u ≠ k := fun u hu he => by
    simpa using (h.mem_iff k [] hk u).mpr ⟨hu, he⟩
  have hget : ∀ (j : ℕ) (b : List α), (bs.eraseIdx k)[j]? = some b →
      bs[if j < k then j else j + 1]? = some b := by
    intro j b hb
    rw [List.getElem?_eraseIdx] at hb
    split at hb
    · rwa [if_pos (by assumption)]
    · rwa [if_neg (by assumption)]
  refine ⟨fun j b hb => h.nodup _ b (hget j b hb), fun j b hb u => ?_, fun u hu => ?_⟩
  · rw [h.mem_iff _ b (hget j b hb)]
    refine and_congr_right fun hu => ?_
    have := hne u hu
    split <;> split <;> omega
  · rw [List.length_eraseIdx_of_lt hklt]
    have := h.lt u hu
    have := hne u hu
    split <;> omega

omit [DecidableEq α] in
/-- An empty bucket is put behind the others. -/
theorem Located.grow (h : Located bs loc P) : Located (bs ++ [[]]) loc P := by
  have hget : ∀ (j : ℕ) (b : List α), (bs ++ [[]])[j]? = some b →
      bs[j]? = some b ∨ bs.length ≤ j ∧ b = [] := by
    intro j b hb
    by_cases hj : j < bs.length
    · exact Or.inl (by rwa [List.getElem?_append_left hj] at hb)
    · rw [List.getElem?_append_right (Nat.not_lt.mp hj)] at hb
      exact Or.inr ⟨Nat.not_lt.mp hj, List.mem_singleton.mp (List.mem_of_getElem? hb)⟩
  refine ⟨fun j b hb => ?_, fun j b hb u => ?_, fun u hu => ?_⟩
  · rcases hget j b hb with hb | ⟨-, rfl⟩
    · exact h.nodup j b hb
    · exact List.nodup_nil
  · rcases hget j b hb with hb | ⟨hj, rfl⟩
    · exact h.mem_iff j b hb u
    · refine iff_of_false (List.not_mem_nil) fun hu => ?_
      have := h.lt u hu.1
      omega
  · have := h.lt u hu
    rw [List.length_append]
    omega

omit [DecidableEq α] in
/-- A present element is in exactly one bucket, and the table says in which one. -/
theorem Located.exactly (h : Located bs loc P) {u : α} (hu : P u) :
    loc u < bs.length ∧ ∀ (j : ℕ) (b : List α), bs[j]? = some b → (u ∈ b ↔ j = loc u) :=
  ⟨h.lt u hu, fun j b hb => (h.mem_iff j b hb u).trans
    ⟨fun hx => hx.2.symm, fun hj => ⟨hu, hj.symm⟩⟩⟩

end Buckets
