import Mathlib.Data.List.Sort
import Mathlib.Data.List.DropRight

/-!
# Lists kept in order

An element is inserted before the first element that is after it; nothing is assumed
about the relation that decides this beyond what it says about the members of the list.
-/

namespace Lists

variable {α : Type*}

/-- Insertion before the first element that is after the new one keeps the list ordered,
when an element that is not after it is before it. -/
theorem pairwise_orderedInsert {r le : α → α → Prop} [DecidableRel r] {x : α} {l : List α}
    (hl : l.Pairwise le) (htrans : ∀ a b c, le a b → le b c → le a c)
    (hafter : ∀ y ∈ l, r x y → le x y) (hbefore : ∀ y ∈ l, ¬ r x y → le y x) :
    (l.orderedInsert r x).Pairwise le := by
  induction l with
  | nil => simp
  | cons y l ih =>
      obtain ⟨hy, hl'⟩ := List.pairwise_cons.mp hl
      rw [List.orderedInsert_cons]
      split
      · rename_i hxy
        have hle := hafter y List.mem_cons_self hxy
        refine List.pairwise_cons.mpr ⟨?_, hl⟩
        intro z hz
        rcases List.mem_cons.mp hz with rfl | hz
        · exact hle
        · exact htrans _ _ _ hle (hy z hz)
      · rename_i hxy
        refine List.pairwise_cons.mpr ⟨?_, ih hl' (fun z hz => hafter z (List.mem_cons_of_mem _ hz))
          (fun z hz => hbefore z (List.mem_cons_of_mem _ hz))⟩
        intro z hz
        rcases List.mem_orderedInsert r |>.mp hz with rfl | hz
        · exact hbefore y List.mem_cons_self hxy
        · exact hy z hz

/-- `List.merge` in `n` steps. It can be evaluated, as the recursion is on a number. -/
def mergeIn (c : α → α → Bool) : ℕ → List α → List α → List α
  | 0, l, l' => l ++ l'
  | _ + 1, [], l' => l'
  | _ + 1, x :: l, [] => x :: l
  | n + 1, x :: l, y :: l' =>
      if c x y then x :: mergeIn c n l (y :: l') else y :: mergeIn c n (x :: l) l'

theorem merge_eq_mergeIn (c : α → α → Bool) : ∀ (n : ℕ) (l l' : List α), l.length + l'.length ≤ n →
    List.merge l l' c = mergeIn c n l l'
  | 0, l, l', h => by
      obtain rfl := List.length_eq_zero_iff.mp (show l.length = 0 by omega)
      rw [List.nil_merge, mergeIn, List.nil_append]
  | _ + 1, [], l', _ => by rw [List.nil_merge, mergeIn]
  | _ + 1, x :: l, [], _ => by rw [List.merge_right, mergeIn]
  | n + 1, x :: l, y :: l', h => by
      simp only [List.length_cons] at h
      rw [List.cons_merge_cons, mergeIn,
        merge_eq_mergeIn c n l (y :: l') (by simp only [List.length_cons]; omega),
        merge_eq_mergeIn c n (x :: l) l' (by simp only [List.length_cons]; omega)]

/-- Two ordered lists merge into an ordered one, when the comparison of an element of the first
with one of the second is right. -/
theorem pairwise_merge {le : α → α → Prop} {c : α → α → Bool}
    (htrans : ∀ a b c, le a b → le b c → le a c) {l l' : List α} (hl : l.Pairwise le)
    (hl' : l'.Pairwise le) (h : ∀ x ∈ l, ∀ y ∈ l', (c x y = true → le x y) ∧ (c x y = false → le y x)) :
    (List.merge l l' c).Pairwise le := by
  induction l generalizing l' with
  | nil => simpa using hl'
  | cons x l ih =>
      induction l' with
      | nil => simpa using hl
      | cons y l' ih' =>
          obtain ⟨hx, hl₁⟩ := List.pairwise_cons.mp hl
          obtain ⟨hy, hl₁'⟩ := List.pairwise_cons.mp hl'
          rw [List.cons_merge_cons]
          split
          · rename_i hc
            have hxy := (h x List.mem_cons_self y List.mem_cons_self).1 hc
            refine List.pairwise_cons.mpr ⟨?_, ih hl₁ hl'
              (fun a ha b hb => h a (List.mem_cons_of_mem _ ha) b hb)⟩
            intro z hz
            rcases List.mem_merge.mp hz with hz | hz
            · exact hx z hz
            · rcases List.mem_cons.mp hz with rfl | hz
              · exact hxy
              · exact htrans _ _ _ hxy (hy z hz)
          · rename_i hc
            have hyx := (h x List.mem_cons_self y List.mem_cons_self).2 (Bool.eq_false_iff.mpr hc)
            refine List.pairwise_cons.mpr ⟨?_, ih' hl₁'
              (fun a ha b hb => h a ha b (List.mem_cons_of_mem _ hb))⟩
            intro z hz
            rcases List.mem_merge.mp hz with hz | hz
            · rcases List.mem_cons.mp hz with rfl | hz
              · exact hyx
              · exact htrans _ _ _ hyx (hx z hz)
            · exact hy z hz

/-- Filtering the front of a list keeps the head exactly when it keeps the first element. -/
theorem head?_filter_append {β : Type*} {f : α → β} {p : α → Bool} {l : List α} {t : List β}
    (hnd : (l.map f ++ t).Nodup) :
    ((l.filter p).map f ++ t).head? = (l.map f ++ t).head? ↔ ∀ a ∈ l.head?, p a = true := by
  cases l with
  | nil => simp
  | cons a l =>
      simp only [List.head?_cons, Option.mem_some_iff, forall_eq']
      cases hp : p a with
      | true => simp [hp]
      | false =>
          -- the head is gone, and it is nowhere else
          simp only [Bool.false_eq_true, iff_false]
          intro hhead
          rw [List.filter_cons_of_neg (by simp [hp])] at hhead
          have hmem : f a ∈ (l.filter p).map f ++ t := List.mem_of_mem_head? (by simp [hhead])
          rw [List.map_cons, List.cons_append, List.nodup_cons] at hnd
          refine hnd.1 ?_
          rcases List.mem_append.mp hmem with h | h
          · exact List.mem_append_left _ ((List.filter_sublist.map f).subset h)
          · exact List.mem_append_right _ h

/-- A stronger predicate that fails somewhere is counted less often. -/
theorem countP_lt_of_imp {p q : α → Bool} {l : List α} (h : ∀ x ∈ l, q x = true → p x = true)
    {a : α} (ha : a ∈ l) (hp : p a = true) (hq : q a = false) : l.countP q < l.countP p := by
  induction l with
  | nil => cases ha
  | cons x l ih =>
      have hx := h x List.mem_cons_self
      have hl : ∀ y ∈ l, q y = true → p y = true := fun y hy => h y (List.mem_cons_of_mem _ hy)
      have hle : l.countP q ≤ l.countP p := List.countP_mono_left hl
      rw [List.countP_cons, List.countP_cons]
      rcases List.mem_cons.mp ha with rfl | ha
      · simp only [hp, hq, if_true, Bool.false_eq_true, if_false]
        omega
      · have := ih hl ha
        by_cases hqx : q x = true
        · simp only [hqx, hx hqx, if_true]
          omega
        · rw [if_neg hqx]
          omega

/-- An element that belongs before the last one is not inserted at the end. -/
theorem getLast?_orderedInsert {r : α → α → Prop} [DecidableRel r] {x y : α} {l : List α}
    (hy : l.getLast? = some y) (hr : r x y) : (l.orderedInsert r x).getLast? = some y := by
  induction l with
  | nil => cases hy
  | cons z l ih =>
      rw [List.orderedInsert_cons]
      split
      · rw [List.getLast?_cons_cons]
        exact hy
      · rename_i hz
        cases l with
        | nil =>
            rw [List.getLast?_singleton, Option.some.injEq] at hy
            exact absurd (hy ▸ hr) hz
        | cons w l =>
            rw [List.getLast?_cons_cons] at hy
            have hne : (w :: l).orderedInsert r x ≠ [] := by
              intro h
              have := congrArg List.length h
              rw [List.orderedInsert_length] at this
              cases this
            obtain ⟨a, t, hat⟩ := List.exists_cons_of_ne_nil hne
            rw [hat, List.getLast?_cons_cons, ← hat]
            exact ih hy

/-- The last element of a list is the last one of every part of it that has it. -/
theorem getLast?_sublist {l l' : List α} {s : α} (h : l'.Sublist l) (hn : l.Nodup)
    (hs : s ∈ l') (hlast : l.getLast? = some s) : l'.getLast? = some s := by
  induction h with
  | slnil => cases hs
  | @cons l₁ l₂ a hsub ih =>
      have hmem : s ∈ l₂ := hsub.subset hs
      obtain ⟨y, t, rfl⟩ := List.exists_cons_of_ne_nil (List.ne_nil_of_mem hmem)
      rw [List.getLast?_cons_cons] at hlast
      exact ih (List.nodup_cons.mp hn).2 hs hlast
  | @cons_cons l₁ l₂ a hsub ih =>
      cases l₁ with
      | nil =>
          rw [List.mem_singleton.mp hs]
          rfl
      | cons x t =>
          have hne : l₂ ≠ [] := List.ne_nil_of_mem (hsub.subset List.mem_cons_self)
          obtain ⟨y, t', rfl⟩ := List.exists_cons_of_ne_nil hne
          rw [List.getLast?_cons_cons] at hlast ⊢
          obtain ⟨ha, hn'⟩ := List.nodup_cons.mp hn
          refine ih hn' ?_ hlast
          rcases List.mem_cons.mp hs with rfl | hs
          · exact absurd (List.mem_of_getLast? hlast) ha
          · exact hs

/-- What follows the last element is nothing. -/
theorem nil_of_getLast?_suffix {l t : List α} {s : α} (h : (s :: t) <:+ l) (hn : l.Nodup)
    (hlast : l.getLast? = some s) : t = [] := by
  obtain ⟨f, rfl⟩ := h
  cases t with
  | nil => rfl
  | cons y t =>
      rw [List.getLast?_append, List.getLast?_cons_cons] at hlast
      have hmem : s ∈ y :: t := by
        cases hl : (y :: t).getLast? with
        | none => simp at hl
        | some z =>
            rw [hl] at hlast
            simp only [Option.some_or, Option.some.injEq] at hlast
            exact hlast ▸ List.mem_of_getLast? hl
      exact absurd hmem (List.nodup_cons.mp (List.nodup_append.mp hn).2.1).1

/-- A search finds what a loop stops at. -/
theorem find?_eq_head?_dropWhile (p : α → Bool) (l : List α) :
    l.find? p = (l.dropWhile fun x => !p x).head? := by
  induction l with
  | nil => rfl
  | cons x l ih =>
      cases h : p x with
      | true => simp [h]
      | false => simp [h, ih]

/-! ## Lists that correspond element by element -/

section

variable {β : Type*} {R : α → β → Prop} {l : List α} {m : List β}

theorem exists_of_mem_left (h : List.Forall₂ R l m) {a : α} (ha : a ∈ l) : ∃ b ∈ m, R a b := by
  induction h with
  | nil => cases ha
  | cons hr _ ih =>
      rcases List.mem_cons.mp ha with rfl | ha
      · exact ⟨_, .head _, hr⟩
      · obtain ⟨b, hb, hab⟩ := ih ha
        exact ⟨b, .tail _ hb, hab⟩

theorem exists_of_mem_right (h : List.Forall₂ R l m) {b : β} (hb : b ∈ m) : ∃ a ∈ l, R a b :=
  exists_of_mem_left (List.Forall₂.flip (R := fun b a => R a b) h) hb

theorem forall₂_imp_of_mem {S : α → β → Prop} (h : List.Forall₂ R l m)
    (hs : ∀ a, ∀ b ∈ m, R a b → S a b) : List.Forall₂ S l m := by
  induction h with
  | nil => exact .nil
  | cons hr _ ih => exact .cons (hs _ _ (.head _) hr) (ih fun a b hb => hs a b (.tail _ hb))

/-- What holds in pairs on one side holds in pairs on the other. -/
theorem pairwise_of_forall₂ {P : α → α → Prop} {Q : β → β → Prop} (h : List.Forall₂ R l m)
    (hm : m.Pairwise Q)
    (hpq : ∀ a a' b b', b ∈ m → b' ∈ m → R a b → R a' b' → Q b b' → P a a') : l.Pairwise P := by
  induction h with
  | nil => exact .nil
  | cons hr hrs ih =>
      obtain ⟨hq, hm'⟩ := List.pairwise_cons.mp hm
      refine List.pairwise_cons.mpr ⟨fun a' ha' => ?_, ih hm' fun a a' b b' hb hb' =>
        hpq a a' b b' (.tail _ hb) (.tail _ hb')⟩
      obtain ⟨b', hb', hr'⟩ := exists_of_mem_left hrs ha'
      exact hpq _ _ _ _ (.head _) (.tail _ hb') hr hr' (hq b' hb')

/-- The first element with a property, with what stands before it. -/
theorem exists_first {p : α → Prop} [DecidablePred p] {l : List α} (h : ∃ x ∈ l, p x) :
    ∃ pre x post, l = pre ++ x :: post ∧ p x ∧ ∀ y ∈ pre, ¬ p y := by
  have hs : (l.find? fun x => decide (p x)).isSome := by simpa using h
  obtain ⟨x, hx⟩ := Option.isSome_iff_exists.mp hs
  obtain ⟨hp, pre, post, e, hpre⟩ := List.find?_eq_some_iff_append.mp hx
  exact ⟨pre, x, post, e, by simpa using hp, by simpa using hpre⟩

/-- An error that no step raises is not raised by a run of the steps. -/
theorem foldlM_ne_error {ε σ : Type*} {f : σ → α → Except ε σ} {e : ε} {l : List α}
    (h : ∀ x ∈ l, ∀ s, f s x ≠ .error e) (s : σ) : l.foldlM f s ≠ .error e := by
  induction l generalizing s with
  | nil => nofun
  | cons x l ih =>
      rw [List.foldlM_cons]
      cases hx : f s x with
      | error e' => exact fun he => h x List.mem_cons_self s (hx.trans he)
      | ok s' => exact ih (fun y hy => h y (List.mem_cons_of_mem x hy)) s'

end

end Lists
