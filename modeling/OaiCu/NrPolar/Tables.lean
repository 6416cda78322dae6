import Mathlib.Data.List.Perm.Subperm
import OaiCu.NrPolar.Params

/-!
# NR polar codes: what the tables are like

The interleaver is a permutation, there are as many information bits as bits of the message, and
the rate matching goes by groups of `N / 32` bits.
-/

namespace OaiCu.NrPolar

/-! ## Permutations by a mask -/

theorem testBit_foldl_mask (l : List ℕ) (acc k : ℕ) :
    (l.foldl (fun acc x => acc ||| 1 <<< x) acc).testBit k = (acc.testBit k || decide (k ∈ l)) := by
  induction l generalizing acc with
  | nil => simp
  | cons x l ih =>
      rw [List.foldl_cons, ih, Nat.testBit_or, Nat.one_shiftLeft, Nat.testBit_two_pow, Bool.or_assoc]
      simp only [List.mem_cons, Bool.decide_or, eq_comm]

/-- A list of `m` numbers that sets the first `m` bits of a mask. -/
theorem perm_of_mask {l : List ℕ} {m : ℕ} (hlen : l.length = m)
    (hmask : l.foldl (fun acc x => acc ||| 1 <<< x) 0 = 2 ^ m - 1) : l.Perm (List.range m) := by
  have hsub : List.range m ⊆ l := by
    intro k hk
    have hbit := testBit_foldl_mask l 0 k
    rw [hmask, Nat.testBit_two_pow_sub_one, decide_eq_true (List.mem_range.mp hk), Nat.zero_testBit,
      Bool.false_or] at hbit
    exact of_decide_eq_true hbit.symm
  exact ((List.subperm_of_subset List.nodup_range hsub).perm_of_length_le (by simp [hlen])).symm

/-! ## The interleaver -/

set_option maxRecDepth 20000 in
theorem interleavingPatternTable_perm : interleavingPatternTable.Perm (List.range 164) :=
  perm_of_mask (by decide) (by decide)

/-- The interleaver is a permutation of the bits of the message. -/
theorem interleaving_perm {K : ℕ} (hK : K ≤ 164) :
    (nrPolarInterleavingPattern K 1).Perm (List.range K) := by
  have hfilter : (List.range 164).filter (fun x => decide (164 - K ≤ x)) = List.range' (164 - K) K := by
    have hsplit : List.range 164 = List.range (164 - K) ++ List.range' (164 - K) K := by
      have happ := @List.range'_append_1 0 (164 - K) K
      rw [Nat.zero_add, Nat.sub_add_cancel hK] at happ
      rw [List.range_eq_range', List.range_eq_range', happ]
    rw [hsplit, List.filter_append, List.filter_eq_nil_iff.mpr, List.filter_eq_self.mpr, List.nil_append]
    · intro x hx
      simpa using (List.mem_range'_1.mp hx).1
    · intro x hx
      have := List.mem_range.mp hx
      simp only [decide_eq_true_eq]
      omega
  have hperm := (interleavingPatternTable_perm.filter fun x => decide (164 - K ≤ x)).map
    fun x => x - (164 - K)
  rw [hfilter] at hperm
  have hmap : (List.range' (164 - K) K).map (fun x => x - (164 - K)) = List.range K := by
    rw [List.range_eq_range', List.map_sub_range' (by omega)]
    simp
  rw [hmap] at hperm
  exact hperm

section Interleaver

variable {pattern : List ℕ} {K i j : ℕ}

theorem pattern_lt (h : pattern.Perm (List.range K)) (hi : i < K) : pattern.getD i 0 < K := by
  have hlen : pattern.length = K := by simpa using h.length_eq
  rw [List.getD_eq_getElem _ _ (hlen ▸ hi)]
  exact List.mem_range.mp (h.subset (List.getElem_mem _))

theorem pattern_injective (h : pattern.Perm (List.range K)) (hi : i < K) (hj : j < K)
    (heq : pattern.getD i 0 = pattern.getD j 0) : i = j := by
  have hlen : pattern.length = K := by simpa using h.length_eq
  have hnodup : pattern.Nodup := h.nodup_iff.mpr List.nodup_range
  rw [List.getD_eq_getElem _ _ (hlen ▸ hi), List.getD_eq_getElem _ _ (hlen ▸ hj)] at heq
  exact (List.getElem_inj hnodup).mp heq

theorem pattern_surjective (h : pattern.Perm (List.range K)) (hj : j < K) :
    ∃ i < K, pattern.getD i 0 = j := by
  have hlen : pattern.length = K := by simpa using h.length_eq
  obtain ⟨i, hi, heq⟩ := List.mem_iff_getElem.mp (h.symm.subset (List.mem_range.mpr hj))
  exact ⟨i, hlen ▸ hi, by rw [List.getD_eq_getElem _ _ hi, heq]⟩

/-- `deinterleaving_pattern` is the inverse. -/
theorem invertPattern_apply (h : pattern.Perm (List.range K)) (hi : i < K) :
    invertPattern pattern (pattern.getD i 0) = i := by
  have hlen : pattern.length = K := by simpa using h.length_eq
  have hloop : ∀ n ≤ K, i < n → (List.range n).foldl
      (fun d i => Function.update d (pattern.getD i 0) i) (fun _ => 0) (pattern.getD i 0) = i := by
    intro n
    induction n with
    | zero => intro _ hin; cases hin
    | succ n ih =>
        intro hn hin
        rw [List.range_succ, List.foldl_append, List.foldl_cons, List.foldl_nil]
        rcases eq_or_ne i n with rfl | hne
        · rw [Function.update_self]
        · rw [Function.update_of_ne fun heq => hne (pattern_injective h hi (by omega) heq)]
          exact ih (by omega) (by omega)
  exact hloop _ hlen.le (hlen ▸ hi)

end Interleaver

/-! ## Information bits -/

set_option maxRecDepth 20000 in
theorem sequence_perm {n : ℕ} (h : n = 7 ∨ n = 8 ∨ n = 9) :
    (nrPolarSequencePattern n).Perm (List.range (2 ^ n)) := by
  rcases h with rfl | rfl | rfl
  all_goals exact perm_of_mask (by decide) (by decide)

/-- At most what is in a list is taken out. -/
theorem length_le_filter_add {l t t' : List ℕ} (hnodup : l.Nodup) (hsub : t ⊆ t') :
    l.length ≤ (l.filter fun q => q ∉ t).length + t'.length := by
  have htaken : (l.filter fun q => q ∈ t) ⊆ t' := by
    intro x hx
    exact hsub (by simpa using (List.mem_filter.mp hx).2)
  have hle := (List.subperm_of_subset (hnodup.filter _) htaken).length_le
  have hsplit := l.length_eq_length_filter_add fun q => decide (q ∈ t)
  simp only [decide_not]
  omega

/-- At most the frozen bits are taken out. -/
theorem length_unfrozen {n K E : ℕ} (h : n = 7 ∨ n = 8 ∨ n = 9) :
    2 ^ n ≤ (unfrozen K (2 ^ n) E).length + (frozenTmp K (2 ^ n) E).length := by
  have hperm := sequence_perm h
  have hlen : (nrPolarSequencePattern n).length = 2 ^ n := by simpa using hperm.length_eq
  have hle := length_le_filter_add (hperm.nodup_iff.mpr List.nodup_range)
    (List.Subset.refl (frozenTmp K (2 ^ n) E))
  rw [hlen] at hle
  unfold unfrozen
  rwa [Nat.log_pow (by omega)]

/-- The positions that are in a list. -/
theorem length_filter_mem {l : List ℕ} {N : ℕ} (hnodup : l.Nodup) (hlt : ∀ x ∈ l, x < N) :
    ((List.range N).filter fun q => decide (q ∈ l)).length = l.length := by
  refine ((List.perm_ext_iff_of_nodup (List.nodup_range.filter _) hnodup).mpr fun x => ?_).length_eq
  simpa using hlt x

/-- **There are as many information bits as bits of the message.** -/
theorem infoBits_spec {n K E : ℕ} (h : n = 7 ∨ n = 8 ∨ n = 9)
    (hK : K + (frozenTmp K (2 ^ n) E).length ≤ 2 ^ n) :
    ((List.range (2 ^ n)).filter fun q => decide (q ∈ infoBits K (2 ^ n) E)).length = K := by
  have hperm := sequence_perm h
  have hlen := @length_unfrozen n K E h
  have hnodup : (infoBits K (2 ^ n) E).Nodup := by
    refine List.Nodup.sublist (List.drop_sublist _ _) ?_
    unfold unfrozen
    rw [Nat.log_pow (by omega)]
    exact (hperm.nodup_iff.mpr List.nodup_range).filter _
  have hlt : ∀ x ∈ infoBits K (2 ^ n) E, x < 2 ^ n := by
    intro x hx
    have hx := List.mem_of_mem_drop hx
    unfold unfrozen at hx
    rw [Nat.log_pow (by omega)] at hx
    exact List.mem_range.mp (hperm.subset (List.mem_filter.mp hx).1)
  rw [length_filter_mem hnodup hlt, infoBits, List.length_drop]
  omega

/-! ## Rate matching -/

/-- The rate matching pattern goes by groups of `g` bits. -/
structure Grouped (N E g : ℕ) (rmp : ℕ → ℕ) : Prop where
  N_eq : N = 32 * g
  pos : 0 < g
  dvd : g ∣ E
  groups : ∃ q : ℕ → ℕ, ∀ t s, s < g → g * t + s < E → rmp (g * t + s) = g * q t + s ∧ q t < 32

theorem subblock_group {g t s : ℕ} (hs : s < g) :
    subblock (32 * g) (g * t + s) = g * nrPolarSubblockInterleaverPattern.getD t 0 + s := by
  have hg : 0 < g := Nat.zero_lt_of_lt hs
  have hdiv : 32 * (g * t + s) / (32 * g) = t := by
    rw [Nat.mul_div_mul_left _ _ (by omega), Nat.mul_add_div hg, Nat.div_eq_of_lt hs, Nat.add_zero]
  rw [subblock, hdiv, Nat.mul_div_cancel_left _ (by omega), Nat.mul_add_mod, Nat.mod_eq_of_lt hs,
    Nat.mul_comm]

theorem subblockPattern_lt (t : ℕ) : nrPolarSubblockInterleaverPattern.getD t 0 < 32 := by
  by_cases ht : t < 32
  · have hall : ∀ t < 32, nrPolarSubblockInterleaverPattern.getD t 0 < 32 := by decide
    exact hall t ht
  · rw [List.getD_eq_default _ _ (by simpa [nrPolarSubblockInterleaverPattern] using ht)]
    decide

/-- All three ways of rate matching keep the groups together. -/
theorem grouped_rateMatching {K g T : ℕ} (hg : 0 < g) :
    Grouped (32 * g) (g * T) g (nrPolarRateMatchingPattern K (32 * g) (g * T)) := by
  refine ⟨rfl, hg, Nat.dvd_mul_right g T, fun t => nrPolarSubblockInterleaverPattern.getD
    (if 32 * g ≤ g * T then t % 32 else if 16 * K ≤ 7 * (g * T) then t + 32 - T else t) 0,
    fun t s hs hlt => ⟨?_, subblockPattern_lt _⟩⟩
  have htT : t < T := by
    by_contra hle
    have := Nat.mul_le_mul_left g (not_lt.mp hle)
    omega
  unfold nrPolarRateMatchingPattern
  split
  · have hmod : (g * t + s) % (32 * g) = g * (t % 32) + s := by
      have ht := Nat.div_add_mod t 32
      have hlt : g * (t % 32) + s < 32 * g := by
        have := Nat.mul_le_mul_left g (show t % 32 + 1 ≤ 32 by omega)
        rw [Nat.mul_add] at this
        omega
      conv_lhs => rw [← ht]
      rw [Nat.mul_add, Nat.add_assoc, ← Nat.mul_assoc, Nat.mul_comm g 32, Nat.mul_add_mod,
        Nat.mod_eq_of_lt hlt]
    rw [hmod, subblock_group hs]
  · rename_i hlt
    split
    · have hT : T ≤ 32 := by
        by_contra hle
        have := Nat.mul_le_mul_left g (show 32 ≤ T by omega)
        omega
      have hshift : g * t + s + 32 * g - g * T = g * (t + 32 - T) + s := by
        rw [Nat.mul_sub, Nat.mul_add, Nat.mul_comm g 32]
        have := Nat.mul_le_mul_left g hT
        omega
      rw [hshift, subblock_group hs]
    · exact subblock_group hs

end OaiCu.NrPolar
