import Mathlib.Algebra.Order.BigOperators.Group.Finset

/-!
# Evenly spaced points

Points of a circle of `n` places that are `n / M` apart, `M` of them, rounded down or rounded up.
The two roundings reach the same places exactly if `M` divides `n` or every place is reached.
-/

namespace EvenSpacing

/-- The quotient rounded up. -/
def ceilDiv (a b : ℕ) : ℕ := (a + b - 1) / b

variable {n M m m' c : ℕ}

theorem ceilDiv_zero_left (b : ℕ) : ceilDiv 0 b = 0 := by
  rw [ceilDiv, Nat.zero_add]
  rcases Nat.eq_zero_or_pos b with rfl | hb
  · rfl
  · exact Nat.div_eq_of_lt (Nat.sub_lt hb Nat.one_pos)

/-- Rounded up is rounded down, and one more unless it divides. -/
theorem ceilDiv_of_pos {a b : ℕ} (hb : 0 < b) :
    ceilDiv a b = if b ∣ a then a / b else a / b + 1 := by
  rw [ceilDiv]
  split
  · rename_i h
    obtain ⟨q, rfl⟩ := h
    rw [Nat.add_sub_assoc hb, Nat.mul_add_div hb, Nat.mul_div_cancel_left q hb,
      Nat.div_eq_of_lt (Nat.sub_lt hb Nat.one_pos), Nat.add_zero]
  · rename_i h
    have hmod : 0 < a % b := Nat.pos_of_ne_zero fun h0 => h (Nat.dvd_of_mod_eq_zero h0)
    have hlt : a % b < b := Nat.mod_lt a hb
    have ha : a + b - 1 = b * (a / b + 1) + (a % b - 1) := by
      have := Nat.div_add_mod a b
      rw [Nat.mul_add]
      omega
    have hrest : (a % b - 1) / b = 0 := Nat.div_eq_of_lt (Nat.lt_of_le_of_lt (Nat.sub_le _ _) hlt)
    rw [ha, Nat.mul_add_div hb, hrest, Nat.add_zero]

theorem div_le_ceilDiv {a b : ℕ} (hb : 0 < b) : a / b ≤ ceilDiv a b := by
  rw [ceilDiv_of_pos hb]
  split
  · exact le_refl _
  · exact Nat.le_succ _

theorem ceilDiv_eq_div_iff {a b : ℕ} (hb : 0 < b) : ceilDiv a b = a / b ↔ b ∣ a := by
  rw [ceilDiv_of_pos hb]
  split
  · rename_i h
    exact iff_of_true rfl h
  · rename_i h
    exact iff_of_false (Nat.succ_ne_self _) h

theorem ceilDiv_mul_left {a b k : ℕ} (hk : 0 < k) (hb : 0 < b) :
    ceilDiv (k * a) (k * b) = ceilDiv a b := by
  rw [ceilDiv_of_pos (Nat.mul_pos hk hb), ceilDiv_of_pos hb, Nat.mul_div_mul_left _ _ hk]
  simp only [Nat.mul_dvd_mul_iff_left hk]

/-- The points rounded down are different if there are no more points than places. -/
theorem floor_lt (hM : 0 < M) (hn : M ≤ n) (h : m < m') : m * n / M < m' * n / M := by
  rw [Nat.lt_iff_add_one_le, Nat.le_div_iff_mul_le hM]
  calc (m * n / M + 1) * M = m * n / M * M + M := Nat.succ_mul _ _
    _ ≤ m * n + n := Nat.add_le_add (Nat.div_mul_le_self _ _) hn
    _ = (m + 1) * n := (Nat.succ_mul _ _).symm
    _ ≤ m' * n := Nat.mul_le_mul_right n h

/-- The points rounded up too. -/
theorem ceil_lt (hM : 0 < M) (hn : M ≤ n) (h : m < m') :
    ceilDiv (m * n) M < ceilDiv (m' * n) M := by
  rw [ceilDiv, ceilDiv, Nat.lt_iff_add_one_le, Nat.le_div_iff_mul_le hM]
  have hfloor : (m * n + M - 1) / M * M ≤ m * n + M - 1 := Nat.div_mul_le_self _ _
  have hstep : (m + 1) * n ≤ m' * n := Nat.mul_le_mul_right n h
  rw [Nat.succ_mul] at hstep
  rw [Nat.succ_mul]
  omega

/-- All of them are places. -/
theorem ceil_lt_places (hM : 0 < M) (hn : M ≤ n) (hm : m < M) : ceilDiv (m * n) M < n := by
  have hlast : ceilDiv (M * n) M = n := by
    rw [ceilDiv_of_pos hM, if_pos (Nat.dvd_mul_right M n), Nat.mul_div_cancel_left n hM]
  exact Nat.lt_of_lt_of_eq (ceil_lt hM hn hm) hlast

theorem floor_lt_places (hM : 0 < M) (hn : M ≤ n) (hm : m < M) : m * n / M < n :=
  Nat.lt_of_le_of_lt (div_le_ceilDiv hM) (ceil_lt_places hM hn hm)

/-- With as many points as places every place is reached. -/
theorem exists_floor_eq (hn : n ≤ M) (hc : c < n) : ∃ m < M, m * n / M = c := by
  have hn0 : 0 < n := Nat.zero_lt_of_lt hc
  have hM : 0 < M := Nat.lt_of_lt_of_le hn0 hn
  refine ⟨(c * M + n - 1) / n, ?_, ?_⟩
  · rw [Nat.div_lt_iff_lt_mul hn0]
    have h1 : (c + 1) * M ≤ n * M := Nat.mul_le_mul_right M hc
    rw [Nat.succ_mul] at h1
    rw [Nat.mul_comm M n]
    omega
  · have hlo : (c * M + n - 1) / n * n ≤ c * M + n - 1 := Nat.div_mul_le_self _ _
    have hhi : c * M + n - 1 < (c * M + n - 1) / n * n + n := by
      have := Nat.lt_div_mul_add (a := c * M + n - 1) hn0
      exact this
    refine Nat.div_eq_of_lt_le ?_ ?_
    · omega
    · rw [Nat.succ_mul]
      omega

/-- If every point rounded up is one rounded down, none of them is rounded. -/
theorem dvd_of_ceil_mem (hM : 0 < M) (hn : M ≤ n)
    (h : ∀ m < M, ∃ m' < M, ceilDiv (m * n) M = m' * n / M) : M ∣ n := by
  have hinj : ∀ {f : ℕ → ℕ}, (∀ {a b}, a < b → f a < f b) → Function.Injective f :=
    fun hf a b hab => by
      rcases Nat.lt_trichotomy a b with hlt | heq | hlt
      · exact absurd hab (Nat.ne_of_lt (hf hlt))
      · exact heq
      · exact absurd hab.symm (Nat.ne_of_lt (hf hlt))
  have hceil : Function.Injective fun m => ceilDiv (m * n) M := hinj fun h => ceil_lt hM hn h
  have hfloor : Function.Injective fun m => m * n / M := hinj fun h => floor_lt hM hn h
  -- both images have `M` elements, so that they are the same set
  have himage : (Finset.range M).image (fun m => ceilDiv (m * n) M) =
      (Finset.range M).image (fun m => m * n / M) := by
    refine Finset.eq_of_subset_of_card_le (fun c hc => ?_) ?_
    · obtain ⟨m, hm, rfl⟩ := Finset.mem_image.mp hc
      obtain ⟨m', hm', heq⟩ := h m (Finset.mem_range.mp hm)
      exact Finset.mem_image.mpr ⟨m', Finset.mem_range.mpr hm', heq.symm⟩
    · rw [Finset.card_image_of_injective _ hceil, Finset.card_image_of_injective _ hfloor]
  have hsum : ∑ m ∈ Finset.range M, m * n / M = ∑ m ∈ Finset.range M, ceilDiv (m * n) M := by
    have := congrArg (fun s => s.sum id) himage
    rw [Finset.sum_image fun a _ b _ hab => hceil hab,
      Finset.sum_image fun a _ b _ hab => hfloor hab] at this
    exact this.symm
  have hall := (Finset.sum_eq_sum_iff_of_le fun m _ => div_le_ceilDiv hM).mp hsum
  rcases Nat.lt_or_ge 1 M with h1 | h1
  · have := hall 1 (Finset.mem_range.mpr h1)
    rw [Nat.one_mul] at this
    exact (ceilDiv_eq_div_iff hM).mp this.symm
  · rw [Nat.le_antisymm h1 hM]
    exact Nat.one_dvd n

/-- Every point rounded up is, on the circle, one rounded down, exactly if nothing is rounded or
every place is reached. -/
theorem ceil_mem_iff (hM : 0 < M) (hn : 0 < n) :
    (∀ m < M, ∃ m' < M, ceilDiv (m * n) M % n = m' * n / M % n) ↔ M ∣ n ∨ n ≤ M := by
  constructor
  · intro h
    rcases Nat.le_total n M with hle | hle
    · exact .inr hle
    · refine .inl (dvd_of_ceil_mem hM hle fun m hm => ?_)
      obtain ⟨m', hm', heq⟩ := h m hm
      rw [Nat.mod_eq_of_lt (ceil_lt_places hM hle hm),
        Nat.mod_eq_of_lt (floor_lt_places hM hle hm')] at heq
      exact ⟨m', hm', heq⟩
  · rintro (hdvd | hle) m hm
    · exact ⟨m, hm, by rw [(ceilDiv_eq_div_iff hM).mpr (hdvd.mul_left m)]⟩
    · obtain ⟨m', hm', heq⟩ := exists_floor_eq hle (Nat.mod_lt (ceilDiv (m * n) M) hn)
      exact ⟨m', hm', by rw [heq, Nat.mod_mod]⟩

end EvenSpacing
