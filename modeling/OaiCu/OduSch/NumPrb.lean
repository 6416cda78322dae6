import OaiCu.OduSch.TbSize

/-!
# The number of PRBs for a transport block (`sch_utils.c`)

`schCalcNumPrb` divides twice and rounds up each time, first to resource elements and then to PRBs.
The `float` of the first division may be one resource element short, which is never the last one of
a PRB.
-/

namespace OaiCu.OduSch

/-- The resource elements of a PRB. -/
def reOfPrb (numSymbols : ℕ) : ℕ := min 156 (12 * numSymbols - 12)

/-- The bits of `N_info` for the PRBs cover the transport block. -/
def Carries (qm r numSymbols numPrb tbSize : ℕ) : Prop :=
  8 * tbSize ≤ numPrb * reOfPrb numSymbols * qm * r / 1024

/-- The PRBs carry the transport block, and fewer do not. -/
def NumPrbRight (tbSize mcs numSymbols : ℕ) : Prop :=
  ∃ qm r numPrb, mcsTable[mcs]? = some (qm, r) ∧
    schCalcNumPrb tbSize mcs numSymbols = some numPrb ∧ Carries qm r numSymbols numPrb tbSize ∧
    ∀ less < numPrb, ¬ Carries qm r numSymbols less tbSize

/-! ## The quotients of `float` -/

section

variable {a b q : ℕ}

/-- A quotient is rounded up, or it is between an integer and the next and is taken for the
first. -/
theorem ceilFloat_cases (hb : 0 < b) :
    (∀ x, ceilFloat a b ≤ x ↔ a ≤ x * b) ∨
      (ceilFloat a b = a / b ∧ 0 < a % b ∧ 2 ^ (24 - Nat.log2 (a / b)) * (a % b) ≤ b ∧
        a / b ≠ 0) := by
  have hdiv := Nat.div_add_mod a b
  have hmod := Nat.mod_lt a hb
  unfold ceilFloat
  by_cases hz : a % b = 0
  · left
    intro x
    rw [if_pos (.inl hz)]
    rw [hz, Nat.add_zero] at hdiv
    constructor
    · intro h
      rw [← hdiv, Nat.mul_comm]
      exact Nat.mul_le_mul_right b h
    · intro h
      rw [← hdiv, Nat.mul_comm] at h
      exact Nat.le_of_mul_le_mul_right h hb
  · by_cases hnear : a / b ≠ 0 ∧ 2 ^ (24 - Nat.log2 (a / b)) * (a % b) ≤ b
    · rw [if_pos (.inr hnear)]
      exact .inr ⟨rfl, Nat.pos_of_ne_zero hz, hnear.2, hnear.1⟩
    · left
      intro x
      rw [if_neg (by simp only [hz, hnear, or_self, not_false_eq_true])]
      constructor
      · intro h
        have hx : b * (a / b + 1) ≤ b * x := Nat.mul_le_mul_left b h
        rw [Nat.mul_succ, Nat.mul_comm b x] at hx
        omega
      · intro h
        rw [Nat.succ_le_iff, Nat.div_lt_iff_lt_mul hb]
        rcases Nat.lt_or_eq_of_le h with h | h
        · exact h
        · exact absurd (by rw [h, Nat.mul_mod_left]) hz

/-- With numbers of 16 bits over at most 156, nothing is lost. -/
theorem ceilFloat_le_iff (hb : 0 < b) (hb' : b ≤ 156) (ha : a < 2 ^ 16) (x : ℕ) :
    ceilFloat a b ≤ x ↔ a ≤ x * b := by
  rcases ceilFloat_cases hb (a := a) with h | ⟨-, hmod, hnear, hk⟩
  · exact h x
  · have hlog : Nat.log2 (a / b) < 16 :=
      (Nat.log2_lt hk).mpr ((Nat.div_le_self a b).trans_lt ha)
    have hunit : 2 ^ 9 ≤ 2 ^ (24 - Nat.log2 (a / b)) := Nat.pow_le_pow_right (by decide) (by omega)
    have hle := Nat.mul_le_mul hunit hmod
    omega

/-- What is lost of a number below `2 ^ 26` is less than four parts of the divisor. -/
theorem mod_lt_four (ha : a < 2 ^ 26) (hk : a / b ≠ 0) (hlog : Nat.log2 (a / b) ≤ 24)
    (hnear : 2 ^ (24 - Nat.log2 (a / b)) * (a % b) ≤ b) : a % b < 4 := by
  have hpow : 2 ^ Nat.log2 (a / b) ≤ a / b := Nat.log2_self_le hk
  have hle : 2 ^ 24 * (a % b) ≤ a := by
    calc 2 ^ 24 * (a % b)
        = 2 ^ Nat.log2 (a / b) * (2 ^ (24 - Nat.log2 (a / b)) * (a % b)) := by
          rw [← Nat.mul_assoc, ← pow_add]
          congr 2
          omega
      _ ≤ a / b * b := Nat.mul_le_mul hpow hnear
      _ ≤ a := Nat.div_mul_le_self a b
  omega

/-- The last resource element of a PRB is not lost. -/
theorem ceilFloat_le_mul_iff {d : ℕ} (hb : 0 < b) (ha : a < 2 ^ 26) (h4 : 4 ∣ a) (hd : 4 ∣ d)
    (hq : ceilFloat a b < 2 ^ 16) (x : ℕ) : ceilFloat a b ≤ x * d ↔ a ≤ x * d * b := by
  rcases ceilFloat_cases hb (a := a) with h | ⟨heq, hmod, hnear, hk⟩
  · exact h (x * d)
  · rw [heq] at hq ⊢
    have hlog : Nat.log2 (a / b) < 16 := (Nat.log2_lt hk).mpr hq
    have hlt := mod_lt_four ha hk (by omega) hnear
    have hdiv := Nat.div_add_mod a b
    constructor
    · intro hle
      rcases Nat.lt_or_eq_of_le hle with hle | heq
      · have hmul : b * (a / b + 1) ≤ b * (x * d) := Nat.mul_le_mul_left b hle
        have := Nat.mod_lt a hb
        rw [Nat.mul_succ, Nat.mul_comm b (x * d)] at hmul
        omega
      · -- then 4 would divide what is lost
        have hdvd : 4 ∣ b * (a / b) := by
          rw [heq]
          exact (hd.mul_left x).mul_left b
        omega
    · intro hle
      apply Nat.div_le_of_le_mul
      rw [Nat.mul_comm]
      exact hle

end

/-! ## The number of PRBs -/

section

variable {tbSize mcs numSymbols qm r : ℕ}

theorem carries_iff (numPrb : ℕ) : Carries qm r numSymbols numPrb tbSize ↔
    8192 * tbSize ≤ numPrb * reOfPrb numSymbols * (qm * r) := by
  unfold Carries
  rw [Nat.le_div_iff_mul_le (by decide), Nat.mul_assoc _ qm r]
  omega

theorem reOfPrb_bounds (h2 : 2 ≤ numSymbols) :
    12 ≤ reOfPrb numSymbols ∧ reOfPrb numSymbols ≤ 156 ∧ 4 ∣ reOfPrb numSymbols := by
  unfold reOfPrb
  omega

theorem nreDash_eq (h2 : 2 ≤ numSymbols) (h14 : numSymbols ≤ 14) :
    min 156 ((12 * numSymbols + 2 ^ 16 - 12) % 2 ^ 16) = reOfPrb numSymbols := by
  have hwrap : 12 * numSymbols + 2 ^ 16 - 12 = 12 * numSymbols - 12 + 2 ^ 16 := by omega
  unfold reOfPrb
  rw [hwrap, Nat.add_mod_right, Nat.mod_eq_of_lt (by omega)]

/-- The number of PRBs is the least one for what is left of the bits on 16 bits, if the resource
elements have 16 bits. -/
theorem schCalcNumPrb_spec (hmcs : mcs ≤ 28) (hrow : mcsTable[mcs]? = some (qm, r))
    (h2 : 2 ≤ numSymbols) (h14 : numSymbols ≤ 14) :
    (8192 * (tbSize % 8192) ≤ 65535 * (qm * r) ∧
      ∃ numPrb, schCalcNumPrb tbSize mcs numSymbols = some numPrb ∧
        ∀ x, numPrb ≤ x ↔ 8192 * (tbSize % 8192) ≤ x * reOfPrb numSymbols * (qm * r)) ∨
    (65535 * (qm * r) < 8192 * (tbSize % 8192) ∧
      schCalcNumPrb tbSize mcs numSymbols = none) := by
  obtain ⟨hlow, hhigh, -⟩ := row_bounds hmcs hrow
  obtain ⟨hre, hre', h4⟩ := reOfPrb_bounds h2
  have hbits : tbSize * 8 % 2 ^ 16 * 1024 = 8192 * (tbSize % 8192) := by omega
  unfold schCalcNumPrb
  rw [hrow, Option.bind_eq_bind, Option.bind_some, hbits]
  dsimp only
  rw [nreDash_eq h2 h14]
  generalize hb : qm * r = b at *
  generalize ha : 8192 * (tbSize % 8192) = a at *
  have hpos : 0 < b := by omega
  have ha26 : a < 2 ^ 26 := by omega
  have ha4 : 4 ∣ a := by omega
  -- the resource elements have 16 bits exactly up to this bound
  have hfits : ceilFloat a b < 2 ^ 16 ↔ a ≤ 65535 * b := by
    rcases ceilFloat_cases hpos (a := a) with h | ⟨heq, hmod, hnear, hk⟩
    · rw [← h 65535]
      omega
    · have hdiv := Nat.div_add_mod a b
      have hrem := Nat.mod_lt a hpos
      rw [heq]
      constructor
      · intro hlt
        have hlog : Nat.log2 (a / b) < 16 := (Nat.log2_lt hk).mpr hlt
        have hfour := mod_lt_four ha26 hk (by omega) hnear
        rcases Nat.lt_or_eq_of_le (Nat.le_of_lt_succ hlt) with hlt | heq
        · have hmul : b * (a / b + 1) ≤ b * 65535 := Nat.mul_le_mul_left b hlt
          rw [Nat.mul_succ] at hmul
          omega
        · rw [heq] at hdiv
          omega
      · intro hle
        rw [Nat.div_lt_iff_lt_mul hpos]
        omega
  have hre0 : reOfPrb numSymbols ≠ 0 := by omega
  rcases le_or_gt a (65535 * b) with hle | hgt
  · left
    have hq := hfits.mpr hle
    have hnre : ceilFloat16 a b = some (ceilFloat a b) :=
      ceilFloat16_eq_some_iff.mpr ⟨hpos.ne', hq, rfl⟩
    have hle_iff := ceilFloat_le_iff (by omega) hre' hq
    have hn : ceilFloat (ceilFloat a b) (reOfPrb numSymbols) < 2 ^ 16 := by
      rw [← Nat.le_sub_one_iff_lt (by decide), hle_iff]
      have : (2 ^ 16 - 1) * 1 ≤ (2 ^ 16 - 1) * reOfPrb numSymbols :=
        Nat.mul_le_mul_left _ (by omega)
      omega
    refine ⟨hle, ceilFloat (ceilFloat a b) (reOfPrb numSymbols), ?_, fun x => ?_⟩
    · rw [hnre, Option.bind_eq_bind, Option.bind_some]
      exact ceilFloat16_eq_some_iff.mpr ⟨hre0, hn, rfl⟩
    · rw [hle_iff, ceilFloat_le_mul_iff hpos ha26 ha4 h4 hq]
  · right
    refine ⟨hgt, ?_⟩
    have hnre : ceilFloat16 a b = none := by
      unfold ceilFloat16
      rw [if_pos (.inr (Nat.le_of_not_lt fun h => absurd (hfits.mp h) (by omega)))]
    rw [hnre, Option.bind_eq_bind, Option.bind_none]

/-- The number of PRBs is right exactly if neither the bits nor the resource elements need more than
16 bits. -/
theorem numPrbRight_iff (hmcs : mcs ≤ 28) (hrow : mcsTable[mcs]? = some (qm, r))
    (h2 : 2 ≤ numSymbols) (h14 : numSymbols ≤ 14) :
    NumPrbRight tbSize mcs numSymbols ↔
      tbSize < 8192 ∧ 8192 * tbSize ≤ 65535 * (qm * r) := by
  obtain ⟨hlow, hhigh, -⟩ := row_bounds hmcs hrow
  obtain ⟨hre, hre', -⟩ := reOfPrb_bounds h2
  constructor
  · rintro ⟨qm', r', numPrb, hrow', hnum, hcarries, hleast⟩
    obtain ⟨rfl, rfl⟩ := Prod.mk.inj (Option.some.inj (hrow.symm.trans hrow'))
    rw [carries_iff] at hcarries
    rcases @schCalcNumPrb_spec tbSize _ _ _ _ hmcs hrow h2 h14 with
      ⟨hle, n, hn, hiff⟩ | ⟨-, hnone⟩
    · obtain rfl := Option.some.inj (hnum.symm.trans hn)
      have hlt : tbSize < 8192 := by
        by_contra hwrap
        -- one PRB less does not even carry the bits that are left
        have hprb : reOfPrb numSymbols * (qm * r) ≤ 156 * 5700 :=
          Nat.mul_le_mul hre' hhigh.le
        have hless := mt (hiff (numPrb - 1)).mpr
        rcases Nat.eq_zero_or_pos numPrb with rfl | hpos
        · rw [Nat.zero_mul, Nat.zero_mul] at hcarries
          omega
        · have hsplit : numPrb * reOfPrb numSymbols * (qm * r) =
              (numPrb - 1) * reOfPrb numSymbols * (qm * r) +
                reOfPrb numSymbols * (qm * r) := by
            obtain ⟨m, rfl⟩ : ∃ m, numPrb = m + 1 := ⟨numPrb - 1, by omega⟩
            rw [Nat.add_sub_cancel]
            ring
          have hnot := hless (by omega)
          omega
      rw [Nat.mod_eq_of_lt hlt] at hle
      exact ⟨hlt, hle⟩
    · rw [hnum] at hnone
      cases hnone
  · rintro ⟨hlt, hle⟩
    have hmod := Nat.mod_eq_of_lt hlt
    rcases @schCalcNumPrb_spec tbSize _ _ _ _ hmcs hrow h2 h14 with
      ⟨-, n, hn, hiff⟩ | ⟨hgt, -⟩
    · rw [hmod] at hiff
      refine ⟨qm, r, n, hrow, hn, ?_, fun less hless => ?_⟩
      · rw [carries_iff]
        exact (hiff n).mp le_rfl
      · rw [carries_iff, ← hiff less]
        exact not_le.mpr hless
    · omega

end

end OaiCu.OduSch
