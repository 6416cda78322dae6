import Mathlib.Algebra.Order.Floor.Semifield
import Mathlib.Data.List.Find
import OaiCu.OduSch.TbSize

/-!
# Where the transport block size is the standard's

`N_info` is a number of 1024th parts, so all that the standard computes is written with quotients of
natural numbers first.
-/

namespace OaiCu.OduSch

/-! ## The standard in natural numbers -/

namespace Ts38214

/-- `N_info` in 1024th parts. -/
def parts (numPrb qm r numSymbols : ℕ) : ℕ := nReDash numSymbols * numPrb * qm * r

theorem nInfo_eq (numPrb qm r numSymbols : ℕ) :
    nInfo numPrb qm r numSymbols = (parts numPrb qm r numSymbols : ℕ) / 1024 := by
  unfold nInfo parts
  push_cast
  ring

theorem floor_parts (a : ℕ) : ⌊(a : ℚ) / 1024⌋₊ = a / 1024 := by
  have h := Nat.floor_div_eq_div (K := ℚ) a 1024
  push_cast at h
  exact h

theorem ceil_div (n : ℕ) {d : ℕ} (hd : 0 < d) : ⌈(n : ℚ) / d⌉₊ = (n + (d - 1)) / d := by
  have hd' : (0 : ℚ) < d := by exact_mod_cast hd
  apply le_antisymm
  · rw [Nat.ceil_le, div_le_iff₀ hd']
    have h : n ≤ (n + (d - 1)) / d * d := by
      have := Nat.lt_div_mul_add hd (a := n + (d - 1))
      omega
    exact_mod_cast h
  · have h := Nat.le_ceil ((n : ℚ) / d)
    rw [div_le_iff₀ hd'] at h
    have h' : n ≤ ⌈(n : ℚ) / d⌉₊ * d := by exact_mod_cast h
    rw [← Nat.lt_succ_iff, Nat.div_lt_iff_lt_mul hd, Nat.succ_mul]
    omega

theorem log_parts {a : ℕ} (h : 1024 ≤ a) : Int.log 2 ((a : ℚ) / 1024) = Nat.log2 (a / 1024) := by
  have hone : (1 : ℚ) ≤ a / 1024 := by
    rw [le_div_iff₀ (by norm_num)]
    exact_mod_cast h
  rw [Int.log_of_one_le_right 2 hone, floor_parts, Nat.log2_eq_log_two]

theorem smallExp_parts {a : ℕ} (h : 1024 ≤ a) :
    smallExp ((a : ℚ) / 1024) = max 3 (Nat.log2 (a / 1024) - 6) := by
  unfold smallExp
  rw [log_parts h]
  omega

theorem smallInfo_parts (a : ℕ) :
    smallInfo ((a : ℚ) / 1024) =
      max 24 (2 ^ smallExp ((a : ℚ) / 1024) * (a / 1024 / 2 ^ smallExp ((a : ℚ) / 1024))) := by
  unfold smallInfo
  have hfloor := Nat.floor_div_natCast ((a : ℚ) / 1024) (2 ^ smallExp ((a : ℚ) / 1024))
  push_cast at hfloor
  rw [hfloor, floor_parts]

/-- What `N_info` has above 24, in 1024th parts. -/
theorem sub_parts {a : ℕ} (h : 24 * 1024 ≤ a) :
    (a : ℚ) / 1024 - 24 = (a - 24 * 1024 : ℕ) / 1024 := by
  push_cast [Nat.cast_sub h]
  ring

theorem largeExp_parts {a : ℕ} (h : 25 * 1024 ≤ a) :
    largeExp ((a : ℚ) / 1024) = Nat.log2 ((a - 24 * 1024) / 1024) - 5 := by
  unfold largeExp
  rw [sub_parts (by omega), log_parts (by omega)]
  omega

theorem floor_half (b P : ℕ) (hP : 0 < P) :
    ⌊(b : ℚ) / 1024 / P + 1 / 2⌋₊ = (b + 512 * P) / (1024 * P) := by
  have h : (b : ℚ) / 1024 / P + 1 / 2 = ((b + 512 * P : ℕ) : ℚ) / (1024 * P : ℕ) := by
    have hne : (P : ℚ) ≠ 0 := by exact_mod_cast hP.ne'
    push_cast
    field_simp
    ring
  rw [h, Nat.floor_div_eq_div]

theorem largeInfo_parts {a : ℕ} (h : 25 * 1024 ≤ a) :
    largeInfo ((a : ℚ) / 1024) =
      max 3840 (2 ^ largeExp ((a : ℚ) / 1024) *
        ((a - 24 * 1024 + 512 * 2 ^ largeExp ((a : ℚ) / 1024)) /
          (1024 * 2 ^ largeExp ((a : ℚ) / 1024)))) := by
  unfold largeInfo
  have hfloor := floor_half (a - 24 * 1024) (2 ^ largeExp ((a : ℚ) / 1024)) (by positivity)
  push_cast at hfloor
  rw [sub_parts (by omega), hfloor]

end Ts38214

open Ts38214

/-! ## Rounding up first -/

/-- The logarithm of the next number, unless that is the next power. -/
theorem log2_succ {q : ℕ} (hq : 1 ≤ q) :
    Nat.log2 (q + 1) = Nat.log2 q ∨ q + 1 = 2 ^ (Nat.log2 q + 1) := by
  rcases eq_or_ne (q + 1) (2 ^ (Nat.log2 q + 1)) with h | h
  · exact .inr h
  · left
    rw [Nat.log2_eq_iff (by omega)]
    have h1 : 2 ^ Nat.log2 q ≤ q := Nat.log2_self_le (by omega)
    have h2 : q < 2 ^ (Nat.log2 q + 1) := Nat.lt_log2_self
    omega

/-- The exponent of a quantisation, from the logarithm. -/
def expOf (least less x : ℕ) : ℕ := max least (Nat.log2 x - less)

/-- Rounding up to `q + 1` makes no difference where the unit does not divide that. -/
theorem quantise_succ {least less q : ℕ} (hq : 1 ≤ q) (hle : least ≤ Nat.log2 q + 1)
    (hdvd : ¬ 2 ^ expOf least less q ∣ q + 1) :
    expOf least less (q + 1) = expOf least less q ∧
      (q + 1) / 2 ^ expOf least less q = q / 2 ^ expOf least less q := by
  constructor
  · rcases log2_succ hq with h | h
    · unfold expOf
      rw [h]
    · refine absurd ?_ hdvd
      rw [h]
      exact Nat.pow_dvd_pow 2 (max_le hle (by omega))
  · rw [Nat.succ_div, if_neg hdvd, add_zero]

/-- Where it does, `q + 1` is in whole units. -/
theorem quantise_succ_of_dvd {least less q : ℕ} (hq : 1 ≤ q) (hle : least ≤ Nat.log2 q + 1)
    (hdvd : 2 ^ expOf least less q ∣ q + 1) :
    2 ^ expOf least less (q + 1) * ((q + 1) / 2 ^ expOf least less (q + 1)) = q + 1 := by
  apply Nat.mul_div_cancel'
  rcases log2_succ hq with h | h
  · unfold expOf
    rw [h]
    exact hdvd
  · rw [h]
    apply Nat.pow_dvd_pow 2
    unfold expOf
    rw [Nat.log2_two_pow]
    exact max_le hle (by omega)


/-- The first entry of an ascending table from a number on. -/
theorem find?_le_mono {l : List ℕ} (hl : l.Pairwise (· < ·)) {x y s t : ℕ} (hxy : x ≤ y)
    (hs : l.find? (x ≤ ·) = some s) (ht : l.find? (y ≤ ·) = some t) : s ≤ t := by
  obtain ⟨-, as, bs, rfl, has⟩ := List.find?_eq_some_iff_append.mp hs
  have hy : y ≤ t := by simpa using List.find?_some ht
  rcases List.mem_append.mp (List.mem_of_find?_eq_some ht) with hmem | hmem
  · exact absurd (has t hmem) (by simpa using hxy.trans hy)
  · rcases List.mem_cons.mp hmem with rfl | hmem
    · exact le_rfl
    · exact ((List.pairwise_cons.mp (List.pairwise_append.mp hl).2.1).1 t hmem).le

theorem find?_le_eq_iff {l : List ℕ} (hl : l.Pairwise (· < ·)) {x y : ℕ} (hxy : x ≤ y) :
    l.find? (y ≤ ·) = l.find? (x ≤ ·) ↔ ∀ t ∈ l, x ≤ t → y ≤ t := by
  constructor
  · intro h t ht hx
    obtain ⟨t₀, ht₀⟩ : ∃ t₀, l.find? (x ≤ ·) = some t₀ :=
      Option.isSome_iff_exists.mp (List.find?_isSome.mpr ⟨t, ht, decide_eq_true hx⟩)
    have hy : y ≤ t₀ := by simpa using List.find?_some (h.trans ht₀)
    obtain ⟨-, as, bs, rfl, has⟩ := List.find?_eq_some_iff_append.mp ht₀
    refine hy.trans ?_
    rcases List.mem_append.mp ht with ht | ht
    · exact absurd (has t ht) (by simpa using hx)
    · rcases List.mem_cons.mp ht with rfl | ht
      · exact le_rfl
      · exact ((List.pairwise_cons.mp (List.pairwise_append.mp hl).2.1).1 t ht).le
  · intro h
    refine List.find?_congr fun t ht => ?_
    rw [decide_eq_decide]
    exact ⟨hxy.trans, h t ht⟩

/-! ## Up to 3824 -/

section

variable {a : ℕ}

/-- `N_info`, rounded up. -/
def ceilParts (a : ℕ) : ℕ := (a + 1023) / 1024

theorem ceilParts_eq (a : ℕ) :
    ceilParts a = if 1024 ∣ a then a / 1024 else a / 1024 + 1 := by
  unfold ceilParts
  split <;> omega

theorem tbSizeTable_ascending : tbSizeTable.Pairwise (· < ·) := by
  rw [← List.isChain_iff_pairwise]
  decide +kernel

/-- A size of the table is found. -/
theorem find?_tbSizeTable {x : ℕ} (hx : x ≤ 3824) :
    ∃ t, tbSizeTable.find? (x ≤ ·) = some t := by
  apply Option.isSome_iff_exists.mp
  rw [List.find?_isSome]
  exact ⟨3824, by decide, decide_eq_true hx⟩

/-- What the code does for 64 and more. -/
theorem tbSizeSmall_of_le {K : ℕ} (h : 64 ≤ K) (hle : K ≤ 3824) :
    tbSizeSmall K = tbSizeTable.find?
      (max 24 (2 ^ expOf 3 6 K * (K / 2 ^ expOf 3 6 K)) ≤ ·) := by
  have hlog : Nat.log2 K < 12 := (Nat.log2_lt (by omega)).mpr (by omega)
  have hlog' : 6 ≤ Nat.log2 K := (Nat.le_log2 (by omega)).mpr (by omega)
  have hsub : cmLog2Sub K 6 = Nat.log2 K - 6 := by
    unfold cmLog2Sub
    omega
  unfold tbSizeSmall shiftOne expOf
  rw [hsub, if_pos (by omega)]
  rfl

/-- Below 64 the difference of the logarithm wraps. -/
theorem tbSizeSmall_of_lt {K : ℕ} (h : K < 64) : tbSizeSmall K = none := by
  have hlog : Nat.log2 K < 6 := by
    rcases Nat.eq_zero_or_pos K with rfl | hpos
    · decide
    · exact (Nat.log2_lt hpos.ne').mpr h
  have hsub : 2 ^ 31 ≤ cmLog2Sub K 6 := by
    unfold cmLog2Sub
    omega
  unfold tbSizeSmall shiftOne
  rw [if_neg (by omega)]
  rfl

/-- Rounding up does not reach a size of the table. -/
def SmallExact (nInfo : ℚ) : Prop :=
  63 < nInfo ∧ (nInfo = ⌈nInfo⌉₊ ∨ ¬ 2 ^ smallExp nInfo ∣ ⌈nInfo⌉₊ ∨
    ∀ t ∈ tbSizeTable, smallInfo nInfo ≤ t → ⌈nInfo⌉₊ ≤ t)

theorem ceil_parts (a : ℕ) : ⌈(a : ℚ) / 1024⌉₊ = ceilParts a :=
  ceil_div a (d := 1024) (by decide)

/-- `N_info` is an integer. -/
theorem parts_eq_ceil_iff (a : ℕ) : (a : ℚ) / 1024 = ceilParts a ↔ 1024 ∣ a := by
  rw [div_eq_iff (by norm_num)]
  have h : a = ceilParts a * 1024 ↔ 1024 ∣ a := by
    unfold ceilParts
    omega
  rw [← h]
  exact_mod_cast Iff.rfl

theorem smallInfo_le (a : ℕ) : smallInfo ((a : ℚ) / 1024) ≤ max 24 (a / 1024) := by
  rw [smallInfo_parts]
  exact max_le_max le_rfl (Nat.mul_div_le _ _)

theorem small_exact_iff (h : 1024 ≤ a) (hle : ceilParts a ≤ 3824) :
    tbSizeSmall (ceilParts a) = tbSizeTable.find? (smallInfo ((a : ℚ) / 1024) ≤ ·) ↔
      SmallExact ((a : ℚ) / 1024) := by
  have hexp : smallExp ((a : ℚ) / 1024) = expOf 3 6 (a / 1024) := smallExp_parts h
  have hinfo := smallInfo_parts a
  rw [hexp] at hinfo
  have h63 : (63 : ℚ) < a / 1024 ↔ 64 ≤ ceilParts a := by
    rw [lt_div_iff₀ (by norm_num)]
    have h : 63 * 1024 < a ↔ 64 ≤ ceilParts a := by
      unfold ceilParts
      omega
    rw [← h]
    exact_mod_cast Iff.rfl
  have hq : a / 1024 ≤ ceilParts a ∧ ceilParts a ≤ a / 1024 + 1 := by
    unfold ceilParts
    omega
  have hbound := smallInfo_le a
  unfold SmallExact
  rw [hexp, ceil_parts, parts_eq_ceil_iff, h63]
  rcases lt_or_ge (ceilParts a) 64 with hlt | hge
  · obtain ⟨t, ht⟩ := find?_tbSizeTable (hbound.trans (by omega))
    rw [tbSizeSmall_of_lt hlt, ht]
    exact iff_of_false nofun fun h => absurd h.1 (by omega)
  · rw [tbSizeSmall_of_le hge hle, and_iff_right hge]
    have hK := ceilParts_eq a
    have hlog : 5 ≤ Nat.log2 (a / 1024) := by
      rw [Nat.le_log2 (by omega)]
      split at hK <;> omega
    split at hK
    · rename_i hdvd
      rw [hK, ← hinfo]
      exact iff_of_true rfl (.inl hdvd)
    · rename_i hdvd
      rw [hK, or_iff_right hdvd]
      by_cases hunit : 2 ^ expOf 3 6 (a / 1024) ∣ a / 1024 + 1
      · rw [quantise_succ_of_dvd (by omega) (by omega) hunit, max_eq_right (by omega),
          find?_le_eq_iff tbSizeTable_ascending (hbound.trans (by omega)),
          or_iff_right (not_not.mpr hunit)]
      · obtain ⟨h1, h2⟩ := quantise_succ (by omega) (by omega) hunit
        rw [h1, h2, ← hinfo]
        exact iff_of_true rfl (.inl hunit)

/-! ## Above 3824 -/

/-- The quantised number is rounded down, or would be so by rounding up first. -/
def RoundsDown (nInfo : ℚ) : Prop :=
  ⌊(nInfo - 24) / 2 ^ largeExp nInfo + 1 / 2⌋₊ = ⌊(nInfo - 24) / 2 ^ largeExp nInfo⌋₊ ∨
    nInfo < 3864 ∨ 2 ^ largeExp nInfo ∣ ⌈nInfo⌉₊ - 24

/-- The size is that of one code block which keeps its bits. -/
def LargeExact (r : ℕ) (nInfo : ℚ) : Prop :=
  1 / 4 < (r : ℚ) / 1024 ∧ nInfo < 8344 ∧ RoundsDown nInfo

/-- `nInfoDash` of the code. -/
def nInfoDashLarge (K : ℕ) : ℕ :=
  max 3840 (2 ^ expOf 0 5 (K - 24) * ((K - 24) / 2 ^ expOf 0 5 (K - 24)))

/-- The code blocks of the code. -/
def codeSize (rValue nInfoDash : ℕ) : ℕ :=
  if rValue < 256 then codeBlockBits nInfoDash ((nInfoDash + 24) / 3816)
  else if 8424 < nInfoDash then codeBlockBits nInfoDash ((nInfoDash + 24) / 8424)
  else codeBlockBits nInfoDash 1

theorem tbSizeLarge_of_lt {r K : ℕ} (h : 3824 < K) (hlt : K < 2 ^ 32) :
    tbSizeLarge r K = some (codeSize r (nInfoDashLarge K)) := by
  have hlog : Nat.log2 (K - 24) < 32 := (Nat.log2_lt (by omega)).mpr (by omega)
  have hlog' : 11 ≤ Nat.log2 (K - 24) := (Nat.le_log2 (by omega)).mpr (by omega)
  have hsub : cmLog2Sub (K - 24) 5 = expOf 0 5 (K - 24) := by
    unfold cmLog2Sub expOf
    omega
  unfold tbSizeLarge shiftOne
  rw [hsub, if_pos (by unfold expOf; omega)]
  rfl

/-- What is rounded to the nearest unit. -/
theorem round_cases (b P : ℕ) (hP : 0 < P) :
    (b + 512 * P) / (1024 * P) = b / 1024 / P ∨
      (b + 512 * P) / (1024 * P) = b / 1024 / P + 1 := by
  rw [Nat.div_div_eq_div_mul]
  have h1 : b / (1024 * P) ≤ (b + 512 * P) / (1024 * P) := Nat.div_le_div_right (by omega)
  have h2 : (b + 512 * P) / (1024 * P) ≤ (b + 1024 * P) / (1024 * P) :=
    Nat.div_le_div_right (by omega)
  rw [Nat.add_div_right _ (by positivity)] at h2
  omega

section

variable {q : ℕ}

/-- The unit above 3824. -/
theorem expOf_ge (hq : 3800 ≤ q) : 6 ≤ expOf 0 5 q := by
  have hlog : 11 ≤ Nat.log2 q := (Nat.le_log2 (by omega)).mpr (by omega)
  unfold expOf
  omega

theorem expOf_eq {k : ℕ} (h1 : 2 ^ (k + 5) ≤ q) (h2 : q < 2 ^ (k + 6)) : expOf 0 5 q = k := by
  have hpos : 0 < q := lt_of_lt_of_le (by positivity) h1
  have hlog : Nat.log2 q = k + 5 := (Nat.log2_eq_iff hpos.ne').mpr ⟨h1, h2⟩
  unfold expOf
  omega

end

theorem largeExp_eq (h : 3824 * 1024 < a) :
    largeExp ((a : ℚ) / 1024) = expOf 0 5 ((a - 24 * 1024) / 1024) := by
  rw [largeExp_parts (by omega), expOf, Nat.zero_max]

/-- The three cases of rounding down, in natural numbers. -/
theorem roundsDown_iff (h : 3824 * 1024 < a) {P : ℕ} (hP : P = 2 ^ largeExp ((a : ℚ) / 1024)) :
    RoundsDown ((a : ℚ) / 1024) ↔
      (a - 24 * 1024 + 512 * P) / (1024 * P) = (a - 24 * 1024) / 1024 / P ∨
        a < 3864 * 1024 ∨ P ∣ ceilParts a - 24 := by
  have hpos : 0 < P := hP ▸ by positivity
  have hfloor := floor_half (a - 24 * 1024) P hpos
  have hdiv := Nat.floor_div_natCast (((a - 24 * 1024 : ℕ) : ℚ) / 1024) P
  have hlt : (a : ℚ) / 1024 < 3864 ↔ a < 3864 * 1024 := by
    rw [div_lt_iff₀ (by norm_num)]
    exact_mod_cast Iff.rfl
  unfold RoundsDown
  have hcast : (2 : ℚ) ^ largeExp ((a : ℚ) / 1024) = P := by
    rw [hP]
    push_cast
    rfl
  rw [hcast, sub_parts (by omega), hfloor, hdiv, floor_parts, hlt, ceil_parts, ← hP]

/-- Rounding up first carries to the next unit, or makes no difference. -/
theorem codeUnits_cases {b : ℕ} (hq : 3800 ≤ b / 1024) :
    (¬ 1024 ∣ b ∧ 2 ^ expOf 0 5 (b / 1024) ∣ b / 1024 + 1 ∧
        2 ^ expOf 0 5 (ceilParts b) * (ceilParts b / 2 ^ expOf 0 5 (ceilParts b)) =
          b / 1024 + 1) ∨
      ((1024 ∣ b ∨ ¬ 2 ^ expOf 0 5 (b / 1024) ∣ b / 1024 + 1) ∧
        2 ^ expOf 0 5 (ceilParts b) * (ceilParts b / 2 ^ expOf 0 5 (ceilParts b)) =
          2 ^ expOf 0 5 (b / 1024) * (b / 1024 / 2 ^ expOf 0 5 (b / 1024))) := by
  have hL := ceilParts_eq b
  split at hL
  · rename_i hdvd
    rw [hL]
    exact .inr ⟨.inl hdvd, rfl⟩
  · rename_i hdvd
    rw [hL]
    by_cases hunit : 2 ^ expOf 0 5 (b / 1024) ∣ b / 1024 + 1
    · exact .inl ⟨hdvd, hunit, quantise_succ_of_dvd (by omega) (by omega) hunit⟩
    · obtain ⟨h1, h2⟩ := quantise_succ (by omega) (by omega) hunit
      rw [h1, h2]
      exact .inr ⟨.inr hunit, rfl⟩

/-- With a carry both round to the same number. -/
theorem round_of_carry {b P : ℕ} (hP : 64 ≤ P) (hb : ¬ 1024 ∣ b) (hdvd : P ∣ b / 1024 + 1) :
    P * ((b + 512 * P) / (1024 * P)) = b / 1024 + 1 := by
  obtain ⟨w, hw⟩ := hdvd
  have hmul : 1024 * P * w = 1024 * (b / 1024 + 1) := by
    rw [hw]
    ring
  have hr : (b + 512 * P) / (1024 * P) = w := by
    apply Nat.div_eq_of_lt_le
    · rw [Nat.mul_comm]
      omega
    · rw [Nat.mul_comm (w + 1), Nat.mul_succ]
      omega
  rw [hr, ← hw]

/-- Without a carry the code's number is the one that is rounded down. -/
theorem round_of_no_carry {b P : ℕ} (hP : P = 2 ^ expOf 0 5 (b / 1024)) (hq : 3800 ≤ b / 1024)
    (h : 1024 ∣ b ∨ ¬ P ∣ b / 1024 + 1) :
    max 3840 (P * (b / 1024 / P)) ≤ max 3840 (P * ((b + 512 * P) / (1024 * P))) ∧
      (max 3840 (P * (b / 1024 / P)) = max 3840 (P * ((b + 512 * P) / (1024 * P))) ↔
        (b + 512 * P) / (1024 * P) = b / 1024 / P ∨ b < 3840 * 1024 ∨ P ∣ ceilParts b) := by
  have hpos : 0 < P := hP ▸ by positivity
  rcases round_cases b P hpos with hr | hr
  · rw [hr]
    exact ⟨le_rfl, iff_of_true rfl (.inl rfl)⟩
  · have hmod := Nat.div_add_mod (b / 1024) P
    have hmodlt := Nat.mod_lt (b / 1024) hpos
    have hnot : ¬ P ∣ ceilParts b := by
      intro hdvd
      rw [ceilParts_eq] at hdvd
      split at hdvd
      · rename_i hb
        -- a whole number of units is not rounded up
        obtain ⟨w, hw⟩ := hdvd
        have hle := Nat.div_mul_le_self (b + 512 * P) (1024 * P)
        rw [hr, hw, Nat.mul_div_cancel_left _ hpos, Nat.mul_comm, Nat.mul_succ,
          Nat.mul_assoc, ← hw] at hle
        omega
      · rename_i hb
        exact h.resolve_left hb hdvd
    rw [hr, or_iff_right (Nat.succ_ne_self _), or_iff_left hnot, Nat.mul_succ]
    refine ⟨max_le_max le_rfl (Nat.le_add_right _ _), ?_⟩
    rcases lt_or_ge (b / 1024) 3840 with hlt | hge
    · have hexp : expOf 0 5 (b / 1024) = 6 := expOf_eq (by omega) (by omega)
      rw [hexp] at hP
      subst hP
      refine iff_of_true ?_ (by omega)
      omega
    · refine iff_of_false ?_ (by omega)
      rw [max_eq_right (by omega : 3840 ≤ P * (b / 1024 / P) + P)]
      intro heq
      rcases max_cases 3840 (P * (b / 1024 / P)) with ⟨hm, -⟩ | ⟨hm, -⟩
      · omega
      · omega

/-- The code's number is never larger than the standard's, and equal exactly if that is rounded
down. -/
theorem nInfoDash_spec (h : 3824 * 1024 < a) :
    nInfoDashLarge (ceilParts a) ≤ largeInfo ((a : ℚ) / 1024) ∧
      (nInfoDashLarge (ceilParts a) = largeInfo ((a : ℚ) / 1024) ↔
        RoundsDown ((a : ℚ) / 1024)) := by
  obtain ⟨b, rfl⟩ : ∃ b, a = b + 24 * 1024 := ⟨a - 24 * 1024, by omega⟩
  have hexp := largeExp_eq h
  rw [roundsDown_iff h rfl, largeInfo_parts (by omega), hexp]
  rw [Nat.add_sub_cancel] at *
  have hL : ceilParts (b + 24 * 1024) - 24 = ceilParts b := by
    unfold ceilParts
    omega
  have hlt : b + 24 * 1024 < 3864 * 1024 ↔ b < 3840 * 1024 := by omega
  have hq : 3800 ≤ b / 1024 := by omega
  unfold nInfoDashLarge
  rw [hL, hlt]
  rcases codeUnits_cases hq with ⟨hb, hdvd, hunits⟩ | ⟨hnot, hunits⟩
  · have hP : 64 ≤ 2 ^ expOf 0 5 (b / 1024) :=
      Nat.pow_le_pow_right (n := 2) (by decide) (expOf_ge hq)
    rw [hunits, round_of_carry hP hb hdvd]
    refine ⟨le_rfl, iff_of_true rfl (.inr (.inr ?_))⟩
    rwa [ceilParts_eq, if_neg hb]
  · rw [hunits]
    exact round_of_no_carry rfl hq hnot

/-- The standard's number is a multiple of a unit of at least 64, and not far from `N_info`. -/
theorem largeInfo_spec (h : 3824 * 1024 < a) :
    ∃ e r, largeInfo ((a : ℚ) / 1024) = max 3840 (2 ^ e * r) ∧
      e = expOf 0 5 ((a - 24 * 1024) / 1024) ∧
      r = (a - 24 * 1024 + 512 * 2 ^ e) / (1024 * 2 ^ e) := by
  refine ⟨_, _, ?_, rfl, rfl⟩
  rw [largeInfo_parts (by omega), largeExp_eq h]

theorem largeInfo_dvd (h : 3824 * 1024 < a) : 64 ∣ largeInfo ((a : ℚ) / 1024) ∧
    (20000 < largeInfo ((a : ℚ) / 1024) → 512 ∣ largeInfo ((a : ℚ) / 1024)) := by
  obtain ⟨e, r, hinfo, he, hr⟩ := largeInfo_spec h
  have hge : 6 ≤ e := he ▸ expOf_ge (by omega)
  rw [hinfo]
  constructor
  · rcases max_choice 3840 (2 ^ e * r) with hm | hm
    · rw [hm]
      decide
    · rw [hm]
      exact Dvd.dvd.mul_right (Nat.pow_dvd_pow 2 hge) r
  · intro hlt
    rw [lt_max_iff, or_iff_right (by decide)] at hlt
    rw [max_eq_right (by omega)]
    refine Dvd.dvd.mul_right (Nat.pow_dvd_pow 2 (?_ : 9 ≤ e)) r
    by_contra hsmall
    -- the unit would be at most 256, and the number near 2^14
    have hq : (a - 24 * 1024) / 1024 < 2 ^ 14 := by
      rw [← Nat.log2_lt (by omega)]
      unfold expOf at he
      omega
    have hunit : 2 ^ e ≤ 2 ^ 8 := Nat.pow_le_pow_right (by decide) (by omega)
    have hle := Nat.div_mul_le_self (a - 24 * 1024 + 512 * 2 ^ e) (1024 * 2 ^ e)
    rw [← hr, Nat.mul_comm, Nat.mul_assoc] at hle
    omega

/-- One code block is enough up to `N_info` 8344. -/
theorem largeInfo_le_iff (h : 3824 * 1024 < a) :
    largeInfo ((a : ℚ) / 1024) ≤ 8424 ↔ a < 8344 * 1024 := by
  obtain ⟨e, r, hinfo, he, hr⟩ := largeInfo_spec h
  rw [hinfo, max_le_iff, and_iff_right (by decide)]
  rcases lt_or_ge ((a - 24 * 1024) / 1024) 8192 with hlt | hge
  · have hunit : 2 ^ e ≤ 2 ^ 7 := by
      apply Nat.pow_le_pow_right (by decide)
      have hlog : Nat.log2 ((a - 24 * 1024) / 1024) < 13 := (Nat.log2_lt (by omega)).mpr hlt
      unfold expOf at he
      omega
    have hle := Nat.div_mul_le_self (a - 24 * 1024 + 512 * 2 ^ e) (1024 * 2 ^ e)
    rw [← hr, Nat.mul_comm, Nat.mul_assoc] at hle
    omega
  · rcases lt_or_ge ((a - 24 * 1024) / 1024) 16384 with hlt' | hge'
    · have h8 : e = 8 := he.trans (expOf_eq hge hlt')
      subst h8
      omega
    · have hunit : 32 * 2 ^ e ≤ (a - 24 * 1024) / 1024 := by
        have hself := Nat.log2_self_le (n := (a - 24 * 1024) / 1024) (by omega)
        have hlog : 5 ≤ Nat.log2 ((a - 24 * 1024) / 1024) := (Nat.le_log2 (by omega)).mpr (by omega)
        have he' : Nat.log2 ((a - 24 * 1024) / 1024) = 5 + e := by
          unfold expOf at he
          omega
        rw [he', pow_add] at hself
        exact hself
      have hlt := Nat.lt_div_mul_add (a := a - 24 * 1024 + 512 * 2 ^ e) (b := 1024 * 2 ^ e)
        (by positivity)
      rw [← hr, Nat.mul_comm r, Nat.mul_assoc] at hlt
      omega

/-! ### The code blocks -/

/-- The code leaves bits out. -/
theorem codeBlockBits_le (x c : ℕ) : codeBlockBits x c ≤ x := by
  unfold codeBlockBits
  have := Nat.mul_div_le (x + 24) (8 * c)
  omega

/-- The standard adds bits. -/
theorem le_blockBits (x : ℕ) {c : ℕ} (hc : 0 < c) : x ≤ blockBits x c := by
  unfold blockBits
  rw [ceil_div _ (by omega)]
  have := Nat.lt_div_mul_add (a := x + 24 + (8 * c - 1)) (b := 8 * c) (by omega)
  rw [Nat.mul_comm _ (8 * c)] at this
  omega

theorem dvd_of_codeBlockBits {x c : ℕ} (hx : 0 < x) (h : codeBlockBits x c = x) :
    8 * c ∣ x + 24 := by
  unfold codeBlockBits at h
  exact Dvd.intro ((x + 24) / (8 * c)) (by omega)

theorem dvd_of_blockBits {x c : ℕ} (hx : 0 < x) (h : blockBits x c = x) : 8 * c ∣ x + 24 := by
  unfold blockBits at h
  exact Dvd.intro ⌈((x + 24 : ℕ) : ℚ) / (8 * c : ℕ)⌉₊ (by omega)

theorem not_full_3816 {c k : ℕ} (h : 3816 * c = 64 * k + 24) (hlt : 64 * k < 2 ^ 16)
    (hk : 64 * k ≤ 20000 ∨ k % 8 = 0) : False := by
  have hodd : 477 * c = 8 * k + 3 := by omega
  have hall : ∀ c < 18, 477 * c % 8 = 3 → c = 7 ∨ c = 15 := by decide
  obtain rfl | rfl := hall c (by omega) (by rw [hodd, Nat.mul_add_mod])
  · omega
  · omega

theorem not_full_8424 {c k : ℕ} (h : 8424 * c = 64 * k + 24) (hlt : 64 * k < 2 ^ 16)
    (hk : 64 * k ≤ 20000 ∨ k % 8 = 0) : False := by
  have hodd : 1053 * c = 8 * k + 3 := by omega
  have hall : ∀ c < 8, 1053 * c % 8 = 3 → c = 7 := by decide
  obtain rfl := hall c (by omega) (by rw [hodd, Nat.mul_add_mod])
  omega

/-- Several code blocks do not share the bits evenly, since an odd number of octets is shared. -/
theorem not_code_blocks {x D : ℕ} (hD : D = 3816 ∨ D = 8424) (h64 : 64 ∣ x)
    (h512 : 20000 < x → 512 ∣ x) (hlt : x < 2 ^ 16) (hc : 8 * ((x + 24) / D) ∣ x + 24)
    (hC : 8 * codeBlocks x D ∣ x + 24) : False := by
  obtain ⟨k, rfl⟩ := h64
  have hodd : ∀ c, 8 * c ∣ 64 * k + 24 → c % 2 = 1 := by
    rintro c ⟨w, hw⟩
    have hmul : c * w = 8 * k + 3 := by
      rw [Nat.mul_assoc] at hw
      omega
    have hmod : c % 2 * (w % 2) % 2 = 1 := by
      rw [← Nat.mul_mod, hmul]
      omega
    rcases Nat.mod_two_eq_zero_or_one c with h | h
    · rw [h, Nat.zero_mul] at hmod
      omega
    · exact h
  have hc' := hodd _ hc
  have hC' := hodd _ hC
  -- the two counts of code blocks are odd, so they are equal: the blocks are full
  have hfull : D * ((64 * k + 24) / D) = 64 * k + 24 := by
    have hpos : 0 < D := by omega
    unfold codeBlocks at hC'
    rw [ceil_div _ hpos] at hC'
    have hle : (64 * k + 24 + (D - 1)) / D ≤ (64 * k + 24 + D) / D :=
      Nat.div_le_div_right (by omega)
    have hge : (64 * k + 24) / D ≤ (64 * k + 24 + (D - 1)) / D := Nat.div_le_div_right (by omega)
    rw [Nat.add_div_right _ hpos] at hle
    have heq : (64 * k + 24 + (D - 1)) / D = (64 * k + 24) / D := by omega
    have hup := Nat.lt_div_mul_add (a := 64 * k + 24 + (D - 1)) hpos
    have hdown := Nat.div_mul_le_self (64 * k + 24) D
    rw [heq] at hup
    rw [Nat.mul_comm]
    omega
  generalize (64 * k + 24) / D = c at hc' hfull
  have h512' : 64 * k ≤ 20000 ∨ k % 8 = 0 := by
    rcases le_or_gt (64 * k) 20000 with h | h
    · exact .inl h
    · obtain ⟨w, hw⟩ := h512 h
      omega
  rcases hD with rfl | rfl
  · exact not_full_3816 hfull hlt h512'
  · exact not_full_8424 hfull hlt h512'

/-- The standard's size above 3824. -/
def blocksSize (r nInfoDash : ℕ) : ℕ :=
  if r ≤ 256 then blockBits nInfoDash (codeBlocks nInfoDash 3816)
  else if 8424 < nInfoDash then blockBits nInfoDash (codeBlocks nInfoDash 8424)
  else blockBits nInfoDash 1

theorem quarter_iff (r : ℕ) : (r : ℚ) / 1024 ≤ 1 / 4 ↔ r ≤ 256 := by
  rw [div_le_div_iff₀ (by norm_num) (by norm_num)]
  norm_cast
  omega

theorem tbs_of_lt {r : ℕ} {x : ℚ} (h : 3824 < x) : tbs r x = some (blocksSize r (largeInfo x)) := by
  unfold tbs blocksSize
  simp only [quarter_iff, if_neg (not_le.mpr h)]

theorem codeBlocks_pos (x : ℕ) {D : ℕ} (hD : 0 < D) : 0 < codeBlocks x D := by
  unfold codeBlocks
  rw [ceil_div _ hD]
  exact Nat.div_pos (by omega) hD

theorem codeSize_le (r x : ℕ) : codeSize r x ≤ x := by
  unfold codeSize
  split
  · exact codeBlockBits_le _ _
  · split
    · exact codeBlockBits_le _ _
    · exact codeBlockBits_le _ _

theorem le_blocksSize (r x : ℕ) : x ≤ blocksSize r x := by
  unfold blocksSize
  split
  · exact le_blockBits _ (codeBlocks_pos _ (by decide))
  · split
    · exact le_blockBits _ (codeBlocks_pos _ (by decide))
    · exact le_blockBits _ (by decide)

theorem blocksSize_of_le {r x : ℕ} (hr : 256 < r) (hx : x ≤ 8424) (h64 : 64 ∣ x) :
    blocksSize r x = x := by
  unfold blocksSize blockBits
  rw [if_neg (by omega), if_neg (by omega), ceil_div _ (by decide)]
  omega

/-- The code leaves bits out and the standard adds some, so that the sizes agree only for one code
block. -/
theorem codeSize_eq_iff {r x y : ℕ} (hr : r ≠ 256) (hyx : y ≤ x) (hpos : 0 < x) (h64 : 64 ∣ x)
    (h512 : 20000 < x → 512 ∣ x) :
    codeSize r y % 2 ^ 16 = blocksSize r x ↔ 256 < r ∧ x ≤ 8424 ∧ y = x := by
  constructor
  · intro h
    have hmod := Nat.mod_le (codeSize r y) (2 ^ 16)
    have hlt := Nat.mod_lt (codeSize r y) (by decide : 0 < 2 ^ 16)
    have hcode := codeSize_le r y
    have hstd := le_blocksSize r x
    obtain rfl : y = x := by omega
    have hcode' : codeSize r y = y := by omega
    have hstd' : blocksSize r y = y := by omega
    have h16 : y < 2 ^ 16 := by omega
    unfold codeSize at hcode'
    unfold blocksSize at hstd'
    split at hcode'
    · rw [if_pos (by omega)] at hstd'
      exact (not_code_blocks (.inl rfl) h64 h512 h16 (dvd_of_codeBlockBits hpos hcode')
        (dvd_of_blockBits hpos hstd')).elim
    · rw [if_neg (by omega)] at hstd'
      split at hcode'
      · rename_i hbig
        rw [if_pos hbig] at hstd'
        exact (not_code_blocks (.inr rfl) h64 h512 h16 (dvd_of_codeBlockBits hpos hcode')
          (dvd_of_blockBits hpos hstd')).elim
      · exact ⟨by omega, by omega, rfl⟩
  · rintro ⟨hrate, hle, rfl⟩
    rw [blocksSize_of_le hrate hle h64]
    unfold codeSize codeBlockBits
    rw [if_neg (by omega), if_neg (by omega)]
    omega

theorem largeExact_iff (r a : ℕ) :
    LargeExact r ((a : ℚ) / 1024) ↔ 256 < r ∧ a < 8344 * 1024 ∧ RoundsDown ((a : ℚ) / 1024) := by
  unfold LargeExact
  rw [← not_le, quarter_iff, not_le, div_lt_iff₀ (by norm_num)]
  norm_cast

theorem large_exact_iff {r : ℕ} (hr : r ≠ 256) (h : 3824 * 1024 < a) (hlt : a < 2 ^ 32) :
    (tbSizeLarge r (ceilParts a)).map (· % 2 ^ 16) = tbs r ((a : ℚ) / 1024) ↔
      LargeExact r ((a : ℚ) / 1024) := by
  have hK : 3824 < ceilParts a ∧ ceilParts a < 2 ^ 32 := by
    unfold ceilParts
    omega
  have h' : (3824 : ℚ) < a / 1024 := by
    rw [lt_div_iff₀ (by norm_num)]
    exact_mod_cast h
  obtain ⟨hle, heq⟩ := nInfoDash_spec h
  obtain ⟨h64, h512⟩ := largeInfo_dvd h
  have hpos : 0 < largeInfo ((a : ℚ) / 1024) := by
    unfold largeInfo
    positivity
  rw [tbSizeLarge_of_lt hK.1 hK.2, tbs_of_lt h', Option.map_some, Option.some_inj,
    codeSize_eq_iff hr hle hpos h64 h512, heq, largeInfo_le_iff h, largeExact_iff r a]

end

end OaiCu.OduSch
