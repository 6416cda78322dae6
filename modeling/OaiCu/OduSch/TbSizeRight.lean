import OaiCu.OduSch.TbSizeStandard

/-!
# Which transport block sizes are right

`schCalcTbSizeFromNPrb` computes the standard's size exactly for the inputs of `StandardSize`, and
on these the size is in octets and grows with the number of PRBs.
-/

namespace OaiCu.OduSch

open Ts38214

/-! ## The standard's size grows -/

theorem expOf_of_lt {least less x y : ℕ} (h : Nat.log2 x ≤ Nat.log2 y)
    (hne : expOf least less x ≠ expOf least less y) :
    Nat.log2 x < Nat.log2 y ∧ expOf least less y + less = Nat.log2 y := by
  unfold expOf at hne ⊢
  omega

theorem log2_mono {x y : ℕ} (hx : 0 < x) (h : x ≤ y) : Nat.log2 x ≤ Nat.log2 y := by
  rw [Nat.le_log2 (by omega)]
  exact (Nat.log2_self_le hx.ne').trans h

/-- Rounding down to a unit is monotone, since a power of two is in whole units. -/
theorem quantise_mono {least less x y : ℕ} (hx : 0 < x) (h : x ≤ y) :
    2 ^ expOf least less x * (x / 2 ^ expOf least less x) ≤
      2 ^ expOf least less y * (y / 2 ^ expOf least less y) := by
  by_cases he : expOf least less x = expOf least less y
  · rw [he]
    exact Nat.mul_le_mul_left _ (Nat.div_le_div_right h)
  · obtain ⟨hlog, hy⟩ := expOf_of_lt (log2_mono hx h) he
    have hself : 2 ^ Nat.log2 y ≤ y := Nat.log2_self_le (by omega)
    have hsplit : 2 ^ Nat.log2 y = 2 ^ expOf least less y * 2 ^ less := by
      rw [← hy, pow_add]
    calc 2 ^ expOf least less x * (x / 2 ^ expOf least less x)
        ≤ x := Nat.mul_div_le _ _
      _ ≤ 2 ^ (Nat.log2 x + 1) := Nat.lt_log2_self.le
      _ ≤ 2 ^ Nat.log2 y := Nat.pow_le_pow_right (by decide) hlog
      _ = 2 ^ expOf least less y * 2 ^ less := hsplit
      _ ≤ 2 ^ expOf least less y * (y / 2 ^ expOf least less y) := by
          apply Nat.mul_le_mul_left
          rw [Nat.le_div_iff_mul_le (by positivity), Nat.mul_comm, ← hsplit]
          exact hself

/-- So is rounding to the nearest unit. -/
theorem round_mono {b c : ℕ} (hb : 32 ≤ b / 1024) (h : b ≤ c) :
    2 ^ expOf 0 5 (b / 1024) *
        ((b + 512 * 2 ^ expOf 0 5 (b / 1024)) / (1024 * 2 ^ expOf 0 5 (b / 1024))) ≤
      2 ^ expOf 0 5 (c / 1024) *
        ((c + 512 * 2 ^ expOf 0 5 (c / 1024)) / (1024 * 2 ^ expOf 0 5 (c / 1024))) := by
  have hdiv : b / 1024 ≤ c / 1024 := Nat.div_le_div_right h
  by_cases he : expOf 0 5 (b / 1024) = expOf 0 5 (c / 1024)
  · rw [he]
    exact Nat.mul_le_mul_left _ (Nat.div_le_div_right (by omega))
  · obtain ⟨hlog, hc⟩ := expOf_of_lt (log2_mono (by omega) hdiv) he
    have h5 : 5 ≤ Nat.log2 (b / 1024) := (Nat.le_log2 (by omega)).mpr hb
    have hbe : Nat.log2 (b / 1024) = expOf 0 5 (b / 1024) + 5 := by
      unfold expOf
      omega
    have hblt : b / 1024 < 64 * 2 ^ expOf 0 5 (b / 1024) := by
      have hself : b / 1024 < 2 ^ (Nat.log2 (b / 1024) + 1) := Nat.lt_log2_self
      rw [hbe, pow_add, pow_add] at hself
      omega
    have hcge : 32 * 2 ^ expOf 0 5 (c / 1024) ≤ c / 1024 := by
      have hself : 2 ^ Nat.log2 (c / 1024) ≤ c / 1024 := Nat.log2_self_le (by omega)
      rw [← hc, pow_add] at hself
      omega
    have hunits : 2 ^ (expOf 0 5 (b / 1024) + 1) ≤ 2 ^ expOf 0 5 (c / 1024) :=
      Nat.pow_le_pow_right (by decide) (by omega)
    rw [pow_succ] at hunits
    generalize 2 ^ expOf 0 5 (b / 1024) = P at hblt hunits ⊢
    generalize 2 ^ expOf 0 5 (c / 1024) = Q at hcge hunits ⊢
    have hP : 0 < P := by omega
    have hQ : 0 < Q := by omega
    calc P * ((b + 512 * P) / (1024 * P))
        ≤ P * 64 := by
          apply Nat.mul_le_mul_left
          rw [← Nat.lt_succ_iff, Nat.div_lt_iff_lt_mul (by omega)]
          omega
      _ ≤ Q * 32 := by omega
      _ ≤ Q * ((c + 512 * Q) / (1024 * Q)) := by
          apply Nat.mul_le_mul_left
          rw [Nat.le_div_iff_mul_le (by omega)]
          omega

section

variable {a b : ℕ}

theorem smallInfo_mono (ha : 1024 ≤ a) (h : a ≤ b) :
    smallInfo ((a : ℚ) / 1024) ≤ smallInfo ((b : ℚ) / 1024) := by
  rw [smallInfo_parts, smallInfo_parts, smallExp_parts ha, smallExp_parts (ha.trans h)]
  exact max_le_max le_rfl (quantise_mono (by omega) (Nat.div_le_div_right h))

theorem largeInfo_mono (ha : 3824 * 1024 < a) (h : a ≤ b) :
    largeInfo ((a : ℚ) / 1024) ≤ largeInfo ((b : ℚ) / 1024) := by
  rw [largeInfo_parts (by omega), largeInfo_parts (by omega), largeExp_eq ha,
    largeExp_eq (ha.trans_le h)]
  exact max_le_max le_rfl (round_mono (by omega) (by omega))

end

/-! ## The condition -/

/-- The inputs for which rounding `N_info` up and cutting the quotients makes no difference. -/
def StandardSize (r : ℕ) (nInfo : ℚ) : Prop :=
  if nInfo ≤ 3824 then SmallExact nInfo else LargeExact r nInfo

/-- The code returns the standard's size, in octets. -/
def SizeRight (numPrb mcs numSymbols : ℕ) : Prop :=
  ∃ qm r t, mcsTable[mcs]? = some (qm, r) ∧ schCalcTbSizeFromNPrb numPrb mcs numSymbols = some t ∧
    tbs r (nInfo numPrb qm r numSymbols) = some t ∧ 8 ∣ t

theorem tbSizeTable_octets : ∀ t ∈ tbSizeTable, 8 ∣ t ∧ t ≤ 3824 := by decide +kernel

section

variable {mcs numSymbols qm r : ℕ} (hmcs : mcs ≤ 28) (hrow : mcsTable[mcs]? = some (qm, r))
  (h2 : 2 ≤ numSymbols)

include hmcs hrow h2 in
theorem parts_bounds {numPrb : ℕ} (h1 : 1 ≤ numPrb) (hle : numPrb ≤ 273) :
    1024 ≤ parts numPrb qm r numSymbols ∧ parts numPrb qm r numSymbols < 2 ^ 32 := by
  obtain ⟨hlow, hhigh, -⟩ := row_bounds hmcs hrow
  have hre : 12 ≤ nReDash numSymbols ∧ nReDash numSymbols ≤ 156 := by
    unfold nReDash
    omega
  have hlow' := Nat.mul_le_mul (Nat.mul_le_mul hre.1 h1) hlow
  have hhigh' := Nat.mul_le_mul (Nat.mul_le_mul hre.2 hle) hhigh.le
  unfold parts
  rw [Nat.mul_assoc _ qm r]
  omega

include hrow in
/-- The code in terms of the parts of `N_info`. -/
theorem schCalcTbSizeFromNPrb_parts {numPrb : ℕ} (hlt : parts numPrb qm r numSymbols < 2 ^ 32) :
    schCalcTbSizeFromNPrb numPrb mcs numSymbols =
      (if ceilParts (parts numPrb qm r numSymbols) ≤ 3824
        then tbSizeSmall (ceilParts (parts numPrb qm r numSymbols))
        else tbSizeLarge r (ceilParts (parts numPrb qm r numSymbols))).map (· % 2 ^ 16) := by
  have hparts : min 156 (12 * numSymbols - 12) * numPrb * qm * r % 2 ^ 32 =
      parts numPrb qm r numSymbols := Nat.mod_eq_of_lt hlt
  unfold schCalcTbSizeFromNPrb ceilParts
  rw [hrow]
  simp only [Option.bind_eq_bind, Option.bind_some, hparts, Option.pure_def, Option.map_eq_bind]
  split
  · rfl
  · rfl

theorem le_3824_iff (a : ℕ) : (a : ℚ) / 1024 ≤ 3824 ↔ ceilParts a ≤ 3824 := by
  rw [← ceil_parts, Nat.ceil_le]
  norm_cast

/-- A size of the table is not cut. -/
theorem map_find?_tbSizeTable (x : ℕ) :
    (tbSizeTable.find? (x ≤ ·)).map (· % 2 ^ 16) = tbSizeTable.find? (x ≤ ·) := by
  cases h : tbSizeTable.find? (x ≤ ·) with
  | none => rfl
  | some t =>
    have ht := (tbSizeTable_octets t (List.mem_of_find?_eq_some h)).2
    rw [Option.map_some, Nat.mod_eq_of_lt (by omega)]

theorem tbSizeSmall_mod (K : ℕ) (hK : K ≤ 3824) :
    (tbSizeSmall K).map (· % 2 ^ 16) = tbSizeSmall K := by
  rcases lt_or_ge K 64 with h | h
  · rw [tbSizeSmall_of_lt h]
    rfl
  · rw [tbSizeSmall_of_le h hK]
    exact map_find?_tbSizeTable _

include hmcs hrow h2 in
/-- For any number of PRBs the size is the standard's exactly under the condition. -/
theorem schCalcTbSizeFromNPrb_eq_iff {numPrb : ℕ} (h1 : 1 ≤ numPrb) (hle : numPrb ≤ 273) :
    schCalcTbSizeFromNPrb numPrb mcs numSymbols = tbs r (nInfo numPrb qm r numSymbols) ↔
      StandardSize r (nInfo numPrb qm r numSymbols) := by
  obtain ⟨hlow, hlt⟩ := parts_bounds hmcs hrow h2 h1 hle
  rw [schCalcTbSizeFromNPrb_parts hrow hlt, nInfo_eq]
  generalize parts numPrb qm r numSymbols = a at hlow hlt ⊢
  unfold StandardSize
  by_cases hK : ceilParts a ≤ 3824
  · rw [if_pos hK, if_pos ((le_3824_iff a).mpr hK), tbSizeSmall_mod _ hK,
      ← small_exact_iff hlow hK]
    unfold tbs
    rw [if_pos ((le_3824_iff a).mpr hK)]
  · rw [if_neg hK, if_neg (mt (le_3824_iff a).mp hK)]
    apply large_exact_iff (row_bounds hmcs hrow).2.2 _ hlt
    unfold ceilParts at hK
    omega

end

section

variable {r a b s t : ℕ}

/-- Up to 3824 the standard's size is an entry of the table. -/
theorem tbs_small (h : (a : ℚ) / 1024 ≤ 3824) :
    ∃ t, tbs r ((a : ℚ) / 1024) = some t ∧
      tbSizeTable.find? (smallInfo ((a : ℚ) / 1024) ≤ ·) = some t ∧ 8 ∣ t ∧ t ≤ 3824 := by
  have hceil := (le_3824_iff a).mp h
  have hq : max 24 (a / 1024) ≤ 3824 := by
    unfold ceilParts at hceil
    omega
  obtain ⟨t, ht⟩ := find?_tbSizeTable ((smallInfo_le a).trans hq)
  refine ⟨t, ?_, ht, tbSizeTable_octets t (List.mem_of_find?_eq_some ht)⟩
  unfold tbs
  rw [if_pos h, ht]

/-- Above it is `N'_info` where one code block keeps its bits. -/
theorem tbs_large (h : 3824 < (a : ℚ) / 1024) (hexact : LargeExact r ((a : ℚ) / 1024)) :
    3824 * 1024 < a ∧ tbs r ((a : ℚ) / 1024) = some (largeInfo ((a : ℚ) / 1024)) ∧
      64 ∣ largeInfo ((a : ℚ) / 1024) ∧ 3840 ≤ largeInfo ((a : ℚ) / 1024) := by
  have ha : 3824 * 1024 < a := by
    rw [lt_div_iff₀ (by norm_num)] at h
    exact_mod_cast h
  obtain ⟨hr, hlt, -⟩ := (largeExact_iff r a).mp hexact
  have h64 := (largeInfo_dvd ha).1
  refine ⟨ha, ?_, h64, le_max_left _ _⟩
  rw [tbs_of_lt h, blocksSize_of_le hr ((largeInfo_le_iff ha).mpr hlt) h64]

/-- Where the condition holds the standard's size is in octets. -/
theorem tbs_octets (h : StandardSize r ((a : ℚ) / 1024)) :
    ∃ t, tbs r ((a : ℚ) / 1024) = some t ∧ 8 ∣ t := by
  unfold StandardSize at h
  split at h
  · rename_i hle
    obtain ⟨t, ht, -, h8, -⟩ := tbs_small hle
    exact ⟨t, ht, h8⟩
  · rename_i hlt
    obtain ⟨-, ht, h64, -⟩ := tbs_large (not_le.mp hlt) h
    exact ⟨_, ht, dvd_trans (by decide) h64⟩

/-- And it grows with `N_info`. -/
theorem tbs_mono (ha : 1024 ≤ a) (h : a ≤ b) (hsa : StandardSize r ((a : ℚ) / 1024))
    (hsb : StandardSize r ((b : ℚ) / 1024)) (hs : tbs r ((a : ℚ) / 1024) = some s)
    (ht : tbs r ((b : ℚ) / 1024) = some t) : s ≤ t := by
  have hab : (a : ℚ) / 1024 ≤ b / 1024 := by
    gcongr
  unfold StandardSize at hsa hsb
  split at hsb
  · rename_i hb
    obtain ⟨s', hs', hfind, -⟩ := tbs_small (r := r) (hab.trans hb)
    obtain ⟨t', ht', hfind', -⟩ := tbs_small (r := r) hb
    obtain rfl : s' = s := Option.some.inj (hs'.symm.trans hs)
    obtain rfl : t' = t := Option.some.inj (ht'.symm.trans ht)
    exact find?_le_mono tbSizeTable_ascending (smallInfo_mono ha h) hfind hfind'
  · rename_i hb
    obtain ⟨-, ht', -, hge⟩ := tbs_large (not_le.mp hb) hsb
    obtain rfl := Option.some.inj (ht'.symm.trans ht)
    split at hsa
    · rename_i ha'
      obtain ⟨s', hs', -, -, hle⟩ := tbs_small (r := r) ha'
      obtain rfl : s' = s := Option.some.inj (hs'.symm.trans hs)
      omega
    · rename_i ha'
      obtain ⟨hlt, hs', -, -⟩ := tbs_large (not_le.mp ha') hsa
      obtain rfl := Option.some.inj (hs'.symm.trans hs)
      exact largeInfo_mono hlt h

end

/-! ## The result -/

/-- The size is the standard's under the condition and no other, and between numbers of PRBs that
meet it the size grows. -/
theorem sizeRight_iff {mcs numSymbols qm r : ℕ} (hmcs : mcs ≤ 28)
    (hrow : mcsTable[mcs]? = some (qm, r)) (h2 : 2 ≤ numSymbols) :
    (∀ numPrb, 1 ≤ numPrb → numPrb ≤ 273 →
      (SizeRight numPrb mcs numSymbols ↔ StandardSize r (nInfo numPrb qm r numSymbols))) ∧
    ∀ numPrb more, 1 ≤ numPrb → numPrb ≤ more → more ≤ 273 →
      StandardSize r (nInfo numPrb qm r numSymbols) →
      StandardSize r (nInfo more qm r numSymbols) →
      ∀ s t, schCalcTbSizeFromNPrb numPrb mcs numSymbols = some s →
        schCalcTbSizeFromNPrb more mcs numSymbols = some t → s ≤ t := by
  constructor
  · intro numPrb h1 hle
    rw [← schCalcTbSizeFromNPrb_eq_iff hmcs hrow h2 h1 hle]
    constructor
    · rintro ⟨qm', r', t, hrow', hcode, hstd, -⟩
      obtain ⟨rfl, rfl⟩ := Prod.mk.inj (Option.some.inj (hrow.symm.trans hrow'))
      rw [hcode, hstd]
    · intro heq
      have hstd := (schCalcTbSizeFromNPrb_eq_iff hmcs hrow h2 h1 hle).mp heq
      rw [nInfo_eq] at hstd heq
      obtain ⟨t, ht, h8⟩ := tbs_octets hstd
      refine ⟨qm, r, t, hrow, heq.trans ht, ?_, h8⟩
      rw [nInfo_eq, ht]
  · intro numPrb more h1 hmore hle hsa hsb s t hs ht
    have heqa := (schCalcTbSizeFromNPrb_eq_iff hmcs hrow h2 h1 (hmore.trans hle)).mpr hsa
    have heqb := (schCalcTbSizeFromNPrb_eq_iff hmcs hrow h2 (h1.trans hmore) hle).mpr hsb
    rw [nInfo_eq] at hsa hsb heqa heqb
    have hmono : parts numPrb qm r numSymbols ≤ parts more qm r numSymbols := by
      unfold parts
      gcongr
    exact tbs_mono (parts_bounds hmcs hrow h2 h1 (hmore.trans hle)).1 hmono hsa hsb
      (heqa.symm.trans hs) (heqb.symm.trans ht)

/-- Ten PRBs at index 20 have one code block, whose 40 units and a third are rounded down. -/
theorem sizeRight_ten : SizeRight 10 20 14 := by
  refine ((sizeRight_iff (by decide) (by rfl) (by decide)).1 10 (by decide) (by decide)).mpr ?_
  have hparts : parts 10 6 567 14 = 5307120 := by decide
  have hunit : 128 = 2 ^ largeExp ((5307120 : ℕ) / 1024 : ℚ) := by
    rw [largeExp_parts (by decide)]
    decide +kernel
  rw [nInfo_eq, hparts, StandardSize, if_neg (by norm_num)]
  exact ⟨by norm_num, by norm_num, (roundsDown_iff (by decide) hunit).mpr (.inl (by decide))⟩

/-- With 106 PRBs at index 16 the UE takes the block to have 42016 bits and the code 41960. -/
theorem schCalcTbSizeFromNPrb_wrong :
    ¬ SizeRight 106 16 14 ∧ schCalcTbSizeFromNPrb 106 16 14 = some 41960 ∧
      tbs 658 (nInfo 106 4 658 14) = some 42016 := by
  have hcode : schCalcTbSizeFromNPrb 106 16 14 = some 41960 := by decide +kernel
  have hinfo : largeInfo (nInfo 106 4 658 14) = 41984 := by
    rw [nInfo_eq, largeInfo_parts (by decide), largeExp_parts (by decide)]
    decide +kernel
  have hstd : tbs 658 (nInfo 106 4 658 14) = some 42016 := by
    rw [tbs_of_lt (by unfold nInfo nReDash; norm_num), hinfo]
    unfold blocksSize blockBits codeBlocks
    rw [if_neg (by decide), if_pos (by decide), ceil_div _ (by decide : 0 < 8424),
      ceil_div _ (by decide)]
  refine ⟨?_, hcode, hstd⟩
  rintro ⟨qm, r, t, hrow, hcode', hstd', -⟩
  obtain ⟨rfl, rfl⟩ := Prod.mk.inj (Option.some.inj (hrow.symm.trans (by rfl : _ = some (4, 658))))
  rw [hcode] at hcode'
  rw [hstd, ← hcode'] at hstd'
  exact absurd hstd' (by decide)

end OaiCu.OduSch
