import Mathlib.Tactic.NormNum.NatLog
import OaiCu.NrPolar.Fast

/-!
# NR polar codes: the codes of the control channel and of the broadcast channel

A payload of at most 64 bits leads to eight pairs of lengths. The tables of all of them are as the
fast encoder needs them.
-/

namespace OaiCu.NrPolar

/-- `2 ^ n` bits of the code word are matched to `E` bits of the channel, in groups of `g`. -/
inductive IsCode : ℕ → ℕ → ℕ → Prop
  | level1 : IsCode 7 108 4
  | level2 : IsCode 8 216 8
  | level4Short : IsCode 8 432 8
  | level4 : IsCode 9 432 16
  | level8Short : IsCode 8 864 8
  | level8 : IsCode 9 864 16
  | level16Short : IsCode 8 1728 8
  | level16 : IsCode 9 1728 16

variable {n E g A K : ℕ}

theorem IsCode.n_cases (h : IsCode n E g) : n = 7 ∨ n = 8 ∨ n = 9 := by
  cases h <;> decide

theorem IsCode.pow_eq (h : IsCode n E g) : 2 ^ n = 32 * g := by
  cases h <;> rfl

theorem IsCode.dvd (h : IsCode n E g) : g ∣ E := by
  cases h <;> decide

theorem IsCode.groups (h : IsCode n E g) : g = 4 ∧ E < 128 ∨ g = 8 ∨ g = 16 := by
  cases h <;> decide

/-- Only the first level has groups of less than a byte. -/
theorem IsCode.lt_eight_iff (h : IsCode n E g) : g < 8 ↔ E = 108 := by
  cases h <;> decide

/-! ## The length of the code word -/

theorem clog_payload (hA : A ≤ 64) : (A ≤ 8 ∧ Nat.clog 2 (8 * (A + 24)) = 8) ∨
    (8 < A ∧ 9 ≤ Nat.clog 2 (8 * (A + 24))) := by
  rcases Nat.lt_or_ge 8 A with hlt | hle
  · exact Or.inr ⟨hlt, (Nat.lt_clog_iff_pow_lt (by decide)).mpr (by omega)⟩
  · refine Or.inl ⟨hle, le_antisymm (Nat.clog_le_of_le_pow (by omega)) ?_⟩
    exact (Nat.lt_clog_iff_pow_lt (by decide)).mpr (by omega)

/-- The length is that of the channel, rounded up to a power of two, or eight times the message. -/
theorem nrPolarOutputLength_eq {m : ℕ} (hm : Nat.clog 2 E = m) (hE : 9 * 2 ^ (m - 1) < 8 * E) :
    nrPolarOutputLength K E 9 = 2 ^ max 5 (min (Nat.clog 2 (8 * K)) (min m 9)) := by
  unfold nrPolarOutputLength
  rw [hm, if_neg fun h => absurd h.1 (Nat.not_le.mpr hE)]

theorem exists_isCode (hA : A ≤ 64) (hE : E = 108 ∨ E = 216 ∨ E = 432 ∨ E = 864 ∨ E = 1728) :
    ∃ n g, IsCode n E g ∧ nrPolarOutputLength (A + 24) E 9 = 2 ^ n := by
  have hpow : ∀ n2, nrPolarOutputLength (A + 24) E 9 = 2 ^ max 5 (min (Nat.clog 2 (8 * (A + 24))) n2) →
      ∀ n, max 5 (min (Nat.clog 2 (8 * (A + 24))) n2) = n →
        nrPolarOutputLength (A + 24) E 9 = 2 ^ n := by
    rintro n2 heq n rfl
    exact heq
  have hclog := clog_payload hA
  rcases hE with rfl | rfl | rfl | rfl | rfl
  · have heq := @nrPolarOutputLength_eq 108 (A + 24) 7 (by norm_num) (by decide)
    exact ⟨7, 4, .level1, hpow _ heq 7 (by omega)⟩
  · have heq := @nrPolarOutputLength_eq 216 (A + 24) 8 (by norm_num) (by decide)
    exact ⟨8, 8, .level2, hpow _ heq 8 (by omega)⟩
  · have heq := @nrPolarOutputLength_eq 432 (A + 24) 9 (by norm_num) (by decide)
    rcases hclog with hshort | hlong
    · exact ⟨8, 8, .level4Short, hpow _ heq 8 (by omega)⟩
    · exact ⟨9, 16, .level4, hpow _ heq 9 (by omega)⟩
  · have heq := @nrPolarOutputLength_eq 864 (A + 24) 10 (by norm_num) (by decide)
    rcases hclog with hshort | hlong
    · exact ⟨8, 8, .level8Short, hpow _ heq 8 (by omega)⟩
    · exact ⟨9, 16, .level8, hpow _ heq 9 (by omega)⟩
  · have heq := @nrPolarOutputLength_eq 1728 (A + 24) 11 (by norm_num) (by decide)
    rcases hclog with hshort | hlong
    · exact ⟨8, 8, .level16Short, hpow _ heq 8 (by omega)⟩
    · exact ⟨9, 16, .level16, hpow _ heq 9 (by omega)⟩

/-! ## Frozen bits -/

theorem length_frozenTmp (K N E : ℕ) : (frozenTmp K N E).length =
    if E < N then
      if 16 * K ≤ 7 * E then
        N - E + if 3 * N ≤ 4 * E then (3 * N - 2 * E + 3) / 4 else (9 * N - 4 * E + 15) / 16
      else N - E
    else 0 := by
  unfold frozenTmp
  split_ifs <;> simp

/-- The frozen bits leave room for the message. -/
theorem IsCode.frozenTmp_le (h : IsCode n E g) (hK : K ≤ 88) :
    K + (frozenTmp K (2 ^ n) E).length ≤ 2 ^ n := by
  rw [length_frozenTmp]
  cases h with
  | level1 =>
      norm_num
      split <;> omega
  | level2 | level4 =>
      norm_num
      split <;> omega
  | level4Short | level8Short | level8 | level16Short | level16 =>
      norm_num
      omega

/-! ## Groups -/

/-- The pattern depends on the length of the message only by the kind of rate matching. -/
theorem rateMatchingPattern_congr {N K' : ℕ} (h : E < N → (16 * K ≤ 7 * E ↔ 16 * K' ≤ 7 * E)) :
    nrPolarRateMatchingPattern K N E = nrPolarRateMatchingPattern K' N E := by
  funext k
  unfold nrPolarRateMatchingPattern
  split
  · rfl
  · rename_i hlt
    simp only [h (not_le.mp hlt)]

/-- With repetition the pattern goes through the subblocks, however long it is. -/
theorem rateMatchingPattern_of_le {N E' : ℕ} (h : N ≤ E) (h' : N ≤ E') :
    nrPolarRateMatchingPattern K N E = nrPolarRateMatchingPattern K N E' := by
  funext k
  unfold nrPolarRateMatchingPattern
  rw [if_pos h, if_pos h']

/-- The scan in two parts. -/
theorem minGroupSize_of_scan {rmp : ℕ → ℕ} {s s' : GroupScan} (m k : ℕ)
    (h : (List.range' 1 m).foldl (GroupScan.next rmp)
      { iplast := rmp 0, ccnt := 0, mingroupsize := 1024 } = s)
    (h' : (List.range' (m + 1) k).foldl (GroupScan.next rmp) s = s') :
    minGroupSize rmp (m + k + 1) = min (s'.ccnt + 1) s'.mingroupsize := by
  have happ := @List.range'_append_1 1 m k
  unfold minGroupSize
  rw [Nat.add_sub_cancel, ← happ, List.foldl_append, h, Nat.add_comm 1 m, h']

set_option maxRecDepth 20000 in
/-- The scans with repetition, up to the length of level 8 and on to that of level 16. -/
theorem scans :
    ((List.range' 1 863).foldl (GroupScan.next (nrPolarRateMatchingPattern 0 256 1728))
        { iplast := nrPolarRateMatchingPattern 0 256 1728 0, ccnt := 0, mingroupsize := 1024 } =
          { iplast := 143, ccnt := 7, mingroupsize := 8 } ∧
      (List.range' 864 864).foldl (GroupScan.next (nrPolarRateMatchingPattern 0 256 1728))
        { iplast := 143, ccnt := 7, mingroupsize := 8 } =
          { iplast := 191, ccnt := 7, mingroupsize := 8 }) ∧
    (List.range' 1 863).foldl (GroupScan.next (nrPolarRateMatchingPattern 0 512 1728))
        { iplast := nrPolarRateMatchingPattern 0 512 1728 0, ccnt := 0, mingroupsize := 1024 } =
          { iplast := 367, ccnt := 15, mingroupsize := 16 } ∧
      (List.range' 864 864).foldl (GroupScan.next (nrPolarRateMatchingPattern 0 512 1728))
        { iplast := 367, ccnt := 15, mingroupsize := 16 } =
          { iplast := 287, ccnt := 15, mingroupsize := 16 } :=
  ⟨⟨by decide, by decide⟩, by decide, by decide⟩

set_option maxRecDepth 20000 in
/-- The smallest group has `2 ^ n / 32` bits. -/
theorem IsCode.minGroupSize_eq (h : IsCode n E g) (hK : K ≤ 88) :
    minGroupSize (nrPolarRateMatchingPattern K (2 ^ n) E) E = g := by
  cases h with
  | level1 =>
      rcases Nat.lt_or_ge 47 K with hlt | hle
      · rw [@rateMatchingPattern_congr 108 K (2 ^ 7) 48 fun _ => by omega]
        decide
      · rw [@rateMatchingPattern_congr 108 K (2 ^ 7) 0 fun _ => by omega]
        decide
  | level2 =>
      rw [@rateMatchingPattern_congr 216 K (2 ^ 8) 0 fun _ => by omega]
      decide
  | level4Short =>
      rw [@rateMatchingPattern_congr 432 K (2 ^ 8) 0 fun _ => by omega]
      decide
  | level4 =>
      rw [@rateMatchingPattern_congr 432 K (2 ^ 9) 0 fun _ => by omega]
      decide
  | level8Short =>
      rw [@rateMatchingPattern_congr 864 K (2 ^ 8) 0 fun _ => by omega,
        @rateMatchingPattern_of_le 864 0 (2 ^ 8) 1728 (by decide) (by decide)]
      exact minGroupSize_of_scan 863 0 scans.1.1 rfl
  | level8 =>
      rw [@rateMatchingPattern_congr 864 K (2 ^ 9) 0 fun _ => by omega,
        @rateMatchingPattern_of_le 864 0 (2 ^ 9) 1728 (by decide) (by decide)]
      exact minGroupSize_of_scan 863 0 scans.2.1 rfl
  | level16Short =>
      rw [@rateMatchingPattern_congr 1728 K (2 ^ 8) 0 fun _ => by omega]
      exact minGroupSize_of_scan 863 864 scans.1.1 scans.1.2
  | level16 =>
      rw [@rateMatchingPattern_congr 1728 K (2 ^ 9) 0 fun _ => by omega]
      exact minGroupSize_of_scan 863 864 scans.2.1 scans.2.2

/-! ## The generator matrix -/

/-- The `n`-th Kronecker power of the matrix with the rows `1 0` and `1 1`. -/
def kroneckerPower : ℕ → ℕ → ℕ → UInt8
  | 0, _, _ => 1
  | n + 1, i, j => if i.testBit n = false ∧ j.testBit n = true then 0 else kroneckerPower n i j

theorem kroneckerPower_le (n i j : ℕ) : (kroneckerPower n i j).toNat ≤ 1 := by
  induction n with
  | zero => exact le_rfl
  | succ n ih =>
      unfold kroneckerPower
      split
      · exact Nat.zero_le 1
      · exact ih

/-- What `nr_polar_kronecker_power_matrices` returns. -/
def GivesKroneckerPowers (kroneckerPowerMatrices : ℕ → ℕ → ℕ → UInt8) : Prop :=
  ∀ n i j, i < 2 ^ n → j < 2 ^ n → kroneckerPowerMatrices n i j = kroneckerPower n i j

/-! ## The tables -/

section Tables

variable {kroneckerPowerMatrices : ℕ → ℕ → ℕ → UInt8} {crcRows : ℕ}

/-- The information bits, sorted. -/
theorem infoRow_newPolarParams (hN : nrPolarOutputLength (A + 24) E 9 = 2 ^ n) (k : ℕ) :
    infoRow (newPolarParams kroneckerPowerMatrices A E crcRows) k =
      ((List.range (2 ^ n)).filter fun q => decide (q ∈ infoBits (A + 24) (2 ^ n) E)).getD k 0 := by
  unfold infoRow newPolarParams
  simp only [hN, List.mem_mergeSort]

/-- **The tables belong to the code.** -/
theorem newPolarParams_tabulated (hkron : GivesKroneckerPowers kroneckerPowerMatrices)
    (h : IsCode n E g) (hA : A ≤ 64) (hN : nrPolarOutputLength (A + 24) E 9 = 2 ^ n) :
    Tabulated (newPolarParams kroneckerPowerMatrices A E crcRows)
      (nrPolarInterleavingPattern (A + 24) 1) g := by
  have hmin := h.minGroupSize_eq (show A + 24 ≤ 88 by omega)
  have hinfo := infoBits_spec h.n_cases (h.frozenTmp_le (show A + 24 ≤ 88 by omega))
  have hlog : Nat.log 2 (2 ^ n) = n := Nat.log_pow (by decide) n
  constructor
  case payload_le => exact hA
  case crcParityBits => rfl
  case K_eq => rfl
  case perm => exact interleaving_perm (show A + 24 ≤ 164 by omega)
  case interleaving => exact fun k => rfl
  case cprimeTab0 => rfl
  case cprimeTab1 => rfl
  case gNTab =>
    intro k
    rw [infoRow_newPolarParams hN]
    unfold newPolarParams gNTab
    simp only [hN]
  case entries =>
    intro k hk j hj
    have hj : j < 2 ^ n := hN ▸ hj
    rw [infoRow_newPolarParams hN]
    have hrow : ((List.range (2 ^ n)).filter fun q =>
        decide (q ∈ infoBits (A + 24) (2 ^ n) E)).getD k 0 < 2 ^ n := by
      rw [List.getD_eq_getElem _ _ (hinfo.symm ▸ hk)]
      exact List.mem_range.mp (List.mem_of_mem_filter (List.getElem_mem _))
    unfold newPolarParams
    simp only [hN, hlog]
    rw [hkron n _ j hrow hj]
    exact kroneckerPower_le n _ j
  case N_dvd =>
    change 64 ∣ nrPolarOutputLength (A + 24) E 9
    rw [hN]
    cases h <;> decide
  case infoLength =>
    unfold newPolarParams
    simpa only [hN, List.mem_mergeSort] using hinfo
  case grouped =>
    obtain ⟨T, hT⟩ := h.dvd
    have hpos : 0 < g := by cases h <;> decide
    have hgrouped := @grouped_rateMatching (A + 24) g T hpos
    rw [← hT, ← h.pow_eq] at hgrouped
    unfold newPolarParams
    simpa only [hN] using hgrouped
  case groupsize =>
    unfold newPolarParams
    simp only [hN, hmin]
  case rmTab =>
    intro t
    unfold newPolarParams
    simp only [hN, hmin, Nat.shiftRight_eq_div_pow]
    cases h <;> rfl

/-- The assertions of `build_polar_tables` hold. -/
theorem newPolarParams_supported (h : IsCode n E g) (hA : A ≤ 64)
    (hN : nrPolarOutputLength (A + 24) E 9 = 2 ^ n) :
    let p := newPolarParams kroneckerPowerMatrices A E crcRows
    tablesSupported p.K p.N p.groupsize p.deinterleavingPattern = true := by
  have hmin := h.minGroupSize_eq (show A + 24 ≤ 88 by omega)
  have hperm := interleaving_perm (show A + 24 ≤ 164 by omega)
  have hdeint : ∀ i < A + 24, invertPattern (nrPolarInterleavingPattern (A + 24) 1) i < 128 := by
    intro i hi
    obtain ⟨k, hk, rfl⟩ := pattern_surjective hperm hi
    rw [invertPattern_apply hperm hk]
    omega
  have h17 : 17 < A + 24 := by omega
  have h129 : A + 24 < 129 := by omega
  have hall : ((List.range (A + 24)).all fun i =>
      decide (invertPattern (nrPolarInterleavingPattern (A + 24) 1) i < 128)) = true := by
    simpa using hdeint
  unfold newPolarParams tablesSupported
  simp only [hN, hmin, hall, h17, h129, decide_true, Bool.true_and]
  cases h <;> rfl

end Tables

end OaiCu.NrPolar
