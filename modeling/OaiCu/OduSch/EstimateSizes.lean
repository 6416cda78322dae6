import OaiCu.OduSch.LcList
import OaiCu.OduSch.NumPrb
import OaiCu.OduSch.TbSizeRight
import OaiCu.OduSch.RaReq
import OaiCu.OduSch.Reserved

/-!
# The size that is estimated for the free PRBs (`sch_utils.c`)

`calculateEstimateTBSize` with the sizes of `schCalcTbSizeFromNPrb`. The size of the last number of
PRBs that the loop may come to says whether a smaller one, where the loop stops earlier, is too
large.
-/

namespace OaiCu.OduSch

open Ts38214

/-- A size has 13 bits. -/
theorem tbBytes_lt {mcs numSymbols numPrb size : ℕ} (h : tbBytes mcs numSymbols numPrb = some size) :
    size < 2 ^ 13 := by
  obtain ⟨bits, hbits, rfl⟩ := Option.map_eq_some_iff.mp h
  obtain ⟨⟨qm, r⟩, -, hbits⟩ := Option.bind_eq_some_iff.mp hbits
  have hlt : bits < 2 ^ 16 := by
    dsimp only at hbits
    split at hbits
    · obtain ⟨tbSize, -, heq⟩ := Option.bind_eq_some_iff.mp hbits
      obtain rfl := Option.some.inj heq
      exact Nat.mod_lt _ (by decide)
    · obtain ⟨tbSize, -, heq⟩ := Option.bind_eq_some_iff.mp hbits
      obtain rfl := Option.some.inj heq
      exact Nat.mod_lt _ (by decide)
  omega

/-! ## The sizes of the code -/

section

variable {a b r : ℕ}

/-- The size before it is cut to 16 bits. -/
def codeBits (r a : ℕ) : Option ℕ :=
  if ceilParts a ≤ 3824 then tbSizeSmall (ceilParts a) else tbSizeLarge r (ceilParts a)

theorem ceilParts_mono (h : a ≤ b) : ceilParts a ≤ ceilParts b :=
  Nat.div_le_div_right (by omega)

/-- Up to 3824 the sizes are those of the table and grow. -/
theorem codeBits_small (h : ceilParts a ≤ 3824) {t : ℕ} (ht : codeBits r a = some t) :
    t ≤ 3824 ∧ 64 ≤ ceilParts a ∧ tbSizeTable.find?
      (max 24 (2 ^ expOf 3 6 (ceilParts a) * (ceilParts a / 2 ^ expOf 3 6 (ceilParts a))) ≤ ·) =
        some t := by
  unfold codeBits at ht
  rw [if_pos h] at ht
  rcases lt_or_ge (ceilParts a) 64 with hlt | hge
  · rw [tbSizeSmall_of_lt hlt] at ht
    cases ht
  · rw [tbSizeSmall_of_le hge h] at ht
    exact ⟨(tbSizeTable_octets t (List.mem_of_find?_eq_some ht)).2, hge, ht⟩

theorem codeBits_small_mono (hab : a ≤ b) (h : ceilParts b ≤ 3824) {s t : ℕ}
    (hs : codeBits r a = some s) (ht : codeBits r b = some t) : s ≤ t := by
  have hle := ceilParts_mono hab
  obtain ⟨-, h64, hs'⟩ := codeBits_small (hle.trans h) hs
  obtain ⟨-, -, ht'⟩ := codeBits_small h ht
  exact find?_le_mono tbSizeTable_ascending
    (max_le_max le_rfl (quantise_mono (by omega) hle)) hs' ht'

theorem nInfoDashLarge_spec {K : ℕ} (h : 3824 < K) :
    64 ∣ nInfoDashLarge K ∧ nInfoDashLarge K ≤ max 3840 (K - 24) := by
  have hexp : 6 ≤ expOf 0 5 (K - 24) := expOf_ge (by omega)
  unfold nInfoDashLarge
  refine ⟨?_, max_le_max le_rfl (Nat.mul_div_le _ _)⟩
  rcases max_choice 3840 (2 ^ expOf 0 5 (K - 24) * ((K - 24) / 2 ^ expOf 0 5 (K - 24))) with
    hm | hm
  · rw [hm]
    decide
  · rw [hm]
    exact (Nat.pow_dvd_pow 2 hexp).mul_right _

/-- Up to nine code blocks lose at most 64 bits. -/
theorem sub_le_codeBlockBits {x c : ℕ} (h8 : 8 ∣ x) (h1 : 1 ≤ c) (h9 : c ≤ 9) :
    x ≤ codeBlockBits x c + 64 := by
  obtain ⟨y, rfl⟩ := h8
  unfold codeBlockBits
  rw [(by omega : 8 * y + 24 = 8 * (y + 3)), Nat.mul_div_mul_left _ _ (by decide), Nat.mul_assoc]
  have hdiv := Nat.div_add_mod (y + 3) c
  have hmod := Nat.mod_lt (y + 3) (by omega : 0 < c)
  omega

theorem sub_le_codeSize {x : ℕ} (h8 : 8 ∣ x) (hlow : 3840 ≤ x) (hhigh : x ≤ 37000) :
    x ≤ codeSize r x + 64 := by
  unfold codeSize
  split
  · exact sub_le_codeBlockBits h8 (by omega) (by omega)
  · split
    · exact sub_le_codeBlockBits h8 (by omega) (by omega)
    · exact sub_le_codeBlockBits h8 (by omega) (by omega)

theorem codeSize_one {x : ℕ} (h8 : 8 ∣ x) (hlow : 3840 ≤ x) (hhigh : x ≤ 4080) :
    codeSize r x = x := by
  have hone : (x + 24) / 3816 = 1 := by omega
  unfold codeSize codeBlockBits
  rw [hone, if_neg (by omega : ¬ 8424 < x), ite_self]
  omega

/-- Above 3824 the sizes are at most `N'_info`. -/
theorem codeBits_large (h : 3824 < ceilParts a) (hlt : ceilParts a < 2 ^ 32) :
    codeBits r a = some (codeSize r (nInfoDashLarge (ceilParts a))) := by
  unfold codeBits
  rw [if_neg (by omega), tbSizeLarge_of_lt h hlt]

theorem codeSize_nInfoDash_mono (hab : a ≤ b) (ha : 3824 < ceilParts a)
    (hb : ceilParts b ≤ 37000) :
    codeSize r (nInfoDashLarge (ceilParts a)) ≤ codeSize r (nInfoDashLarge (ceilParts b)) := by
  have hle := ceilParts_mono hab
  obtain ⟨hdvd, -⟩ := nInfoDashLarge_spec ha
  obtain ⟨hdvd', hhigh⟩ := nInfoDashLarge_spec (ha.trans_le hle)
  have hlow : 3840 ≤ nInfoDashLarge (ceilParts b) := le_max_left _ _
  have hmono : nInfoDashLarge (ceilParts a) ≤ nInfoDashLarge (ceilParts b) :=
    max_le_max le_rfl (quantise_mono (by omega) (by omega))
  rcases Nat.lt_or_eq_of_le hmono with hlt | heq
  · have hcode := codeSize_le r (nInfoDashLarge (ceilParts a))
    have hloss := sub_le_codeSize (r := r) (dvd_trans (by decide) hdvd') hlow (by omega)
    omega
  · rw [heq]

end

/-! ## No size is zero -/

theorem tbSizeTable_ge : ∀ t ∈ tbSizeTable, 24 ≤ t := by decide +kernel

theorem mcsTable_lt : ∀ row ∈ mcsTable, row.1 * row.2 < 5700 := by decide

/-- The lower 16 bits of the sizes above 3824, for each unit and each multiple of it that a rounded
number has. -/
theorem codeSize_cut : ∀ e < 13, ∀ m < 64, ∀ r ∈ [0, 256],
    8 ≤ codeSize r (max 3840 (2 ^ e * m)) % 2 ^ 16 := by decide +kernel

theorem codeBits_cut {a r bits : ℕ} (hlt : ceilParts a < 2 ^ 18) (h : codeBits r a = some bits) :
    8 ≤ bits % 2 ^ 16 := by
  by_cases hsmall : ceilParts a ≤ 3824
  · obtain ⟨hle, -, hfind⟩ := codeBits_small hsmall h
    have hge := tbSizeTable_ge bits (List.mem_of_find?_eq_some hfind)
    omega
  · rw [codeBits_large (by omega) (by omega)] at h
    obtain rfl := Option.some.inj h
    -- a number has less than 64 units
    have hlog : Nat.log2 (ceilParts a - 24) < 18 := (Nat.log2_lt (by omega)).mpr (by omega)
    have hlog' : 11 ≤ Nat.log2 (ceilParts a - 24) := (Nat.le_log2 (by omega)).mpr (by omega)
    have hhigh : ceilParts a - 24 < 2 ^ (Nat.log2 (ceilParts a - 24) + 1) := Nat.lt_log2_self
    have he : expOf 0 5 (ceilParts a - 24) = Nat.log2 (ceilParts a - 24) - 5 := by
      unfold expOf
      omega
    have hm : (ceilParts a - 24) / 2 ^ expOf 0 5 (ceilParts a - 24) < 64 := by
      rw [Nat.div_lt_iff_lt_mul (by positivity), he]
      calc ceilParts a - 24
          < 2 ^ (6 + (Nat.log2 (ceilParts a - 24) - 5)) := by
            rwa [show 6 + (Nat.log2 (ceilParts a - 24) - 5) = Nat.log2 (ceilParts a - 24) + 1 by
              omega]
        _ = 64 * 2 ^ (Nat.log2 (ceilParts a - 24) - 5) := pow_add 2 6 _
    have hr : codeSize r (nInfoDashLarge (ceilParts a)) =
        codeSize (if r < 256 then 0 else 256) (nInfoDashLarge (ceilParts a)) := by
      unfold codeSize
      split <;> rfl
    rw [hr]
    exact codeSize_cut _ (by omega) _ hm _ (by split <;> decide)

/-- The size of up to 273 PRBs is at least a byte, although its upper bits are cut off. -/
theorem tbBytes_pos {mcs numSymbols numPrb size : ℕ} (hle : numPrb ≤ 273)
    (h : tbBytes mcs numSymbols numPrb = some size) : 0 < size := by
  obtain ⟨bits, hbits, rfl⟩ := Option.map_eq_some_iff.mp h
  obtain ⟨⟨qm, r⟩, hrow, -⟩ := Option.bind_eq_some_iff.mp hbits
  have hrate : qm * r < 5700 := mcsTable_lt _ (List.mem_of_getElem? hrow)
  have hparts : parts numPrb qm r numSymbols ≤ 156 * 273 * 5700 := by
    unfold parts nReDash
    rw [Nat.mul_assoc]
    exact Nat.mul_le_mul (Nat.mul_le_mul (min_le_left _ _) hle) hrate.le
  rw [schCalcTbSizeFromNPrb_parts hrow (by omega), Option.map_eq_some_iff] at hbits
  obtain ⟨full, hfull, rfl⟩ := hbits
  have hcut := codeBits_cut (by unfold ceilParts; omega) hfull
  omega

theorem estimateTbSize_pos {mcs numSymbols reqBO maxPRB est estPrb : ℕ} (hreq : 0 < reqBO)
    (hle : maxPRB ≤ 273) (h : estimateTbSize mcs numSymbols reqBO maxPRB = some (est, estPrb)) :
    0 < est := by
  obtain ⟨⟨tbs, e⟩, hloop, heq⟩ := Option.bind_eq_some_iff.mp h
  obtain ⟨rfl, rfl⟩ := Prod.mk.inj (Option.some.inj heq)
  obtain ⟨k, -, -, hk, hsize, -⟩ := estimateSizes_spec maxPRB 1 (by omega) hloop
  exact lt_min (tbBytes_pos (by omega) hsize) hreq

/-! ## What does not fit for less PRBs does not fit for more -/

section

variable {perPrb k last maxPRB hdr r s t : ℕ}

/-- A size of `k` PRBs that is too large for all of the free ones is at most that of the last number
of PRBs that is looked at. -/
theorem codeBits_le_of_not_fits (hlow : 63 * 1024 < perPrb) (hhigh : perPrb < 10 ^ 6) (hk : 1 ≤ k)
    (hlast : k < last) (hmax : last < maxPRB) (hmax' : maxPRB ≤ 273) (hhdr : hdr ≤ 32)
    (hs : codeBits r (k * perPrb) = some s) (ht : codeBits r (last * perPrb) = some t)
    (hbig : maxPRB * perPrb < 8192 * (s % 2 ^ 16 / 8 + hdr)) :
    s % 2 ^ 16 / 8 ≤ t % 2 ^ 16 / 8 := by
  have hmono : k * perPrb ≤ last * perPrb := Nat.mul_le_mul_right _ hlast.le
  have htwo : (k + 2) * perPrb ≤ maxPRB * perPrb := Nat.mul_le_mul_right _ (by omega)
  have hone : (last + 1) * perPrb ≤ maxPRB * perPrb := Nat.mul_le_mul_right _ (by omega)
  have hall : maxPRB * perPrb ≤ 273 * perPrb := Nat.mul_le_mul_right _ hmax'
  rw [Nat.add_mul] at htwo hone
  have hk' : perPrb ≤ k * perPrb := Nat.le_mul_of_pos_left _ hk
  generalize hA : k * perPrb = A at *
  generalize hB : last * perPrb = B at *
  have hAc : ceilParts A = (A + 1023) / 1024 := rfl
  have hBc : ceilParts B = (B + 1023) / 1024 := rfl
  by_cases hsmall : ceilParts B ≤ 3824
  · have hle := codeBits_small_mono hmono hsmall hs ht
    have := (codeBits_small hsmall ht).1
    omega
  · rw [codeBits_large (by omega) (by omega)] at ht
    obtain rfl := Option.some.inj ht
    have hcode := codeSize_le r (nInfoDashLarge (ceilParts B))
    obtain ⟨hdvd, hx⟩ := nInfoDashLarge_spec (by omega : 3824 < ceilParts B)
    have hlow' : 3840 ≤ nInfoDashLarge (ceilParts B) := le_max_left _ _
    by_cases hsmall' : ceilParts A ≤ 3824
    · -- all of the PRBs carry less than 510 bytes
      have hle := (codeBits_small hsmall' hs).1
      have hone' := codeSize_one (r := r) (dvd_trans (by decide) hdvd) hlow' (by omega)
      omega
    · rw [codeBits_large (by omega) (by omega)] at hs
      obtain rfl := Option.some.inj hs
      have hcode' := codeSize_le r (nInfoDashLarge (ceilParts A))
      have hx' := (nInfoDashLarge_spec (by omega : 3824 < ceilParts A)).2
      have hle := codeSize_nInfoDash_mono (r := r) hmono (by omega) (by omega)
      omega

end

/-!
## Whether the estimated size fits into the free PRBs

The size is estimated for the largest run of free PRBs, and the PRBs for it are counted again and
taken from the start of that run.
-/

/-! ## The run that is searched -/

section

variable {reserved : Option Reserved} {numRb : ℕ}

/-- The `n` PRBs from `lo` on are in a block of the list. -/
def InBlock (freePrbBlockList : List FreePrbBlock) (lo n : ℕ) : Prop :=
  ∃ b ∈ freePrbBlockList, b.startPrb ≤ lo ∧ lo + n ≤ b.endPrb + 1

theorem searchStep_inBlock {best : ℕ × ℕ} {b : FreePrbBlock}
    (hcount : b.numFreePrb = b.endPrb - b.startPrb + 1) (hle : b.startPrb ≤ b.endPrb) :
    searchStep reserved best b = best ∨
      (b.startPrb ≤ (searchStep reserved best b).2 ∧
        (searchStep reserved best b).2 + (searchStep reserved best b).1 ≤ b.endPrb + 1) := by
  unfold searchStep
  split
  · exact .inl rfl
  · split
    · rename_i r hr
      have hin := (Option.filter_eq_some_iff.mp hr).2
      rw [Bool.and_eq_true, FreePrbBlock.has_iff, FreePrbBlock.has_iff] at hin
      by_cases habove : r.endPrb < b.endPrb ∧ best.1 < b.endPrb - r.endPrb
      · rw [if_pos habove]
        dsimp only
        split
        · exact .inr ⟨le_rfl, by dsimp only; omega⟩
        · exact .inr ⟨by dsimp only; omega, by dsimp only; omega⟩
      · rw [if_neg habove]
        dsimp only
        split
        · exact .inr ⟨le_rfl, by dsimp only; omega⟩
        · exact .inl rfl
    · exact .inr ⟨le_rfl, by dsimp only; omega⟩

theorem foldl_searchStep_inBlock : ∀ (bs : List FreePrbBlock) (best : ℕ × ℕ),
    (∀ b ∈ bs, b.numFreePrb = b.endPrb - b.startPrb + 1 ∧ b.startPrb ≤ b.endPrb) →
    bs.foldl (searchStep reserved) best = best ∨
      InBlock bs (bs.foldl (searchStep reserved) best).2 (bs.foldl (searchStep reserved) best).1
  | [], best, _ => .inl rfl
  | b :: bs, best, hok => by
      obtain ⟨hcount, hle⟩ := hok b List.mem_cons_self
      rw [List.foldl_cons]
      rcases foldl_searchStep_inBlock bs (searchStep reserved best b)
        fun b' hb' => hok b' (List.mem_cons_of_mem _ hb') with heq | ⟨b', hb', hin⟩
      · rw [heq]
        exact (searchStep_inBlock hcount hle).imp_right fun hin => ⟨b, List.mem_cons_self, hin⟩
      · exact .inr ⟨b', List.mem_cons_of_mem _ hb', hin⟩

/-- The PRBs that the search finds are free. -/
theorem searchLargestFreeBlock_free {freePrbBlockList : List FreePrbBlock}
    (h : FreeListOk numRb freePrbBlockList) {maxPRB startPrb : ℕ}
    (hsearch : searchLargestFreeBlock reserved freePrbBlockList = (maxPRB, startPrb)) :
    ∀ p, startPrb ≤ p → p < startPrb + maxPRB → IsFree freePrbBlockList p := by
  intro p hp hlt
  unfold searchLargestFreeBlock at hsearch
  have hfold := @foldl_searchStep_inBlock reserved freePrbBlockList (0, 0)
    fun b hb => ⟨h.numFreePrb b hb, h.le hb⟩
  rw [hsearch] at hfold
  rcases hfold with heq | ⟨b, hb, h1, h2⟩
  · cases heq
    omega
  · exact isFree_iff.mpr ⟨b, hb, h1.trans hp, by omega⟩

theorem searchLargestFreeBlock_le {freePrbBlockList : List FreePrbBlock}
    (h : FreeListOk numRb freePrbBlockList) :
    (searchLargestFreeBlock reserved freePrbBlockList).1 ≤ numRb := by
  rcases hsearch : searchLargestFreeBlock reserved freePrbBlockList with ⟨maxPRB, startPrb⟩
  by_contra hlt
  have hfree := searchLargestFreeBlock_free h hsearch (startPrb + numRb) (by omega) (by omega)
  have hbound := hfree.lt h
  omega

end

/-! ## The size of the last number of PRBs -/

/-- The most PRBs that the loop of `calculateEstimateTBSize` looks at. -/
def lastPrb (maxPRB : ℕ) : ℕ := max 1 (maxPRB - 1)

section

variable {mcs numSymbols qm r : ℕ} (hmcs : mcs ≤ 28) (hrow : mcsTable[mcs]? = some (qm, r))
  (h2 : 2 ≤ numSymbols) (h14 : numSymbols ≤ 14)

theorem parts_eq (numPrb : ℕ) :
    parts numPrb qm r numSymbols = numPrb * (reOfPrb numSymbols * (qm * r)) := by
  unfold parts nReDash reOfPrb
  ring

include hmcs hrow h2 in
theorem perPrb_lt : reOfPrb numSymbols * (qm * r) < 10 ^ 6 := by
  obtain ⟨-, hhigh, -⟩ := row_bounds hmcs hrow
  obtain ⟨-, hre', -⟩ := reOfPrb_bounds h2
  have := Nat.mul_le_mul hre' hhigh.le
  omega

include hmcs hrow h2 in
theorem tbBytes_eq {numPrb : ℕ} (h1 : 1 ≤ numPrb) (hle : numPrb ≤ 273) :
    tbBytes mcs numSymbols numPrb =
      (codeBits r (numPrb * (reOfPrb numSymbols * (qm * r)))).map (· % 2 ^ 16 / 8) := by
  have hlt := (parts_bounds hmcs hrow h2 h1 hle).2
  unfold tbBytes
  rw [schCalcTbSizeFromNPrb_parts hrow hlt, ← parts_eq, Option.map_map]
  rfl

include hmcs hrow h2 in
/-- If the size of one PRB is defined, all are. -/
theorem tbBytes_isSome {t : ℕ} (h : tbBytes mcs numSymbols 1 = some t) :
    63 * 1024 < reOfPrb numSymbols * (qm * r) ∧
      ∀ numPrb, 1 ≤ numPrb → numPrb ≤ 273 → ∃ t, tbBytes mcs numSymbols numPrb = some t := by
  rw [tbBytes_eq hmcs hrow h2 le_rfl (by decide), Option.map_eq_some_iff, Nat.one_mul] at h
  obtain ⟨bits, hbits, -⟩ := h
  have hlt := perPrb_lt hmcs hrow h2
  have hper : 63 * 1024 < reOfPrb numSymbols * (qm * r) := by
    by_cases hsmall : ceilParts (reOfPrb numSymbols * (qm * r)) ≤ 3824
    · have h64 := (codeBits_small hsmall hbits).2.1
      unfold ceilParts at h64
      omega
    · unfold ceilParts at hsmall
      omega
  refine ⟨hper, fun numPrb h1 hle => ?_⟩
  rw [tbBytes_eq hmcs hrow h2 h1 hle]
  have hge : reOfPrb numSymbols * (qm * r) ≤ numPrb * (reOfPrb numSymbols * (qm * r)) :=
    Nat.le_mul_of_pos_left _ h1
  have hle' : numPrb * (reOfPrb numSymbols * (qm * r)) ≤ 273 * (reOfPrb numSymbols * (qm * r)) :=
    Nat.mul_le_mul_right _ hle
  generalize numPrb * (reOfPrb numSymbols * (qm * r)) = a at hge hle' ⊢
  have ha : 64 ≤ ceilParts a ∧ ceilParts a < 2 ^ 32 := by
    unfold ceilParts
    omega
  by_cases hsmall : ceilParts a ≤ 3824
  · have hq := Nat.mul_div_le (ceilParts a) (2 ^ expOf 3 6 (ceilParts a))
    obtain ⟨t, ht⟩ := find?_tbSizeTable (max_le (by decide : 24 ≤ 3824) (hq.trans hsmall))
    refine ⟨t % 2 ^ 16 / 8, ?_⟩
    unfold codeBits
    rw [if_pos hsmall, tbSizeSmall_of_le ha.1 hsmall, ht]
    rfl
  · rw [codeBits_large (by omega) ha.2]
    exact ⟨_, rfl⟩

theorem carries_min_iff {numPrb hdr : ℕ} (m n : ℕ) :
    Carries qm r numSymbols numPrb (min m n + hdr) ↔
      Carries qm r numSymbols numPrb (m + hdr) ∨ Carries qm r numSymbols numPrb (n + hdr) := by
  unfold Carries
  rw [← min_le_iff]
  omega

include hmcs hrow h2 in
/-- The estimate fits exactly if what is asked for does or the last size. -/
theorem estimate_carries_iff {reqBO maxPRB est estPrb hdr : ℕ} (h1 : 1 ≤ maxPRB)
    (hle : maxPRB ≤ 273) (hhdr : hdr ≤ 32)
    (hest : estimateTbSize mcs numSymbols reqBO maxPRB = some (est, estPrb)) :
    ∃ size, tbBytes mcs numSymbols (lastPrb maxPRB) = some size ∧
      (Carries qm r numSymbols maxPRB (est + hdr) ↔
        Carries qm r numSymbols maxPRB (reqBO + hdr) ∨
          Carries qm r numSymbols maxPRB (size + hdr)) := by
  obtain ⟨⟨tbs, e⟩, hloop, heq⟩ := Option.bind_eq_some_iff.mp hest
  obtain ⟨rfl, rfl⟩ := Prod.mk.inj (Option.some.inj heq)
  obtain ⟨k, hk, -, hklast, hsize, hstop, t, ht⟩ :=
    estimateSizes_spec maxPRB 1 (by omega) hloop
  obtain ⟨hper, hall⟩ := tbBytes_isSome hmcs hrow h2 ht
  have hlast : 1 ≤ lastPrb maxPRB ∧ lastPrb maxPRB ≤ 273 := by
    unfold lastPrb
    omega
  obtain ⟨size, hlastSize⟩ := hall _ hlast.1 hlast.2
  refine ⟨size, hlastSize, ?_⟩
  rw [carries_min_iff, or_comm]
  have hklast' : k ≤ lastPrb maxPRB := hklast
  rcases Nat.lt_or_eq_of_le hklast' with hlt | heq
  · -- the loop stopped before the last number of PRBs
    have hreq : reqBO ≤ tbs := by
      unfold lastPrb at hlt
      omega
    have hmax : lastPrb maxPRB < maxPRB := by
      unfold lastPrb at hlt ⊢
      omega
    have hle_req : Carries qm r numSymbols maxPRB (tbs + hdr) →
        Carries qm r numSymbols maxPRB (reqBO + hdr) := by
      unfold Carries
      omega
    constructor
    · rintro (h | h)
      · exact .inl h
      · exact .inl (hle_req h)
    · rintro (h | h)
      · exact .inl h
      · right
        by_contra hnot
        rw [tbBytes_eq hmcs hrow h2 hk (by omega), Option.map_eq_some_iff] at hsize
        rw [tbBytes_eq hmcs hrow h2 hlast.1 hlast.2, Option.map_eq_some_iff] at hlastSize
        obtain ⟨s, hs, rfl⟩ := hsize
        obtain ⟨t', ht', rfl⟩ := hlastSize
        rw [carries_iff, Nat.mul_assoc, not_le] at hnot
        have hmono := codeBits_le_of_not_fits hper (perPrb_lt hmcs hrow h2) hk hlt hmax hle hhdr
          hs ht' hnot
        rw [carries_iff, Nat.mul_assoc] at h
        omega
  · rw [heq, hlastSize] at hsize
    obtain rfl := Option.some.inj hsize
    rfl

end

/-! ## The allocation at the start of the run -/

/-- The PRBs for the transport block are at most the free ones, and are granted from `startPrb`
on. -/
def FitsFree (cell : OccasionCfg) (slotTime : SlotTimingInfo) (prbAlloc : SchPrbAlloc)
    (startSymbol symbolLength maxPRB startPrb tbSize mcs numSymbols : ℕ) : Prop :=
  ∃ numPrb rsp, schCalcNumPrb tbSize mcs numSymbols = some numPrb ∧ numPrb ≤ maxPRB ∧
    allocatePrbDl cell slotTime ⟨startSymbol, symbolLength, startPrb, numPrb⟩ prbAlloc = some rsp ∧
      rsp.ok = true

section

variable {mcs numSymbols qm r : ℕ}

/-- With a known number of PRBs, the block fits if it is at most the free ones and is found. -/
theorem fitsFree_iff_of_some {cell : OccasionCfg} {slotTime : SlotTimingInfo}
    {prbAlloc : SchPrbAlloc} {grants : List PrbGrant}
    {startSymbol symbolLength maxPRB startPrb tbSize numPrb : ℕ}
    (hinv : prbAlloc.Inv cell.duplex.maxNumRb grants)
    (hfree : ∀ p, startPrb ≤ p → p < startPrb + maxPRB → IsFree prbAlloc.freePrbBlockList p)
    (hnum : schCalcNumPrb tbSize mcs numSymbols = some numPrb) (hpos : 0 < numPrb) :
    FitsFree cell slotTime prbAlloc startSymbol symbolLength maxPRB startPrb tbSize mcs numSymbols ↔
      numPrb ≤ maxPRB ∧
        ∀ b ∈ prbAlloc.freePrbBlockList, startPrb < b.startPrb → numPrb ≤ b.numFreePrb := by
  unfold FitsFree
  rw [hnum]
  simp only [Option.some_inj, exists_eq_left', exists_and_left]
  refine and_congr_right fun hle => ?_
  obtain ⟨_, _, _, -, -, -, hok, hloops⟩ := @allocatePrb_known _
    (cell.reservedDl slotTime) ⟨startSymbol, symbolLength, startPrb, numPrb⟩ _ _
    hinv hpos fun p hp hlt => hfree p hp (hlt.trans_le (Nat.add_le_add_left hle _))
  constructor
  · rintro ⟨rsp, hrsp, -⟩
    by_contra hnot
    rw [allocatePrbDl, hloops hnot] at hrsp
    cases hrsp
  · intro hreaches
    obtain ⟨prbAlloc', halloc, -⟩ := hok hreaches
    exact ⟨_, halloc, rfl⟩

/-- The size that was estimated fits with a header if what is asked for or the last size does, and
the block is found if no free block above it is too small. -/
theorem fitsFree_iff (hmcs : mcs ≤ 28) (hrow : mcsTable[mcs]? = some (qm, r))
    (h2 : 2 ≤ numSymbols) (h14 : numSymbols ≤ 14) {cell : OccasionCfg} {slotTime : SlotTimingInfo}
    {prbAlloc : SchPrbAlloc} {grants : List PrbGrant} {reserved : Option Reserved}
    {startSymbol symbolLength maxPRB startPrb reqBO hdr est estPrb : ℕ}
    (hinv : prbAlloc.Inv cell.duplex.maxNumRb grants)
    (hsearch : searchLargestFreeBlock reserved prbAlloc.freePrbBlockList = (maxPRB, startPrb))
    (h1 : 1 ≤ maxPRB) (hhdr : hdr ≤ 32) (hpos : 0 < est + hdr)
    (hest : estimateTbSize mcs numSymbols reqBO maxPRB = some (est, estPrb)) :
    NumPrbRight (est + hdr) mcs numSymbols ∧
        FitsFree cell slotTime prbAlloc startSymbol symbolLength maxPRB startPrb (est + hdr) mcs
          numSymbols ↔
      est + hdr < 8192 ∧
        (Carries qm r numSymbols maxPRB (reqBO + hdr) ∨
          ∃ size, tbBytes mcs numSymbols (lastPrb maxPRB) = some size ∧
            Carries qm r numSymbols maxPRB (size + hdr)) ∧
        ∀ b ∈ prbAlloc.freePrbBlockList, startPrb < b.startPrb →
          Carries qm r numSymbols b.numFreePrb (est + hdr) := by
  have hfree := searchLargestFreeBlock_free hinv.freeList hsearch
  have hmax : maxPRB ≤ 273 := by
    have hlast := (hfree (startPrb + maxPRB - 1) (by omega) (by omega)).lt hinv.freeList
    have hrb : cell.duplex.maxNumRb ≤ 273 := by cases cell.duplex <;> decide
    omega
  obtain ⟨size, hsize, hcarries⟩ := estimate_carries_iff hmcs hrow h2 h1 hmax hhdr hest
  obtain ⟨hlow, -, -⟩ := row_bounds hmcs hrow
  obtain ⟨-, hre', -⟩ := reOfPrb_bounds h2
  rw [numPrbRight_iff hmcs hrow h2 h14]
  rcases lt_or_ge (est + hdr) 8192 with hlt | hge
  · have hmod := Nat.mod_eq_of_lt hlt
    -- the PRBs are at most `x` exactly if `x` PRBs carry the block
    have hspec := @schCalcNumPrb_spec (est + hdr) _ _ _ _ hmcs hrow h2 h14
    rw [hmod] at hspec
    have hright : (Carries qm r numSymbols maxPRB (reqBO + hdr) ∨
        ∃ size, tbBytes mcs numSymbols (lastPrb maxPRB) = some size ∧
          Carries qm r numSymbols maxPRB (size + hdr)) ↔
        Carries qm r numSymbols maxPRB (est + hdr) := by
      rw [hcarries, hsize]
      simp only [Option.some_inj, exists_eq_left']
    rw [hright, and_iff_right hlt, and_iff_right hlt]
    rcases hspec with ⟨hle, numPrb, hnum, hiff⟩ | ⟨hgt, hnone⟩
    · have hcarry : ∀ x, Carries qm r numSymbols x (est + hdr) ↔ numPrb ≤ x := fun x => by
        rw [carries_iff, hiff]
      have hnum_pos : 0 < numPrb := by
        by_contra hzero
        have := (hiff 0).mp (by omega)
        rw [Nat.zero_mul, Nat.zero_mul] at this
        omega
      rw [and_iff_right hle, fitsFree_iff_of_some hinv hfree hnum hnum_pos]
      simp only [hcarry]
    · refine iff_of_false ?_ ?_
      · rintro ⟨-, numPrb, rsp, hnum, -⟩
        rw [hnone] at hnum
        cases hnum
      · rintro ⟨hfit, -⟩
        rw [carries_iff] at hfit
        have hmul : maxPRB * reOfPrb numSymbols * (qm * r) ≤ 273 * 156 * (qm * r) :=
          Nat.mul_le_mul_right _ (Nat.mul_le_mul hmax hre')
        omega
  · exact iff_of_false (fun h => absurd h.1.1 (by omega)) fun h => absurd h.1 (by omega)

end

/-! ## The result -/

end OaiCu.OduSch
