import OaiCu.OduSch.PrbBits
import Mathlib.Data.List.GetD

/-!
# The words of a PRB bitmap

`fillPrbBitmap` on the array of PRB_BITMAP_MAX_IDX words that it is given, with the copy from which it
restores them. `none` stands for an access outside of the array and for a shift by all the bits of a
word. Inside of the array it does what it does on a bitmap without an end.
-/

namespace OaiCu.OduSch.PrbWords

/-- PRB_BITMAP_MAX_IDX. -/
def prbBitmapMaxIdx (duplex : Duplex) : ℕ :=
  (duplex.maxNumRb + PRB_BITMAP_IDX_LEN - 1) / PRB_BITMAP_IDX_LEN

/-- MASK_BIT64_ON >> n. -/
def maskShiftRight (n : ℕ) : Option (BitVec 64) :=
  if n < PRB_BITMAP_IDX_LEN then some (BitVec.allOnes 64 >>> n) else none

/-- The loop over the whole words, and the PRBs that are left after it: ROK or not, and the words. -/
def fillRest (bitmapBackup : List (BitVec 64)) :
    ℕ → List (BitVec 64) → ℕ → ℕ → Option (Bool × List (BitVec 64))
  | 0, _, _, _ => none
  | fuel + 1, prbBitMap, bitMapIdx, numPrb =>
    if PRB_BITMAP_IDX_LEN < numPrb then do
      let word ← prbBitMap[bitMapIdx]?
      if word ≠ 0 then return (false, bitmapBackup)
      else
        fillRest bitmapBackup fuel (prbBitMap.set bitMapIdx (BitVec.allOnes 64)) (bitMapIdx + 1)
          (numPrb - PRB_BITMAP_IDX_LEN)
    else if numPrb = 0 then return (true, prbBitMap)
    else do
      let mask ← maskShiftRight (PRB_BITMAP_IDX_LEN - numPrb)
      let word ← prbBitMap[bitMapIdx]?
      if word &&& mask = 0 then return (true, prbBitMap.set bitMapIdx (word ||| mask))
      else return (false, bitmapBackup)

def fillPrbBitmap (prbBitMap : List (BitVec 64)) (startPrb numPrb : ℕ) :
    Option (Bool × List (BitVec 64)) := do
  let bitmapBackup := prbBitMap
  let bitMapIdx := startPrb / PRB_BITMAP_IDX_LEN
  let offsetInFirstIdx := startPrb % PRB_BITMAP_IDX_LEN
  let numBitsToSetInFirstIdx :=
    if PRB_BITMAP_IDX_LEN - offsetInFirstIdx ≤ numPrb then PRB_BITMAP_IDX_LEN - offsetInFirstIdx
    else numPrb
  let mask ← maskShiftRight (PRB_BITMAP_IDX_LEN - numBitsToSetInFirstIdx)
  let mask := mask <<< offsetInFirstIdx
  let word ← prbBitMap[bitMapIdx]?
  if word &&& mask = 0 then
    fillRest bitmapBackup (numPrb + 1) (prbBitMap.set bitMapIdx (word ||| mask)) (bitMapIdx + 1)
      (numPrb - numBitsToSetInFirstIdx)
  else return (false, prbBitMap)

/-! ## The bitmap without an end -/

/-- The words, and zeros behind them. -/
def extended (prbBitMap : List (BitVec 64)) : ℕ → BitVec 64 := fun i => prbBitMap.getD i 0

variable {words backup : List (BitVec 64)} {i n startPrb numPrb : ℕ} {word : BitVec 64}

theorem getElem?_eq (h : i < words.length) : words[i]? = some (extended words i) := by
  rw [extended, List.getD_eq_getElem _ _ h, List.getElem?_eq_getElem h]

theorem extended_set (h : i < words.length) :
    extended (words.set i word) = Function.update (extended words) i word := by
  funext j
  rw [extended, List.getD_eq_getElem?_getD, List.getElem?_set]
  by_cases hj : i = j
  · subst hj
    rw [if_pos rfl, if_pos h, Function.update_self, Option.getD_some]
  · rw [if_neg hj, Function.update_of_ne (Ne.symm hj), extended, List.getD_eq_getElem?_getD]

theorem maskShiftRight_eq (hpos : 0 < n) (hle : n ≤ PRB_BITMAP_IDX_LEN) :
    maskShiftRight (PRB_BITMAP_IDX_LEN - n) =
      some (BitVec.allOnes 64 >>> (PRB_BITMAP_IDX_LEN - n)) :=
  if_pos (Nat.sub_lt_self hpos hle)

theorem prbMask_zero : prbMask 0 n = BitVec.allOnes 64 >>> (PRB_BITMAP_IDX_LEN - n) :=
  BitVec.shiftLeft_zero _

/-- A call on words that gives what it gives on the bitmap without an end, or restores the words. -/
def Simulates (backup : List (BitVec 64)) (len : ℕ) (result : Option (Bool × List (BitVec 64))) :
    Option (ℕ → BitVec 64) → Prop
  | some prbBitMap => ∃ words, result = some (true, words) ∧ extended words = prbBitMap ∧
      words.length = len
  | none => result = some (false, backup)

/-- The words behind the first one. -/
theorem fillRest_simulates : ∀ {fuel i n : ℕ} {words : List (BitVec 64)}, n ≤ fuel →
    n ≤ PRB_BITMAP_IDX_LEN * (words.length - i) →
    Simulates backup words.length (fillRest backup (fuel + 1) words i n)
      (fillWords fuel i n (extended words))
  | 0, i, n, words, hn, _ => by
      obtain rfl : n = 0 := Nat.le_zero.mp hn
      exact ⟨words, rfl, rfl, rfl⟩
  | fuel + 1, i, n, words, hn, hin => by
      rw [fillRest, fillWords]
      by_cases hwhole : PRB_BITMAP_IDX_LEN < n
      · have hi : i < words.length := by
          rw [PRB_BITMAP_IDX_LEN] at *
          omega
        rw [if_pos hwhole, if_pos hwhole, getElem?_eq hi]
        simp only [Option.bind_eq_bind, Option.bind_some]
        by_cases hzero : extended words i ≠ 0
        · rw [if_pos hzero, if_pos hzero]
          rfl
        · have hrest : n - PRB_BITMAP_IDX_LEN ≤ PRB_BITMAP_IDX_LEN *
              ((words.set i (BitVec.allOnes 64)).length - (i + 1)) := by
            rw [List.length_set]
            rw [PRB_BITMAP_IDX_LEN] at *
            omega
          have hfuel : n - PRB_BITMAP_IDX_LEN ≤ fuel := by
            rw [PRB_BITMAP_IDX_LEN] at *
            omega
          have hrec := fillRest_simulates hfuel hrest
          rw [extended_set hi, List.length_set] at hrec
          rw [if_neg hzero, if_neg hzero]
          exact hrec
      · rw [if_neg hwhole, if_neg hwhole]
        by_cases hn0 : n = 0
        · rw [if_pos hn0, if_pos hn0]
          exact ⟨words, rfl, rfl, rfl⟩
        · have hi : i < words.length := by
            rw [PRB_BITMAP_IDX_LEN] at *
            omega
          rw [if_neg hn0, if_neg hn0, getElem?_eq hi,
            maskShiftRight_eq (Nat.pos_of_ne_zero hn0) (Nat.le_of_not_lt hwhole), ← prbMask_zero]
          simp only [Option.bind_eq_bind, Option.bind_some]
          split
          · exact ⟨_, rfl, extended_set hi, List.length_set⟩
          · rfl

theorem fillPrbBitmap_simulates (hpos : 0 < numPrb)
    (hin : startPrb + numPrb ≤ PRB_BITMAP_IDX_LEN * words.length) :
    Simulates words words.length (fillPrbBitmap words startPrb numPrb)
      (OduSch.fillPrbBitmap (extended words) startPrb numPrb) := by
  have hoff : startPrb % PRB_BITMAP_IDX_LEN < PRB_BITMAP_IDX_LEN := Nat.mod_lt _ (by decide)
  have hstart : PRB_BITMAP_IDX_LEN * (startPrb / PRB_BITMAP_IDX_LEN) +
      startPrb % PRB_BITMAP_IDX_LEN = startPrb := Nat.div_add_mod _ _
  rw [fillPrbBitmap, OduSch.fillPrbBitmap]
  generalize startPrb / PRB_BITMAP_IDX_LEN = k at *
  generalize startPrb % PRB_BITMAP_IDX_LEN = offset at *
  simp only
  generalize hfirst : (if PRB_BITMAP_IDX_LEN - offset ≤ numPrb then PRB_BITMAP_IDX_LEN - offset
    else numPrb) = first
  have hbounds : 0 < first ∧ first ≤ PRB_BITMAP_IDX_LEN ∧ k < words.length ∧
      numPrb - first ≤ PRB_BITMAP_IDX_LEN * (words.length - (k + 1)) := by
    rw [PRB_BITMAP_IDX_LEN] at *
    split at hfirst <;> omega
  obtain ⟨h0, hle, hk, hrest⟩ := hbounds
  rw [maskShiftRight_eq h0 hle, getElem?_eq hk]
  simp only [Option.bind_eq_bind, Option.bind_some]
  change Simulates _ _ (if extended words k &&& prbMask offset first = 0 then _ else _) _
  by_cases hzero : extended words k &&& prbMask offset first = 0
  · rw [if_pos hzero, if_pos hzero]
    have hrest' : numPrb - first ≤ PRB_BITMAP_IDX_LEN *
        ((words.set k (extended words k ||| prbMask offset first)).length - (k + 1)) := by
      rw [List.length_set]
      exact hrest
    have hrec := @fillRest_simulates words numPrb _ _ _ (Nat.sub_le numPrb first) hrest'
    rw [extended_set hk, List.length_set] at hrec
    exact hrec
  · rw [if_neg hzero, if_neg hzero]
    rfl

/-! ## What a call does -/

/-- The bit of a PRB. -/
def prbSet (words : List (BitVec 64)) (prb : ℕ) : Bool :=
  (words.getD (prb / PRB_BITMAP_IDX_LEN) 0).getLsbD (prb % PRB_BITMAP_IDX_LEN)

/-- **`fillPrbBitmap` is exact and atomic.** It sets the PRBs that are asked for and no others if all of
them are clear, and else it fails and leaves the words as they were. -/
theorem fillPrbBitmap_exact (duplex : Duplex) (words : List (BitVec 64)) (startPrb numPrb : ℕ)
    (hlen : words.length = prbBitmapMaxIdx duplex) (hpos : 1 ≤ numPrb)
    (hmax : startPrb + numPrb ≤ duplex.maxNumRb) :
    ∃ ok words', fillPrbBitmap words startPrb numPrb = some (ok, words') ∧
      words'.length = words.length ∧
      (ok = true ↔ ∀ p, startPrb ≤ p → p < startPrb + numPrb → prbSet words p = false) ∧
      (ok = true → ∀ p, prbSet words' p =
        (prbSet words p || decide (startPrb ≤ p ∧ p < startPrb + numPrb))) ∧
      (ok = false → words' = words) := by
  have hin : startPrb + numPrb ≤ PRB_BITMAP_IDX_LEN * words.length := by
    rw [hlen, prbBitmapMaxIdx]
    rw [PRB_BITMAP_IDX_LEN]
    omega
  have hsim := fillPrbBitmap_simulates hpos hin
  have hspec := @fillPrbBitmap_spec startPrb numPrb (extended words)
  by_cases hclear : Clear (extended words) startPrb numPrb
  · obtain ⟨prbBitMap', heq, hfilled⟩ := hspec.1 hclear
    rw [heq] at hsim
    obtain ⟨words', hok, rfl, hlen'⟩ := hsim
    exact ⟨true, words', hok, hlen', iff_of_true rfl hclear, fun _ => hfilled,
      Bool.noConfusion⟩
  · rw [hspec.2 hclear] at hsim
    exact ⟨false, words, hsim, rfl, iff_of_false Bool.noConfusion hclear,
      Bool.noConfusion, fun _ => rfl⟩

/-- Three PRBs across a word boundary of a bitmap of 273 PRBs, of which one is in use. -/
theorem fillPrbBitmap_exact_63 : ∃ ok words',
    fillPrbBitmap [0, 2, 0, 0, 0] 63 3 = some (ok, words') ∧ words'.length = 5 ∧
      (ok = true ↔ ∀ p, 63 ≤ p → p < 63 + 3 → prbSet [0, 2, 0, 0, 0] p = false) ∧
      (ok = true → ∀ p, prbSet words' p =
        (prbSet [0, 2, 0, 0, 0] p || decide (63 ≤ p ∧ p < 63 + 3))) ∧
      (ok = false → words' = [0, 2, 0, 0, 0]) :=
  fillPrbBitmap_exact .tdd [0, 2, 0, 0, 0] 63 3 (by decide) (by decide) (by decide)

example : fillPrbBitmap [1, 0] 1 70 = some (true, [BitVec.allOnes 64, 0x7f#64]) := by decide

end OaiCu.OduSch.PrbWords
