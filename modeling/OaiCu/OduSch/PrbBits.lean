import OaiCu.OduSch.Prb

/-!
# The PRB bitmaps

`fillPrbBitmap` works on words. Bit by bit, it sets the PRBs that are asked for if none of them
is set, and else nothing.
-/

namespace OaiCu.OduSch

/-- The bit of a PRB. -/
def prbBit (prbBitMap : ℕ → BitVec 64) (prb : ℕ) : Bool :=
  (prbBitMap (prb / PRB_BITMAP_IDX_LEN)).getLsbD (prb % PRB_BITMAP_IDX_LEN)

/-- None of the `n` PRBs from `lo` on is set. -/
def Clear (prbBitMap : ℕ → BitVec 64) (lo n : ℕ) : Prop :=
  ∀ p, lo ≤ p → p < lo + n → prbBit prbBitMap p = false

/-- The `n` PRBs from `lo` on are set, and the others are as before. -/
def Filled (prbBitMap prbBitMap' : ℕ → BitVec 64) (lo n : ℕ) : Prop :=
  ∀ p, prbBit prbBitMap' p = (prbBit prbBitMap p || decide (lo ≤ p ∧ p < lo + n))

variable {prbBitMap prbBitMap' prbBitMap'' : ℕ → BitVec 64} {lo n m : ℕ}

theorem Filled.trans (h : Filled prbBitMap prbBitMap' lo n)
    (h' : Filled prbBitMap' prbBitMap'' (lo + n) m) : Filled prbBitMap prbBitMap'' lo (n + m) := by
  intro p
  rw [h' p, h p, Bool.or_assoc, ← Bool.decide_or]
  congr 1
  rw [decide_eq_decide]
  omega

theorem clear_append : Clear prbBitMap lo (n + m) ↔ Clear prbBitMap lo n ∧ Clear prbBitMap (lo + n) m := by
  constructor
  · exact fun h => ⟨fun p h1 h2 => h p h1 (by omega), fun p h1 h2 => h p (by omega) (by omega)⟩
  · rintro ⟨h, h'⟩ p h1 h2
    by_cases hp : p < lo + n
    · exact h p h1 hp
    · exact h' p (by omega) (by omega)

/-- Setting PRBs leaves those behind them as they were. -/
theorem Filled.clear_iff (h : Filled prbBitMap prbBitMap' lo n) :
    Clear prbBitMap' (lo + n) m ↔ Clear prbBitMap (lo + n) m := by
  refine forall_congr' fun p => forall_congr' fun h1 => forall_congr' fun h2 => ?_
  rw [h p, decide_eq_false (by omega), Bool.or_false]

/-! ## One word -/

theorem prbMask_getLsbD {offset n i : ℕ} (h : offset + n ≤ PRB_BITMAP_IDX_LEN)
    (hi : i < PRB_BITMAP_IDX_LEN) :
    (prbMask offset n).getLsbD i = decide (offset ≤ i ∧ i < offset + n) := by
  rw [PRB_BITMAP_IDX_LEN] at h hi
  rw [prbMask, BitVec.getLsbD_shiftLeft, BitVec.getLsbD_ushiftRight, BitVec.getLsbD_allOnes,
    PRB_BITMAP_IDX_LEN, decide_eq_true hi, Bool.true_and, ← decide_not, ← Bool.decide_and,
    decide_eq_decide]
  omega

theorem and_mask_eq_zero_iff {offset n : ℕ} (h : offset + n ≤ PRB_BITMAP_IDX_LEN)
    (word : BitVec 64) : word &&& prbMask offset n = 0 ↔
      ∀ i, offset ≤ i → i < offset + n → word.getLsbD i = false := by
  rw [BitVec.eq_of_getLsbD_eq_iff]
  constructor
  · intro hz i h1 h2
    have hi : i < PRB_BITMAP_IDX_LEN := by omega
    have := hz i hi
    rw [BitVec.getLsbD_and, prbMask_getLsbD h hi, decide_eq_true ⟨h1, h2⟩, Bool.and_true] at this
    rw [this]
    exact BitVec.getLsbD_zero
  · intro hz i hi
    rw [BitVec.getLsbD_and, prbMask_getLsbD h hi]
    by_cases hin : offset ≤ i ∧ i < offset + n
    · rw [hz i hin.1 hin.2, Bool.false_and]
      exact BitVec.getLsbD_zero.symm
    · rw [decide_eq_false hin, Bool.and_false]
      exact BitVec.getLsbD_zero.symm

/-- The position of a PRB in the words. -/
theorem prb_in_word {k offset n p : ℕ} (h : offset + n ≤ PRB_BITMAP_IDX_LEN) :
    PRB_BITMAP_IDX_LEN * k + offset ≤ p ∧ p < PRB_BITMAP_IDX_LEN * k + offset + n ↔
      p / PRB_BITMAP_IDX_LEN = k ∧ offset ≤ p % PRB_BITMAP_IDX_LEN ∧
        p % PRB_BITMAP_IDX_LEN < offset + n := by
  rw [PRB_BITMAP_IDX_LEN] at *
  omega

/-- A part of one word is looked at and set. -/
theorem word_spec {offset n : ℕ} (h : offset + n ≤ PRB_BITMAP_IDX_LEN) (k : ℕ)
    (prbBitMap : ℕ → BitVec 64) :
    (prbBitMap k &&& prbMask offset n = 0 ↔ Clear prbBitMap (PRB_BITMAP_IDX_LEN * k + offset) n) ∧
      Filled prbBitMap (Function.update prbBitMap k (prbBitMap k ||| prbMask offset n))
        (PRB_BITMAP_IDX_LEN * k + offset) n := by
  constructor
  · rw [and_mask_eq_zero_iff h]
    constructor
    · intro hz p h1 h2
      obtain ⟨rfl, h3, h4⟩ := (prb_in_word h).mp ⟨h1, h2⟩
      exact hz _ h3 h4
    · intro hz i h1 h2
      have hp : (PRB_BITMAP_IDX_LEN * k + i) / PRB_BITMAP_IDX_LEN = k ∧
          (PRB_BITMAP_IDX_LEN * k + i) % PRB_BITMAP_IDX_LEN = i := by
        rw [PRB_BITMAP_IDX_LEN] at *
        omega
      have := hz (PRB_BITMAP_IDX_LEN * k + i) (by omega) (by omega)
      rw [prbBit, hp.1, hp.2] at this
      exact this
  · intro p
    rw [prbBit, prbBit, decide_eq_decide.mpr (prb_in_word h)]
    by_cases hk : p / PRB_BITMAP_IDX_LEN = k
    · subst hk
      rw [Function.update_self, BitVec.getLsbD_or, prbMask_getLsbD h (Nat.mod_lt _ (by decide))]
      simp only [true_and]
    · rw [Function.update_of_ne hk, decide_eq_false (fun hc => hk hc.1), Bool.or_false]

theorem allOnes_eq_mask : BitVec.allOnes 64 = prbMask 0 PRB_BITMAP_IDX_LEN := by decide

/-! ## All words -/

theorem fillWords_spec : ∀ (fuel k n : ℕ) (prbBitMap : ℕ → BitVec 64), n ≤ fuel →
    (Clear prbBitMap (PRB_BITMAP_IDX_LEN * k) n → ∃ prbBitMap',
      fillWords fuel k n prbBitMap = some prbBitMap' ∧
        Filled prbBitMap prbBitMap' (PRB_BITMAP_IDX_LEN * k) n) ∧
      (¬ Clear prbBitMap (PRB_BITMAP_IDX_LEN * k) n → fillWords fuel k n prbBitMap = none)
  | 0, k, n, prbBitMap, hn => by
      obtain rfl : n = 0 := Nat.le_zero.mp hn
      refine ⟨fun _ => ⟨prbBitMap, rfl, fun p => ?_⟩, fun h => absurd (fun p h1 h2 => ?_) h⟩
      · rw [decide_eq_false (by omega), Bool.or_false]
      · omega
  | fuel + 1, k, n, prbBitMap, hn => by
      rw [fillWords]
      split
      · rename_i hlt
        -- a whole word, and the rest
        have hlen : (0 : ℕ) + PRB_BITMAP_IDX_LEN ≤ PRB_BITMAP_IDX_LEN := by omega
        obtain ⟨hz, hf⟩ := word_spec hlen k prbBitMap
        rw [← allOnes_eq_mask, BitVec.and_allOnes, Nat.add_zero] at hz
        rw [← allOnes_eq_mask, BitVec.or_allOnes, Nat.add_zero] at hf
        have hpos : 0 < PRB_BITMAP_IDX_LEN := by decide
        have hrec := fillWords_spec fuel (k + 1) (n - PRB_BITMAP_IDX_LEN)
          (Function.update prbBitMap k (BitVec.allOnes 64)) (by omega)
        rw [Nat.mul_succ, hf.clear_iff] at hrec
        obtain ⟨m, rfl⟩ := Nat.exists_eq_add_of_le hlt.le
        rw [Nat.add_sub_cancel_left] at hrec ⊢
        rw [clear_append]
        by_cases hzero : prbBitMap k = 0
        · rw [if_neg (not_not.mpr hzero)]
          refine ⟨fun hc => ?_, fun hc => hrec.2 fun h => hc ⟨hz.mp hzero, h⟩⟩
          obtain ⟨prbBitMap', he, hf'⟩ := hrec.1 hc.2
          exact ⟨prbBitMap', he, hf.trans hf'⟩
        · rw [if_pos hzero]
          exact ⟨fun hc => absurd (hz.mpr hc.1) hzero, fun _ => rfl⟩
      · rename_i hle
        split
        · rename_i hn0
          subst hn0
          refine ⟨fun _ => ⟨prbBitMap, rfl, fun p => ?_⟩, fun h => absurd (fun p h1 h2 => ?_) h⟩
          · rw [decide_eq_false (by omega), Bool.or_false]
          · omega
        · obtain ⟨hz, hf⟩ := word_spec (by omega : 0 + n ≤ PRB_BITMAP_IDX_LEN) k prbBitMap
          rw [Nat.add_zero] at hz hf
          simp only
          by_cases hzero : prbBitMap k &&& prbMask 0 n = 0
          · rw [if_pos hzero]
            exact ⟨fun _ => ⟨_, rfl, hf⟩, fun h => absurd (hz.mp hzero) h⟩
          · rw [if_neg hzero]
            exact ⟨fun h => absurd (hz.mpr h) hzero, fun _ => rfl⟩

/-- **`fillPrbBitmap` sets the PRBs if they are all free, and else nothing.** -/
theorem fillPrbBitmap_spec {startPrb numPrb : ℕ} (prbBitMap : ℕ → BitVec 64) :
    (Clear prbBitMap startPrb numPrb → ∃ prbBitMap',
      fillPrbBitmap prbBitMap startPrb numPrb = some prbBitMap' ∧
        Filled prbBitMap prbBitMap' startPrb numPrb) ∧
      (¬ Clear prbBitMap startPrb numPrb → fillPrbBitmap prbBitMap startPrb numPrb = none) := by
  rw [fillPrbBitmap]
  have hstart : PRB_BITMAP_IDX_LEN * (startPrb / PRB_BITMAP_IDX_LEN) + startPrb % PRB_BITMAP_IDX_LEN =
      startPrb := Nat.div_add_mod _ _
  have hoff : startPrb % PRB_BITMAP_IDX_LEN < PRB_BITMAP_IDX_LEN := Nat.mod_lt _ (by decide)
  generalize hk : startPrb / PRB_BITMAP_IDX_LEN = k at hstart ⊢
  generalize startPrb % PRB_BITMAP_IDX_LEN = offset at hstart hoff ⊢
  generalize hfirst : (if PRB_BITMAP_IDX_LEN - offset ≤ numPrb then PRB_BITMAP_IDX_LEN - offset
    else numPrb) = first
  -- either the first word is filled to its end, or there is nothing more to set
  have hcases : first ≤ numPrb ∧ offset + first ≤ PRB_BITMAP_IDX_LEN ∧
      (numPrb - first = 0 ∨ startPrb + first = PRB_BITMAP_IDX_LEN * (k + 1)) := by
    rw [Nat.mul_succ]
    split at hfirst <;> omega
  obtain ⟨hle, hlen, hrest⟩ := hcases
  obtain ⟨hz, hf⟩ := word_spec hlen k prbBitMap
  rw [hstart] at hz hf
  have hrec := fillWords_spec numPrb (k + 1) (numPrb - first)
    (Function.update prbBitMap k (prbBitMap k ||| prbMask offset first)) (Nat.sub_le _ _)
  have hsplit : numPrb = first + (numPrb - first) := by omega
  have hclear : Clear (Function.update prbBitMap k (prbBitMap k ||| prbMask offset first))
      (PRB_BITMAP_IDX_LEN * (k + 1)) (numPrb - first) ↔
      Clear prbBitMap (startPrb + first) (numPrb - first) := by
    rcases hrest with h0 | he
    · rw [h0]
      exact iff_of_true (fun p h1 h2 => by omega) (fun p h1 h2 => by omega)
    · rw [← he]
      exact hf.clear_iff
  rw [hclear] at hrec
  have hiff : Clear prbBitMap startPrb numPrb ↔
      Clear prbBitMap startPrb first ∧ Clear prbBitMap (startPrb + first) (numPrb - first) := by
    rw [← clear_append, ← hsplit]
  rw [hiff]
  by_cases hzero : prbBitMap k &&& prbMask offset first = 0
  · rw [if_pos hzero]
    refine ⟨fun hc => ?_, fun hc => hrec.2 fun h => hc ⟨hz.mp hzero, h⟩⟩
    obtain ⟨prbBitMap', he, hf'⟩ := hrec.1 hc.2
    refine ⟨prbBitMap', he, ?_⟩
    have hf'' : Filled (Function.update prbBitMap k (prbBitMap k ||| prbMask offset first)) prbBitMap'
        (startPrb + first) (numPrb - first) := by
      rcases hrest with h0 | he'
      · rw [h0] at hf' ⊢
        intro p
        rw [hf' p, decide_eq_false (by omega), decide_eq_false (by omega)]
      · rw [he']
        exact hf'
    have := hf.trans hf''
    rw [← hsplit] at this
    exact this
  · rw [if_neg hzero]
    exact ⟨fun hc => absurd (hz.mpr hc.1) hzero, fun _ => rfl⟩

/-- The PRBs are set in all symbols if they are free in all of them. -/
theorem fillSymbols_spec {startPrb numPrb : ℕ} : ∀ (n symbol : ℕ) (prbBitMap : ℕ → ℕ → BitVec 64),
    (∀ s, symbol ≤ s → s < symbol + n → Clear (prbBitMap s) startPrb numPrb) →
    ∃ prbBitMap', fillSymbols startPrb numPrb n symbol prbBitMap = (true, prbBitMap') ∧
      ∀ s p, prbBit (prbBitMap' s) p = (prbBit (prbBitMap s) p ||
        decide ((symbol ≤ s ∧ s < symbol + n) ∧ startPrb ≤ p ∧ p < startPrb + numPrb))
  | 0, symbol, prbBitMap, _ => by
      refine ⟨prbBitMap, rfl, fun s p => ?_⟩
      rw [decide_eq_false (by omega), Bool.or_false]
  | n + 1, symbol, prbBitMap, hclear => by
      obtain ⟨words, he, hf⟩ := (fillPrbBitmap_spec (prbBitMap symbol)).1
        (hclear symbol le_rfl (by omega))
      obtain ⟨prbBitMap', he', hf'⟩ := fillSymbols_spec n (symbol + 1)
        (Function.update prbBitMap symbol words) (fun s h1 h2 => by
          rw [Function.update_of_ne (by omega)]
          exact hclear s (by omega) (by omega))
      refine ⟨prbBitMap', by rw [fillSymbols, he]; exact he', fun s p => ?_⟩
      rw [hf' s p]
      by_cases hs : s = symbol
      · subst hs
        rw [Function.update_self, hf p, Bool.or_assoc, ← Bool.decide_or]
        congr 1
        rw [decide_eq_decide]
        omega
      · rw [Function.update_of_ne hs]
        congr 1
        rw [decide_eq_decide]
        omega

end OaiCu.OduSch
