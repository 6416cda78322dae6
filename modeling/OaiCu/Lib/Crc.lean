import Mathlib.Algebra.BigOperators.Group.Finset.Basic
import Mathlib.Algebra.Ring.BooleanRing

/-!
# Cyclic redundancy checks

The remainder of a bit string modulo a polynomial, computed by a shift register. The register is
linear, so that several bits can be taken at once from a table, and the remainder is the sum of
those of the single bits. Sums of bits are sums in the ring `Bool`.
-/

namespace Crc

variable {w : ℕ} (poly : BitVec w)

/-- One bit is shifted in. -/
def step (crc : BitVec w) (b : Bool) : BitVec w :=
  (crc <<< 1) ^^^ (if (crc.msb ^^ b) = true then poly else 0#w)

/-- The register after a bit string. -/
def run (crc : BitVec w) (l : List Bool) : BitVec w := l.foldl (step poly) crc

/-- The remainder of a one that is followed by `m` zeros. -/
def row : ℕ → BitVec w
  | 0 => poly
  | m + 1 => step poly (row m) false

variable {poly} {crc crc' : BitVec w} {b b' : Bool} {l l' : List Bool}

theorem step_xor : step poly (crc ^^^ crc') (b ^^ b') = step poly crc b ^^^ step poly crc' b' := by
  have hmsb : ((crc ^^^ crc').msb ^^ (b ^^ b')) = ((crc.msb ^^ b) ^^ (crc'.msb ^^ b')) := by
    rw [BitVec.msb_xor]
    cases crc.msb <;> cases crc'.msb <;> cases b <;> cases b' <;> rfl
  unfold step
  rw [hmsb, BitVec.shiftLeft_xor_distrib]
  generalize (crc.msb ^^ b) = x
  generalize (crc'.msb ^^ b') = y
  generalize crc <<< 1 = c
  generalize crc' <<< 1 = c'
  cases x with
  | false => cases y <;> simp [BitVec.xor_assoc]
  | true =>
      cases y with
      | false =>
          simp only [Bool.bne_false, if_true, BitVec.xor_assoc]
          simp [BitVec.xor_comm]
      | true =>
          have hcancel : c ^^^ poly ^^^ (c' ^^^ poly) = c ^^^ c' := by
            rw [BitVec.xor_assoc, BitVec.xor_comm c' poly, ← BitVec.xor_assoc poly poly c',
              BitVec.xor_self, BitVec.zero_xor]
          simp [hcancel]

@[simp] theorem run_nil : run poly crc [] = crc := rfl

@[simp] theorem run_cons : run poly crc (b :: l) = run poly (step poly crc b) l := rfl

theorem run_append : run poly crc (l ++ l') = run poly (run poly crc l) l' := by
  simp [run]

/-- The register is linear. -/
theorem run_xor (h : l.length = l'.length) :
    run poly (crc ^^^ crc') (List.zipWith xor l l') = run poly crc l ^^^ run poly crc' l' := by
  induction l generalizing l' crc crc' with
  | nil =>
      rw [List.eq_nil_of_length_eq_zero h.symm]
      rfl
  | cons b l ih =>
      cases l' with
      | nil => cases h
      | cons b' l' =>
          rw [List.zipWith_cons_cons, run_cons, run_cons, run_cons, step_xor]
          exact ih (Nat.succ_inj.mp h)

@[simp] theorem run_zeros (n : ℕ) : run poly 0#w (List.replicate n false) = 0#w := by
  induction n with
  | zero => rfl
  | succ n ih =>
      rw [List.replicate_succ, run_cons]
      have hstep : step poly 0#w false = 0#w := by simp [step]
      rw [hstep, ih]

/-! ## Several bits at once -/

/-- The first `n` bits of the register. -/
def top (n : ℕ) (crc : BitVec w) : List Bool := (List.range n).map fun i => crc.getMsbD i

@[simp] theorem length_top (n : ℕ) (crc : BitVec w) : (top n crc).length = n := by simp [top]

theorem top_succ (n : ℕ) (crc : BitVec w) : top (n + 1) crc = crc.msb :: top n (crc <<< 1) := by
  unfold top
  rw [List.range_succ_eq_map, List.map_cons, List.map_map]
  congr 1
  refine List.map_congr_left fun i _ => ?_
  simp only [Function.comp, Nat.succ_eq_add_one, BitVec.getMsbD_shiftLeft]

/-- Bits that are the first ones of the register are shifted out. -/
theorem run_top (n : ℕ) (crc : BitVec w) : run poly crc (top n crc) = crc <<< n := by
  induction n generalizing crc with
  | zero => simp [top]
  | succ n ih =>
      have hstep : step poly crc crc.msb = crc <<< 1 := by simp [step]
      rw [top_succ, run_cons, hstep, ih, ← BitVec.shiftLeft_add, Nat.add_comm]

/-- **Several bits are taken at once**: what they leave does not depend on the rest of the
register. -/
theorem run_eq (crc : BitVec w) (l : List Bool) :
    run poly crc l = (crc <<< l.length) ^^^ run poly 0#w (List.zipWith xor l (top l.length crc)) := by
  have hlen : (List.zipWith xor l (top l.length crc)).length = (top l.length crc).length := by
    simp
  have hl : List.zipWith xor (List.zipWith xor l (top l.length crc)) (top l.length crc) = l := by
    refine List.ext_getElem (by simp) fun i h1 h2 => ?_
    simp
  have hsum := @run_xor w poly 0#w crc _ _ hlen
  rw [hl, run_top, BitVec.zero_xor] at hsum
  rw [hsum, BitVec.xor_comm]

/-! ## By octets -/

/-- The first `n` bits of an octet, the highest one first. -/
def octetBits (n : ℕ) (c : BitVec 8) : List Bool := (List.range n).map fun k => c.getMsbD k

/-- The first bits of octets in memory. -/
def bits (inptr : ℕ → BitVec 8) (bitlen : ℕ) : List Bool :=
  (List.range bitlen).map fun k => (inptr (k / 8)).getMsbD (k % 8)

/-- An octet at the top of the register. -/
theorem top_octet (c : BitVec 8) : top 8 (c.setWidth 32 <<< 24) = octetBits 8 c := by
  unfold top octetBits
  refine List.map_congr_left fun k hk => ?_
  have hk := List.mem_range.mp hk
  have hidx : 31 - (k + 24) = 7 - k := by omega
  have hlt : k + 24 < 32 := by omega
  rw [BitVec.getMsbD_shiftLeft]
  unfold BitVec.getMsbD
  rw [BitVec.getLsbD_setWidth]
  simp only [hk, hlt, hidx, decide_true, Bool.true_and]
  simp [Nat.lt_of_le_of_lt (Nat.sub_le 7 k)]

/-- The first bits of the register, as the octet that is looked up holds them. -/
theorem getMsbD_shift {n k : ℕ} (crc : BitVec 32) (hn : n ≤ 8) (hk : k < n) :
    ((crc >>> (32 - n)).setWidth 8).getMsbD (8 - n + k) = crc.getMsbD k := by
  have h1 : 8 - n + k < 8 := by omega
  have h2 : 7 - (8 - n + k) < 8 := by omega
  have h3 : 32 - n + (7 - (8 - n + k)) = 31 - k := by omega
  have h4 : k < 32 := by omega
  simp [BitVec.getMsbD, BitVec.getLsbD_ushiftRight, h1, h2, h3, h4]

/-- **A part of an octet is taken by one look into the table** of the remainders of the octets. -/
theorem run_octet {n : ℕ} {poly : BitVec 32} (hn : n ≤ 8) (c : BitVec 8) (crc : BitVec 32) :
    run poly crc (octetBits n c) = (crc <<< n) ^^^
      run poly 0#32 (octetBits 8 ((c >>> (8 - n)) ^^^ (crc >>> (32 - n)).setWidth 8)) := by
  have hlist : octetBits 8 ((c >>> (8 - n)) ^^^ (crc >>> (32 - n)).setWidth 8) =
      List.replicate (8 - n) false ++ List.zipWith xor (octetBits n c) (top n crc) := by
    refine List.ext_getElem (by simp [octetBits]; omega) fun k h1 h2 => ?_
    have hk : k < 8 := by simpa [octetBits] using h1
    simp only [octetBits, List.getElem_map, List.getElem_range, BitVec.getMsbD_xor]
    rcases Nat.lt_or_ge k (8 - n) with hlt | hge
    · rw [List.getElem_append_left (by simpa using hlt), List.getElem_replicate]
      have h7 : 7 - k < 8 := by omega
      have hout : ¬8 - n + (7 - k) < 8 := by omega
      have hshift : ¬32 - n + (7 - k) < 32 := by omega
      simp [BitVec.getMsbD, BitVec.getLsbD_ushiftRight, hk, h7,
        BitVec.getLsbD_of_ge c _ (Nat.not_lt.mp hout), BitVec.getLsbD_of_ge crc _ (Nat.not_lt.mp hshift)]
    · rw [List.getElem_append_right (by simpa using hge)]
      simp only [List.length_replicate, List.getElem_zipWith, List.getElem_map, List.getElem_range,
        top]
      have hsum : 8 - n + (k - (8 - n)) = k := by omega
      have hreg := getMsbD_shift crc hn (show k - (8 - n) < n by omega)
      rw [hsum] at hreg
      rw [hreg]
      congr 1
      have hidx : 8 - n + (7 - k) = 7 - (k - (8 - n)) := by omega
      have hin : k - (8 - n) < 8 := by omega
      simp [BitVec.getMsbD, BitVec.getLsbD_ushiftRight, hk, hidx, hin]
  rw [hlist, run_append, run_zeros]
  have heq := @run_eq 32 poly crc (octetBits n c)
  simpa [octetBits] using heq

theorem bits_add (inptr : ℕ → BitVec 8) (i : ℕ) {n : ℕ} (hn : n ≤ 8) :
    bits inptr (8 * i + n) = bits inptr (8 * i) ++ octetBits n (inptr i) := by
  unfold bits octetBits
  rw [List.range_add, List.map_append, List.map_map]
  congr 1
  refine List.map_congr_left fun k hk => ?_
  have hk := List.mem_range.mp hk
  have hdiv : (8 * i + k) / 8 = i := by omega
  have hmod : (8 * i + k) % 8 = k := by omega
  simp only [Function.comp, hdiv, hmod]

/-- The register by the octets of the message from a table, and then by the bits that are left. -/
def byTable (table : BitVec 8 → BitVec 32) (inptr : ℕ → BitVec 8) (bitlen : ℕ) : BitVec 32 :=
  let crc : BitVec 32 := (List.range (bitlen / 8)).foldl (fun (crc : BitVec 32) i =>
    (crc <<< 8) ^^^ table (inptr i ^^^ (crc >>> 24).setWidth 8)) 0#32
  let resbit := bitlen % 8
  if resbit > 0 then
    (crc <<< resbit) ^^^
      table ((inptr (bitlen / 8) >>> (8 - resbit)) ^^^ (crc >>> (32 - resbit)).setWidth 8)
  else crc

/-- **The table gives the remainder of the bits.** -/
theorem byTable_eq {poly : BitVec 32} {table : BitVec 8 → BitVec 32}
    (htable : ∀ c, table c = run poly 0#32 (octetBits 8 c)) (inptr : ℕ → BitVec 8) (bitlen : ℕ) :
    byTable table inptr bitlen = run poly 0#32 (bits inptr bitlen) := by
  have hloop : ∀ n, (List.range n).foldl (fun (crc : BitVec 32) i =>
      (crc <<< 8) ^^^ table (inptr i ^^^ (crc >>> 24).setWidth 8)) 0#32 =
        run poly 0#32 (bits inptr (8 * n)) := by
    intro n
    induction n with
    | zero => rfl
    | succ n ih =>
        rw [List.range_succ, List.foldl_append, List.foldl_cons, List.foldl_nil, ih, Nat.mul_succ,
          bits_add _ _ le_rfl, run_append, run_octet le_rfl, htable]
        simp
  have hlen : 8 * (bitlen / 8) + bitlen % 8 = bitlen := Nat.div_add_mod _ _
  have hlast := bits_add inptr (bitlen / 8) (Nat.mod_lt bitlen (by decide : 0 < 8)).le
  rw [hlen] at hlast
  unfold byTable
  simp only [hloop]
  rw [hlast, run_append, run_octet (Nat.mod_lt bitlen (by decide : 0 < 8)).le]
  split
  · rw [htable]
  · rename_i hres
    have hres : bitlen % 8 = 0 := Nat.eq_zero_of_not_pos hres
    have hnone := @run_octet 0 poly (Nat.zero_le 8) (inptr (bitlen / 8))
      (run poly 0#32 (bits inptr (8 * (bitlen / 8))))
    rw [hres, ← hnone]
    rfl

/-! ## Bit by bit -/

theorem run_one (m : ℕ) : run poly 0#w (true :: List.replicate m false) = row poly m := by
  induction m with
  | zero => simp [row, step]
  | succ m ih =>
      rw [List.replicate_succ', ← List.cons_append, run_append, ih]
      rfl

/-- The remainder is the sum of those of the single bits. -/
theorem getLsbD_run (l : List Bool) (i : ℕ) : (run poly 0#w l).getLsbD i =
    ∑ j ∈ Finset.range l.length, l.getD j false * (row poly (l.length - 1 - j)).getLsbD i := by
  induction l with
  | nil =>
      simp
      rfl
  | cons b l ih =>
      have hsplit : b :: l = List.zipWith xor (b :: List.replicate l.length false) (false :: l) := by
        refine List.ext_getElem (by simp) fun j h1 h2 => ?_
        cases j with
        | zero => simp
        | succ j => simp
      have hzero : run poly 0#w (false :: l) = run poly 0#w l := by
        have hstep : step poly 0#w false = 0#w := by simp [step]
        rw [run_cons, hstep]
      have hone : (run poly 0#w (b :: List.replicate l.length false)).getLsbD i =
          (b * (row poly l.length).getLsbD i) := by
        cases b with
        | false =>
            have := @run_zeros w poly (l.length + 1)
            rw [List.replicate_succ] at this
            rw [this]
            simp
            rfl
        | true =>
            rw [run_one]
            exact (Bool.true_and _).symm
      have hsum := @run_xor w poly 0#w 0#w (b :: List.replicate l.length false) (false :: l) (by simp)
      rw [← hsplit, BitVec.xor_zero, hzero] at hsum
      rw [hsum, BitVec.getLsbD_xor, hone, ih, List.length_cons, Finset.sum_range_succ']
      rw [Bool.xor_comm]
      refine congrArg₂ xor (Finset.sum_congr rfl fun j hj => ?_) (by simp)
      rw [List.getD_cons_succ]
      congr 3
      omega

end Crc
