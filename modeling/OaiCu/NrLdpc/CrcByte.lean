import OaiCu.Lib.CrcPoly

/-!
# CRCs by octets (`crc_byte.c`)

The CRCs as they are built without `USE_INTEL_CRC`: one look into a table for each octet, and one for
the bits behind the last octet. The tables of the CRCs of at most 16 bits hold the upper bits of the
register only. Each of the CRCs is the remainder of the message, aligned to the left of a register of
32 bits.
-/

namespace OaiCu.NrLdpc

open Crc Polynomial

/-! ## The code -/

def poly24a : BitVec 32 := 0x864cfb00#32
def poly24b : BitVec 32 := 0x80006300#32
def poly24c : BitVec 32 := 0xb2b11700#32
def poly16 : BitVec 32 := 0x10210000#32
def poly12 : BitVec 32 := 0x80f00000#32
def poly8 : BitVec 32 := 0x9b000000#32
def poly6 : BitVec 32 := 0x84000000#32
def poly11 : BitVec 32 := 0xc4200000#32

/-- The loop over the bits of an octet in `crcbit`. -/
def crcbitLoop (poly : BitVec 32) : ℕ → BitVec 32 → BitVec 32 → BitVec 32
  | 0, _, crc => crc
  | i + 1, c, crc =>
      crcbitLoop poly i (c <<< 1) (if (c ^^^ crc).msb then (crc <<< 1) ^^^ poly else crc <<< 1)

def crcbit (inputptr : ℕ → BitVec 8) (octetlen : ℕ) (poly : BitVec 32) : BitVec 32 :=
  (List.range octetlen).foldl
    (fun crc i => crcbitLoop poly 8 ((inputptr i).setWidth 32 <<< 24) crc) 0#32

/-! The tables after `crcTableInit`. -/

def crc24aTable (c : BitVec 8) : BitVec 32 := crcbit (fun _ => c) 1 poly24a
def crc24bTable (c : BitVec 8) : BitVec 32 := crcbit (fun _ => c) 1 poly24b
def crc24cTable (c : BitVec 8) : BitVec 32 := crcbit (fun _ => c) 1 poly24c
def crc16Table (c : BitVec 8) : BitVec 16 := (crcbit (fun _ => c) 1 poly16 >>> 16).setWidth 16
def crc12Table (c : BitVec 8) : BitVec 16 := (crcbit (fun _ => c) 1 poly12 >>> 16).setWidth 16
def crc11Table (c : BitVec 8) : BitVec 16 := (crcbit (fun _ => c) 1 poly11 >>> 16).setWidth 16
def crc8Table (c : BitVec 8) : BitVec 8 := (crcbit (fun _ => c) 1 poly8 >>> 24).setWidth 8
def crc6Table (c : BitVec 8) : BitVec 8 := (crcbit (fun _ => c) 1 poly6 >>> 24).setWidth 8

/-- A CRC from a table of 16 bits, whose entries are shifted up by 16. -/
def byTable16 (table : BitVec 8 → BitVec 16) : (ℕ → BitVec 8) → ℕ → BitVec 32 :=
  byTable fun c => (table c).setWidth 32 <<< 16

/-- A CRC from a table of 8 bits. For a whole octet the register is replaced by the entry. -/
def byTable8 (table : BitVec 8 → BitVec 8) (inptr : ℕ → BitVec 8) (bitlen : ℕ) : BitVec 32 :=
  let crc : BitVec 32 := (List.range (bitlen / 8)).foldl (fun (crc : BitVec 32) i =>
    (table (inptr i ^^^ (crc >>> 24).setWidth 8)).setWidth 32 <<< 24) 0#32
  let resbit := bitlen % 8
  if resbit > 0 then
    (crc <<< resbit) ^^^ (table ((inptr (bitlen / 8) >>> (8 - resbit)) ^^^
      (crc >>> (32 - resbit)).setWidth 8)).setWidth 32 <<< 24
  else crc

def crc24a : (ℕ → BitVec 8) → ℕ → BitVec 32 := byTable crc24aTable
def crc24b : (ℕ → BitVec 8) → ℕ → BitVec 32 := byTable crc24bTable
def crc24c : (ℕ → BitVec 8) → ℕ → BitVec 32 := byTable crc24cTable
def crc16 : (ℕ → BitVec 8) → ℕ → BitVec 32 := byTable16 crc16Table
def crc12 : (ℕ → BitVec 8) → ℕ → BitVec 32 := byTable16 crc12Table
def crc11 : (ℕ → BitVec 8) → ℕ → BitVec 32 := byTable16 crc11Table
def crc8 : (ℕ → BitVec 8) → ℕ → BitVec 32 := byTable8 crc8Table
def crc6 : (ℕ → BitVec 8) → ℕ → BitVec 32 := byTable8 crc6Table

/-- The values of `crc_type` that `check_crc` has a case for. -/
inductive CrcType
  | crc24A
  | crc24B
  | crc16
  | crc8
  deriving DecidableEq, Repr

/-- crc_len, in octets. -/
def CrcType.crcLen : CrcType → ℕ
  | .crc24A | .crc24B => 3
  | .crc16 => 2
  | .crc8 => 1

/-- The CRC of a block of `n` bits without its last octets, as a number. `n` is a uint32_t, and what is
left without these octets goes to an int: with less than the octets it is negative, and nothing is
read, as nothing is for 0. With 2^31 bits or more it is negative too, but no block has as many. -/
def CrcType.crcOf (decodedBytes : ℕ → BitVec 8) (n : ℕ) : CrcType → BitVec 32
  | .crc24A => crc24a decodedBytes (n - 24) >>> 8
  | .crc24B => crc24b decodedBytes (n - 24) >>> 8
  | .crc16 => NrLdpc.crc16 decodedBytes (n - 16) >>> 16
  | .crc8 => NrLdpc.crc8 decodedBytes (n - 8) >>> 24

/-- The bits that are left of oldcrc. -/
def CrcType.mask : CrcType → BitVec 32
  | .crc24A | .crc24B => 0x00ffffff#32
  | .crc16 => 0x0000ffff#32
  | .crc8 => 0x000000ff#32

/-- check_crc. -/
def checkCrc (decodedBytes : ℕ → BitVec 8) (n : ℕ) (crcType : CrcType) : Bool :=
  let crcLen := crcType.crcLen
  let oldcrc : BitVec 32 := (List.range crcLen).foldl (fun (oldcrc : BitVec 32) i => oldcrc |||
    (decodedBytes (n >>> 3 - crcLen + i)).setWidth 32 <<< ((crcLen - 1 - i) <<< 3)) 0#32
  crcType.crcOf decodedBytes n == oldcrc &&& crcType.mask

/-! ## The register -/

theorem crcbitLoop_eq (poly : BitVec 32) (n : ℕ) (c crc : BitVec 32) :
    crcbitLoop poly n c crc = run poly crc (top n c) := by
  induction n generalizing c crc with
  | zero => rfl
  | succ n ih =>
      rw [top_succ, run_cons, crcbitLoop, ih]
      congr 1
      have hmsb : (c ^^^ crc).msb = (crc.msb ^^ c.msb) := by rw [BitVec.msb_xor, Bool.xor_comm]
      unfold step
      rw [hmsb]
      cases crc.msb ^^ c.msb with
      | false => simp
      | true => simp

theorem crcbit_one (poly : BitVec 32) (c : BitVec 8) :
    crcbit (fun _ => c) 1 poly = run poly 0#32 (octetBits 8 c) := by
  rw [← top_octet]
  exact crcbitLoop_eq poly 8 _ _

/-- The bit by bit implementation. -/
theorem crcbit_eq (poly : BitVec 32) (inputptr : ℕ → BitVec 8) (octetlen : ℕ) :
    crcbit inputptr octetlen poly = run poly 0#32 (bits inputptr (8 * octetlen)) := by
  induction octetlen with
  | zero => rfl
  | succ n ih =>
      rw [Nat.mul_succ, bits_add _ _ le_rfl, run_append, ← ih, ← top_octet, ← crcbitLoop_eq, crcbit,
        List.range_succ, List.foldl_append]
      rfl

/-- The lower bits of the register stay zero. -/
theorem run_low {poly : BitVec 32} {k : ℕ} (hp : ∀ i < k, poly.getLsbD i = false) (l : List Bool)
    {i : ℕ} (hi : i < k) : (run poly 0#32 l).getLsbD i = false := by
  induction l using List.reverseRecOn generalizing i with
  | nil => exact BitVec.getLsbD_zero
  | append_singleton l b ih =>
      rw [run_append, run_cons, run_nil, step, BitVec.getLsbD_xor, BitVec.getLsbD_shiftLeft,
        ih (Nat.lt_of_le_of_lt (Nat.sub_le i 1) hi)]
      split
      · simp [hp i hi]
      · simp

/-- An entry that is cut off at the bottom is the whole one if there is nothing. -/
theorem setWidth_shift {m k : ℕ} (hm : m + k = 32) {x : BitVec 32}
    (hx : ∀ i < k, x.getLsbD i = false) :
    ((x >>> k).setWidth m).setWidth 32 <<< k = x := by
  refine BitVec.eq_of_getLsbD_eq fun i hi => ?_
  rw [BitVec.getLsbD_shiftLeft, BitVec.getLsbD_setWidth, BitVec.getLsbD_setWidth,
    BitVec.getLsbD_ushiftRight]
  rcases Nat.lt_or_ge i k with hlt | hge
  · rw [hx i hlt]
    simp [hlt]
  · have h1 : i - k < 32 := by omega
    have h2 : i - k < m := by omega
    rw [Nat.add_sub_cancel' hge]
    simp [hi, Nat.not_lt.mpr hge, h1, h2]

theorem byTable16_eq {poly : BitVec 32} (hp : ∀ i < 16, poly.getLsbD i = false)
    (inptr : ℕ → BitVec 8) (bitlen : ℕ) :
    byTable16 (fun c => (crcbit (fun _ => c) 1 poly >>> 16).setWidth 16) inptr bitlen =
      run poly 0#32 (bits inptr bitlen) := by
  refine byTable_eq (fun c => ?_) inptr bitlen
  rw [← crcbit_one]
  refine setWidth_shift rfl fun i => ?_
  rw [crcbit_one]
  exact run_low hp _

/-- Nothing is left of a register of 8 bits that is shifted by 8. -/
theorem shiftLeft_eight {crc : BitVec 32} (h : ∀ i < 24, crc.getLsbD i = false) :
    crc <<< 8 = 0#32 := by
  refine BitVec.eq_of_getLsbD_eq fun i hi => ?_
  rw [BitVec.getLsbD_shiftLeft, BitVec.getLsbD_zero]
  have hlow : crc.getLsbD (i - 8) = false := h (i - 8) (by omega)
  rw [hlow, Bool.and_false]

theorem byTable8_eq {poly : BitVec 32} (hp : ∀ i < 24, poly.getLsbD i = false)
    (inptr : ℕ → BitVec 8) (bitlen : ℕ) :
    byTable8 (fun c => (crcbit (fun _ => c) 1 poly >>> 24).setWidth 8) inptr bitlen =
      run poly 0#32 (bits inptr bitlen) := by
  have htable : ∀ c, ((crcbit (fun _ => c) 1 poly >>> 24).setWidth 8).setWidth 32 <<< 24 =
      run poly 0#32 (octetBits 8 c) := by
    intro c
    rw [crcbit_one]
    exact setWidth_shift rfl fun i => run_low hp _
  -- the register that is not kept has nothing to keep
  have hloop : ∀ n, (List.range n).foldl (fun (crc : BitVec 32) i =>
      run poly 0#32 (octetBits 8 (inptr i ^^^ (crc >>> 24).setWidth 8))) 0#32 =
      (List.range n).foldl (fun (crc : BitVec 32) i =>
        (crc <<< 8) ^^^ run poly 0#32 (octetBits 8 (inptr i ^^^ (crc >>> 24).setWidth 8))) 0#32 ∧
      ∀ i < 24, ((List.range n).foldl (fun (crc : BitVec 32) i =>
        run poly 0#32 (octetBits 8 (inptr i ^^^ (crc >>> 24).setWidth 8))) 0#32).getLsbD i =
          false := by
    intro n
    induction n with
    | zero => exact ⟨rfl, fun i _ => BitVec.getLsbD_zero⟩
    | succ n ih =>
        simp only [List.range_succ, List.foldl_append, List.foldl_cons, List.foldl_nil]
        rw [← ih.1, shiftLeft_eight ih.2, BitVec.zero_xor]
        exact ⟨rfl, fun i => run_low hp _⟩
  rw [← byTable_eq (fun _ => rfl) inptr bitlen, byTable8, byTable]
  simp only [htable, (hloop _).1]

/-! ## The remainders -/

/-- The CRCs of the file. -/
inductive CrcKind
  | crc24a
  | crc24b
  | crc24c
  | crc16
  | crc12
  | crc11
  | crc8
  | crc6

namespace CrcKind

def compute : CrcKind → (ℕ → BitVec 8) → ℕ → BitVec 32
  | .crc24a => NrLdpc.crc24a
  | .crc24b => NrLdpc.crc24b
  | .crc24c => NrLdpc.crc24c
  | .crc16 => NrLdpc.crc16
  | .crc12 => NrLdpc.crc12
  | .crc11 => NrLdpc.crc11
  | .crc8 => NrLdpc.crc8
  | .crc6 => NrLdpc.crc6

def poly : CrcKind → BitVec 32
  | .crc24a => poly24a
  | .crc24b => poly24b
  | .crc24c => poly24c
  | .crc16 => poly16
  | .crc12 => poly12
  | .crc11 => poly11
  | .crc8 => poly8
  | .crc6 => poly6

/-- The degree of the polynomial and the exponents of its other terms. -/
def terms : CrcKind → ℕ × List ℕ
  | .crc24a => (24, [23, 18, 17, 14, 11, 10, 7, 6, 5, 4, 3, 1, 0])
  | .crc24b => (24, [23, 6, 5, 1, 0])
  | .crc24c => (24, [23, 21, 20, 17, 15, 13, 12, 8, 4, 2, 1, 0])
  | .crc16 => (16, [12, 5, 0])
  | .crc12 => (12, [11, 3, 2, 1, 0])
  | .crc11 => (11, [10, 9, 5, 0])
  | .crc8 => (8, [7, 4, 3, 1, 0])
  | .crc6 => (6, [5, 0])

/-- The polynomial. -/
noncomputable def generator (k : CrcKind) : (ZMod 2)[X] :=
  X ^ k.terms.1 + (k.terms.2.map fun n => (X : (ZMod 2)[X]) ^ n).sum

/-- The register holds the remainder of the message times the power of the degree, and nothing behind
it. -/
structure IsRemainder (k : CrcKind) (l : List Bool) (crc : BitVec 32) : Prop where
  register : crc = run k.poly 0#32 l
  aligned : Aligned k.terms.1 crc
  remainder : regPoly k.terms.1 crc = msgPoly l * X ^ k.terms.1 %ₘ k.generator

theorem compute_eq (k : CrcKind) (inptr : ℕ → BitVec 8) (bitlen : ℕ) :
    k.compute inptr bitlen = run k.poly 0#32 (bits inptr bitlen) := by
  cases k with
  | crc24a => exact byTable_eq (crcbit_one poly24a) inptr bitlen
  | crc24b => exact byTable_eq (crcbit_one poly24b) inptr bitlen
  | crc24c => exact byTable_eq (crcbit_one poly24c) inptr bitlen
  | crc16 => exact @byTable16_eq poly16 (by decide) inptr bitlen
  | crc12 => exact @byTable16_eq poly12 (by decide) inptr bitlen
  | crc11 => exact @byTable16_eq poly11 (by decide) inptr bitlen
  | crc8 => exact @byTable8_eq poly8 (by decide) inptr bitlen
  | crc6 => exact @byTable8_eq poly6 (by decide) inptr bitlen

/-- A sum over the bits that are set. -/
theorem sum_set_bits (f : ℕ → (ZMod 2)[X]) (bit : ℕ → Bool) (n d : ℕ) :
    ∑ i ∈ Finset.range n, C (coefficient (bit i)) * f (d - i) =
      (((List.range n).filterMap fun i => if bit i then some (d - i) else none).map f).sum := by
  induction n with
  | zero => rfl
  | succ n ih =>
      rw [Finset.sum_range_succ, ih, List.range_succ, List.filterMap_append, List.map_append,
        List.sum_append]
      congr 1
      cases hbit : bit n with
      | false => simp [coefficient, hbit]
      | true => simp [coefficient, hbit]

/-- The polynomial of the code is the one whose terms are given. -/
theorem generator_eq (k : CrcKind) : Crc.generator k.terms.1 k.poly = k.generator := by
  have hbits : ∀ k : CrcKind, (List.range k.terms.1).filterMap (fun i =>
      if k.poly.getMsbD i then some (k.terms.1 - 1 - i) else none) = k.terms.2 := by
    intro k
    cases k <;> decide
  rw [Crc.generator, generator, regPoly, ← hbits k]
  exact congrArg _ (sum_set_bits (fun n => X ^ n) _ _ _)

theorem aligned_poly (k : CrcKind) : Aligned k.terms.1 k.poly := by
  intro i hi
  rcases Nat.lt_or_ge i 32 with hlt | hge
  · have hall : ∀ k : CrcKind, ∀ i < 32, k.terms.1 ≤ i → k.poly.getMsbD i = false := by
      intro k
      cases k <;> decide
    exact hall k i hlt hi
  · simp [BitVec.getMsbD, Nat.not_lt.mpr hge]

theorem isRemainder_run (k : CrcKind) (l : List Bool) : k.IsRemainder l (run k.poly 0#32 l) where
  register := rfl
  aligned := Aligned.run k.aligned_poly l aligned_zero
  remainder := by
    rw [← generator_eq]
    exact regPoly_run k.aligned_poly l

end CrcKind

/-! ## Checks -/

/-- The octets of a register, from the first one on, as `check_crc` puts them together. -/
theorem gather_octets (crc : BitVec 32) (ty : CrcType) :
    ((List.range ty.crcLen).foldl (fun (oldcrc : BitVec 32) i => oldcrc |||
      ((crc >>> (24 - 8 * i)).setWidth 8).setWidth 32 <<< ((ty.crcLen - 1 - i) <<< 3)) 0#32) &&&
        ty.mask = crc >>> (32 - 8 * ty.crcLen) := by
  have hmask : ∀ ty : CrcType, ∀ i < 32, ty.mask.getLsbD i = decide (i < 8 * ty.crcLen) := by
    intro ty
    cases ty <;> decide
  have h3 : List.range 3 = [0, 1, 2] := rfl
  have h2 : List.range 2 = [0, 1] := rfl
  have h1 : List.range 1 = [0] := rfl
  refine BitVec.eq_of_getLsbD_eq fun i hi => ?_
  rw [BitVec.getLsbD_and, hmask ty i hi]
  -- the bit is in one of the octets
  cases ty
  all_goals
    simp only [CrcType.crcLen, h3, h2, h1, List.foldl_cons, List.foldl_nil, BitVec.getLsbD_or,
      BitVec.getLsbD_shiftLeft, BitVec.getLsbD_setWidth, BitVec.getLsbD_ushiftRight,
      BitVec.getLsbD_zero]
    grind

/-- The CRC that goes with a type. -/
def CrcType.kind : CrcType → CrcKind
  | .crc24A => .crc24a
  | .crc24B => .crc24b
  | .crc16 => .crc16
  | .crc8 => .crc8

theorem CrcType.crcOf_eq (ty : CrcType) (block : ℕ → BitVec 8) (m : ℕ) :
    ty.crcOf block (8 * (m + ty.crcLen)) =
      run ty.kind.poly 0#32 (bits block (8 * m)) >>> (32 - 8 * ty.crcLen) := by
  have hlen : 8 * (m + ty.crcLen) - 8 * ty.crcLen = 8 * m := by omega
  rw [← hlen, ← CrcKind.compute_eq]
  cases ty <;> rfl

/-- The octets behind the first `m` are the CRC of these. -/
def HasCrc (ty : CrcType) (block : ℕ → BitVec 8) (m : ℕ) : Prop :=
  ∀ i < ty.crcLen, block (m + i) =
    (run ty.kind.poly 0#32 (bits block (8 * m)) >>> (24 - 8 * i)).setWidth 8

/-- **A block with its CRC is accepted.** -/
theorem checkCrc_of_hasCrc {ty : CrcType} {block : ℕ → BitVec 8} {m : ℕ} (h : HasCrc ty block m) :
    checkCrc block (8 * (m + ty.crcLen)) ty = true := by
  have hstart : (8 * (m + ty.crcLen)) >>> 3 - ty.crcLen = m := by
    rw [Nat.shiftRight_eq_div_pow]
    omega
  have holdcrc : (List.range ty.crcLen).foldl (fun (oldcrc : BitVec 32) i => oldcrc |||
      (block (m + i)).setWidth 32 <<< ((ty.crcLen - 1 - i) <<< 3)) 0#32 =
      (List.range ty.crcLen).foldl (fun (oldcrc : BitVec 32) i => oldcrc |||
        ((run ty.kind.poly 0#32 (bits block (8 * m)) >>> (24 - 8 * i)).setWidth 8).setWidth 32 <<<
          ((ty.crcLen - 1 - i) <<< 3)) 0#32 := by
    refine List.foldl_ext _ _ _ fun oldcrc i hi => ?_
    rw [h i (List.mem_range.mp hi)]
  rw [checkCrc, hstart]
  rw [holdcrc, gather_octets, ty.crcOf_eq, beq_self_eq_true]

/-- A message of `m` octets with its CRC appended. -/
def appendCrc (ty : CrcType) (inptr : ℕ → BitVec 8) (m : ℕ) : ℕ → BitVec 8 := fun i =>
  if i < m then inptr i
  else (run ty.kind.poly 0#32 (bits inptr (8 * m)) >>> (24 - 8 * (i - m))).setWidth 8

/-- Only the octets of the message matter. -/
theorem bits_congr {inptr inptr' : ℕ → BitVec 8} {m : ℕ} (h : ∀ i < m, inptr i = inptr' i) :
    bits inptr (8 * m) = bits inptr' (8 * m) := by
  refine List.map_congr_left fun k hk => ?_
  have hk := List.mem_range.mp hk
  rw [h (k / 8) (by omega)]

theorem hasCrc_appendCrc (ty : CrcType) (inptr : ℕ → BitVec 8) (m : ℕ) :
    HasCrc ty (appendCrc ty inptr m) m := by
  have hbits : bits (appendCrc ty inptr m) (8 * m) = bits inptr (8 * m) :=
    bits_congr fun i hi => if_pos hi
  intro i _
  rw [hbits, appendCrc, if_neg (Nat.not_lt.mpr (Nat.le_add_right m i)), Nat.add_sub_cancel_left]

/-- **The CRCs are the remainders of the message, for every length, and blocks with their CRC are
accepted.** -/
theorem crcs_are_remainders :
    (∀ (k : CrcKind) (inptr : ℕ → BitVec 8) (bitlen : ℕ),
      k.IsRemainder (bits inptr bitlen) (k.compute inptr bitlen)) ∧
    (∀ (k : CrcKind) (inptr : ℕ → BitVec 8) (octetlen : ℕ),
      k.compute inptr (8 * octetlen) = crcbit inptr octetlen k.poly) ∧
    ∀ (ty : CrcType) (inptr : ℕ → BitVec 8) (m : ℕ),
      checkCrc (appendCrc ty inptr m) (8 * (m + ty.crcLen)) ty = true := by
  refine ⟨fun k inptr bitlen => ?_, fun k inptr octetlen => ?_, fun ty inptr m => ?_⟩
  · rw [k.compute_eq]
    exact k.isRemainder_run _
  · rw [k.compute_eq, crcbit_eq]
  · exact checkCrc_of_hasCrc (hasCrc_appendCrc ty inptr m)

end OaiCu.NrLdpc
