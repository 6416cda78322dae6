import OaiCu.NrLdpc.CrcByte
import OaiCu.NrPolar.Params
import OaiCu.Lib.BitSums

/-!
# NR polar codes: the encoders (`nr_polar_encoder.c`)

`polar_encoder` and `polar_encoder_dci` work with one byte for each bit, `polar_encoder_fast` with
words. Memory is little-endian.
-/

namespace OaiCu.NrPolar

open NrLdpc (crc24c)

/-- The bits of an array in memory, from the least significant one of the first byte on. -/
abbrev Mem := ℕ → Bool

def words32 (a : ℕ → BitVec 32) : Mem := fun i => (a (i / 32)).getLsbD (i % 32)

def words64 (a : ℕ → BitVec 64) : Mem := fun i => (a (i / 64)).getLsbD (i % 64)

/-! ## One byte for each bit -/

/-- `nr_bit2byte_uint32_8`. -/
def nrBit2byteUint32_8 (inp : ℕ → BitVec 32) (j : ℕ) : UInt8 :=
  if (inp (j / 32)).getLsbD (j % 32) then 1 else 0

/-- One word of `nr_byte2bit_uint8_32`: the bytes 31 to 1 are shifted in, then the byte 0 is put in
place. -/
def byte2bitWord (inp : ℕ → UInt8) : BitVec 32 :=
  (List.range 31).foldl (fun out m =>
      (out ||| BitVec.ofNat 32 (inp (31 - m)).toNat) <<< 1) 0#32 |||
    BitVec.ofNat 32 (inp 0).toNat

/-- `nr_byte2bit_uint8_32`. -/
def nrByte2bitUint8_32 (inp : ℕ → UInt8) (arraySize : ℕ) (out : ℕ → BitVec 32) :
    ℕ → BitVec 32 := fun i =>
  if i < (arraySize + 31) / 32 then byte2bitWord fun j => inp (i * 32 + j) else out i

/-- `nr_matrix_multiplication_uint8_1D_uint8_2D`. -/
def nrMatrixMultiplication (matrix1 : ℕ → UInt8) (matrix2 : ℕ → ℕ → UInt8) (row i : ℕ) : UInt8 :=
  (List.range row).foldl (fun output j => output + matrix1 j * matrix2 j i) 0

/-- `nr_polar_interleaver`: what is behind `size` stays in the output. -/
def nrPolarInterleaver (input : ℕ → UInt8) (pattern : ℕ → ℕ) (size : ℕ) (output : ℕ → UInt8) :
    ℕ → UInt8 := fun i => if i < size then input (pattern i) else output i

/-- `nr_polar_bit_insertion` without parity check bits: `k` counts the information bits before. -/
def nrPolarBitInsertion (input : ℕ → UInt8) (qIN : List ℕ) (n : ℕ) : UInt8 :=
  if n ∈ qIN then input ((List.range n).countP fun m => decide (m ∈ qIN)) else 0

/-- From the interleaving to the output, in `polar_encoder` and in `polar_encoder_dci`. `nrPolarE`
is the content of the buffer with this name, with what is in memory behind it: whole words are
read. -/
def encodeB (p : PolarParams) (nrPolarB nrPolarE : ℕ → UInt8) (out : ℕ → BitVec 32) :
    ℕ → BitVec 32 :=
  let cPrime := nrPolarInterleaver nrPolarB p.interleavingPattern p.K fun _ => 0
  let u := nrPolarBitInsertion cPrime p.qIN
  let d := fun i => nrMatrixMultiplication u p.gN p.N i % 2
  let e := nrPolarInterleaver d p.rateMatchingPattern p.encoderLength nrPolarE
  nrByte2bitUint8_32 e p.encoderLength out

/-- `nr_polar_B` in `polar_encoder`: the CRC is attached. -/
def polarB (p : PolarParams) (inp : ℕ → BitVec 32) : ℕ → UInt8 :=
  let a := nrBit2byteUint32_8 inp
  let crc := fun i => nrMatrixMultiplication a p.crcGeneratorMatrix p.payloadBits i % 2
  fun i => if i < p.payloadBits then a i else crc (i - p.payloadBits)

/-- `polar_encoder`. -/
def polarEncoder (p : PolarParams) (inp : ℕ → BitVec 32) (nrPolarE : ℕ → UInt8)
    (out : ℕ → BitVec 32) : ℕ → BitVec 32 :=
  encodeB p (polarB p inp) nrPolarE out

/-- `nr_polar_B` in `polar_encoder_dci`: the CRC, which starts with ones, is attached and
scrambled. -/
def polarDciB (p : PolarParams) (inp : ℕ → BitVec 32) (nRNTI : BitVec 16) : ℕ → UInt8 :=
  let a := nrBit2byteUint32_8 inp
  let aPrime := fun i => if i < p.crcParityBits then 1 else a (i - p.crcParityBits)
  let crc := fun i => nrMatrixMultiplication aPrime p.crcGeneratorMatrix p.K i % 2
  let b := fun i => if i < p.payloadBits then a i else crc (i - p.payloadBits)
  fun i =>
    if p.payloadBits + 8 ≤ i ∧ i < p.payloadBits + 24 then
      (b i + (if nRNTI.getLsbD (15 - (i - (p.payloadBits + 8))) then 1 else 0)) % 2
    else b i

/-- `polar_encoder_dci`. -/
def polarEncoderDci (p : PolarParams) (inp : ℕ → BitVec 32) (nRNTI : BitVec 16)
    (nrPolarE : ℕ → UInt8) (out : ℕ → BitVec 32) : ℕ → BitVec 32 :=
  encodeB p (polarDciB p inp nRNTI) nrPolarE out

/-! ## `polar_encoder_fast` -/

/-- `A32_flip` and `A64_flip`: the payload, shifted up to the top of a word of `size` bytes and with
the last byte first, behind 24 ones if `ones_flag` is set. -/
def aFlip (aPrime : BitVec 64) (size : ℕ) (onesFlag : Bool) (i : ℕ) : BitVec 8 :=
  let offset := if onesFlag then 3 else 0
  if i < offset then 0xff#8 else (aPrime >>> (8 * (size - 1 - (i - offset)))).setWidth 8

/-- `tcrc`: the CRC, scrambled with `crcmask`. -/
def tcrc (bitlen : ℕ) (a0 : BitVec 64) (crcmask : BitVec 32) (onesFlag : Bool) : BitVec 64 :=
  let offset := if onesFlag then 3 else 0
  let flip :=
    if bitlen ≤ 32 then aFlip ((a0.setWidth 32 <<< (32 - bitlen)).setWidth 64) 4 onesFlag
    else aFlip (a0 <<< (64 - bitlen)) 8 onesFlag
  (crcmask ^^^ (crc24c flip (8 * offset + bitlen) >>> 8)).setWidth 64 &&& 0xffffff#64

/-- `B`: the payload with the CRC in the low bits. -/
def fastB (p : PolarParams) (a : ℕ → BitVec 64) (tcrc : BitVec 64) (n : ℕ) : BitVec 64 :=
  if n = 0 then (a 0 <<< p.crcParityBits) ||| tcrc
  else if n < (p.K + 63) / 64 then
    if n < (p.payloadBits + 63) / 64 then
      (a n <<< p.crcParityBits) ||| (a (n - 1) >>> (64 - p.crcParityBits))
    else a (n - 1) >>> (64 - p.crcParityBits)
  else 0#64

/-- `Bbyte`. -/
def bByte (b : ℕ → BitVec 64) (i : ℕ) : ℕ := (b (i / 8) >>> (8 * (i % 8))).toNat % 256

/-- `Cprime`: every byte is looked up in its table. -/
def fastCprime (p : PolarParams) (b : ℕ → BitVec 64) (w : ℕ) : BitVec 64 :=
  if p.K < 65 then
    if w = 0 then
      (List.range 8).foldl (fun c i => c ||| p.cprimeTab0 i (bByte b i)) 0#64
    else 0#64
  else
    if w = 0 then
      (List.range (1 + p.K / 8)).foldl (fun c i => c ||| p.cprimeTab0 i (bByte b i)) 0#64
    else if w = 1 then
      (List.range (1 + p.K / 8)).foldl (fun c i => c ||| p.cprimeTab1 i (bByte b i)) 0#64
    else 0#64

/-- `D`: the rows of the generator matrix for the bits that are set. The loops over words and their
bits go over the `K` bits in order. -/
def fastD (p : PolarParams) (cprime : ℕ → BitVec 64) (w : ℕ) : BitVec 64 :=
  if w < p.N / 64 then
    (List.range p.K).foldl (fun d i =>
      d ^^^ (-((cprime (i / 64) >>> (i % 64)) &&& 1#64) &&& p.gNTab i w)) 0#64
  else 0#64

/-- `polar_rate_matching`; `none` stands for the failed assertion. The indices of bits are bytes,
and words that are copied are found with `rm_tab`. -/
def polarRateMatching (p : PolarParams) (inp out : Mem) : Option Mem :=
  if p.groupsize < 8 then
    if p.encoderLength ≤ 512 then
      some fun i =>
        (decide (i < p.encoderLength) && inp (p.rateMatchingPattern i % 256)) ||
          (if i < 128 * (p.encoderLength / 128) then false else out i)
    else none
  else if p.groupsize = 8 then
    some fun i =>
      if i < 8 * (p.encoderLength / 8) then inp (8 * p.rmTab (i / 8) + i % 8) else out i
  else
    some fun i =>
      if i < 16 * (p.encoderLength / 16) then inp (16 * p.rmTab (i / 16) + i % 16) else out i

/-- `polar_encoder_fast`; `none` stands for a failed assertion. -/
def polarEncoderFast (p : PolarParams) (a : ℕ → BitVec 64) (out : Mem) (crcmask : BitVec 32)
    (onesFlag : Bool) : Option Mem :=
  if p.K < 129 ∧ p.payloadBits < 65 then
    let b := fastB p a (tcrc p.payloadBits (a 0) crcmask onesFlag)
    let d := fastD p (fastCprime p b)
    -- `memset` clears whole bytes
    polarRateMatching p (words64 d) fun i => if i < 8 * (p.encoderLength / 8) then false else out i
  else none

/-!
## NR polar codes: what the encoders with one byte for each bit compute

A bit of the code word is a sum over the bits of the message, interleaved, with the rows of the
generator matrix for the information bits.
-/

open Finset

/-- The bit that a byte stands for. -/
def odd (x : UInt8) : Bool := x.toNat.testBit 0

/-- The row of the generator matrix for the information bit `k`. -/
def infoRow (p : PolarParams) (k : ℕ) : ℕ :=
  ((List.range p.N).filter fun n => decide (n ∈ p.qIN)).getD k 0

/-- The bit `j` of the code word for the message `b`. -/
def codeBit (p : PolarParams) (b : ℕ → Bool) (j : ℕ) : Bool :=
  ∑ k ∈ range p.K, b (p.interleavingPattern k) * odd (p.gN (infoRow p k) j)

/-- The code word is linear in the message. -/
theorem codeBit_add (p : PolarParams) (b b' : ℕ → Bool) (j : ℕ) :
    codeBit p (fun k => b k + b' k) j = codeBit p b j + codeBit p b' j := by
  unfold codeBit
  rw [← sum_add_distrib]
  exact sum_congr rfl fun k _ => add_mul _ _ _

theorem codeBit_congr {p : PolarParams} {b b' : ℕ → Bool} {j : ℕ}
    (hlt : ∀ k < p.K, p.interleavingPattern k < p.K) (h : ∀ k < p.K, b k = b' k) :
    codeBit p b j = codeBit p b' j :=
  sum_congr rfl fun k hk => by rw [h _ (hlt k (mem_range.mp hk))]

/-! ## Bytes for bits -/

theorem odd_add (x y : UInt8) : odd (x + y) = odd x + odd y := by
  unfold odd
  rw [UInt8.toNat_add, Bool.add_eq_xor, ← Nat.testBit_xor]
  simp only [Nat.testBit_zero, Nat.xor_mod_two_eq]
  congr 1
  simp only [eq_iff_iff]
  omega

theorem odd_mul (x y : UInt8) : odd (x * y) = odd x * odd y := by
  unfold odd
  rw [UInt8.toNat_mul, Bool.mul_eq_and]
  simp only [Nat.testBit_zero]
  rw [Nat.mod_mod_of_dvd _ (by decide : 2 ∣ 2 ^ 8), Nat.mul_mod]
  rcases Nat.mod_two_eq_zero_or_one x.toNat with hx | hx
  · rw [hx, Nat.zero_mul]
    rfl
  · rw [hx, Nat.one_mul, Nat.mod_mod]
    rfl

theorem odd_mod_two (x : UInt8) : odd (x % 2) = odd x := by
  unfold odd
  simp [UInt8.toNat_mod, Nat.testBit_zero]

theorem mod_two_le (x : UInt8) : (x % 2).toNat ≤ 1 := by
  rw [UInt8.toNat_mod]
  exact Nat.lt_succ_iff.mp (Nat.mod_lt _ (by decide))

@[simp] theorem odd_ite (b : Bool) : odd (if b then 1 else 0) = b := by
  cases b <;> rfl

theorem odd_nrMatrixMultiplication (matrix1 : ℕ → UInt8) (matrix2 : ℕ → ℕ → UInt8) (row i : ℕ) :
    odd (nrMatrixMultiplication matrix1 matrix2 row i) =
      ∑ j ∈ range row, odd (matrix1 j) * odd (matrix2 j i) := by
  unfold nrMatrixMultiplication
  induction row with
  | zero =>
      rw [sum_range_zero, List.range_zero, List.foldl_nil]
      rfl
  | succ row ih =>
      rw [List.range_succ, List.foldl_append, List.foldl_cons, List.foldl_nil, odd_add, odd_mul, ih,
        sum_range_succ]

/-! ## Bytes into words -/

/-- The bytes that have been shifted in, each one moved up by the shifts after it. -/
theorem getLsbD_byte2bitLoop (inp : ℕ → UInt8) (n : ℕ) {j : ℕ} (hj : j < 32) :
    ((List.range n).foldl (fun out m =>
        (out ||| BitVec.ofNat 32 (inp (31 - m)).toNat) <<< 1) 0#32).getLsbD j = true ↔
      ∃ m < n, n - m ≤ j ∧ (inp (31 - m)).toNat.testBit (j - (n - m)) = true := by
  induction n generalizing j with
  | zero => simp
  | succ n ih =>
      rw [List.range_succ, List.foldl_append, List.foldl_cons, List.foldl_nil,
        BitVec.getLsbD_shiftLeft, BitVec.getLsbD_or, BitVec.getLsbD_ofNat]
      rcases Nat.eq_zero_or_pos j with rfl | hpos
      · simp only [decide_true, Bool.not_true, Nat.lt_one_iff, Bool.and_false,
          Bool.false_and, Bool.false_eq_true, false_iff, not_exists, not_and]
        intro m hm hle
        omega
      · have hj1 : j - 1 < 32 := by omega
        have hnot : ¬j < 1 := by omega
        simp only [hj, hj1, hnot, decide_true, decide_false, Bool.not_false, Bool.true_and,
          Bool.or_eq_true]
        rw [ih hj1]
        constructor
        · rintro (⟨m, hm, hle, hbit⟩ | hbit)
          · refine ⟨m, Nat.lt_succ_of_lt hm, by omega, ?_⟩
            rwa [show j - (n + 1 - m) = j - 1 - (n - m) by omega]
          · refine ⟨n, Nat.lt_succ_self n, by omega, ?_⟩
            rwa [show j - (n + 1 - n) = j - 1 by omega]
        · rintro ⟨m, hm, hle, hbit⟩
          rcases Nat.lt_succ_iff_lt_or_eq.mp hm with hm | rfl
          · refine Or.inl ⟨m, hm, by omega, ?_⟩
            rwa [show j - 1 - (n - m) = j - (n + 1 - m) by omega]
          · refine Or.inr ?_
            rwa [show j - 1 = j - (m + 1 - m) by omega]

/-- A bit of the word is its byte, when this one and those before it are bits. -/
theorem getLsbD_byte2bitWord {inp : ℕ → UInt8} {j : ℕ} (hj : j < 32)
    (h : ∀ m ≤ j, (inp m).toNat ≤ 1) : (byte2bitWord inp).getLsbD j = odd (inp j) := by
  have hbit : ∀ m ≤ j, ∀ k, (inp m).toNat.testBit k = true ↔ k = 0 ∧ odd (inp m) = true := by
    intro m hm k
    have hle := h m hm
    unfold odd
    cases k with
    | zero => simp
    | succ k =>
        have hlow : (inp m).toNat < 2 ^ (k + 1) := by
          have := Nat.one_lt_two_pow (Nat.succ_ne_zero k)
          omega
        simp [Nat.testBit_lt_two_pow hlow]
  rw [Bool.eq_iff_iff]
  unfold byte2bitWord
  rw [BitVec.getLsbD_or, Bool.or_eq_true, getLsbD_byte2bitLoop inp 31 hj, BitVec.getLsbD_ofNat]
  simp only [hj, decide_true, Bool.true_and]
  rw [hbit 0 (Nat.zero_le j)]
  constructor
  · rintro (⟨m, hm, hle, hset⟩ | ⟨rfl, hodd⟩)
    · rw [show 31 - m = 31 - m from rfl, hbit _ hle] at hset
      rw [← show 31 - m = j by omega]
      exact hset.2
    · exact hodd
  · intro hodd
    rcases Nat.eq_zero_or_pos j with rfl | hpos
    · exact Or.inr ⟨rfl, hodd⟩
    · refine Or.inl ⟨31 - j, by omega, by omega, ?_⟩
      rw [show 31 - (31 - j) = j by omega, hbit j le_rfl]
      exact ⟨by omega, hodd⟩

theorem words32_nrByte2bit {inp : ℕ → UInt8} {arraySize i : ℕ} (out : ℕ → BitVec 32)
    (hi : i < arraySize) (h : ∀ j < arraySize, (inp j).toNat ≤ 1) :
    words32 (nrByte2bitUint8_32 inp arraySize out) i = odd (inp i) := by
  have hword : i / 32 < (arraySize + 31) / 32 := by omega
  unfold words32 nrByte2bitUint8_32
  rw [if_pos hword, getLsbD_byte2bitWord (Nat.mod_lt i (by decide)), Nat.div_add_mod']
  intro m hm
  exact h _ (by omega)

/-! ## Interleaving, bit insertion, polar code, rate matching -/

theorem odd_nrPolarBitInsertion (input : ℕ → UInt8) (qIN : List ℕ) (n : ℕ) :
    odd (nrPolarBitInsertion input qIN n) = if decide (n ∈ qIN) then
      odd (input ((List.range n).countP fun m => decide (m ∈ qIN))) else 0 := by
  unfold nrPolarBitInsertion
  by_cases hn : n ∈ qIN
  · rw [if_pos hn, if_pos (decide_eq_true hn)]
  · rw [if_neg hn, if_neg (by simpa using hn)]
    rfl

/-- **The bits behind the message with its CRC** are those of the code word, in the order of the rate
matching. -/
theorem words32_encodeB {p : PolarParams}
    (hinfo : ((List.range p.N).filter fun n => decide (n ∈ p.qIN)).length = p.K)
    (nrPolarB nrPolarE : ℕ → UInt8) (out : ℕ → BitVec 32) {i : ℕ} (hi : i < p.encoderLength) :
    words32 (encodeB p nrPolarB nrPolarE out) i =
      codeBit p (fun k => odd (nrPolarB k)) (p.rateMatchingPattern i) := by
  unfold encodeB
  rw [words32_nrByte2bit out hi]
  · unfold nrPolarInterleaver
    rw [if_pos hi, odd_mod_two, odd_nrMatrixMultiplication]
    simp only [odd_nrPolarBitInsertion]
    rw [BitSums.sum_rank (fun n => decide (n ∈ p.qIN))
      (fun k => odd (if k < p.K then nrPolarB (p.interleavingPattern k) else 0))
      (fun n => odd (p.gN n (p.rateMatchingPattern i))), hinfo]
    refine sum_congr rfl fun k hk => ?_
    simp only [if_pos (mem_range.mp hk)]
    rfl
  · intro j hj
    unfold nrPolarInterleaver
    rw [if_pos hj]
    exact mod_two_le _

end OaiCu.NrPolar
