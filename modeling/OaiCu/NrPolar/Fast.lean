import OaiCu.NrPolar.Crc24
import OaiCu.NrPolar.Tables

/-!
# NR polar codes: what the encoder with words computes

The tables give the bits of the same code word. The message is in memory the other way round, with
its last bit first.
-/

namespace OaiCu.NrPolar

open Finset Crc
open NrLdpc (crc24c poly24c)

/-! ## The message with its CRC -/

/-- The payload in the order of transmission: it is in the word the other way round. -/
def payloadBit (bitlen : ℕ) (a0 : BitVec 64) (k : ℕ) : Bool := a0.getLsbD (bitlen - 1 - k)

theorem aFlip_ones {aPrime : BitVec 64} {size k : ℕ} (hk : k < 24) :
    (aFlip aPrime size true (k / 8)).getMsbD (k % 8) = true := by
  have hbyte : k / 8 < 3 := by omega
  have hall : ∀ r < 8, (0xff#8).getMsbD r = true := by decide
  unfold aFlip
  simp only [if_true, if_pos hbyte]
  exact hall _ (Nat.mod_lt k (by decide))

/-- The bits of the payload are read from the top of the word. -/
theorem aFlip_payload {aPrime : BitVec 64} {size k : ℕ} (onesFlag : Bool) (hk : k < 8 * size) :
    (aFlip aPrime size onesFlag (((onesBits onesFlag).length + k) / 8)).getMsbD
      (((onesBits onesFlag).length + k) % 8) = aPrime.getLsbD (8 * size - 1 - k) := by
  have hread : ∀ offset,
      ((aPrime >>> (8 * (size - 1 - ((8 * offset + k) / 8 - offset)))).setWidth 8).getMsbD
        ((8 * offset + k) % 8) = aPrime.getLsbD (8 * size - 1 - k) := by
    intro offset
    have hmod : (8 * offset + k) % 8 = k % 8 := by omega
    have hlt : k % 8 < 8 := Nat.mod_lt k (by decide)
    have h7 : 7 - k % 8 < 8 := by omega
    have hidx : 8 * (size - 1 - ((8 * offset + k) / 8 - offset)) + (7 - k % 8) =
        8 * size - 1 - k := by omega
    simp only [BitVec.getMsbD, BitVec.getLsbD_setWidth, BitVec.getLsbD_ushiftRight, hmod, hlt,
      Nat.add_one_sub_one, h7, hidx, decide_true, Bool.true_and]
  cases onesFlag with
  | true =>
      have hge : ¬(8 * 3 + k) / 8 < 3 := by omega
      simp only [onesBits, if_true, List.length_replicate, aFlip]
      rw [show 24 + k = 8 * 3 + k from rfl, if_neg hge]
      exact hread 3
  | false =>
      simp only [onesBits, Bool.false_eq_true, if_false, List.length_nil, aFlip, Nat.not_lt_zero]
      exact hread 0

/-- What `crc24c` reads. -/
theorem bits_aFlip {aPrime : BitVec 64} {size bitlen : ℕ} {a0 : BitVec 64} (onesFlag : Bool)
    (hlen : bitlen ≤ 8 * size)
    (h : ∀ k < bitlen, aPrime.getLsbD (8 * size - 1 - k) = payloadBit bitlen a0 k) :
    bits (aFlip aPrime size onesFlag) ((onesBits onesFlag).length + bitlen) =
      onesBits onesFlag ++ (List.range bitlen).map (payloadBit bitlen a0) := by
  unfold bits
  rw [List.range_add, List.map_append, List.map_map]
  congr 1
  · cases onesFlag with
    | false => rfl
    | true =>
        refine List.ext_getElem (by simp [onesBits]) fun k h1 h2 => ?_
        have hk : k < 24 := by simpa [onesBits] using h1
        simp only [List.getElem_map, List.getElem_range, onesBits, if_true, List.getElem_replicate]
        exact aFlip_ones hk
  · refine List.map_congr_left fun k hk => ?_
    have hk := List.mem_range.mp hk
    rw [Function.comp, aFlip_payload onesFlag (by omega), h k hk]

/-- **The CRC of the fast encoder**, scrambled. -/
theorem getLsbD_tcrc {bitlen : ℕ} (hlen : bitlen ≤ 64) (a0 : BitVec 64) (crcmask : BitVec 32)
    (onesFlag : Bool) {q : ℕ} (hq : q < 24) :
    (tcrc bitlen a0 crcmask onesFlag).getLsbD q = (crcmask.getLsbD q ^^
      (run poly24c 0#32
        (onesBits onesFlag ++ (List.range bitlen).map (payloadBit bitlen a0))).getMsbD (23 - q)) := by
  have hoffset : 8 * (if onesFlag then 3 else 0) = (onesBits onesFlag).length := by
    cases onesFlag <;> simp [onesBits]
  have hflip : crc24c (if bitlen ≤ 32 then
        aFlip ((a0.setWidth 32 <<< (32 - bitlen)).setWidth 64) 4 onesFlag
      else aFlip (a0 <<< (64 - bitlen)) 8 onesFlag) ((onesBits onesFlag).length + bitlen) =
      run poly24c 0#32 (onesBits onesFlag ++ (List.range bitlen).map (payloadBit bitlen a0)) := by
    rw [crc24c_eq]
    split
    · rw [bits_aFlip onesFlag (by omega)]
      intro k hk
      have h1 : 31 - k < 32 := by omega
      have h2 : 31 - k < 64 := by omega
      have h3 : ¬31 - k < 32 - bitlen := by omega
      have h4 : 31 - k - (32 - bitlen) = bitlen - 1 - k := by omega
      simp [payloadBit, h1, h2, h3, h4]
    · rw [bits_aFlip onesFlag (by omega)]
      intro k hk
      have h1 : 63 - k < 64 := by omega
      have h2 : ¬63 - k < 64 - bitlen := by omega
      have h3 : 63 - k - (64 - bitlen) = bitlen - 1 - k := by omega
      simp only [payloadBit, BitVec.getLsbD_shiftLeft, Nat.add_one_sub_one, h1, h2, h3, decide_true,
        decide_false, Bool.not_false, Bool.true_and]
  have hmask : (0xffffff#64).getLsbD q = true := by
    have hall : ∀ q < 24, (0xffffff#64).getLsbD q = true := by decide
    exact hall q hq
  unfold tcrc
  simp only [hoffset, hflip, BitVec.getLsbD_and, hmask, Bool.and_true, BitVec.getLsbD_setWidth,
    BitVec.getLsbD_xor, BitVec.getLsbD_ushiftRight]
  have h1 : q < 64 := by omega
  have h2 : 23 - q < 32 := by omega
  have h3 : 31 - (23 - q) = 8 + q := by omega
  simp [BitVec.getMsbD, h1, h2, h3]

theorem tcrc_high (bitlen : ℕ) (a0 : BitVec 64) (crcmask : BitVec 32) (onesFlag : Bool) {q : ℕ}
    (hq : 24 ≤ q) : (tcrc bitlen a0 crcmask onesFlag).getLsbD q = false := by
  have hmask : (0xffffff#64).getLsbD q = false := by
    refine Nat.testBit_lt_two_pow (lt_of_lt_of_le ?_ (Nat.pow_le_pow_right (by decide) hq))
    decide
  unfold tcrc
  simp only [BitVec.getLsbD_and, hmask, Bool.and_false]

/-- The bits of `B`. -/
theorem words64_fastB {p : PolarParams} (hcrc : p.crcParityBits = 24) (hpayload : p.payloadBits ≤ 64)
    (hK : p.K = p.payloadBits + 24) (a : ℕ → BitVec 64) (crcmask : BitVec 32) (onesFlag : Bool)
    {q : ℕ} (hq : q < p.K) :
    words64 (fastB p a (tcrc p.payloadBits (a 0) crcmask onesFlag)) q =
      if q < 24 then (tcrc p.payloadBits (a 0) crcmask onesFlag).getLsbD q
      else (a 0).getLsbD (q - 24) := by
  unfold words64 fastB
  rw [hcrc]
  rcases Nat.lt_or_ge q 64 with hlow | hhigh
  · have hdiv : q / 64 = 0 := Nat.div_eq_of_lt hlow
    rw [if_pos hdiv, Nat.mod_eq_of_lt hlow, BitVec.getLsbD_or, BitVec.getLsbD_shiftLeft]
    split
    · rename_i h24
      simp [h24]
    · rename_i h24
      rw [tcrc_high _ _ _ _ (not_lt.mp h24)]
      simp [h24, hlow]
  · have hdiv : q / 64 = 1 := by omega
    have hquad : 1 < (p.K + 63) / 64 := by omega
    have hone : ¬1 < (p.payloadBits + 63) / 64 := by omega
    have h24 : ¬q < 24 := by omega
    have hidx : 40 + q % 64 = q - 24 := by omega
    rw [hdiv, if_neg (by decide), if_pos hquad, if_neg hone, if_neg h24,
      BitVec.getLsbD_ushiftRight, hidx]

/-! ## The tables of the interleaver -/

theorem testBit_bByte (b : ℕ → BitVec 64) (byte : ℕ) {i : ℕ} (hi : i < 8) :
    (bByte b byte).testBit i = words64 b (8 * byte + i) := by
  have hdiv : (8 * byte + i) / 64 = byte / 8 := by omega
  have hmod : (8 * byte + i) % 64 = 8 * (byte % 8) + i := by omega
  unfold bByte words64
  rw [show 256 = 2 ^ 8 from rfl, Nat.testBit_mod_two_pow, hdiv, hmod]
  simp only [hi, decide_true, Bool.true_and]
  exact BitVec.getLsbD_ushiftRight _ _ _

theorem getLsbD_cprimeBit (val i ip half : ℕ) {t : ℕ} (ht : t < 64) :
    (cprimeBit val i ip half).getLsbD t = true ↔ ip = 64 * half + t ∧ val.testBit i = true := by
  unfold cprimeBit
  have hbit : val.testBit i = decide (val >>> i % 2 = 1) := by
    rw [← Nat.testBit_zero, Nat.testBit_shiftRight, Nat.add_zero]
  rw [hbit, decide_eq_true_eq]
  by_cases hhalf : ip / 64 = half
  · rw [if_pos hhalf, BitVec.getLsbD_shiftLeft, BitVec.getLsbD_ofNat]
    simp only [ht, decide_true, Bool.true_and, Bool.and_eq_true, Bool.not_eq_true',
      decide_eq_false_iff_not, decide_eq_true_eq]
    rcases Nat.mod_two_eq_zero_or_one (val >>> i) with hval | hval
    · rw [hval]
      simp
    · rw [hval]
      constructor
      · rintro ⟨hge, -, hone⟩
        have hsub : t - ip % 64 = 0 := by
          by_contra hne
          have hzero : (1 : ℕ).testBit (t - ip % 64) = false :=
            Nat.testBit_lt_two_pow (Nat.one_lt_two_pow hne)
          rw [hzero] at hone
          cases hone
        exact ⟨by omega, rfl⟩
      · rintro ⟨hip, -⟩
        have hsub : t - ip % 64 = 0 := by omega
        refine ⟨by omega, by omega, ?_⟩
        rw [hsub]
        rfl
  · rw [if_neg hhalf]
    simp only [BitVec.getLsbD_zero, Bool.false_eq_true, false_iff, not_and]
    intro hip
    omega

/-- The bits of a byte that belong to the message. -/
def numbits (K byte : ℕ) : ℕ := if byte < K / 8 then 8 else if byte = K / 8 then K % 8 else 0

theorem numbits_spec {K byte i : ℕ} : i < numbits K byte ↔ i < 8 ∧ 8 * byte + i < K := by
  unfold numbits
  split
  · omega
  · split
    all_goals omega

theorem getLsbD_cprimeTab (K : ℕ) (d : ℕ → ℕ) (half byte val : ℕ) {t : ℕ} (ht : t < 64) :
    (cprimeTab K d half byte val).getLsbD t = true ↔
      ∃ i < numbits K byte, d (K - 1 - (8 * byte + i)) = 64 * half + t ∧ val.testBit i = true := by
  unfold cprimeTab
  rw [BitSums.getLsbD_foldl_or, BitVec.getLsbD_zero, Bool.false_or, List.any_eq_true]
  simp only [List.mem_range, getLsbD_cprimeBit _ _ _ _ ht]
  rfl

/-- The loops over the bytes of `B`: the bit `i` of the interleaved message is the one of `B` that the
pattern says, counted from the end. -/
theorem getLsbD_cprimeLoop {K nb half t : ℕ} {pattern : List ℕ}
    (hperm : pattern.Perm (List.range K)) (b : ℕ → BitVec 64) (ht : t < 64)
    (hi : 64 * half + t < K) (hnb : K ≤ 8 * nb) :
    ((List.range nb).foldl (fun c byte =>
      c ||| cprimeTab K (invertPattern pattern) half byte (bByte b byte)) 0#64).getLsbD t =
        words64 b (K - 1 - pattern.getD (64 * half + t) 0) := by
  have hlt : pattern.getD (64 * half + t) 0 < K := pattern_lt hperm hi
  rw [Bool.eq_iff_iff, BitSums.getLsbD_foldl_or, BitVec.getLsbD_zero, Bool.false_or,
    List.any_eq_true]
  constructor
  · rintro ⟨byte, -, hbyte⟩
    obtain ⟨i, hnum, hd, hbit⟩ := (getLsbD_cprimeTab _ _ _ _ _ ht).mp hbyte
    obtain ⟨h8, hpos⟩ := numbits_spec.mp hnum
    obtain ⟨k, hk, hkeq⟩ := pattern_surjective hperm (show K - 1 - (8 * byte + i) < K by omega)
    rw [← hkeq, invertPattern_apply hperm hk] at hd
    subst hd
    rw [testBit_bByte b byte h8] at hbit
    rwa [hkeq, show K - 1 - (K - 1 - (8 * byte + i)) = 8 * byte + i by omega]
  · intro hset
    have hmod := Nat.div_add_mod (K - 1 - pattern.getD (64 * half + t) 0) 8
    have h8 := Nat.mod_lt (K - 1 - pattern.getD (64 * half + t) 0) (by decide : 0 < 8)
    refine ⟨(K - 1 - pattern.getD (64 * half + t) 0) / 8, List.mem_range.mpr (by omega),
      (getLsbD_cprimeTab _ _ _ _ _ ht).mpr
        ⟨(K - 1 - pattern.getD (64 * half + t) 0) % 8, numbits_spec.mpr ⟨h8, by omega⟩, ?_, ?_⟩⟩
    · rw [hmod, show K - 1 - (K - 1 - pattern.getD (64 * half + t) 0) =
        pattern.getD (64 * half + t) 0 by omega, invertPattern_apply hperm hi]
    · rw [testBit_bByte b _ h8, hmod]
      exact hset

/-!
## NR polar codes: the fast encoder computes the code word

The rows of the generator matrix are packed into words, and the rate matching copies groups of bits.
Groups of four bits are put into the buffer one bit after the other, and only where they are set.
-/

/-- The parameters and the tables of `newPolarParams`, as far as the encoders rely on them. -/
structure Tabulated (p : PolarParams) (pattern : List ℕ) (g : ℕ) : Prop where
  payload_le : p.payloadBits ≤ 64
  crcParityBits : p.crcParityBits = 24
  K_eq : p.K = p.payloadBits + 24
  perm : pattern.Perm (List.range p.K)
  interleaving : ∀ k, p.interleavingPattern k = pattern.getD k 0
  cprimeTab0 : p.cprimeTab0 = cprimeTab p.K (invertPattern pattern) 0
  cprimeTab1 : p.cprimeTab1 = cprimeTab p.K (invertPattern pattern) 1
  gNTab : ∀ k, p.gNTab k = packRow p.N (p.gN (infoRow p k))
  entries : ∀ k < p.K, ∀ j < p.N, (p.gN (infoRow p k) j).toNat ≤ 1
  N_dvd : 64 ∣ p.N
  infoLength : ((List.range p.N).filter fun n => decide (n ∈ p.qIN)).length = p.K
  grouped : Grouped p.N p.encoderLength g p.rateMatchingPattern
  groupsize : p.groupsize = g
  rmTab : ∀ t, p.rmTab t = p.rateMatchingPattern (t * g) / g

section

variable {p : PolarParams} {pattern : List ℕ} {g : ℕ}

theorem Tabulated.interleaving_lt (h : Tabulated p pattern g) :
    ∀ k < p.K, p.interleavingPattern k < p.K := by
  intro k hk
  rw [h.interleaving]
  exact pattern_lt h.perm hk

/-! ## The interleaved message -/

/-- `Cprime`. -/
theorem words64_fastCprime (h : Tabulated p pattern g) (b : ℕ → BitVec 64) {i : ℕ} (hi : i < p.K) :
    words64 (fastCprime p b) i = words64 b (p.K - 1 - p.interleavingPattern i) := by
  have hpayload := h.payload_le
  have hK := h.K_eq
  have hmod : i % 64 < 64 := Nat.mod_lt i (by decide)
  have hdiv := Nat.div_add_mod i 64
  have hloop : ∀ nb half, half = i / 64 → p.K ≤ 8 * nb → ((List.range nb).foldl (fun c byte =>
      c ||| cprimeTab p.K (invertPattern pattern) half byte (bByte b byte)) 0#64).getLsbD (i % 64) =
        words64 b (p.K - 1 - p.interleavingPattern i) := by
    intro nb half hhalf hnb
    subst hhalf
    rw [getLsbD_cprimeLoop h.perm b hmod (hdiv.symm ▸ hi) hnb, hdiv, h.interleaving]
  unfold words64 fastCprime
  rw [h.cprimeTab0, h.cprimeTab1]
  split
  · rw [if_pos (by omega)]
    exact hloop 8 0 (by omega) (by omega)
  · rcases Nat.lt_or_ge i 64 with hlow | hhigh
    · rw [if_pos (by omega)]
      exact hloop _ 0 (by omega) (by omega)
    · rw [if_neg (by omega), if_pos (by omega)]
      exact hloop _ 1 (by omega) (by omega)

/-! ## The product with the packed rows -/

theorem getLsbD_packRow {N : ℕ} {row : ℕ → UInt8} (hrow : ∀ j < N, (row j).toNat ≤ 1) {j : ℕ}
    (hj : j < N) : (packRow N row (j / 64)).getLsbD (j % 64) = odd (row j) := by
  have hstep : ∀ (tab : BitVec 64) (i : ℕ),
      (if i / 64 = j / 64 then tab ||| (BitVec.ofNat 64 (row i).toNat <<< (i % 64)) else tab) =
        tab ||| (if i / 64 = j / 64 then BitVec.ofNat 64 (row i).toNat <<< (i % 64) else 0#64) := by
    intro tab i
    split
    · rfl
    · exact BitVec.or_zero.symm
  -- only the entry `j` has a bit at this place
  have hentry : ∀ i < N, (if i / 64 = j / 64 then
      BitVec.ofNat 64 (row i).toNat <<< (i % 64) else 0#64).getLsbD (j % 64) =
        (decide (i = j) && odd (row i)) := by
    intro i hi
    have hle := hrow i hi
    by_cases hdiv : i / 64 = j / 64
    · rw [if_pos hdiv, BitVec.getLsbD_shiftLeft, BitVec.getLsbD_ofNat]
      unfold odd
      rcases Nat.lt_trichotomy (j % 64) (i % 64) with hlt | heq | hgt
      · simp [hlt, show i ≠ j by omega]
      · have hij : i = j := by omega
        simp [hij, Nat.mod_lt j (by decide : 0 < 64)]
      · have hzero : (row i).toNat.testBit (j % 64 - i % 64) = false :=
          Nat.testBit_lt_two_pow (lt_of_le_of_lt hle (Nat.one_lt_two_pow (by omega)))
        simp [hzero, show i ≠ j by omega]
    · rw [if_neg hdiv, BitVec.getLsbD_zero, decide_eq_false (by rintro rfl; exact hdiv rfl),
        Bool.false_and]
  unfold packRow
  simp only [hstep]
  rw [Bool.eq_iff_iff, BitSums.getLsbD_foldl_or, BitVec.getLsbD_zero, Bool.false_or,
    List.any_eq_true]
  constructor
  · rintro ⟨i, hi, hset⟩
    rw [hentry i (List.mem_range.mp hi), Bool.and_eq_true, decide_eq_true_eq] at hset
    obtain ⟨rfl, hodd⟩ := hset
    exact hodd
  · intro hodd
    refine ⟨j, List.mem_range.mpr hj, ?_⟩
    rw [hentry j hj, decide_eq_true rfl, hodd, Bool.true_and]

/-- A word that is kept or cleared by a bit. -/
theorem getLsbD_select (x g : BitVec 64) (s : ℕ) {t : ℕ} (ht : t < 64) :
    (-((x >>> s) &&& 1#64) &&& g).getLsbD t = (x.getLsbD s && g.getLsbD t) := by
  have hbit : (x >>> s) &&& 1#64 = if x.getLsbD s then 1#64 else 0#64 := by
    rw [BitVec.and_one_eq_setWidth_ofBool_getLsbD, BitVec.getLsbD_ushiftRight, Nat.add_zero]
    cases x.getLsbD s <;> rfl
  rw [hbit, BitVec.getLsbD_and]
  cases x.getLsbD s with
  | false => simp
  | true =>
      have hones : (-1#64 : BitVec 64) = BitVec.allOnes 64 := rfl
      rw [if_pos rfl, hones, BitVec.getLsbD_allOnes, decide_eq_true ht]

/-- **`D` is the code word** of the message in `B`, whose first bit is the last one. -/
theorem words64_fastD (h : Tabulated p pattern g) (b : ℕ → BitVec 64) {j : ℕ} (hj : j < p.N) :
    words64 (fastD p (fastCprime p b)) j = codeBit p (fun k => words64 b (p.K - 1 - k)) j := by
  obtain ⟨m, hm⟩ := h.N_dvd
  have hw : j / 64 < p.N / 64 := by omega
  have hj64 : j % 64 < 64 := Nat.mod_lt j (by decide)
  unfold codeBit
  have hunfold : words64 (fastD p (fastCprime p b)) j =
      ∑ i ∈ range p.K, (-((fastCprime p b (i / 64) >>> (i % 64)) &&& 1#64) &&&
        p.gNTab i (j / 64)).getLsbD (j % 64) := by
    rw [← BitSums.getLsbD_foldl_xor]
    unfold words64 fastD
    rw [if_pos hw]
  rw [hunfold]
  refine sum_congr rfl fun i hi => ?_
  have hi := mem_range.mp hi
  rw [getLsbD_select _ _ _ hj64, h.gNTab, getLsbD_packRow (h.entries i hi) hj]
  change (words64 (fastCprime p b) i && _) = (words64 b (p.K - 1 - p.interleavingPattern i) && _)
  rw [words64_fastCprime h b hi]

/-! ## Rate matching -/

/-- What is in the buffer behind the bytes that are cleared, when the groups are small. -/
def remains (p : PolarParams) (out : Mem) (i : ℕ) : Bool :=
  decide (p.groupsize < 8) && decide (8 * (p.encoderLength / 8) ≤ i) && out i

/-- **The bits of the channel are those of the code word**, in the order of the rate matching, and the
bits that remain in the buffer. -/
theorem polarRateMatching_eq (h : Tabulated p pattern g) (hg : g = 4 ∧ p.encoderLength < 128 ∨ g = 8 ∨ g = 16)
    (inp out : Mem) :
    ∃ res, polarRateMatching p inp (fun i => if i < 8 * (p.encoderLength / 8) then false else out i) =
      some res ∧ ∀ i < p.encoderLength,
        res i = (inp (p.rateMatchingPattern i) || remains p out i) := by
  obtain ⟨hN, -, hdvd, q, hq⟩ := h.grouped
  -- a whole group is found with the table
  have hgroup : ∀ i < p.encoderLength, 0 < g →
      g * p.rmTab (i / g) + i % g = p.rateMatchingPattern i := by
    intro i hi hpos
    have hdiv := Nat.div_add_mod i g
    have hle : g * (i / g) ≤ i := Nat.mul_div_le i g
    have h1 := (hq (i / g) (i % g) (Nat.mod_lt i hpos) (hdiv.symm ▸ hi)).1
    have h2 := (hq (i / g) 0 hpos (by omega)).1
    rw [Nat.add_zero, Nat.add_zero, Nat.mul_comm g (i / g)] at h2
    rw [h.rmTab, h2, Nat.mul_div_cancel_left _ hpos, ← h1, hdiv]
  unfold polarRateMatching remains
  rcases hg with ⟨rfl, hE⟩ | rfl | rfl
  · rw [h.groupsize, if_pos (by decide), if_pos (by omega)]
    refine ⟨_, rfl, fun i hi => ?_⟩
    have hdiv := Nat.div_add_mod i 4
    have hpat := hq (i / 4) (i % 4) (Nat.mod_lt i (by decide)) (hdiv.symm ▸ hi)
    rw [hdiv] at hpat
    have hrmp : p.rateMatchingPattern i % 256 = p.rateMatchingPattern i := by omega
    have hclear : ¬i < 128 * (p.encoderLength / 128) := by omega
    simp only [hi, decide_true, Bool.true_and, hrmp, hclear, if_false, show 4 < 8 by decide]
    rcases Nat.lt_or_ge i (8 * (p.encoderLength / 8)) with hlt | hge
    · rw [if_pos hlt, decide_eq_false (Nat.not_le.mpr hlt), Bool.false_and]
    · rw [if_neg (Nat.not_lt.mpr hge), decide_eq_true hge, Bool.true_and]
  · rw [h.groupsize, if_neg (by decide), if_pos rfl]
    refine ⟨_, rfl, fun i hi => ?_⟩
    have hall : i < 8 * (p.encoderLength / 8) := by
      rw [Nat.mul_div_cancel' hdvd]
      exact hi
    rw [if_pos hall, hgroup i hi (by decide)]
    simp
  · rw [h.groupsize, if_neg (by decide), if_neg (by decide)]
    refine ⟨_, rfl, fun i hi => ?_⟩
    have hall : i < 16 * (p.encoderLength / 16) := by
      rw [Nat.mul_div_cancel' hdvd]
      exact hi
    rw [if_pos hall, hgroup i hi (by decide)]
    simp

/-- **The bits that `polar_encoder_fast` writes.** -/
theorem polarEncoderFast_eq (h : Tabulated p pattern g)
    (hg : g = 4 ∧ p.encoderLength < 128 ∨ g = 8 ∨ g = 16) (a : ℕ → BitVec 64) (out : Mem)
    (crcmask : BitVec 32) (onesFlag : Bool) :
    ∃ res, polarEncoderFast p a out crcmask onesFlag = some res ∧ ∀ i < p.encoderLength,
      res i = (codeBit p (message p.payloadBits (payloadBit p.payloadBits (a 0)) crcmask onesFlag)
        (p.rateMatchingPattern i) || remains p out i) := by
  have hK := h.K_eq
  have hpayload := h.payload_le
  obtain ⟨res, hres, hbits⟩ := polarRateMatching_eq h hg (words64 (fastD p (fastCprime p
    (fastB p a (tcrc p.payloadBits (a 0) crcmask onesFlag))))) out
  refine ⟨res, ?_, fun i hi => ?_⟩
  · unfold polarEncoderFast
    rw [if_pos ⟨by omega, by omega⟩]
    exact hres
  · obtain ⟨hN, hpos, -, q, hq⟩ := h.grouped
    have hdiv := Nat.div_add_mod i g
    have hmod := Nat.mod_lt i hpos
    obtain ⟨hrmp, hq32⟩ := hq (i / g) (i % g) hmod (hdiv.symm ▸ hi)
    rw [hdiv] at hrmp
    have hlt : p.rateMatchingPattern i < p.N := by
      rw [hrmp, hN, Nat.mul_comm 32 g]
      calc g * q (i / g) + i % g < g * q (i / g) + g := Nat.add_lt_add_left hmod _
        _ = g * (q (i / g) + 1) := (Nat.mul_succ _ _).symm
        _ ≤ g * 32 := Nat.mul_le_mul_left g hq32
    rw [hbits i hi, words64_fastD h _ hlt]
    congr 1
    refine codeBit_congr h.interleaving_lt fun k hk => ?_
    rw [words64_fastB h.crcParityBits hpayload hK a crcmask onesFlag (by omega)]
    unfold message
    split
    · rename_i h24
      rw [if_neg (by omega), getLsbD_tcrc hpayload _ _ _ h24,
        show 23 - (p.K - 1 - k) = k - p.payloadBits by omega,
        show p.K - 1 - k = 23 - (k - p.payloadBits) by omega]
    · rename_i h24
      rw [if_pos (by omega), show p.K - 1 - k - 24 = p.payloadBits - 1 - k by omega]
      rfl

end

end OaiCu.NrPolar
