import OaiCu.NrPolar.Codes

/-!
# NR polar codes: the fast encoder against the plain ones

Both encode the same message with the same code. The fast one leaves up to four bits of the buffer as
they were at the first aggregation level.
-/

namespace OaiCu.NrPolar

open Finset Crc
open NrLdpc (poly24c)

/-! ## The messages of the plain encoders -/

section Message

variable {p : PolarParams}

theorem getD_map_range (f : ℕ → Bool) {n j : ℕ} (hj : j < n) :
    ((List.range n).map f).getD j false = f j := by
  rw [List.getD_eq_getElem _ _ (by simpa using hj)]
  simp

/-- What the generator matrix of `polar_encoder` gives. -/
theorem sum_crc (l : List Bool) {a : ℕ → UInt8} (ha : ∀ j < l.length, odd (a j) = l.getD j false)
    {c : ℕ} (hc : c < 24) :
    odd (nrMatrixMultiplication a (crc24cGeneratorMatrix l.length) l.length c % 2) =
      (run poly24c 0#32 l).getMsbD c := by
  rw [odd_mod_two, odd_nrMatrixMultiplication, ← sum_crc24cGeneratorMatrix l hc]
  exact sum_congr rfl fun j hj => by rw [ha j (mem_range.mp hj)]

/-- **`polar_encoder` encodes the payload with its CRC.** -/
theorem odd_polarB (hK : p.K = p.payloadBits + 24)
    (hcrc : p.crcGeneratorMatrix = crc24cGeneratorMatrix p.payloadBits) (inp : ℕ → BitVec 32) {k : ℕ}
    (hk : k < p.K) :
    odd (polarB p inp k) = message p.payloadBits (words32 inp) 0#32 false k := by
  unfold polarB message
  dsimp only
  split
  · exact odd_ite _
  · rename_i hge
    have hlen : ((List.range p.payloadBits).map (words32 inp)).length = p.payloadBits := by simp
    have hsum := @sum_crc ((List.range p.payloadBits).map (words32 inp)) (nrBit2byteUint32_8 inp)
      (fun j hj => by
        rw [getD_map_range _ (hlen ▸ hj)]
        exact odd_ite _) (k - p.payloadBits) (by omega)
    rw [hlen] at hsum
    rw [hcrc, hsum, BitVec.getLsbD_zero, Bool.false_xor]
    rfl

/-- **`polar_encoder_dci` encodes the payload with its CRC**, which starts with ones and is scrambled
with the RNTI. -/
theorem odd_polarDciB (hK : p.K = p.payloadBits + 24) (hparity : p.crcParityBits = 24)
    (hcrc : p.crcGeneratorMatrix = crc24cGeneratorMatrix p.K) (inp : ℕ → BitVec 32)
    (nRNTI : BitVec 16) {k : ℕ} (hk : k < p.K) :
    odd (polarDciB p inp nRNTI k) =
      message p.payloadBits (words32 inp) (nRNTI.setWidth 32) true k := by
  have hlen : (onesBits true ++ (List.range p.payloadBits).map (words32 inp)).length = p.K := by
    rw [List.length_append, length_onesBits, List.length_map, List.length_range, hK, Nat.add_comm]
  have hbits : ∀ j < p.K, odd (if j < p.crcParityBits then 1
      else nrBit2byteUint32_8 inp (j - p.crcParityBits)) =
        (onesBits true ++ (List.range p.payloadBits).map (words32 inp)).getD j false := by
    intro j hj
    rw [hparity]
    split
    · rename_i h24
      rw [List.getD_append _ _ _ _ (length_onesBits.symm ▸ h24), getD_onesBits h24]
      rfl
    · rename_i h24
      rw [List.getD_append_right _ _ _ _ (length_onesBits.symm ▸ Nat.not_lt.mp h24), length_onesBits,
        getD_map_range _ (by omega)]
      exact odd_ite _
  have hsum := @sum_crc (onesBits true ++ (List.range p.payloadBits).map (words32 inp)) _
    (fun j hj => hbits j (hlen ▸ hj))
  rw [hlen] at hsum
  unfold polarDciB message
  rw [hcrc]
  dsimp only
  rcases Nat.lt_or_ge k p.payloadBits with hlow | hhigh
  · rw [if_neg (by omega), if_pos hlow, if_pos hlow]
    exact odd_ite _
  · rw [if_neg (Nat.not_lt.mpr hhigh), if_neg (Nat.not_lt.mpr hhigh), BitVec.getLsbD_setWidth,
      decide_eq_true (by omega : 23 - (k - p.payloadBits) < 32), Bool.true_and]
    split
    · rename_i hscramble
      rw [odd_mod_two, odd_add, odd_ite, hsum (by omega), Bool.add_eq_xor, Bool.xor_comm,
        show 15 - (k - (p.payloadBits + 8)) = 23 - (k - p.payloadBits) by omega]
    · rename_i hplain
      rw [hsum (by omega), BitVec.getLsbD_of_ge _ _ (by omega), Bool.false_xor]

end Message

/-! ## The first aggregation level -/

section FirstLevel

variable {kroneckerPowerMatrices : ℕ → ℕ → ℕ → UInt8} {A crcRows : ℕ}

/-- The interleaver leaves the last bit where it is. -/
theorem interleaving_last {K : ℕ} (hK : K ≤ 164) (hpos : 0 < K) :
    (nrPolarInterleavingPattern K 1).getD (K - 1) 0 = K - 1 := by
  have hlen : (nrPolarInterleavingPattern K 1).length = K := by
    simpa using (interleaving_perm hK).length_eq
  have htable : interleavingPatternTable = interleavingPatternTable.dropLast ++ [163] := by
    rfl
  have hlast : [163].filter (fun x => decide (164 - K ≤ x)) = [163] :=
    List.filter_cons_of_pos (decide_eq_true (by omega))
  have hpattern : nrPolarInterleavingPattern K 1 =
      ((interleavingPatternTable.dropLast.filter fun x => 164 - K ≤ x).map fun x => x - (164 - K)) ++
        [K - 1] := by
    unfold nrPolarInterleavingPattern
    rw [if_neg (by decide)]
    conv_lhs => rw [htable]
    rw [List.filter_append, List.map_append, hlast, List.map_singleton,
      show 163 - (164 - K) = K - 1 by omega]
  have hfront := congrArg List.length hpattern
  rw [hlen, List.length_append, List.length_singleton] at hfront
  rw [hpattern, List.getD_append_right _ _ _ _ (by omega)]
  rw [show K - 1 - _ = 0 from by omega]
  rfl

/-- The frozen bits depend on the length of the message only by the kind of rate matching. -/
theorem unfrozen_congr {K K' N E : ℕ} (h : 16 * K ≤ 7 * E ↔ 16 * K' ≤ 7 * E) :
    unfrozen K N E = unfrozen K' N E := by
  unfold unfrozen frozenTmp
  simp only [h]

/-- The most reliable bits are among the information bits of a longer message. -/
theorem mem_infoBits_of_le {K K' N E q : ℕ} (hKK : K' ≤ K) (h : 16 * K ≤ 7 * E ↔ 16 * K' ≤ 7 * E)
    (hq : q ∈ infoBits K' N E) : q ∈ infoBits K N E := by
  unfold infoBits at hq ⊢
  rw [unfrozen_congr h]
  exact (List.drop_suffix_drop_left _ (by omega)).subset hq

/-- The last information bits of the first level, for a short message and for a long one, and the
rows of the generator matrix that go with them. -/
theorem level1_tables :
    127 ∈ infoBits 24 (2 ^ 7) 108 ∧ 107 ∈ infoBits 48 (2 ^ 7) 108 ∧
      (unfrozen 48 (2 ^ 7) 108).all (fun q => decide (q ≤ 107)) = true ∧
      (∀ d < 4, nrPolarRateMatchingPattern 47 (2 ^ 7) 108 (104 + d) < 2 ^ 7 ∧
        odd (kroneckerPower 7 127 (nrPolarRateMatchingPattern 47 (2 ^ 7) 108 (104 + d))) = true) ∧
      ∀ d < 4, nrPolarRateMatchingPattern 48 (2 ^ 7) 108 (104 + d) < 2 ^ 7 ∧
        odd (kroneckerPower 7 107 (nrPolarRateMatchingPattern 48 (2 ^ 7) 108 (104 + d))) = true :=
  ⟨by decide, by decide, by decide, by decide, by decide⟩

/-- The last information bit. -/
theorem infoRow_last (hA : A ≤ 64) (hN : nrPolarOutputLength (A + 24) 108 9 = 2 ^ 7) :
    infoRow (newPolarParams kroneckerPowerMatrices A 108 crcRows) (A + 24 - 1) =
      if A + 24 ≤ 47 then 127 else 107 := by
  have hlen := infoBits_spec (Or.inl rfl) (IsCode.level1.frozenTmp_le (show A + 24 ≤ 88 by omega))
  have hlast : ∀ m < 2 ^ 7, m ∈ infoBits (A + 24) (2 ^ 7) 108 →
      (∀ n < 2 ^ 7, n ∈ infoBits (A + 24) (2 ^ 7) 108 → n ≤ m) →
        infoRow (newPolarParams kroneckerPowerMatrices A 108 crcRows) (A + 24 - 1) = m := by
    intro m hm hmem hmax
    have hfilter := BitSums.getD_filter_last (p := fun q => decide (q ∈ infoBits (A + 24) (2 ^ 7) 108))
      hm (decide_eq_true hmem) fun n hn hmem => hmax n hn (of_decide_eq_true hmem)
    rw [hlen] at hfilter
    rw [infoRow_newPolarParams hN, hfilter]
  split
  · refine hlast 127 (by decide) ?_ fun n hn _ => Nat.lt_succ_iff.mp hn
    exact mem_infoBits_of_le (show 24 ≤ A + 24 by omega) (by omega) level1_tables.1
  · refine hlast 107 (by decide) ?_ fun n hn hmem => ?_
    · exact mem_infoBits_of_le (show 48 ≤ A + 24 by omega) (by omega) level1_tables.2.1
    · have hall := level1_tables.2.2.1
      have hmem := List.mem_of_mem_drop hmem
      rw [@unfrozen_congr (A + 24) 48 (2 ^ 7) 108 (by omega)] at hmem
      exact of_decide_eq_true (List.all_eq_true.mp hall n hmem)

/-- The row of the last information bit has ones at all places that the buffer may keep. -/
theorem last_row_one (hkron : GivesKroneckerPowers kroneckerPowerMatrices) (hA : A ≤ 64)
    (hN : nrPolarOutputLength (A + 24) 108 9 = 2 ^ 7) {i : ℕ} (hlow : 104 ≤ i) (hhigh : i < 108) :
    let p := newPolarParams kroneckerPowerMatrices A 108 crcRows
    odd (p.gN (infoRow p (A + 24 - 1)) (p.rateMatchingPattern i)) = true := by
  have hgN : ∀ n, (newPolarParams kroneckerPowerMatrices A 108 crcRows).gN n =
      kroneckerPowerMatrices 7 n := by
    intro n
    unfold newPolarParams
    simp only [hN, Nat.log_pow (by decide : 1 < 2)]
  have hrmp : (newPolarParams kroneckerPowerMatrices A 108 crcRows).rateMatchingPattern i =
      nrPolarRateMatchingPattern (A + 24) (2 ^ 7) 108 i := by
    unfold newPolarParams
    simp only [hN]
  dsimp only
  rw [hgN, hrmp, infoRow_last hA hN]
  obtain ⟨d, rfl⟩ := Nat.exists_eq_add_of_le hlow
  have hd : d < 4 := by omega
  split
  · have hall := level1_tables.2.2.2.1
    rw [@rateMatchingPattern_congr 108 (A + 24) (2 ^ 7) 47 fun _ => by omega,
      hkron 7 127 _ (by decide) (hall d hd).1]
    exact (hall d hd).2
  · have hall := level1_tables.2.2.2.2
    rw [@rateMatchingPattern_congr 108 (A + 24) (2 ^ 7) 48 fun _ => by omega,
      hkron 7 107 _ (by decide) (hall d hd).1]
    exact (hall d hd).2

/-- **The lowest bit of the RNTI** changes all bits that the buffer may keep. -/
theorem codeBit_flip (hkron : GivesKroneckerPowers kroneckerPowerMatrices) (hA : A ≤ 64)
    (hN : nrPolarOutputLength (A + 24) 108 9 = 2 ^ 7) (a : ℕ → Bool) {i : ℕ} (hlow : 104 ≤ i)
    (hhigh : i < 108) :
    let p := newPolarParams kroneckerPowerMatrices A 108 crcRows
    codeBit p (message A a 1#32 true) (p.rateMatchingPattern i) =
      !codeBit p (message A a 0#32 true) (p.rateMatchingPattern i) := by
  have htab := @newPolarParams_tabulated 7 108 4 A kroneckerPowerMatrices crcRows hkron .level1 hA hN
  have hone := @last_row_one kroneckerPowerMatrices A crcRows hkron hA hN i hlow hhigh
  generalize hp : newPolarParams kroneckerPowerMatrices A 108 crcRows = p at htab hone ⊢
  have hK : p.K = A + 24 := by rw [← hp]; rfl
  dsimp only at hone ⊢
  -- the messages differ in their last bit
  have hdiff : ∀ k < p.K, message A a 1#32 true k =
      message A a 0#32 true k + decide (k = A + 24 - 1) := by
    intro k hk
    unfold message
    split
    · rename_i hlt
      rw [decide_eq_false (by omega)]
      exact (add_zero _).symm
    · rename_i hge
      have hbit : (1#32).getLsbD (23 - (k - A)) = decide (k = A + 24 - 1) := by
        rw [BitVec.getLsbD_one]
        simp only [decide_true, Bool.true_and, decide_eq_decide, Nat.reduceLT]
        omega
      rw [hbit, BitVec.getLsbD_zero, Bool.false_xor, Bool.add_eq_xor, Bool.xor_comm]
  have hlast : codeBit p (fun k => decide (k = A + 24 - 1)) (p.rateMatchingPattern i) = true := by
    unfold codeBit
    rw [sum_eq_single (A + 24 - 1)]
    · rw [htab.interleaving, interleaving_last (by omega) (by omega), hone]
      simp only [decide_true]
      rfl
    · intro k hk hne
      have hk := mem_range.mp hk
      have hint : p.interleavingPattern k ≠ A + 24 - 1 := by
        intro heq
        rw [htab.interleaving, ← interleaving_last (show A + 24 ≤ 164 by omega) (by omega)] at heq
        exact hne (pattern_injective htab.perm hk (by omega) heq)
      simp only [decide_eq_false hint]
      exact zero_mul _
    · intro hout
      exact absurd (mem_range.mpr (by omega)) hout
  rw [codeBit_congr htab.interleaving_lt hdiff, codeBit_add, hlast, Bool.add_eq_xor, Bool.xor_true]

end FirstLevel

/-! ## The two encoders -/

/-- The payload is in the word the other way round: `a_0` is the bit `bitlen - 1`. -/
def SamePayload (bitlen : ℕ) (inp : ℕ → BitVec 32) (a0 : BitVec 64) : Prop :=
  ∀ i < bitlen, a0.getLsbD (bitlen - 1 - i) = words32 inp i

/-- The fast encoder does not fail, and the first `E` bits are the same. -/
def SameBits (E : ℕ) (fast : Option Mem) (plain : ℕ → BitVec 32) : Prop :=
  ∃ res, fast = some res ∧ ∀ i < E, res i = words32 plain i

section Encoders

variable {kroneckerPowerMatrices : ℕ → ℕ → ℕ → UInt8} {n E g A rows : ℕ}

theorem nrPolarParams_eq {messageType : MessageType} {messageLength aggregationLevel : ℕ}
    (hA : payloadBits messageType messageLength ≤ 64)
    (hE : encoderLength messageType aggregationLevel ∈ [108, 216, 432, 864, 1728]) :
    nrPolarParams kroneckerPowerMatrices messageType messageLength aggregationLevel =
      some (newPolarParams kroneckerPowerMatrices (payloadBits messageType messageLength)
        (encoderLength messageType aggregationLevel)
        (crcRows messageType (payloadBits messageType messageLength))) := by
  obtain ⟨n, g, h, hN⟩ := exists_isCode hA (by simpa using hE)
  unfold nrPolarParams
  exact if_pos (newPolarParams_supported h hA hN)

/-- **The fast encoder, for the message that a plain one encodes.** -/
theorem sameBits_iff (hkron : GivesKroneckerPowers kroneckerPowerMatrices) (h : IsCode n E g)
    (hA : A ≤ 64) (hN : nrPolarOutputLength (A + 24) E 9 = 2 ^ n) {inp : ℕ → BitVec 32}
    {a : ℕ → BitVec 64} (hpayload : SamePayload A inp (a 0)) {crcmask : BitVec 32} {onesFlag : Bool}
    {nrPolarB nrPolarE : ℕ → UInt8} {plainOut : ℕ → BitVec 32} {out : Mem}
    (hB : ∀ k < A + 24, odd (nrPolarB k) = message A (words32 inp) crcmask onesFlag k) :
    let p := newPolarParams kroneckerPowerMatrices A E rows
    SameBits E (polarEncoderFast p a out crcmask onesFlag) (encodeB p nrPolarB nrPolarE plainOut) ↔
      ∀ i < E, remains p out i = true →
        codeBit p (message A (words32 inp) crcmask onesFlag) (p.rateMatchingPattern i) = true := by
  have htab := @newPolarParams_tabulated n E g A kroneckerPowerMatrices rows hkron h hA hN
  generalize hp : newPolarParams kroneckerPowerMatrices A E rows = p at htab ⊢
  have hbitlen : p.payloadBits = A := by rw [← hp]; rfl
  have hlength : p.encoderLength = E := by rw [← hp]; rfl
  have hK : p.K = A + 24 := by rw [← hp]; rfl
  have hgroups := h.groups
  rw [← hlength] at hgroups ⊢
  obtain ⟨res, hres, hbits⟩ := polarEncoderFast_eq htab hgroups a out crcmask onesFlag
  rw [hbitlen, message_congr (a := payloadBit A (a 0)) hpayload] at hbits
  have hplain : ∀ i < p.encoderLength, words32 (encodeB p nrPolarB nrPolarE plainOut) i =
      codeBit p (message A (words32 inp) crcmask onesFlag) (p.rateMatchingPattern i) := by
    intro i hi
    rw [words32_encodeB htab.infoLength nrPolarB nrPolarE plainOut hi]
    exact codeBit_congr htab.interleaving_lt fun k hk => hB k (hK ▸ hk)
  dsimp only
  constructor
  · rintro ⟨res', hres', hsame⟩ i hi hremains
    cases Option.some.inj (hres.symm.trans hres')
    rw [← hplain i hi, ← hsame i hi, hbits i hi, hremains, Bool.or_true]
  · intro hcond
    refine ⟨res, hres, fun i hi => ?_⟩
    rw [hbits i hi, hplain i hi]
    cases hremains : remains p out i with
    | false => exact Bool.or_false _
    | true => rw [hcond i hi hremains, Bool.or_true]

/-- The buffer keeps bits only at the first aggregation level. -/
theorem remains_newPolarParams (h : IsCode n E g) (hA : A ≤ 64)
    (hN : nrPolarOutputLength (A + 24) E 9 = 2 ^ n) (out : Mem) (i : ℕ) :
    remains (newPolarParams kroneckerPowerMatrices A E rows) out i = true ↔
      E = 108 ∧ 104 ≤ i ∧ out i = true := by
  have hgroupsize : (newPolarParams kroneckerPowerMatrices A E rows).groupsize = g := by
    unfold newPolarParams
    simp only [hN, h.minGroupSize_eq (show A + 24 ≤ 88 by omega)]
  have hlength : (newPolarParams kroneckerPowerMatrices A E rows).encoderLength = E := rfl
  unfold remains
  rw [hgroupsize, hlength, Bool.and_eq_true, Bool.and_eq_true, decide_eq_true_eq, decide_eq_true_eq,
    h.lt_eight_iff, and_assoc]
  constructor
  · rintro ⟨rfl, hlow, hout⟩
    exact ⟨rfl, hlow, hout⟩
  · rintro ⟨rfl, hlow, hout⟩
    exact ⟨rfl, hlow, hout⟩

/-- The control channel. -/
theorem sameBits_dci_iff (hkron : GivesKroneckerPowers kroneckerPowerMatrices) (h : IsCode n E g)
    (hA : A ≤ 64) (hN : nrPolarOutputLength (A + 24) E 9 = 2 ^ n) {inp : ℕ → BitVec 32}
    {a : ℕ → BitVec 64} (hpayload : SamePayload A inp (a 0)) (nrPolarE : ℕ → UInt8)
    (plainOut : ℕ → BitVec 32) (out : Mem) :
    let p := newPolarParams kroneckerPowerMatrices A E (A + 24)
    (∀ nRNTI, SameBits E (polarEncoderFast p a out (nRNTI.setWidth 32) true)
      (polarEncoderDci p inp nRNTI nrPolarE plainOut)) ↔
        (E = 108 → ∀ i, 104 ≤ i → i < 108 → out i = false) := by
  intro p
  have hsame : ∀ nRNTI, SameBits E (polarEncoderFast p a out (nRNTI.setWidth 32) true)
      (polarEncoderDci p inp nRNTI nrPolarE plainOut) ↔ ∀ i < E, remains p out i = true →
        codeBit p (message A (words32 inp) (nRNTI.setWidth 32) true)
          (p.rateMatchingPattern i) = true := by
    intro nRNTI
    refine sameBits_iff hkron h hA hN hpayload fun k hk => ?_
    exact @odd_polarDciB p rfl rfl rfl inp nRNTI k hk
  constructor
  · rintro hall rfl i hlow hhigh
    by_contra hset
    have hremains : remains p out i = true :=
      (remains_newPolarParams h hA hN out i).mpr ⟨rfl, hlow, by simpa using hset⟩
    -- one of two RNTIs with different lowest bits goes wrong
    have hzero := (hsame 0#16).mp (hall 0#16) i hhigh hremains
    have hone := (hsame 1#16).mp (hall 1#16) i hhigh hremains
    cases h
    have hflip := @codeBit_flip kroneckerPowerMatrices A (A + 24) hkron hA hN (words32 inp) i hlow hhigh
    dsimp only at hflip
    rw [show (0#16).setWidth 32 = 0#32 from rfl] at hzero
    rw [show (1#16).setWidth 32 = 1#32 from rfl, hflip, hzero] at hone
    cases hone
  · intro hclear nRNTI
    refine (hsame nRNTI).mpr fun i hi hremains => ?_
    obtain ⟨rfl, hlow, hset⟩ := (remains_newPolarParams h hA hN out i).mp hremains
    rw [hclear rfl i hlow hi] at hset
    cases hset

/-- The broadcast channel. -/
theorem sameBits_pbch (hkron : GivesKroneckerPowers kroneckerPowerMatrices) (h : IsCode n 864 g)
    (hN : nrPolarOutputLength (32 + 24) 864 9 = 2 ^ n) {inp : ℕ → BitVec 32} {a : ℕ → BitVec 64}
    (hpayload : SamePayload 32 inp (a 0)) (nrPolarE : ℕ → UInt8) (plainOut : ℕ → BitVec 32)
    (out : Mem) :
    let p := newPolarParams kroneckerPowerMatrices 32 864 32
    SameBits 864 (polarEncoderFast p a out 0#32 false) (polarEncoder p inp nrPolarE plainOut) := by
  intro p
  refine (sameBits_iff hkron h (by decide) hN hpayload fun k hk => ?_).mpr fun i _ hremains => ?_
  · exact @odd_polarB p rfl rfl inp k hk
  · exact absurd ((remains_newPolarParams h (by decide) hN out i).mp hremains).1 (by decide)

/-- **The fast encoder and the plain ones give the same bits**, whatever the payload and the RNTI are,
except for what the buffer held behind its last whole byte: at the first aggregation level the last
four bits have to be clear before. -/
theorem polarEncoderFast_eq_plain (hkron : GivesKroneckerPowers kroneckerPowerMatrices) :
    (∀ messageLength ≤ 64, ∀ aggregationLevel ∈ [1, 2, 4, 8, 16],
      ∃ p, nrPolarParams kroneckerPowerMatrices .dci messageLength aggregationLevel = some p ∧
        ∀ inp a, SamePayload messageLength inp (a 0) → ∀ nrPolarE plainOut out,
          (∀ nRNTI, SameBits (108 * aggregationLevel)
            (polarEncoderFast p a out (nRNTI.setWidth 32) true)
            (polarEncoderDci p inp nRNTI nrPolarE plainOut)) ↔
          (aggregationLevel = 1 → ∀ i, 104 ≤ i → i < 108 → out i = false)) ∧
    ∀ messageLength aggregationLevel,
      ∃ p, nrPolarParams kroneckerPowerMatrices .pbch messageLength aggregationLevel = some p ∧
        ∀ inp a, SamePayload 32 inp (a 0) → ∀ nrPolarE plainOut out,
          SameBits 864 (polarEncoderFast p a out 0#32 false)
            (polarEncoder p inp nrPolarE plainOut) := by
  constructor
  · intro A hA level hlevel
    have hmem : encoderLength .dci level ∈ [108, 216, 432, 864, 1728] := by
      simp only [List.mem_cons, List.not_mem_nil, or_false] at hlevel
      rcases hlevel with rfl | rfl | rfl | rfl | rfl <;> decide
    obtain ⟨n, g, h, hN⟩ := exists_isCode hA (by simpa using hmem)
    refine ⟨_, @nrPolarParams_eq kroneckerPowerMatrices .dci A level hA hmem,
      fun inp a hpayload E' out' out => ?_⟩
    have hiff := sameBits_dci_iff hkron h hA hN hpayload E' out' out
    have hlevel1 : encoderLength .dci level = 108 ↔ level = 1 := by
      change level * 108 = 108 ↔ level = 1
      omega
    rw [hlevel1] at hiff
    rw [Nat.mul_comm 108 level]
    exact hiff
  · intro messageLength level
    have hmem : 864 ∈ [108, 216, 432, 864, 1728] := by decide
    obtain ⟨n, g, h, hN⟩ := @exists_isCode 864 32 (by decide) (by decide)
    refine ⟨_, @nrPolarParams_eq kroneckerPowerMatrices .pbch messageLength level
      (show 32 ≤ 64 by decide) hmem,
      fun inp a hpayload E' out' out => ?_⟩
    exact sameBits_pbch hkron h hN hpayload E' out' out

end Encoders

theorem givesKroneckerPowers_kroneckerPower : GivesKroneckerPowers kroneckerPower :=
  fun _ _ _ _ _ => rfl

/-- A payload of twelve bits at the first aggregation level, with a clear buffer. -/
theorem polarEncoderFast_eq_plain_clear : ∃ p, nrPolarParams kroneckerPower .dci 12 1 = some p ∧
    ∀ nRNTI, SameBits 108
      (polarEncoderFast p (fun _ => 0x5a3#64) (fun _ => false) (nRNTI.setWidth 32) true)
      (polarEncoderDci p (fun _ => 0xc5a#32) nRNTI (fun _ => 0) fun _ => 0#32) := by
  obtain ⟨p, hp, h⟩ := (polarEncoderFast_eq_plain givesKroneckerPowers_kroneckerPower).1 12 (by decide)
    1 (by decide)
  have hpayload : SamePayload 12 (fun _ => 0xc5a#32) 0x5a3#64 := by
    unfold SamePayload words32
    decide
  exact ⟨p, hp, (h _ (fun _ => 0x5a3#64) hpayload _ _ _).mpr fun _ _ _ _ => rfl⟩

/-- The same payload with ones in the buffer: the bit 106 of the code word is not set. -/
theorem polarEncoderFast_dirty : ∃ p, nrPolarParams kroneckerPower .dci 12 1 = some p ∧
    ¬SameBits 108
      (polarEncoderFast p (fun _ => 0x5a3#64) (fun _ => true) ((0x1234#16).setWidth 32) true)
      (polarEncoderDci p (fun _ => 0xc5a#32) 0x1234#16 (fun _ => 0) fun _ => 0#32) := by
  obtain ⟨n, g, h, hN⟩ := @exists_isCode 108 12 (by decide) (by decide)
  cases h
  have hpayload : SamePayload 12 (fun _ => 0xc5a#32) 0x5a3#64 := by
    unfold SamePayload words32
    decide
  refine ⟨_, @nrPolarParams_eq kroneckerPower .dci 12 1 (show 12 ≤ 64 by decide) (by decide),
    fun hsame => ?_⟩
  have hiff := @sameBits_iff kroneckerPower 7 108 4 12 36 givesKroneckerPowers_kroneckerPower .level1
    (by decide) hN _ (fun _ => 0x5a3#64) hpayload ((0x1234#16).setWidth 32) true _ (fun _ => 0)
    (fun _ => 0#32) (fun _ => true) fun k hk =>
      @odd_polarDciB (newPolarParams kroneckerPower 12 108 36) rfl rfl rfl _ 0x1234#16 k hk
  have hbit := hiff.mp hsame 106 (by decide)
    ((remains_newPolarParams .level1 (by decide) hN _ _).mpr ⟨rfl, by decide, rfl⟩)
  have hcode : codeBit (newPolarParams kroneckerPower 12 108 36)
      (message 12 (words32 fun _ => 0xc5a#32) ((0x1234#16).setWidth 32) true)
      ((newPolarParams kroneckerPower 12 108 36).rateMatchingPattern 106) = false := by
    unfold codeBit
    simp only [infoRow_newPolarParams hN]
    unfold newPolarParams
    simp only [hN, Nat.log_pow (by decide : 1 < 2)]
    decide +kernel
  rw [hcode] at hbit
  cases hbit

end OaiCu.NrPolar
