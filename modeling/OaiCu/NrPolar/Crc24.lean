import OaiCu.Lib.Crc
import OaiCu.NrPolar.Plain

/-!
# NR polar codes: the two ways to compute the CRC

The table and the generator matrix give the same remainder: `crc24c` takes the message by octets,
and a row of the generator matrix is the remainder of a single bit.
-/

namespace OaiCu.NrPolar

open Finset Crc
open NrLdpc (crc24c crcbit_one poly24c)

/-! ## By octets -/

/-- **`crc24c` is the remainder of the bits.** -/
theorem crc24c_eq (inptr : ℕ → BitVec 8) (bitlen : ℕ) :
    crc24c inptr bitlen = run poly24c 0#32 (bits inptr bitlen) :=
  byTable_eq (crcbit_one poly24c) inptr bitlen

/-! ## By the generator matrix -/

/-- The low octet of a row of remainders is empty. -/
theorem row_low (m : ℕ) {i : ℕ} (hi : i < 8) : (row poly24c m).getLsbD i = false := by
  induction m generalizing i with
  | zero =>
      have hall : ∀ i < 8, (row poly24c 0).getLsbD i = false := by decide
      exact hall i hi
  | succ m ih =>
      have hpoly : poly24c.getLsbD i = false := by
        have hall : ∀ i < 8, poly24c.getLsbD i = false := by decide
        exact hall i hi
      have hprev : (row poly24c m).getLsbD (i - 1) = false := ih (by omega)
      unfold row step
      rw [BitVec.getLsbD_xor, BitVec.getLsbD_shiftLeft, hprev]
      split
      all_goals simp [hpoly]

theorem row_getMsbD_of_le (m : ℕ) {j : ℕ} (hj : 24 ≤ j) : (row poly24c m).getMsbD j = false := by
  unfold BitVec.getMsbD
  rcases Nat.lt_or_ge j 32 with hlt | hge
  · rw [row_low m (by omega), Bool.and_false]
  · simp [Nat.not_lt.mpr hge]

theorem row_succ_getMsbD (m j : ℕ) : (row poly24c (m + 1)).getMsbD j =
    ((row poly24c m).getMsbD (j + 1) ^^ ((row poly24c m).getMsbD 0 && poly24c.getMsbD j)) := by
  have hmsb : (row poly24c m).getMsbD 0 = (row poly24c m).msb := rfl
  rw [hmsb]
  conv_lhs => unfold row step
  rw [BitVec.getMsbD_xor, BitVec.getMsbD_shiftLeft, Bool.xor_false]
  cases (row poly24c m).msb with
  | false => simp
  | true => simp

theorem polynomialPattern_eq : ∀ j < 24, crcPolynomialPattern.getD (j + 1) 0 =
    if poly24c.getMsbD j then 1 else 0 := by decide

/-- **A row of the generator matrix is the remainder of a single bit.** -/
theorem crcGeneratorRow_eq (m j : ℕ) : (crcGeneratorRow m).getD j 0 =
    if (row poly24c m).getMsbD j then 1 else 0 := by
  rcases Nat.lt_or_ge j 24 with hj | hj
  · induction m generalizing j with
    | zero =>
        have hall : ∀ j < 24, (crcGeneratorRow 0).getD j 0 =
            if (row poly24c 0).getMsbD j then 1 else 0 := by decide
        exact hall j hj
    | succ m ih =>
        have htail : (crcGeneratorRow m).tail.getD j 0 =
            if (row poly24c m).getMsbD (j + 1) then 1 else 0 := by
          rcases Nat.lt_or_ge (j + 1) 24 with hlt | hge
          · rw [← ih _ hlt]
            simp [List.getD_eq_getElem?_getD]
          · have hlen : (crcGeneratorRow m).length = 24 := by
              cases m with
              | zero => rfl
              | succ m => simp [crcGeneratorRow]
            rw [row_getMsbD_of_le m hge, List.getD_eq_default _ _ (by simp [hlen]; omega)]
            rfl
        have hhead : (crcGeneratorRow m).headD 0 = if (row poly24c m).getMsbD 0 then 1 else 0 := by
          rw [← ih 0 (by decide)]
          cases crcGeneratorRow m <;> rfl
        have hentry : (crcGeneratorRow (m + 1)).getD j 0 =
            if (crcGeneratorRow m).tail.getD j 0 +
              (crcGeneratorRow m).headD 0 * crcPolynomialPattern.getD (j + 1) 0 = 1 then 1 else 0 := by
          rw [crcGeneratorRow, List.getD_eq_getElem _ _ (by simpa using hj)]
          simp
        rw [hentry, htail, hhead, polynomialPattern_eq j hj, row_succ_getMsbD]
        cases (row poly24c m).getMsbD (j + 1) <;> cases (row poly24c m).getMsbD 0 <;>
          cases poly24c.getMsbD j <;> rfl
  · rw [row_getMsbD_of_le m hj, List.getD_eq_default]
    · rfl
    · cases m with
      | zero => exact hj
      | succ m => simpa [crcGeneratorRow] using hj

/-- **The product with the generator matrix is the remainder.** -/
theorem sum_crc24cGeneratorMatrix (l : List Bool) {j : ℕ} (hj : j < 24) :
    ∑ i ∈ range l.length, l.getD i false * odd (crc24cGeneratorMatrix l.length i j) =
      (run poly24c 0#32 l).getMsbD j := by
  have hbit : (run poly24c 0#32 l).getMsbD j = (run poly24c 0#32 l).getLsbD (31 - j) := by
    simp [BitVec.getMsbD, show j < 32 by omega]
  rw [hbit, getLsbD_run]
  refine sum_congr rfl fun i _ => ?_
  unfold crc24cGeneratorMatrix
  rw [crcGeneratorRow_eq, odd_ite]
  simp [BitVec.getMsbD, show j < 32 by omega]

/-! ## The message with its CRC -/

/-- The bits that come before the message in the CRC. -/
def onesBits (onesFlag : Bool) : List Bool := if onesFlag then List.replicate 24 true else []

theorem length_onesBits : (onesBits true).length = 24 := List.length_replicate

theorem getD_onesBits {k : ℕ} (hk : k < 24) : (onesBits true).getD k false = true := by
  rw [List.getD_eq_getElem _ _ (length_onesBits.symm ▸ hk)]
  exact List.getElem_replicate _

/-- The payload `a` with its CRC, which is scrambled with `crcmask`. -/
def message (bitlen : ℕ) (a : ℕ → Bool) (crcmask : BitVec 32) (onesFlag : Bool) (k : ℕ) : Bool :=
  if k < bitlen then a k
  else crcmask.getLsbD (23 - (k - bitlen)) ^^
    (run poly24c 0#32 (onesBits onesFlag ++ (List.range bitlen).map a)).getMsbD (k - bitlen)

theorem message_congr {bitlen : ℕ} {a a' : ℕ → Bool} (h : ∀ k < bitlen, a k = a' k)
    (crcmask : BitVec 32) (onesFlag : Bool) :
    message bitlen a crcmask onesFlag = message bitlen a' crcmask onesFlag := by
  have hmap : (List.range bitlen).map a = (List.range bitlen).map a' :=
    List.map_congr_left fun k hk => h k (List.mem_range.mp hk)
  funext k
  unfold message
  split
  · rename_i hk
    exact h k hk
  · rw [hmap]

end OaiCu.NrPolar
