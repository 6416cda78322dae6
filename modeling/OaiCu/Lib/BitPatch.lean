import OaiCu.Lib.BitStream

/-!
# Bits that are overwritten

A writer that sets and clears single bits can go back in its buffer. What it does is specified by
what it does to the bit string: some bits are replaced, the others stay.
-/

namespace BitStream

variable {α : Type*} {l as bs cs : List α} {p q : ℕ}

/-! ## Lists -/

/-- The list with `bs` from position `p` on. -/
def overwrite (l : List α) (p : ℕ) (bs : List α) : List α := l.take p ++ bs ++ l.drop (p + bs.length)

@[simp] theorem overwrite_nil (l : List α) (p : ℕ) : overwrite l p [] = l := by
  rw [overwrite, List.append_nil, List.length_nil, Nat.add_zero, List.take_append_drop]

theorem length_overwrite (h : p + bs.length ≤ l.length) : (overwrite l p bs).length = l.length := by
  rw [overwrite, List.length_append, List.length_append, List.length_take, List.length_drop]
  omega

/-- Bit after bit. -/
theorem overwrite_cons {b : α} (h : p < l.length) :
    overwrite (l.set p b) (p + 1) bs = overwrite l p (b :: bs) := by
  have htake : (l.set p b).take (p + 1) = l.take p ++ [b] := by
    rw [List.take_succ_eq_append_getElem (by simpa using h), List.take_set_of_le (le_refl p),
      List.getElem_set_self]
  have hdrop : (l.set p b).drop (p + 1 + bs.length) = l.drop (p + (bs.length + 1)) := by
    rw [List.drop_set_of_lt (by omega), show p + 1 + bs.length = p + (bs.length + 1) by omega]
  rw [overwrite, overwrite, htake, hdrop, List.length_cons, List.append_assoc _ [b],
    List.singleton_append]

/-- What is in front of the end of the new bits. -/
theorem take_overwrite (h : p ≤ l.length) :
    (overwrite l p bs).take (p + bs.length) = l.take p ++ bs := by
  rw [overwrite, List.take_left']
  rw [List.length_append, List.length_take, Nat.min_eq_left h]

/-- Bits that are replaced in front of a position. -/
theorem take_overwrite_of_le (h : p + bs.length ≤ q) (hq : q ≤ l.length) :
    (overwrite l p bs).take q = overwrite (l.take q) p bs := by
  have hp : (l.take p).length = p := List.length_take_of_le (by omega)
  rw [overwrite, overwrite, List.take_take, Nat.min_eq_left (by omega),
    List.take_append, List.length_append, hp, List.take_of_length_le (by
      rw [List.length_append, hp]
      exact h), List.drop_take]

theorem overwrite_append (h : bs.length = cs.length) :
    overwrite (as ++ (bs ++ l)) as.length cs = as ++ (cs ++ l) := by
  rw [overwrite, List.take_left, ← h, ← List.drop_drop, List.drop_left, List.drop_left,
    List.append_assoc]

/-! ## Bytes -/

theorem testBit_clearBit (b : UInt8) {k i : ℕ} (hk : k < 8) (hi : i < 8) :
    (b &&& ~~~((1 : UInt8) <<< UInt8.ofNat k)).toNat.testBit i =
      (b.toNat.testBit i && decide (i ≠ k)) := by
  rw [← UInt8.toNat_toBitVec, ← UInt8.toNat_toBitVec b, BitVec.testBit_toNat, BitVec.testBit_toNat,
    UInt8.toBitVec_and, UInt8.toBitVec_not, BitVec.getLsbD_and, BitVec.getLsbD_not]
  interval_cases k <;> interval_cases i <;> simp

/-- Clearing bit `k` (counted from the least significant one) of a byte. -/
theorem byteBits_clearBit (b : UInt8) {k : ℕ} (hk : k < 8) :
    byteBits (b &&& ~~~((1 : UInt8) <<< UInt8.ofNat k)) = (byteBits b).set (7 - k) false := by
  apply List.ext_getElem (by simp)
  intro i h1 h2
  simp only [byteBits_length] at h1
  rw [byteBits_getElem, testBit_clearBit b hk (by omega), List.getElem_set, byteBits_getElem]
  by_cases h : 7 - k = i
  · rw [if_pos h, decide_eq_false (by omega), Bool.and_false]
  · rw [if_neg h, decide_eq_true (by omega), Bool.and_true]

/-- A bit of one byte is a bit of the buffer. -/
theorem bytesBits_set {l : List UInt8} {i j : ℕ} {x y : UInt8} {b : Bool} (hi : l[i]? = some x)
    (hj : j < 8) (hy : byteBits y = (byteBits x).set j b) :
    bytesBits (l.set i y) = (bytesBits l).set (8 * i + j) b := by
  induction l generalizing i with
  | nil => cases hi
  | cons z l ih =>
      cases i with
      | zero =>
          obtain rfl : z = x := by simpa using hi
          rw [List.set_cons_zero, bytesBits_cons, bytesBits_cons, hy,
            List.set_append_left _ _ (by rw [byteBits_length]; omega), Nat.mul_zero, Nat.zero_add]
      | succ i =>
          rw [List.set_cons_succ, bytesBits_cons, bytesBits_cons, ih (by simpa using hi),
            List.set_append_right _ _ (by rw [byteBits_length]; omega), byteBits_length,
            show 8 * (i + 1) + j - 8 = 8 * i + j by omega]

end BitStream
