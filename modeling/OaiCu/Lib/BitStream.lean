import Mathlib.Data.List.Basic
import Mathlib.Tactic.Ring
import Mathlib.Tactic.IntervalCases

/-!
# Byte buffers as bit streams

A byte buffer is read and written most significant bit first. `bytesBits` is the
bit string of a buffer; `bitsOf` and `ofBits` convert between a field of a given
width and its bits. Readers and writers that work one bit at a time are
specified by what they do to these bit strings.
-/

namespace BitStream

/-! ## Fields -/

/-- The `count` low bits of `value`, most significant first. -/
def bitsOf : ℕ → ℕ → List Bool
  | 0, _ => []
  | n + 1, value => value.testBit n :: bitsOf n value

/-- The number a bit string spells, most significant bit first. -/
def ofBits (bs : List Bool) : ℕ :=
  bs.foldl (fun acc b => 2 * acc + b.toNat) 0

@[simp] theorem bitsOf_length (n v : ℕ) : (bitsOf n v).length = n := by
  induction n with
  | zero => rfl
  | succ n ih => simp [bitsOf, ih]

theorem foldl_bits (bs : List Bool) (acc : ℕ) :
    bs.foldl (fun acc b => 2 * acc + b.toNat) acc = acc * 2 ^ bs.length + ofBits bs := by
  induction bs generalizing acc with
  | nil => simp [ofBits]
  | cons b bs ih =>
      rw [List.foldl_cons, ih]
      conv_rhs => rw [ofBits, List.foldl_cons, ih]
      rw [List.length_cons, pow_succ]
      ring

theorem ofBits_cons (b : Bool) (bs : List Bool) :
    ofBits (b :: bs) = b.toNat * 2 ^ bs.length + ofBits bs := by
  rw [ofBits, List.foldl_cons, foldl_bits]
  simp

theorem ofBits_lt (bs : List Bool) : ofBits bs < 2 ^ bs.length := by
  induction bs with
  | nil => simp [ofBits]
  | cons b bs ih =>
      rw [ofBits_cons, List.length_cons, pow_succ]
      cases b <;> simp <;> omega

theorem ofBits_bitsOf_mod (n v : ℕ) : ofBits (bitsOf n v) = v % 2 ^ n := by
  induction n with
  | zero => simp [bitsOf, ofBits, Nat.mod_one]
  | succ n ih =>
      rw [bitsOf, ofBits_cons, bitsOf_length, ih, Nat.testBit_eq_decide_div_mod_eq,
        pow_succ, Nat.mod_mul]
      rcases Nat.mod_two_eq_zero_or_one (v / 2 ^ n) with h | h
      · simp [h]
      · simp [h, add_comm]

theorem ofBits_bitsOf {n v : ℕ} (h : v < 2 ^ n) : ofBits (bitsOf n v) = v := by
  rw [ofBits_bitsOf_mod, Nat.mod_eq_of_lt h]

theorem bitsOf_congr {n v w : ℕ} (h : ∀ i < n, v.testBit i = w.testBit i) :
    bitsOf n v = bitsOf n w := by
  induction n with
  | zero => rfl
  | succ n ih =>
      rw [bitsOf, bitsOf, h n (by omega), ih fun i hi => h i (by omega)]

/-- The high bits, then the low ones. -/
theorem bitsOf_add (m n v : ℕ) : bitsOf (m + n) v = bitsOf m (v >>> n) ++ bitsOf n v := by
  induction m with
  | zero => simp [bitsOf]
  | succ m ih =>
      rw [show m + 1 + n = (m + n) + 1 by omega, bitsOf, bitsOf, ih, Nat.testBit_shiftRight,
        Nat.add_comm n m, List.cons_append]

theorem bitsOf_take {n k : ℕ} (h : k ≤ n) (v : ℕ) :
    (bitsOf n v).take k = bitsOf k (v >>> (n - k)) := by
  obtain ⟨m, rfl⟩ := Nat.exists_eq_add_of_le h
  rw [bitsOf_add, List.take_left' (bitsOf_length _ _), Nat.add_sub_cancel_left]

theorem bitsOf_drop {n k : ℕ} (h : k ≤ n) (v : ℕ) :
    (bitsOf n v).drop k = bitsOf (n - k) v := by
  obtain ⟨m, rfl⟩ := Nat.exists_eq_add_of_le h
  rw [bitsOf_add, List.drop_left' (bitsOf_length _ _), Nat.add_sub_cancel_left]

/-- What a shift to the left leaves at the front. -/
theorem bitsOf_shiftLeft_take {n k m : ℕ} (h : k + m ≤ n) (v : ℕ) :
    (bitsOf n (v <<< k % 2 ^ n)).take m = ((bitsOf n v).drop k).take m := by
  rw [bitsOf_drop (by omega), bitsOf_take (by omega), bitsOf_take (by omega)]
  refine bitsOf_congr fun i hi => ?_
  rw [Nat.testBit_shiftRight, Nat.testBit_shiftRight, Nat.testBit_mod_two_pow,
    Nat.testBit_shiftLeft, decide_eq_true (by omega), decide_eq_true (by omega),
    show n - m + i - k = n - k - m + i by omega, Bool.true_and, Bool.true_and]

theorem ofBits_append (as bs : List Bool) :
    ofBits (as ++ bs) = ofBits as <<< bs.length ||| ofBits bs := by
  rw [← Nat.shiftLeft_add_eq_or_of_lt (ofBits_lt bs), Nat.shiftLeft_eq, ofBits,
    List.foldl_append, foldl_bits, ← ofBits]

/-- The first bits of a field as a number. -/
theorem ofBits_take {n k v : ℕ} (h : k ≤ n) (hv : v < 2 ^ n) :
    ofBits ((bitsOf n v).take k) = v >>> (n - k) := by
  rw [bitsOf_take h]
  refine ofBits_bitsOf ?_
  rw [Nat.shiftRight_eq_div_pow]
  refine Nat.div_lt_of_lt_mul ?_
  rwa [← pow_add, Nat.sub_add_cancel h]

/-! ## Bytes -/

/-- The eight bits of a byte, most significant first. -/
def byteBits (b : UInt8) : List Bool := bitsOf 8 b.toNat

/-- The bits of a buffer, byte after byte. -/
def bytesBits (l : List UInt8) : List Bool := l.flatMap byteBits

@[simp] theorem byteBits_length (b : UInt8) : (byteBits b).length = 8 := by
  simp [byteBits]

theorem byteBits_ofNat (x : ℕ) : byteBits (.ofNat x) = bitsOf 8 x :=
  bitsOf_congr fun i hi => by
    rw [UInt8.toNat_ofNat', Nat.testBit_mod_two_pow, decide_eq_true hi, Bool.true_and]

/-- A field in the high bits of a byte beside another one in its low bits. -/
theorem byteBits_or {k : ℕ} (hk : k ≤ 8) (x : ℕ) {b : UInt8} (hb : b.toNat < 2 ^ k) :
    byteBits (.ofNat (x <<< k) ||| b) = bitsOf (8 - k) x ++ bitsOf k b.toNat := by
  have hbit : ∀ i < 8, (UInt8.ofNat (x <<< k) ||| b).toNat.testBit i =
      ((decide (k ≤ i) && x.testBit (i - k)) || b.toNat.testBit i) := fun i hi => by
    rw [UInt8.toNat_or, UInt8.toNat_ofNat', Nat.testBit_or, Nat.testBit_mod_two_pow,
      Nat.testBit_shiftLeft, decide_eq_true hi, Bool.true_and]
  rw [byteBits]
  conv_lhs => rw [show 8 = 8 - k + k by omega, bitsOf_add]
  congr 1
  · refine bitsOf_congr fun i hi => ?_
    have hlow : b.toNat.testBit (k + i) = false :=
      Nat.testBit_lt_two_pow (hb.trans_le (Nat.pow_le_pow_right (by decide) (by omega)))
    rw [Nat.testBit_shiftRight, hbit _ (by omega), hlow, decide_eq_true (by omega),
      Nat.add_sub_cancel_left, Bool.or_false, Bool.true_and]
  · refine bitsOf_congr fun i hi => ?_
    rw [hbit _ (by omega), decide_eq_false (by omega), Bool.false_and, Bool.false_or]

/-- A mask that keeps the bits that count. -/
theorem bitsOf_and {n k m : ℕ} (h : ∀ i < n, m.testBit (k + i) = true) (v : ℕ) :
    bitsOf n ((v &&& m) >>> k) = bitsOf n (v >>> k) :=
  bitsOf_congr fun i hi => by
    rw [Nat.testBit_shiftRight, Nat.testBit_shiftRight, Nat.testBit_and, h i hi, Bool.and_true]

/-- A mask that keeps none of them. -/
theorem bitsOf_and_zero {n k m : ℕ} (h : ∀ i < n, m.testBit (k + i) = false) (v : ℕ) :
    bitsOf n ((v &&& m) >>> k) = bitsOf n 0 :=
  bitsOf_congr fun i hi => by
    rw [Nat.testBit_shiftRight, Nat.testBit_and, h i hi, Bool.and_false, Nat.zero_testBit]

@[simp] theorem bytesBits_nil : bytesBits [] = [] := rfl

@[simp] theorem bytesBits_cons (b : UInt8) (l : List UInt8) :
    bytesBits (b :: l) = byteBits b ++ bytesBits l := by
  simp [bytesBits]

@[simp] theorem bytesBits_append (l l' : List UInt8) :
    bytesBits (l ++ l') = bytesBits l ++ bytesBits l' := by
  simp [bytesBits]

@[simp] theorem bytesBits_length (l : List UInt8) : (bytesBits l).length = 8 * l.length := by
  induction l with
  | nil => rfl
  | cons b l ih => simp [ih]; ring

theorem bytesBits_drop (l : List UInt8) (i : ℕ) :
    bytesBits (l.drop i) = (bytesBits l).drop (8 * i) := by
  induction l generalizing i with
  | nil => simp
  | cons b l ih =>
      cases i with
      | zero => simp
      | succ i =>
          have hb : (byteBits b).drop (8 * (i + 1)) = [] :=
            List.drop_eq_nil_of_le (by rw [byteBits_length]; omega)
          rw [List.drop_succ_cons, ih, bytesBits_cons, List.drop_append, hb, byteBits_length,
            List.nil_append]
          congr 1

theorem bytesBits_take (l : List UInt8) (i : ℕ) :
    bytesBits (l.take i) = (bytesBits l).take (8 * i) := by
  induction l generalizing i with
  | nil => simp
  | cons b l ih =>
      cases i with
      | zero => simp
      | succ i =>
          have hb : (byteBits b).take (8 * (i + 1)) = byteBits b :=
            List.take_of_length_le (by rw [byteBits_length]; omega)
          rw [List.take_succ_cons, bytesBits_cons, ih, bytesBits_cons, List.take_append, hb,
            byteBits_length]
          congr 1

/-- Bit `j` of a byte, counted from the most significant one. -/
theorem byteBits_getElem (b : UInt8) (j : ℕ) (h : j < (byteBits b).length) :
    (byteBits b)[j] = b.toNat.testBit (7 - j) := by
  simp only [byteBits_length] at h
  interval_cases j <;> rfl

theorem testBit_shiftIn (n k : ℕ) (x : Bool) (hk : k < 7) :
    ((n <<< 1 % 2 ^ 8) ||| x.toNat).testBit (k + 1) = n.testBit k := by
  have hx : x.toNat.testBit (k + 1) = false := by
    cases x <;> simp [Nat.testBit_succ]
  rw [Nat.testBit_or, hx, Nat.testBit_mod_two_pow, Nat.testBit_shiftLeft]
  simp [show k + 1 < 8 by omega]

/-- Shifting a bit in from the right drops the leading bit of the byte. -/
theorem byteBits_shiftIn (b : UInt8) (x : Bool) :
    byteBits (b <<< 1 ||| (if x then 1 else 0)) = (byteBits b).drop 1 ++ [x] := by
  have hn : (b <<< 1 ||| (if x then 1 else 0)).toNat = (b.toNat <<< 1 % 2 ^ 8) ||| x.toNat := by
    cases x <;> simp [UInt8.toNat_shiftLeft, UInt8.toNat_or]
  have h0 : ((b.toNat <<< 1 % 2 ^ 8) ||| x.toNat).testBit 0 = x := by
    rw [Nat.testBit_or, Nat.testBit_mod_two_pow, Nat.testBit_shiftLeft]
    cases x <;> simp
  simp only [byteBits, bitsOf, hn, h0, testBit_shiftIn _ _ _ (show 6 < 7 by omega),
    testBit_shiftIn _ _ _ (show 5 < 7 by omega), testBit_shiftIn _ _ _ (show 4 < 7 by omega),
    testBit_shiftIn _ _ _ (show 3 < 7 by omega), testBit_shiftIn _ _ _ (show 2 < 7 by omega),
    testBit_shiftIn _ _ _ (show 1 < 7 by omega), testBit_shiftIn _ _ _ (show 0 < 7 by omega)]
  rfl

/-- Setting bit `k` (counted from the least significant one) of a byte. -/
theorem byteBits_setBit (b : UInt8) (k : ℕ) (hk : k < 8) :
    byteBits (b ||| 1 <<< UInt8.ofNat k) = (byteBits b).set (7 - k) true := by
  have hn : (b ||| 1 <<< UInt8.ofNat k).toNat = b.toNat ||| 2 ^ k := by
    interval_cases k <;> simp [UInt8.toNat_or]
  apply List.ext_getElem (by simp)
  intro i h1 h2
  rw [byteBits_getElem, hn, List.getElem_set, Nat.testBit_or, Nat.testBit_two_pow,
    byteBits_getElem]
  simp only [byteBits_length] at h1
  by_cases h : 7 - k = i
  · rw [if_pos h]
    simp [show k = 7 - i by omega]
  · rw [if_neg h]
    simp [show ¬ k = 7 - i by omega]

/-! ## Reading one bit at a position, writing one byte -/

/-- The bits from position `8 * i + j` on start with bit `j` of byte `i`. -/
theorem bytesBits_drop_cons {l : List UInt8} {i j : ℕ} {b : UInt8}
    (hi : l[i]? = some b) (hj : j < 8) :
    (bytesBits l).drop (8 * i + j) =
      b.toNat.testBit (7 - j) :: (bytesBits l).drop (8 * i + j + 1) := by
  obtain ⟨hlt, hb⟩ := List.getElem?_eq_some_iff.mp hi
  have hlen : 8 * i + j < (bytesBits l).length := by
    rw [bytesBits_length]; omega
  rw [List.drop_eq_getElem_cons hlen]
  congr 1
  have hd : (bytesBits (l.drop i))[j]? = (bytesBits l)[8 * i + j]? := by
    rw [bytesBits_drop, List.getElem?_drop]
  rw [List.drop_eq_getElem_cons hlt, bytesBits_cons,
    List.getElem?_append_left (by rw [byteBits_length]; exact hj),
    List.getElem?_eq_getElem (by rw [byteBits_length]; exact hj), byteBits_getElem,
    List.getElem?_eq_getElem hlen, hb] at hd
  exact (Option.some.inj hd).symm

end BitStream

/-!
## A number in the octets of a buffer

`octets len x` is a buffer of `len` octets with the number `x`, its high octet in front. Bits that are
set in an octet are bits that are set in the number, so that a writer that works on octets is
specified by what it does to a number.
-/

namespace BitWriter

open BitStream

/-- The buffer. What does not fit is cut off in front. -/
def octets : ℕ → ℕ → List UInt8
  | 0, _ => []
  | len + 1, x => .ofNat (x >>> (8 * len)) :: octets len x

@[simp] theorem octets_length (len x : ℕ) : (octets len x).length = len := by
  induction len with
  | zero => rfl
  | succ len ih => rw [octets, List.length_cons, ih]

theorem octets_zero (len : ℕ) : octets len 0 = List.replicate len 0 := by
  induction len with
  | zero => rfl
  | succ len ih => rw [octets, ih, Nat.zero_shiftRight, List.replicate_succ]; rfl

/-- Its bits. -/
theorem bytesBits_octets (len x : ℕ) : bytesBits (octets len x) = bitsOf (8 * len) x := by
  induction len with
  | zero => rfl
  | succ len ih =>
      rw [show 8 * (len + 1) = 8 + 8 * len by omega, bitsOf_add, ← ih, ← byteBits_ofNat]
      rfl

theorem bitsOf_ofBits (bs : List Bool) : bitsOf bs.length (ofBits bs) = bs := by
  induction bs with
  | nil => rfl
  | cons b bs ih =>
      have hbit : ∀ i, (ofBits (b :: bs)).testBit i =
          if i < bs.length then (ofBits bs).testBit i else b.toNat.testBit (i - bs.length) :=
        fun i => by
          rw [ofBits_cons, Nat.mul_comm, Nat.testBit_two_pow_mul_add _ (ofBits_lt bs)]
      rw [List.length_cons, bitsOf, hbit, if_neg (Nat.lt_irrefl _), Nat.sub_self]
      have hrest : bitsOf bs.length (ofBits (b :: bs)) = bs :=
        (bitsOf_congr fun i hi => (hbit i).trans (if_pos hi)).trans ih
      rw [hrest]
      cases b <;> rfl

/-- The buffer of a bit string has its bits. -/
theorem bytesBits_octets_ofBits {len : ℕ} {bs : List Bool} (h : bs.length = 8 * len) :
    bytesBits (octets len (ofBits bs)) = bs := by
  rw [bytesBits_octets, ← h, bitsOf_ofBits]

/-- Only the bits that fit count. -/
theorem octets_or_high (len x y : ℕ) : octets len (x ||| y <<< (8 * len)) = octets len x := by
  have h : ∀ n ≤ len, octets n (x ||| y <<< (8 * len)) = octets n x := by
    intro n
    induction n with
    | zero => exact fun _ => rfl
    | succ n ih =>
        intro hn
        have hzero : UInt8.ofNat (y <<< (8 * len) >>> (8 * n)) = 0 := by
          refine UInt8.toNat.inj ?_
          have hshift : y <<< (8 * len) >>> (8 * n) = (y <<< (8 * (len - n - 1))) * 2 ^ 8 := by
            rw [show 8 * len = 8 * (len - n - 1) + 8 + 8 * n by omega, Nat.shiftLeft_add,
              Nat.shiftLeft_shiftRight, Nat.shiftLeft_add, Nat.shiftLeft_eq _ 8]
          rw [UInt8.toNat_ofNat', hshift, Nat.mul_mod_left]
          rfl
        rw [octets, octets, ih (by omega), Nat.shiftRight_or_distrib, UInt8.ofNat_or, hzero,
          UInt8.or_zero]
  exact h len le_rfl

/-- Bits that are set in an octet. -/
theorem octets_modify {len i b : ℕ} (hi : i < len) (hb : b < 2 ^ 8) (x : ℕ) :
    (octets len x).modify i (· ||| .ofNat b) = octets len (x ||| b <<< (8 * (len - 1 - i))) := by
  induction len generalizing i with
  | zero => exact absurd hi (Nat.not_lt_zero i)
  | succ len ih =>
      cases i with
      | zero =>
          rw [octets, octets, List.modify_zero_cons, Nat.shiftRight_or_distrib, UInt8.ofNat_or,
            show len + 1 - 1 - 0 = len from rfl, Nat.shiftLeft_shiftRight, octets_or_high]
      | succ i =>
          have hlow : b <<< (8 * (len - 1 - i)) >>> (8 * len) = 0 := by
            refine Nat.shiftRight_eq_zero _ _ ?_
            rw [Nat.shiftLeft_eq]
            calc b * 2 ^ (8 * (len - 1 - i)) < 2 ^ 8 * 2 ^ (8 * (len - 1 - i)) :=
                  Nat.mul_lt_mul_of_pos_right hb (by positivity)
              _ = 2 ^ (8 + 8 * (len - 1 - i)) := (Nat.pow_add ..).symm
              _ ≤ 2 ^ (8 * len) := Nat.pow_le_pow_right (by decide) (by omega)
          rw [octets, octets, List.modify_succ_cons, ih (by omega), Nat.shiftRight_or_distrib,
            show len + 1 - 1 - (i + 1) = len - 1 - i by omega, hlow, Nat.or_zero]

end BitWriter
