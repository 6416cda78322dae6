import Mathlib.Tactic.Ring

/-!
# Numbers as octets

The octets of a number with the least significant one first, the number that octets stand for in
either order, and the exchange of the two orders.
-/

namespace Octets

/-- The `w` lowest octets, the least significant one first. -/
def little : ℕ → ℕ → List UInt8
  | 0, _ => []
  | w + 1, n => UInt8.ofNat n :: little w (n / 256)

/-- The number with these octets, the least significant one first. -/
def ofLittle : List UInt8 → ℕ
  | [] => 0
  | b :: l => b.toNat + 256 * ofLittle l

/-- The number with these octets, the most significant one first. -/
def ofBig (l : List UInt8) : ℕ := ofLittle l.reverse

/-- The number whose octets are in the other order. -/
def swap (w n : ℕ) : ℕ := ofBig (little w n)

theorem length_little (w n : ℕ) : (little w n).length = w := by
  induction w generalizing n with
  | zero => rfl
  | succ w ih => exact congrArg (· + 1) (ih (n / 256))

theorem ofLittle_little (w n : ℕ) : ofLittle (little w n) = n % 256 ^ w := by
  induction w generalizing n with
  | zero => exact (Nat.mod_one n).symm
  | succ w ih =>
      rw [little, ofLittle, ih, pow_succ', Nat.mod_mul, UInt8.toNat_ofNat']

theorem little_ofLittle (l : List UInt8) : little l.length (ofLittle l) = l := by
  induction l with
  | nil => rfl
  | cons b l ih =>
      have hb := b.toNat_lt
      rw [List.length_cons, little, ofLittle, Nat.add_mul_div_left _ _ (by decide),
        Nat.div_eq_of_lt hb, zero_add, ih]
      congr 1
      apply UInt8.toNat.inj
      rw [UInt8.toNat_ofNat', Nat.add_mul_mod_self_left]
      exact Nat.mod_eq_of_lt hb

/-- The octets of the exchanged number. -/
theorem little_swap (w n : ℕ) : little w (swap w n) = (little w n).reverse := by
  have h := little_ofLittle (little w n).reverse
  rwa [List.length_reverse, length_little] at h

/-- Octets that are written in the one order after an exchange are read in the other. -/
theorem ofBig_little_swap (w n : ℕ) : ofBig (little w (swap w n)) = n % 256 ^ w := by
  unfold ofBig
  rw [little_swap, List.reverse_reverse, ofLittle_little]

theorem ofLittle_lt (l : List UInt8) : ofLittle l < 256 ^ l.length := by
  induction l with
  | nil => exact Nat.one_pos
  | cons b l ih =>
      have hb := b.toNat_lt
      rw [ofLittle, List.length_cons, pow_succ]
      omega

theorem swap_lt (w n : ℕ) : swap w n < 256 ^ w := by
  have h := ofLittle_lt (little w n).reverse
  rwa [List.length_reverse, length_little] at h

theorem swap_swap (w n : ℕ) : swap w (swap w n) = n % 256 ^ w := ofBig_little_swap w n

/-- Two octets. -/
theorem swap_two (n : ℕ) : swap 2 n = n % 256 * 256 + n / 256 % 256 := by
  change (UInt8.ofNat (n / 256)).toNat + 256 * ((UInt8.ofNat n).toNat + 256 * 0) = _
  rw [UInt8.toNat_ofNat', UInt8.toNat_ofNat']
  omega

end Octets
