import Mathlib.Data.Nat.Bitwise

/-!
# O-DU MAC: the bits of a DCI (`lwr_mac_util.c`)

`fillDlDciPayload` packs the fields of a DCI from bit 0 of the last octet on, each field with its bits
reversed. A field that fits into what is left of an octet is written to the low bits of that octet,
wherever the octet has been filled to.
-/

namespace OaiCu.OduMac

/-- `reverseBits`. -/
def reverseBits (num numBits : ℕ) : ℕ :=
  (List.range numBits).foldl (fun reverse_num bitIdx =>
    if num.testBit bitIdx then reverse_num ||| 1 <<< (numBits - 1 - bitIdx) else reverse_num) 0

/-- The buffer and the cursors, of which `bytePos` has 8 bits. -/
structure DciCursor where
  payload : List UInt8
  bytePos : ℕ
  bitPos : ℕ
deriving DecidableEq, Repr

/-- A write outside of the buffer has no result. -/
def DciCursor.setBits (c : DciCursor) (bits : UInt8) : Option DciCursor :=
  if c.bytePos < c.payload.length then
    some { c with payload := c.payload.modify c.bytePos (· ||| bits) }
  else none

/-- `fillDlDciPayload`. -/
def fillDlDciPayload (c : DciCursor) (val valSize : ℕ) : Option DciCursor :=
  if c.bitPos + valSize ≤ 8 then do
    let bytePart1 := UInt8.ofNat (val % 2 ^ valSize)
    let c' ← c.setBits bytePart1
    return { c' with bitPos := c.bitPos + valSize }
  else do
    let bytePart1Size := 8 - c.bitPos
    let bytePart2Size := valSize - bytePart1Size
    let bytePart1 := UInt8.ofNat ((val % 2 ^ bytePart1Size) <<< c.bitPos)
    let bytePart2 := val >>> bytePart1Size
    let c' ← c.setBits bytePart1
    fillDlDciPayload { c' with bytePos := (c.bytePos + 2 ^ 8 - 1) % 2 ^ 8, bitPos := 0 }
      bytePart2 bytePart2Size
termination_by (valSize, c.bitPos)
decreasing_by
  simp only [Prod.lex_def]
  omega

/-! ## Reversed bits -/

theorem testBit_foldl_reverse (num numBits i : ℕ) : ∀ {count : ℕ}, count ≤ numBits →
    ((List.range count).foldl (fun reverse_num bitIdx =>
      if num.testBit bitIdx then reverse_num ||| 1 <<< (numBits - 1 - bitIdx)
      else reverse_num) 0).testBit i =
      (decide (i < numBits ∧ numBits - 1 - i < count) && num.testBit (numBits - 1 - i))
  | 0, _ => by
      rw [List.range_zero, List.foldl_nil, Nat.zero_testBit, decide_eq_false, Bool.false_and]
      rintro ⟨-, h⟩
      exact Nat.not_lt_zero _ h
  | count + 1, hcount => by
      have ih := testBit_foldl_reverse num numBits i (Nat.le_of_succ_le hcount)
      rw [List.range_succ, List.foldl_append, List.foldl_cons, List.foldl_nil]
      by_cases hat : i < numBits ∧ numBits - 1 - i = count
      · obtain ⟨hi, rfl⟩ := hat
        have hback : numBits - 1 - (numBits - 1 - i) = i := by omega
        rw [decide_eq_true ⟨hi, Nat.lt_succ_self _⟩, Bool.true_and, hback]
        split
        · rename_i hbit
          rw [Nat.testBit_or, Nat.one_shiftLeft, Nat.testBit_two_pow_self, Bool.or_true, hbit]
        · rename_i hbit
          rw [ih, Bool.eq_false_iff.mpr hbit, Bool.and_false]
      · have hdecide : decide (i < numBits ∧ numBits - 1 - i < count + 1) =
            decide (i < numBits ∧ numBits - 1 - i < count) := by
          refine decide_eq_decide.mpr ⟨?_, ?_⟩
          · rintro ⟨hi, hle⟩
            exact ⟨hi, by omega⟩
          · rintro ⟨hi, hlt⟩
            exact ⟨hi, Nat.lt_succ_of_lt hlt⟩
        rw [hdecide, ← ih]
        split
        · have hother : (1 <<< (numBits - 1 - count)).testBit i = false := by
            rw [Nat.one_shiftLeft, Nat.testBit_two_pow]
            exact decide_eq_false (by omega)
          rw [Nat.testBit_or, hother, Bool.or_false]
        · rfl

theorem testBit_reverseBits (num numBits i : ℕ) :
    (reverseBits num numBits).testBit i =
      (decide (i < numBits) && num.testBit (numBits - 1 - i)) := by
  rw [reverseBits, testBit_foldl_reverse num numBits i (Nat.le_refl _)]
  refine congrArg (· && _) (decide_eq_decide.mpr ⟨And.left, fun hi => ⟨hi, ?_⟩⟩)
  omega

theorem reverseBits_lt (num numBits : ℕ) : reverseBits num numBits < 2 ^ numBits := by
  refine Nat.lt_pow_two_of_testBit _ fun i hi => ?_
  rw [testBit_reverseBits, decide_eq_false (Nat.not_lt.mpr hi), Bool.false_and]

/-- The bits are restored. -/
theorem reverseBits_reverseBits {num numBits : ℕ} (h : num < 2 ^ numBits) :
    reverseBits (reverseBits num numBits) numBits = num := by
  refine Nat.eq_of_testBit_eq fun i => ?_
  rw [testBit_reverseBits, testBit_reverseBits]
  by_cases hi : i < numBits
  · have hback : numBits - 1 - (numBits - 1 - i) = i := by omega
    rw [decide_eq_true hi, decide_eq_true (by omega), hback, Bool.true_and, Bool.true_and]
  · rw [decide_eq_false hi, Bool.false_and]
    have hpow : 2 ^ numBits ≤ 2 ^ i := Nat.pow_le_pow_right (by decide) (Nat.not_lt.mp hi)
    exact (Nat.testBit_lt_two_pow (h.trans_le hpow)).symm

theorem reverseBits_zero (numBits : ℕ) : reverseBits 0 numBits = 0 := by
  refine Nat.eq_of_testBit_eq fun i => ?_
  rw [testBit_reverseBits, Nat.zero_testBit, Nat.zero_testBit, Bool.and_false]

/-! ## The octets as one number -/

/-- The number whose bit 0 is bit 0 of the last octet. -/
def streamOf : List UInt8 → ℕ
  | [] => 0
  | b :: l => b.toNat <<< (8 * l.length) ||| streamOf l

theorem streamOf_modify (bits : UInt8) : ∀ {l : List UInt8} {i : ℕ}, i < l.length →
    streamOf (l.modify i (· ||| bits)) = streamOf l ||| bits.toNat <<< (8 * (l.length - 1 - i))
  | b :: l, 0, _ => by
      rw [List.modify_zero_cons, streamOf, streamOf, UInt8.toNat_or, Nat.shiftLeft_or_distrib,
        List.length_cons, Nat.sub_zero, Nat.add_sub_cancel, Nat.or_assoc,
        Nat.or_comm (bits.toNat <<< _), ← Nat.or_assoc]
  | b :: l, i + 1, h => by
      have hi : i < l.length := Nat.lt_of_succ_lt_succ h
      have hindex : l.length + 1 - 1 - (i + 1) = l.length - 1 - i := by omega
      rw [List.modify_succ_cons, streamOf, streamOf, List.length_modify, streamOf_modify bits hi,
        List.length_cons, hindex, Nat.or_assoc]

theorem streamOf_replicate (n : ℕ) : streamOf (List.replicate n 0) = 0 := by
  induction n with
  | zero => rfl
  | succ n ih =>
    rw [List.replicate_succ, streamOf, ih, Nat.or_zero]
    exact Nat.zero_shiftLeft _

theorem modify_append_left {f : UInt8 → UInt8} (rest : List UInt8) : ∀ {l : List UInt8} {i : ℕ},
    i < l.length → (l ++ rest).modify i f = l.modify i f ++ rest
  | b :: l, 0, _ => by
      rw [List.cons_append, List.modify_zero_cons, List.modify_zero_cons, List.cons_append]
  | b :: l, i + 1, h => by
      rw [List.cons_append, List.modify_succ_cons, List.modify_succ_cons, List.cons_append,
        modify_append_left rest (Nat.lt_of_succ_lt_succ h)]

/-- The first `n` octets hold a stream, and its next bit is at the cursors. -/
structure DciCursor.At (rest : List UInt8) (n : ℕ) (c : DciCursor) (stream pos : ℕ) : Prop where
  region : ∃ region, region.length = n ∧ c.payload = region ++ rest ∧ streamOf region = stream
  bytePos_lt : c.bytePos < n
  bitPos_le : c.bitPos ≤ 8
  pos_eq : 8 * (n - 1 - c.bytePos) + c.bitPos = pos

/-- Where a field is written: at the position, or at the first bit of the octet if it fits into that
octet. -/
def place (pos valSize : ℕ) : ℕ := if pos % 8 + valSize ≤ 8 then 8 * (pos / 8) else pos

section

variable {rest : List UInt8} {n : ℕ} {c : DciCursor} {stream pos val valSize : ℕ}

/-- Bits that are set in the octet of the cursor. -/
theorem DciCursor.At.setBits (h : c.At rest n stream pos) (bits : UInt8) : ∃ region,
    c.setBits bits = some { c with payload := region ++ rest } ∧ region.length = n ∧
      streamOf region = stream ||| bits.toNat <<< (8 * (n - 1 - c.bytePos)) := by
  obtain ⟨region, hlength, hpayload, rfl⟩ := h.region
  have hlt : c.bytePos < region.length := hlength.symm ▸ h.bytePos_lt
  refine ⟨region.modify c.bytePos (· ||| bits), ?_, ?_, ?_⟩
  · have hbuffer : c.bytePos < c.payload.length := by
      rw [hpayload, List.length_append]
      exact Nat.lt_add_right _ hlt
    rw [DciCursor.setBits, if_pos hbuffer, hpayload, modify_append_left rest hlt]
  · rw [List.length_modify, hlength]
  · rw [streamOf_modify bits hlt, hlength]

/-- A field that fits into the octet is written to its low bits. -/
theorem DciCursor.At.fits (h : c.At rest n stream pos) (hval : val < 2 ^ valSize)
    (hfits : c.bitPos + valSize ≤ 8) : ∃ c', fillDlDciPayload c val valSize = some c' ∧
      c'.At rest n (stream ||| val <<< (8 * (n - 1 - c.bytePos))) (pos + valSize) := by
  have hsize : valSize ≤ 8 := by omega
  have hbyte : (UInt8.ofNat (val % 2 ^ valSize)).toNat = val := by
    rw [UInt8.toNat_ofNat', Nat.mod_eq_of_lt hval]
    exact Nat.mod_eq_of_lt (hval.trans_le (Nat.pow_le_pow_right (by decide) hsize))
  obtain ⟨region, hset, hlength, hstream⟩ := h.setBits (.ofNat (val % 2 ^ valSize))
  rw [hbyte] at hstream
  refine ⟨⟨region ++ rest, c.bytePos, c.bitPos + valSize⟩, ?_, ⟨region, hlength, rfl, hstream⟩,
    h.bytePos_lt, hfits, ?_⟩
  · rw [fillDlDciPayload, if_pos hfits]
    dsimp only
    rw [hset]
    rfl
  · rw [← h.pos_eq, Nat.add_assoc]

/-- A field that does not fit leaves its high bits for the next octet. -/
theorem DciCursor.At.straddles (h : c.At rest n stream pos) (hn : n ≤ 2 ^ 8)
    (hstraddles : ¬c.bitPos + valSize ≤ 8) (hroom : pos + valSize ≤ 8 * n) :
    ∃ c', c'.bitPos = 0 ∧ fillDlDciPayload c val valSize =
        fillDlDciPayload c' (val >>> (8 - c.bitPos)) (valSize - (8 - c.bitPos)) ∧
      c'.At rest n (stream ||| (val % 2 ^ (8 - c.bitPos)) <<< pos) (pos + (8 - c.bitPos)) := by
  have hpos := h.pos_eq
  have hbit := h.bitPos_le
  have hbytePos := h.bytePos_lt
  have hbyte : (UInt8.ofNat ((val % 2 ^ (8 - c.bitPos)) <<< c.bitPos)).toNat =
      (val % 2 ^ (8 - c.bitPos)) <<< c.bitPos := by
    rw [UInt8.toNat_ofNat']
    refine Nat.mod_eq_of_lt ?_
    rw [Nat.shiftLeft_eq]
    have hlow : val % 2 ^ (8 - c.bitPos) < 2 ^ (8 - c.bitPos) := Nat.mod_lt _ (Nat.two_pow_pos _)
    calc val % 2 ^ (8 - c.bitPos) * 2 ^ c.bitPos < 2 ^ (8 - c.bitPos) * 2 ^ c.bitPos :=
          Nat.mul_lt_mul_of_pos_right hlow (Nat.two_pow_pos _)
      _ = 2 ^ 8 := by rw [← Nat.pow_add, Nat.sub_add_cancel hbit]
  obtain ⟨region, hset, hlength, hstream⟩ :=
    h.setBits (.ofNat ((val % 2 ^ (8 - c.bitPos)) <<< c.bitPos))
  rw [hbyte, ← Nat.shiftLeft_add, Nat.add_comm c.bitPos, hpos] at hstream
  refine ⟨⟨region ++ rest, (c.bytePos + 2 ^ 8 - 1) % 2 ^ 8, 0⟩, rfl, ?_,
    ⟨region, hlength, rfl, hstream⟩, ?_, Nat.zero_le 8, ?_⟩
  · rw [fillDlDciPayload, if_neg hstraddles]
    dsimp only
    rw [hset]
    rfl
  · dsimp only
    omega
  · dsimp only
    omega

/-- The low and the high bits of a field. -/
theorem shiftLeft_split (val count pos : ℕ) :
    (val % 2 ^ count) <<< pos ||| (val >>> count) <<< (pos + count) = val <<< pos := by
  have hval : val >>> count <<< count ||| val % 2 ^ count = val := by
    rw [← Nat.shiftLeft_add_eq_or_of_lt (Nat.mod_lt _ (Nat.two_pow_pos _)), Nat.shiftLeft_eq,
      Nat.shiftRight_eq_div_pow]
    exact Nat.div_add_mod' val (2 ^ count)
  rw [Nat.add_comm pos, Nat.shiftLeft_add, ← Nat.shiftLeft_or_distrib, Nat.or_comm, hval]

theorem shiftRight_lt {count : ℕ} (hval : val < 2 ^ valSize) (hcount : count ≤ valSize) :
    val >>> count < 2 ^ (valSize - count) := by
  rw [Nat.shiftRight_eq_div_pow]
  refine Nat.div_lt_of_lt_mul ?_
  rwa [← Nat.pow_add, Nat.add_sub_cancel' hcount]

/-- A field that begins in a new octet is written at the position. -/
theorem DciCursor.At.fill_zero (hn : n ≤ 2 ^ 8) : ∀ {valSize : ℕ} {c : DciCursor}
    {stream pos val : ℕ}, c.At rest n stream pos → c.bitPos = 0 → val < 2 ^ valSize →
    pos + valSize ≤ 8 * n → ∃ c', fillDlDciPayload c val valSize = some c' ∧
      c'.At rest n (stream ||| val <<< pos) (pos + valSize)
  | valSize, c, stream, pos, val, h, hzero, hval, hroom => by
      have hpos := h.pos_eq
      by_cases hfits : c.bitPos + valSize ≤ 8
      · have hstart : 8 * (n - 1 - c.bytePos) = pos := by omega
        have hfit := h.fits hval hfits
        rw [hstart] at hfit
        exact hfit
      · obtain ⟨c', hzero', hstep, hat⟩ :=
          @DciCursor.At.straddles rest n c stream pos val valSize h hn hfits hroom
        rw [hzero, Nat.sub_zero] at hstep hat
        have hhigh := shiftRight_lt hval (by omega : 8 ≤ valSize)
        obtain ⟨c'', hfill, hat'⟩ := DciCursor.At.fill_zero hn hat hzero' hhigh (by omega)
        rw [Nat.or_assoc, shiftLeft_split] at hat'
        have hpos' : pos + 8 + (valSize - 8) = pos + valSize := by omega
        exact ⟨c'', hstep.trans hfill, hpos' ▸ hat'⟩
  termination_by valSize => valSize

/-- A field is written at its place. -/
theorem DciCursor.At.fill (hn : n ≤ 2 ^ 8) (h : c.At rest n stream pos) (hval : val < 2 ^ valSize)
    (hroom : pos + valSize ≤ 8 * n) : ∃ c', fillDlDciPayload c val valSize = some c' ∧
      c'.At rest n (stream ||| val <<< place pos valSize) (pos + valSize) := by
  have hpos := h.pos_eq
  have hbit := h.bitPos_le
  by_cases hfits : c.bitPos + valSize ≤ 8
  · obtain ⟨c', hfill, hat⟩ := h.fits hval hfits
    have hplace : val <<< (8 * (n - 1 - c.bytePos)) = val <<< place pos valSize := by
      obtain hlt | hfull := hbit.lt_or_eq
      · rw [place, if_pos (by omega)]
        exact congrArg _ (by omega)
      · -- no bit is left in the octet
        obtain rfl : valSize = 0 := by omega
        obtain rfl := Nat.lt_one_iff.mp hval
        rw [Nat.zero_shiftLeft, Nat.zero_shiftLeft]
    rw [hplace] at hat
    exact ⟨c', hfill, hat⟩
  · obtain ⟨c', hzero', hstep, hat⟩ :=
      @DciCursor.At.straddles rest n c stream pos val valSize h hn hfits hroom
    have hhigh := shiftRight_lt hval (by omega : 8 - c.bitPos ≤ valSize)
    obtain ⟨c'', hfill, hat'⟩ := DciCursor.At.fill_zero hn hat hzero' hhigh (by omega)
    rw [Nat.or_assoc, shiftLeft_split] at hat'
    have hpos' : pos + (8 - c.bitPos) + (valSize - (8 - c.bitPos)) = pos + valSize := by omega
    have hplace : place pos valSize = pos := by
      rw [place]
      split
      · omega
      · rfl
    rw [hplace]
    exact ⟨c'', hstep.trans hfill, hpos' ▸ hat'⟩

end

end OaiCu.OduMac
