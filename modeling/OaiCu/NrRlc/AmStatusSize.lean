import OaiCu.Lib.While
import OaiCu.NrRlc.AmRun

/-!
# RLC AM: the predicted size of a STATUS PDU

`nr_rlc_entity_am_buffer_status` tells the MAC how large the STATUS PDU would be. It goes through
the missing parts a second time, with code of its own (`missing_size`, `status_size`), and counts
what `generate_missing` and `generate_status` would write.
-/

namespace OaiCu.NrRlc

open While

/-! ## The prediction -/

/-- What `missing_size` adds for a NACK: the bits of its fields, in bytes. -/
def nackFieldsSize (cfg : AmConfig) (r : Range) : ℕ :=
  (cfg.snFieldLength + 3 + (if cfg.snFieldLength = 18 then 3 else 1) + (if r.e2 then 16 * 2 else 0) +
    (if r.e3 then 8 else 0)) / 8

/-- The loop of `missing_size`: `range_count`, `size` and whether the room for a NACK was missing.
The first argument bounds the iterations, each of which counts an SN. -/
def missingRanges (cfg : AmConfig) (m : Missing) (maxsize : ℤ) :
    ℕ → ℕ → ℤ → ℕ → ℕ → ℕ × ℕ × Bool
  | 0, _, _, rangeCount, size => (rangeCount, size, false)
  | _ + 1, 0, _, rangeCount, size => (rangeCount, size, false)
  | fuel + 1, snCount + 1, snStart, rangeCount, size =>
      let r := m.range cfg snStart (snCount + 1)
      if size + nackSize cfg r > maxsize then (rangeCount, size, true)
      else
        missingRanges cfg m maxsize fuel (snCount + 1 - r.snCount)
          ((snStart + r.snCount) % cfg.snModulus) (rangeCount + 1) (size + nackFieldsSize cfg r)

/-- `missing_size`. -/
def missingSize (cfg : AmConfig) (m : Missing) (size : ℕ) (maxsize : ℤ) : ℕ × ℕ × Bool :=
  missingRanges cfg m maxsize (m.snCount cfg) (m.snCount cfg) m.snStart 0 size

/-- The variables of the loop of `status_size`. -/
structure SizeLoop where
  cur : List Pdu
  nackCount : ℕ
  size : ℕ

/-- One pass of the loop of `status_size`. -/
def sizePass (cfg : AmConfig) (rx : AmRx) (maxsize : ℤ) (s : SizeLoop) : Option SizeLoop :=
  match s.cur with
  | [] => none
  | cur :: next =>
      (nextMissing cfg rx cur next (s.nackCount == 0)).map fun m =>
        let (rangeCount, size, truncated) := missingSize cfg m s.size maxsize
        { cur := if truncated then [] else m.next
          nackCount := s.nackCount + rangeCount
          size }

/-- `status_size`. -/
def statusSize (cfg : AmConfig) (rx : AmRx) (maxsize : ℤ) : ℕ :=
  if maxsize < 3 then 0
  else
    (iterate (sizePass cfg rx maxsize) (rx.rxList.length + 1)
      { cur := rx.rxList, nackCount := 0, size := 3 }).size

/-- `nr_rlc_entity_buffer_status_t`. -/
structure BufferStatus where
  statusSize : ℕ
  txSize : ℤ
  retxSize : ℤ
deriving DecidableEq, Repr

/-- `nr_rlc_entity_am_buffer_status`. -/
def amBufferStatus (e : AmEntity) (maxsize : ℤ) : BufferStatus where
  statusSize :=
    if statusToReport e.cfg e.tCurrent e.rx then statusSize e.cfg e.rx maxsize else 0
  txSize := e.tx.bstatusTxSize
  retxSize := e.tx.bstatusRetxSize

/-! ## The loop of `generate_status` -/

/-- The variables of the loop of `generate_status`. -/
structure NacksLoop where
  cur : List Pdu
  checkHead : Bool
  lastNack : ℤ
  st : StatusEncoder

/-- What follows `next_missing` in a pass of the loop of `generate_status`. -/
def reportMissing (cfg : AmConfig) (s : NacksLoop) (m : Missing) : Except Fault NacksLoop := do
  let (st, ln, truncated) ← generateMissing cfg m s.st
  return {
    cur := if truncated then [] else m.next
    checkHead := false
    lastNack := if ln = -1 then s.lastNack else ln
    st := if truncated then forceSoEnd st else st }

/-- One pass of the loop of `generate_status`; it is also left by a fault. -/
def nacksPass (cfg : AmConfig) (rx : AmRx) : Except Fault NacksLoop →
    Option (Except Fault NacksLoop)
  | .error _ => none
  | .ok s =>
      match s.cur with
      | [] => none
      | cur :: next => (nextMissing cfg rx cur next s.checkHead).map (reportMissing cfg s)

theorem generateNacks_eq (cfg : AmConfig) (rx : AmRx) (fuel : ℕ) (s : NacksLoop) :
    generateNacks cfg rx fuel s.cur s.checkHead s.lastNack s.st =
      (iterate (nacksPass cfg rx) fuel (.ok s)).map fun s => (s.st, s.lastNack) := by
  induction fuel generalizing s with
  | zero => rfl
  | succ fuel ih =>
      obtain ⟨cur, checkHead, lastNack, st⟩ := s
      cases cur with
      | nil => rfl
      | cons cur next =>
          rw [generateNacks]
          cases hm : nextMissing cfg rx cur next checkHead with
          | none =>
              rw [iterate_of_none]
              · rfl
              · simp only [nacksPass, hm, Option.map_none]
          | some m =>
              have hpass : nacksPass cfg rx (.ok ⟨cur :: next, checkHead, lastNack, st⟩) =
                  some (reportMissing cfg ⟨cur :: next, checkHead, lastNack, st⟩ m) := by
                simp only [nacksPass, hm, Option.map_some]
              rw [iterate_of_some hpass]
              simp only [reportMissing]
              cases hg : generateMissing cfg m st with
              | error f =>
                  change Except.error f = _
                  rw [iterate_of_none]
                  · rfl
                  · rfl
              | ok res =>
                  obtain ⟨st', ln, truncated⟩ := res
                  cases truncated with
                  | true => exact ih ⟨[], false, if ln = -1 then lastNack else ln, forceSoEnd st'⟩
                  | false => exact ih ⟨m.next, false, if ln = -1 then lastNack else ln, st'⟩

/-! ## One NACK -/

/-- The encoder stands before a byte of the buffer, or behind the last one. -/
structure Encoder.Aligned (e : Encoder) : Prop where
  bit : e.bit = 0
  le : e.byte ≤ e.buffer.length

theorem Encoder.Aligned.wf {e : Encoder} (h : e.Aligned) : e.WF := by
  refine ⟨?_, ?_⟩
  · rw [h.bit]
    decide
  · have := h.le
    rw [h.bit]
    omega

section Nack

variable {cfg : AmConfig} {st : StatusEncoder} {r : Range}

theorem nackFieldsSize_eq (cfg : AmConfig) (r : Range) : nackFieldsSize cfg r = nackSize cfg r := by
  unfold nackFieldsSize nackSize
  rcases cfg.snFieldLength_valid with h | h
  all_goals
    rw [h]
    cases r.e2 <;> cases r.e3 <;> rfl

@[simp] theorem setE1_byte (st : StatusEncoder) : st.setE1.byte = st.encoder.byte := rfl

@[simp] theorem setE1_length (st : StatusEncoder) :
    st.setE1.buffer.length = st.encoder.buffer.length := by
  simp [StatusEncoder.setE1]

@[simp] theorem forceSoEnd_byte (st : StatusEncoder) :
    (forceSoEnd st).encoder.byte = st.encoder.byte := by
  unfold forceSoEnd
  split <;> rfl

@[simp] theorem forceSoEnd_bit (st : StatusEncoder) :
    (forceSoEnd st).encoder.bit = st.encoder.bit := by
  unfold forceSoEnd
  split <;> rfl

@[simp] theorem forceSoEnd_length (st : StatusEncoder) :
    (forceSoEnd st).encoder.buffer.length = st.encoder.buffer.length := by
  unfold forceSoEnd
  split <;> simp

/-- An optional field. -/
theorem Encoder.putBits_optional {e : Encoder} (b : Bool) (v : ℕ) {n : ℕ} (hw : e.WF)
    (hroom : 8 * e.byte + e.bit + (if b then n else 0) ≤ 8 * e.buffer.length) :
    ∃ e', (if b then e.putBits v n else .ok e) = .ok e' ∧ e'.WF ∧
      e'.buffer.length = e.buffer.length ∧
      8 * e'.byte + e'.bit = 8 * e.byte + e.bit + (if b then n else 0) := by
  cases b with
  | false => exact ⟨e, rfl, hw, rfl, rfl⟩
  | true =>
      obtain ⟨e', h, -, hw', hl, hp⟩ := Encoder.putBits_room v hw hroom
      exact ⟨e', h, hw', hl, hp⟩

/-- A NACK for which there is room is written, and takes the bytes that were counted. -/
theorem putNack_room (ha : st.encoder.Aligned)
    (hroom : st.encoder.byte + nackSize cfg r ≤ st.encoder.buffer.length) :
    ∃ st', putNack cfg st r = .ok st' ∧ st'.encoder.Aligned ∧
      st'.encoder.buffer.length = st.encoder.buffer.length ∧
      st'.encoder.byte = st.encoder.byte + nackSize cfg r := by
  have hw : st.setE1.WF := by
    have := ha.wf
    simpa [Encoder.WF, StatusEncoder.setE1] using this
  have hbit : st.setE1.bit = 0 := ha.bit
  have hfields : 8 * nackSize cfg r = cfg.snFieldLength + 3 +
      (if cfg.snFieldLength = 18 then 3 else 1) + (if r.e2 then 32 else 0) +
      (if r.e3 then 8 else 0) := by
    unfold nackSize
    rcases cfg.snFieldLength_valid with h | h
    all_goals
      rw [h]
      cases r.e2 <;> cases r.e3 <;> rfl
  have hle := Nat.mul_le_mul_left 8 hroom
  rw [Nat.mul_add, hfields] at hle
  obtain ⟨e₁, h₁, -, hw₁, hl₁, hp₁⟩ := @Encoder.putBits_room st.setE1 r.snStart.toNat
    cfg.snFieldLength hw (by rw [setE1_byte, setE1_length, hbit]; omega)
  rw [setE1_byte, hbit] at hp₁
  rw [setE1_length] at hl₁
  obtain ⟨e₂, h₂, -, hw₂, hl₂, hp₂⟩ := @Encoder.putBits_room e₁ 0 1 hw₁ (by omega)
  obtain ⟨e₃, h₃, -, hw₃, hl₃, hp₃⟩ := @Encoder.putBits_room e₂ r.e2.toNat 1 hw₂ (by omega)
  obtain ⟨e₄, h₄, -, hw₄, hl₄, hp₄⟩ := @Encoder.putBits_room e₃ r.e3.toNat 1 hw₃ (by omega)
  obtain ⟨e₅, h₅, -, hw₅, hl₅, hp₅⟩ := @Encoder.putBits_room e₄ 0
    (if cfg.snFieldLength = 18 then 3 else 1) hw₄ (by omega)
  have he2 : (if r.e2 then 32 else 0) = 2 * (if r.e2 then 16 else 0) := by
    cases r.e2 <;> rfl
  obtain ⟨e₆, h₆, hw₆, hl₆, hp₆⟩ := @Encoder.putBits_optional e₅ r.e2 r.soStart.toNat 16 hw₅
    (by omega)
  obtain ⟨e₇, h₇, hw₇, hl₇, hp₇⟩ := @Encoder.putBits_optional e₆ r.e2 r.soEnd.toNat 16 hw₆
    (by omega)
  obtain ⟨e₈, h₈, hw₈, hl₈, hp₈⟩ := @Encoder.putBits_optional e₇ r.e3 r.snCount 8 hw₇ (by omega)
  have hend : e₈.bit = 0 ∧ e₈.byte = st.encoder.byte + nackSize cfg r := by
    have := hw₈.1
    omega
  refine
    ⟨{ encoder := e₈
       e1Byte := st.setE1.byte + if cfg.snFieldLength = 18 then 2 else 1
       e1Bit := if cfg.snFieldLength = 18 then 5 else 3
       soEndAddress := if r.e2 then some e₆.byte else none }, ?_, ⟨hend.1, ?_⟩, ?_, hend.2⟩
  · simp only [putNack, h₁, h₂, h₃, h₄, h₅, h₆, h₇, h₈, Bind.bind, Except.bind]
    rfl
  · have hle₈ : e₈.byte ≤ e₈.buffer.length := by
      have := hw₈.2
      have := hend.1
      omega
    exact hle₈
  · change e₈.buffer.length = _
    omega

end Nack

/-! ## One missing part -/

section Part

variable {cfg : AmConfig} {m : Missing} {maxsize : ℤ}

theorem missingRanges_le (fuel snCount : ℕ) (snStart : ℤ) (rangeCount size : ℕ) :
    rangeCount ≤ (missingRanges cfg m maxsize fuel snCount snStart rangeCount size).1 := by
  induction fuel generalizing snCount snStart rangeCount size with
  | zero => exact le_rfl
  | succ fuel ih =>
      cases snCount with
      | zero => exact le_rfl
      | succ snCount =>
          rw [missingRanges]
          split
          · exact le_rfl
          · exact (Nat.le_succ _).trans (ih _ _ _ _)

theorem Missing.snCount_pos (cfg : AmConfig) (m : Missing) : m.snCount cfg ≠ 0 := by
  have := cfg.snModulus_pos
  have := Int.emod_nonneg (m.snEnd - m.snStart + cfg.snModulus) (by omega : cfg.snModulus ≠ 0)
  unfold Missing.snCount
  omega

/-- A missing part counts for a range at least, unless there is no room for it. -/
theorem missingSize_count {size : ℕ} (h : (missingSize cfg m size maxsize).2.2 = false) :
    (missingSize cfg m size maxsize).1 ≠ 0 := by
  unfold missingSize at *
  obtain ⟨n, hn⟩ := Nat.exists_eq_succ_of_ne_zero (m.snCount_pos cfg)
  rw [hn, missingRanges] at h ⊢
  split at h
  · cases h
  · rw [if_neg (by assumption)]
    have := @missingRanges_le cfg m maxsize n
      (n + 1 - (m.range cfg m.snStart (n + 1)).snCount)
      ((m.snStart + (m.range cfg m.snStart (n + 1)).snCount) % cfg.snModulus) (0 + 1)
      (size + nackFieldsSize cfg (m.range cfg m.snStart (n + 1)))
    omega

/-- The loops of `generate_missing` and `missing_size` go together. -/
theorem generateRanges_size {st : StatusEncoder} {fuel snCount : ℕ} {snStart lastNack : ℤ}
    {rangeCount : ℕ} (ha : st.encoder.Aligned) (hmax : (st.encoder.buffer.length : ℤ) = maxsize) :
    ∃ st' lastNack' truncated rangeCount',
      generateRanges cfg m fuel snCount snStart lastNack st = .ok (st', lastNack', truncated) ∧
      missingRanges cfg m maxsize fuel snCount snStart rangeCount st.encoder.byte =
        (rangeCount', st'.encoder.byte, truncated) ∧
      st'.encoder.Aligned ∧ st'.encoder.buffer.length = st.encoder.buffer.length := by
  induction fuel generalizing st snCount snStart lastNack rangeCount with
  | zero => exact ⟨st, lastNack, false, rangeCount, rfl, rfl, ha, rfl⟩
  | succ fuel ih =>
      cases snCount with
      | zero => exact ⟨st, lastNack, false, rangeCount, rfl, rfl, ha, rfl⟩
      | succ snCount =>
          rw [generateRanges, missingRanges]
          set r := m.range cfg snStart (snCount + 1)
          by_cases hroom : st.encoder.byte + nackSize cfg r ≤ st.encoder.buffer.length
          · obtain ⟨st₁, hput, ha₁, hl₁, hb₁⟩ := putNack_room ha hroom
            obtain ⟨st', ln', truncated, count', hg, hs, ha', hl'⟩ :=
              @ih st₁ (snCount + 1 - r.snCount) ((snStart + r.snCount) % cfg.snModulus)
                (if r.e3 then snStart + r.snCount - 1 else snStart) (rangeCount + 1) ha₁
                (hl₁ ▸ hmax)
            refine ⟨st', ln', truncated, count', ?_, ?_, ha', hl'.trans hl₁⟩
            · rw [if_neg (by omega), hput]
              exact hg
            · rw [if_neg (by omega), nackFieldsSize_eq, ← hb₁]
              exact hs
          · refine ⟨st, lastNack, true, rangeCount, ?_, ?_, ha, rfl⟩
            · rw [if_pos (by omega)]
              rfl
            · rw [if_pos (by omega)]

/-- `missing_size` counts what `generate_missing` writes. -/
theorem generateMissing_size {st : StatusEncoder} (ha : st.encoder.Aligned)
    (hmax : (st.encoder.buffer.length : ℤ) = maxsize) :
    ∃ st' lastNack truncated rangeCount,
      generateMissing cfg m st = .ok (st', lastNack, truncated) ∧
      missingSize cfg m st.encoder.byte maxsize = (rangeCount, st'.encoder.byte, truncated) ∧
      st'.encoder.Aligned ∧ st'.encoder.buffer.length = st.encoder.buffer.length :=
  generateRanges_size ha hmax

end Part

/-! ## The loops over `next_missing` -/

section Loops

variable {cfg : AmConfig} {rx : AmRx} {maxsize : ℤ}

theorem setEndDifferentSdu_next (cfg : AmConfig) (rx : AmRx) (snStart soStart : ℤ) (cur : Pdu)
    (next : List Pdu) :
    (setEndDifferentSdu cfg rx snStart soStart cur next).next.length ≤ next.length + 1 := by
  unfold setEndDifferentSdu
  dsimp only
  generalize outOfReport cfg rx _ = out
  cases out
  · exact le_rfl
  · exact Nat.zero_le _

theorem nextPdu_next {maxSo : ℤ} {lastReached : Bool} {cur : Pdu} {rest : List Pdu} {m : Missing}
    (h : nextPdu cfg rx maxSo lastReached cur rest = some m) : m.next.length ≤ rest.length := by
  induction rest generalizing maxSo lastReached cur with
  | nil =>
      unfold nextPdu at h
      dsimp only at h
      rw [Option.ite_none_left_eq_some] at h
      cases h.2
      rfl
  | cons next rest ih =>
      rw [nextPdu] at h
      split at h
      · exact (ih h).trans (Nat.le_succ _)
      split at h
      · exact (ih h).trans (Nat.le_succ _)
      split at h
      · rw [Option.ite_none_left_eq_some] at h
        cases h.2
        rfl
      · rw [Option.ite_none_left_eq_some] at h
        cases h.2
        exact setEndDifferentSdu_next cfg rx _ _ next rest

/-- A call of `next_missing` takes a PDU off the list, except the one that checks the head. -/
theorem nextMissing_next {cur : Pdu} {next : List Pdu} {checkHead : Bool} {m : Missing}
    (h : nextMissing cfg rx cur next checkHead = some m) :
    m.next.length ≤ next.length + checkHead.toNat := by
  unfold nextMissing at h
  split at h
  · rename_i hc
    split at h
    · cases h
    · cases h
      rw [hc.1]
      exact setEndDifferentSdu_next cfg rx _ _ cur next
  · exact (nextPdu_next h).trans (Nat.le_add_right _ _)

/-- What is left to do for `status_size`. -/
def SizeLoop.measure (s : SizeLoop) : ℕ := s.cur.length + (s.nackCount == 0).toNat

/-- What is left to do for `generate_status`. -/
def NacksLoop.measure (s : NacksLoop) : ℕ := s.cur.length + s.checkHead.toNat

/-- The loop of `generate_status` is left behind a fault. -/
def nacksMeasure : Except Fault NacksLoop → ℕ
  | .error _ => 0
  | .ok s => s.measure

/-- The variables of the two loops agree. -/
def SameNacks (size : ℕ) (x : Except Fault NacksLoop) (s : SizeLoop) : Prop :=
  ∃ g, x = .ok g ∧ g.cur = s.cur ∧ (g.cur ≠ [] → g.checkHead = (s.nackCount == 0)) ∧
    g.st.encoder.Aligned ∧ g.st.encoder.buffer.length = size ∧ g.st.encoder.byte = s.size

theorem same_pass {x : Except Fault NacksLoop} {s : SizeLoop} {size : ℕ} (hmax : maxsize = size)
    (h : SameNacks size x s) :
    Option.Rel (SameNacks size) (nacksPass cfg rx x) (sizePass cfg rx maxsize s) := by
  obtain ⟨⟨cur, checkHead, lastNack, st⟩, rfl, rfl, hhead, ha, hl, hb⟩ := h
  cases hcur : s.cur with
  | nil =>
      simp only [nacksPass, sizePass, hcur]
      exact .none
  | cons cur next =>
      have hcheck : checkHead = (s.nackCount == 0) := hhead (by simp [hcur])
      simp only [nacksPass, sizePass, hcur, hcheck]
      cases hm : nextMissing cfg rx cur next (s.nackCount == 0) with
      | none => exact .none
      | some m =>
          obtain ⟨st', ln, truncated, count, hg, hs, ha', hl'⟩ :=
            @generateMissing_size cfg m maxsize st ha (by rw [hl, hmax])
          rw [hb] at hs
          simp only [Option.map_some, hs]
          refine .some ?_
          cases truncated with
          | true =>
              refine ⟨⟨[], false, if ln = -1 then lastNack else ln, forceSoEnd st'⟩, ?_, rfl,
                by simp, ⟨?_, ?_⟩, ?_, ?_⟩
              · simp only [reportMissing, hg]
                rfl
              · simpa using ha'.bit
              · simpa using ha'.le
              · simpa using hl'.trans hl
              · simp
          | false =>
              refine ⟨⟨m.next, false, if ln = -1 then lastNack else ln, st'⟩, ?_, rfl, ?_, ha',
                hl'.trans hl, rfl⟩
              · simp only [reportMissing, hg]
                rfl
              · intro _
                have hc := @missingSize_count cfg m maxsize s.size (by rw [hs])
                rw [hs] at hc
                simpa using (by omega : ¬ (s.nackCount + count = 0))

/-- The loop of `generate_status` ends. -/
theorem ends_nacks {s : NacksLoop} {fuel : ℕ} (h : s.measure ≤ fuel) :
    Ends (nacksPass cfg rx) (.ok s) (iterate (nacksPass cfg rx) fuel (.ok s)) := by
  refine ends_iterate nacksMeasure ?_ fuel (.ok s) h
  rintro (f | ⟨cur, checkHead, lastNack, st⟩) x hx
  · cases hx
  cases cur with
  | nil => cases hx
  | cons cur next =>
      simp only [nacksPass, Option.map_eq_some_iff] at hx
      obtain ⟨m, hm, rfl⟩ := hx
      have hnext := nextMissing_next hm
      unfold reportMissing
      cases generateMissing cfg m st with
      | error f =>
          change 0 < (cur :: next).length + checkHead.toNat
          simp
      | ok res =>
          obtain ⟨st', ln, truncated⟩ := res
          change (if truncated then [] else m.next).length + 0 <
            (cur :: next).length + checkHead.toNat
          split
          · simp
          · simp only [List.length_cons]
            omega

/-- The loop of `status_size` ends. -/
theorem ends_size {s : SizeLoop} {fuel : ℕ} (h : s.measure ≤ fuel) :
    Ends (sizePass cfg rx maxsize) s (iterate (sizePass cfg rx maxsize) fuel s) := by
  refine ends_iterate SizeLoop.measure ?_ fuel s h
  rintro ⟨cur, nackCount, size⟩ s' hs'
  cases cur with
  | nil => cases hs'
  | cons cur next =>
      simp only [sizePass, Option.map_eq_some_iff] at hs'
      obtain ⟨m, hm, rfl⟩ := hs'
      have hnext := nextMissing_next hm
      have hcount := @missingSize_count cfg m maxsize size
      simp only [SizeLoop.measure, List.length_cons]
      generalize missingSize cfg m size maxsize = res at hcount ⊢
      obtain ⟨count, size', truncated⟩ := res
      cases truncated with
      | true =>
          simp only [if_true, List.length_nil]
          cases nackCount with
          | zero => cases count <;> simp
          | succ n =>
              rw [beq_eq_false_iff_ne.mpr (by omega : n + 1 + count ≠ 0)]
              simp
      | false =>
          have : nackCount + count ≠ 0 := by
            have := hcount rfl
            omega
          simp only [Bool.false_eq_true, if_false, beq_eq_false_iff_ne.mpr this, Bool.toNat_false]
          omega

end Loops

/-! ## The whole PDU -/

theorem missingRanges_size_le (cfg : AmConfig) (m : Missing) (maxsize : ℤ) (fuel snCount : ℕ)
    (snStart : ℤ) (rangeCount size : ℕ) :
    size ≤ (missingRanges cfg m maxsize fuel snCount snStart rangeCount size).2.1 := by
  induction fuel generalizing snCount snStart rangeCount size with
  | zero => exact le_rfl
  | succ fuel ih =>
      cases snCount with
      | zero => exact le_rfl
      | succ snCount =>
          rw [missingRanges]
          split
          · exact le_rfl
          · exact (Nat.le_add_right _ _).trans (ih _ _ _ _)

/-- There is a STATUS PDU as soon as there is room for its first bytes. -/
theorem statusSize_eq_zero (cfg : AmConfig) (rx : AmRx) (maxsize : ℤ) :
    statusSize cfg rx maxsize = 0 ↔ maxsize < 3 := by
  have hgrow : ∀ (fuel : ℕ) (s : SizeLoop),
      s.size ≤ (iterate (sizePass cfg rx maxsize) fuel s).size := by
    intro fuel
    induction fuel with
    | zero => exact fun _ => le_rfl
    | succ fuel ih =>
        intro s
        cases hs : sizePass cfg rx maxsize s with
        | none => rw [iterate_of_none hs]
        | some s' =>
            rw [iterate_of_some hs]
            refine le_trans ?_ (ih s')
            unfold sizePass at hs
            split at hs
            · cases hs
            · obtain ⟨m, -, rfl⟩ := Option.map_eq_some_iff.mp hs
              exact missingRanges_size_le cfg m maxsize _ _ _ _ _
  unfold statusSize
  split
  · rename_i hshort
    exact iff_of_true rfl hshort
  · rename_i hshort
    have := hgrow (rx.rxList.length + 1) { cur := rx.rxList, nackCount := 0, size := 3 }
    refine iff_of_false ?_ hshort
    simp only at this
    omega

@[simp] theorem putAckSn_length (cfg : AmConfig) (ackSn : ℕ) (buffer : List UInt8) :
    (putAckSn cfg ackSn buffer).length = buffer.length := by
  unfold putAckSn
  split <;> simp

/-- `status_size` is the length of the STATUS PDU. -/
theorem statusPdu_size (cfg : AmConfig) (rx : AmRx) {buffer : List UInt8} {maxsize : ℤ}
    (hsize : buffer.length = maxsize.toNat) :
    ∃ pdu, statusPdu cfg rx buffer = .ok pdu ∧ pdu.length = statusSize cfg rx maxsize ∧
      pdu.length ≤ buffer.length := by
  unfold statusPdu statusSize
  by_cases hshort : maxsize < 3
  · rw [if_pos (by omega), if_pos hshort]
    exact ⟨[], rfl, rfl, Nat.zero_le _⟩
  · rw [if_neg (by omega), if_neg hshort]
    obtain ⟨e, he, -, hw', hl, hp⟩ := @Encoder.putBits_room (encoderInit buffer) 0 24
      (encoderInit_wf buffer) (by simp only [encoderInit]; omega)
    simp only [encoderInit] at hl hp
    have ha : e.Aligned := by
      have := hw'.1
      exact ⟨by omega, by omega⟩
    have hbyte : e.byte = 3 := by
      have := ha.bit
      omega
    have hloop := iterate_rel
      (fun x s => @same_pass cfg rx maxsize x s buffer.length (by omega))
      (rx.rxList.length + 1)
      (.ok
        { cur := rx.rxList
          checkHead := true
          lastNack := (rx.rxNext - 1 + cfg.snModulus) % cfg.snModulus
          st := ⟨e, 2, if cfg.snFieldLength = 18 then 1 else 7, none⟩ })
      { cur := rx.rxList, nackCount := 0, size := 3 }
      ⟨_, rfl, rfl, fun _ => rfl, ha, hl, hbyte⟩
    obtain ⟨g, hg, -, -, hga, hgl, hgb⟩ := hloop
    rw [he]
    simp only [Bind.bind, Except.bind, generateNacks_eq cfg rx (rx.rxList.length + 1)
      { cur := rx.rxList
        checkHead := true
        lastNack := (rx.rxNext - 1 + cfg.snModulus) % cfg.snModulus
        st := ⟨e, 2, if cfg.snFieldLength = 18 then 1 else 7, none⟩ }, hg, Except.map]
    have hlen : ∀ ackSn : ℕ, ((putAckSn cfg ackSn g.st.encoder.buffer).take
        g.st.encoder.byte).length = g.st.encoder.byte := fun ackSn => by
      rw [List.length_take, putAckSn_length, Nat.min_eq_left hga.le]
    refine ⟨_, rfl, (hlen _).trans hgb, ?_⟩
    rw [hlen, ← hgl]
    exact hga.le

theorem generateStatus_size (cfg : AmConfig) (tCurrent : ℕ) (rx : AmRx) {buffer : List UInt8}
    {maxsize : ℤ} (hsize : buffer.length = maxsize.toNat) :
    ∃ rx' pdu, generateStatus cfg tCurrent rx buffer = .ok (rx', pdu) ∧
      pdu.length = statusSize cfg rx maxsize ∧ pdu.length ≤ buffer.length := by
  obtain ⟨pdu, hpdu, hlen⟩ := statusPdu_size cfg rx hsize
  unfold generateStatus
  simp only [hpdu, Bind.bind, Except.bind]
  split
  · rename_i hempty
    rw [List.isEmpty_iff] at hempty
    subst hempty
    exact ⟨_, _, rfl, hlen⟩
  · exact ⟨_, _, rfl, hlen⟩

/-- The buffer status predicts the STATUS PDU: the number reported for the STATUS, whenever one is
to be reported, and `status_size` in any case is the length of the PDU that `generate_status`
writes into a buffer of that size. The loops over `next_missing` end, within the passes that the
model gives them. -/
theorem buffer_status_predicts (e : AmEntity) {buffer : List UInt8} {maxsize : ℤ}
    (hsize : buffer.length = maxsize.toNat) :
    (∃ rx pdu, generateStatus e.cfg e.tCurrent e.rx buffer = .ok (rx, pdu) ∧
      statusSize e.cfg e.rx maxsize = pdu.length ∧
      (amBufferStatus e maxsize).statusSize =
        if statusToReport e.cfg e.tCurrent e.rx then pdu.length else 0) ∧
    (∀ s : NacksLoop, s.cur = e.rx.rxList →
      Ends (nacksPass e.cfg e.rx) (.ok s)
        (iterate (nacksPass e.cfg e.rx) (e.rx.rxList.length + 1) (.ok s))) ∧
    (∀ s : SizeLoop, s.cur = e.rx.rxList →
      Ends (sizePass e.cfg e.rx maxsize) s
        (iterate (sizePass e.cfg e.rx maxsize) (e.rx.rxList.length + 1) s)) := by
  refine ⟨?_, ?_, ?_⟩
  · obtain ⟨rx, pdu, hpdu, hlen, -⟩ := generateStatus_size e.cfg e.tCurrent e.rx hsize
    refine ⟨rx, pdu, hpdu, hlen.symm, ?_⟩
    rw [hlen]
    rfl
  · intro s hs
    apply ends_nacks
    rw [NacksLoop.measure, hs]
    cases s.checkHead <;> simp
  · intro s hs
    apply ends_size
    rw [SizeLoop.measure, hs]
    cases s.nackCount <;> simp

/-- A receiver that has a gap from SN 0 to SN 2, and SN 3. -/
def gapEntity (triggered : Bool) : AmEntity :=
  let e := newAmEntity testConfig
  { e with
    tCurrent := 5
    rx := { e.rx with
      rxList := [{ sn := 3, size := 1, so := 0, isFirst := true, isLast := true, data := some [7] }]
      rxNextHighest := 4
      rxHighestStatus := 4
      statusTriggered := triggered } }

theorem buffer_status_predicts_gap :
    ∃ rx pdu, generateStatus testConfig 5 (gapEntity true).rx (List.replicate 8 0) = .ok (rx, pdu) ∧
      (amBufferStatus (gapEntity true) 8).statusSize = pdu.length ∧ 3 < pdu.length := by
  obtain ⟨rx, pdu, h, hs, hb⟩ :=
    (@buffer_status_predicts (gapEntity true) (List.replicate 8 0) 8 (by decide)).1
  refine ⟨rx, pdu, h, hb, ?_⟩
  rw [← hs]
  decide

/-- Without a trigger nothing is reported, but `generate_status` writes a PDU all the same. -/
theorem buffer_status_without_trigger :
    (amBufferStatus (gapEntity false) 8).statusSize = 0 ∧
      ∃ rx pdu, generateStatus testConfig 5 (gapEntity false).rx (List.replicate 8 0) =
        .ok (rx, pdu) ∧ pdu.length = 6 := by
  refine ⟨by decide, ?_⟩
  obtain ⟨rx, pdu, h, hs, -⟩ := generateStatus_size testConfig 5 (gapEntity false).rx
    (by decide : (List.replicate 8 (0 : UInt8)).length = (8 : ℤ).toNat)
  exact ⟨rx, pdu, h, hs.trans (by decide)⟩

end OaiCu.NrRlc
